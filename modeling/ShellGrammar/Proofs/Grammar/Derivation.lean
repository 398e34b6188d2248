import ShellGrammar.Tree.Node

/-!
The grammar of command lines as a relation between trees and tokens, one relation for each level:

    andOr    := pipeline (("&&" | "||") pipeline)*
    pipeline := stage ("|" stage)*
    stage    := subshell | command
    subshell := "(" andOr ")"
    command  := (word | redirection)+
    redirection := ("<" | ">" | ">>" | "<<") word

A tree yields a list of tokens if the grammar derives the tree from the whole of the list. The
relations look at the kinds of the tokens and at the texts of words; they know nothing of readers
or of a limit on nesting.
-/
namespace ShellGrammar

inductive Redirection.Yields : Redirection → List Token → Prop
  | intro {op target : Token} {o : RedirectOp} :
      op.kind = o.kind → target.kind = .word → Yields ⟨o, ⟨target.text⟩⟩ [op, target]

namespace Command

def words (c : Command) : List Word := c.simple?.elim [] SimpleCommand.words

/-- Words and redirections in any order, each collected in their own order. -/
inductive Parts : List Word → List Redirection → List Token → Prop
  | nil : Parts [] [] []
  | word {t : Token} {ws : List Word} {rs : List Redirection} {ts : List Token} :
      t.kind = .word → Parts ws rs ts → Parts (⟨t.text⟩ :: ws) rs (t :: ts)
  | redirection {r : Redirection} {us : List Token} {ws : List Word} {rs : List Redirection}
      {ts : List Token} : r.Yields us → Parts ws rs ts → Parts ws (r :: rs) (us ++ ts)

/-- No command is without parts, so at least one token is spent on them. -/
def Yields (c : Command) (ts : List Token) : Prop := Parts c.words c.redirections ts

theorem Parts.append {ws us : List Word} {rs qs : List Redirection} {ts vs : List Token}
    (h : Parts ws rs ts) (k : Parts us qs vs) : Parts (ws ++ us) (rs ++ qs) (ts ++ vs) := by
  induction h with
  | nil => exact k
  | word ht _ ih => exact .word ht ih
  | redirection hr _ ih =>
      rw [List.append_assoc]
      exact .redirection hr ih

theorem Parts.ne_nil {ws : List Word} {rs : List Redirection} {ts : List Token}
    (h : Parts ws rs ts) (hp : ws ≠ [] ∨ rs ≠ []) : ts ≠ [] := by
  cases h with
  | nil => simp at hp
  | word => simp
  | redirection hr _ =>
      cases hr
      simp

theorem Yields.ne_nil {c : Command} {ts : List Token} (h : c.Yields ts) : ts ≠ [] := by
  apply Parts.ne_nil h
  cases c with
  | simple s rs => exact .inl (List.cons_ne_nil _ _)
  | bare r rs => exact .inr (List.cons_ne_nil _ _)

end Command

mutual

inductive Stage.Yields : Stage → List Token → Prop
  | command {c : Command} {ts : List Token} : c.Yields ts → Stage.Yields (.command c) ts
  | subshell {body : AndOr} {left right : Token} {ts : List Token} :
      left.kind = .lparen → AndOr.Yields body ts → right.kind = .rparen →
        Stage.Yields (.subshell body) (left :: (ts ++ [right]))

inductive Pipeline.Yields : Pipeline → List Token → Prop
  | single {s : Stage} {ts : List Token} : Stage.Yields s ts → Pipeline.Yields (.single s) ts
  | pipe {s : Stage} {rest : Pipeline} {bar : Token} {ts us : List Token} :
      Stage.Yields s ts → bar.kind = .pipe → Pipeline.Yields rest us →
        Pipeline.Yields (.pipe s rest) (ts ++ bar :: us)

inductive AndOr.Yields : AndOr → List Token → Prop
  | single {p : Pipeline} {ts : List Token} : Pipeline.Yields p ts → AndOr.Yields (.single p) ts
  | chain {p : Pipeline} {op : LogicalOp} {rest : AndOr} {t : Token} {ts us : List Token} :
      Pipeline.Yields p ts → t.kind = op.kind → AndOr.Yields rest us →
        AndOr.Yields (.chain p op rest) (ts ++ t :: us)

end

namespace Pipeline

/-- A stage at the end of a pipeline. -/
theorem Yields.snoc {first s : Stage} {others : List Stage} {ts us : List Token} {bar : Token}
    (h : (ofStages first others).Yields ts) (hb : bar.kind = .pipe) (hs : s.Yields us) :
    (ofStages first (others ++ [s])).Yields (ts ++ bar :: us) := by
  induction others generalizing first ts with
  | nil =>
      cases h with
      | single hf => exact .pipe hf hb (.single hs)
  | cons o others ih =>
      cases h with
      | pipe hf hbar hrest =>
          rw [List.append_assoc]
          exact .pipe hf hbar (ih hrest)

end Pipeline

namespace AndOr

theorem Yields.snoc {first p : Pipeline} {others : List (LogicalOp × Pipeline)}
    {op : LogicalOp} {ts us : List Token} {t : Token}
    (h : (ofOperands first others).Yields ts) (ht : t.kind = op.kind) (hp : p.Yields us) :
    (ofOperands first (others ++ [(op, p)])).Yields (ts ++ t :: us) := by
  induction others generalizing first ts with
  | nil =>
      cases h with
      | single hf => exact .chain hf ht (.single hp)
  | cons o others ih =>
      cases h with
      | chain hf hop hrest =>
          rw [List.append_assoc]
          exact .chain hf hop (ih hrest)

end AndOr

/-- The empty line alone yields no tokens. -/
def Line.Yields : Line → List Token → Prop
  | empty, ts => ts = []
  | sequence body, ts => body.Yields ts

end ShellGrammar
