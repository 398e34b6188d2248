import ShellGrammar.Proofs.Grammar.Lexemes
import ShellGrammar.Proofs.Tree.Operators
import ShellGrammar.Reader.Line

/-!
Words before redirections. The lexemes of a line are arranged by moving, in each maximal run of
words and redirections, every redirection with its target behind the other words of the run; words
and redirections keep their own order, and nothing is lost or added. Tokens that yield a tree are
arranged into the lexemes of the tree, since the runs among them are its commands.
-/
namespace ShellGrammar

/-- A kind and a text. -/
abbrev Lexeme := Token.Kind × String

namespace Lexeme

/-- Belongs to a command: a word or the operator of a redirection. -/
def isPart (l : Lexeme) : Bool := Reader.partKinds.contains l.1

/-- The words of a run, and apart from them its redirections, each operator with what follows it. -/
def separate : List Lexeme → List Lexeme × List Lexeme
  | l :: target :: ls =>
    if l.1 ∈ Token.Kind.redirections then
      let (words, redirections) := separate ls
      (words, l :: target :: redirections)
    else
      let (words, redirections) := separate (target :: ls)
      (l :: words, redirections)
  | ls => (ls, [])

def wordsFirst (run : List Lexeme) : List Lexeme := (separate run).1 ++ (separate run).2

/-- The arrangement behind `run`, which is what has been read of the present run. -/
def arrangeFrom (run : List Lexeme) : List Lexeme → List Lexeme
  | [] => wordsFirst run
  | l :: ls =>
    if l.isPart then arrangeFrom (run ++ [l]) ls else wordsFirst run ++ l :: arrangeFrom [] ls

/-- Words before redirections in each maximal run of them. -/
def arrange (ls : List Lexeme) : List Lexeme := arrangeFrom [] ls

variable {l : Lexeme} {ls rest : List Lexeme}

theorem wordsFirst_perm (run : List Lexeme) : (wordsFirst run).Perm run := by
  rw [wordsFirst]
  fun_induction separate run with
  | case1 l target ls h words redirections hr ih =>
      simp only [hr] at ih
      calc
        (words ++ l :: target :: redirections).Perm (l :: (words ++ target :: redirections)) :=
          List.perm_middle
        List.Perm _ (l :: target :: (words ++ redirections)) := .cons l List.perm_middle
        List.Perm _ (l :: target :: ls) := .cons l (.cons target ih)
  | case2 l target ls h words redirections hr ih =>
      simp only [hr] at ih
      exact .cons l ih
  | case3 ls => rw [List.append_nil]

theorem arrangeFrom_perm (run ls : List Lexeme) : (arrangeFrom run ls).Perm (run ++ ls) := by
  induction ls generalizing run with
  | nil =>
      rw [List.append_nil]
      exact wordsFirst_perm run
  | cons l ls ih =>
      rw [arrangeFrom]
      split
      · have h := ih (run ++ [l])
        rwa [List.append_assoc] at h
      · exact (wordsFirst_perm run).append (.cons l (ih []))

/-- Nothing is lost or added. -/
theorem arrange_perm (ls : List Lexeme) : (arrange ls).Perm ls := arrangeFrom_perm [] ls

theorem separate_word (h : l.1 ∉ Token.Kind.redirections) :
    separate (l :: ls) = (l :: (separate ls).1, (separate ls).2) := by
  cases ls with
  | nil => rfl
  | cons target ls => rw [separate, if_neg h]

theorem separate_redirection {target : Lexeme} (h : l.1 ∈ Token.Kind.redirections) :
    separate (l :: target :: ls) = ((separate ls).1, l :: target :: (separate ls).2) := by
  rw [separate, if_pos h]

/-- No run goes on in the lexemes. -/
def Breaks (ls : List Lexeme) : Prop := ∀ l ∈ ls.head?, isPart l = false

theorem arrangeFrom_breaks (h : Breaks rest) (run : List Lexeme) :
    arrangeFrom run rest = wordsFirst run ++ arrange rest := by
  cases rest with
  | nil =>
      rw [arrangeFrom, arrange, arrangeFrom]
      exact (List.append_nil _).symm
  | cons l rest =>
      have hl : l.isPart = false := h l rfl
      simp only [arrange, arrangeFrom, hl]
      rfl

theorem arrangeFrom_append (h : ∀ l ∈ ls, isPart l = true) (run : List Lexeme) :
    arrangeFrom run (ls ++ rest) = arrangeFrom (run ++ ls) rest := by
  induction ls generalizing run with
  | nil => rw [List.append_nil, List.nil_append]
  | cons l ls ih =>
      obtain ⟨hl, hls⟩ := List.forall_mem_cons.mp h
      rw [List.cons_append, arrangeFrom, if_pos hl, ih hls, List.append_assoc]
      rfl

/-- A whole run. -/
theorem arrange_run (h : ∀ l ∈ ls, isPart l = true) (hrest : Breaks rest) :
    arrange (ls ++ rest) = wordsFirst ls ++ arrange rest := by
  rw [arrange, arrangeFrom_append h, arrangeFrom_breaks hrest]
  rfl

theorem arrange_cons (h : l.isPart = false) : arrange (l :: ls) = l :: arrange ls := by
  rw [arrange, arrangeFrom, h]
  rfl

theorem breaks_nil : Breaks [] := fun l hl => by cases hl

theorem breaks_cons (h : l.isPart = false) : Breaks (l :: ls) := by
  rintro k ⟨⟩
  exact h

end Lexeme

open Lexeme
variable {ts : List Token} {rest : List Lexeme}

theorem Token.lexeme_of_kind {t : Token} {k : Kind} {text : String} (hs : t.WellSpelled)
    (hk : t.kind = k) (htext : k.spelling? = some text) : t.lexeme = (k, text) := by
  rw [lexeme, hk, hs text (hk ▸ htext)]

theorem Token.isPart_lexeme (t : Token) :
    isPart t.lexeme = Reader.partKinds.contains t.kind := rfl

namespace Command

theorem Parts.forall_isPart {ws : List Word} {rs : List Redirection} (h : Parts ws rs ts) :
    ∀ l ∈ ts.map Token.lexeme, isPart l = true := by
  induction h with
  | nil => exact fun l hl => absurd hl List.not_mem_nil
  | word hk _ ih =>
      refine List.forall_mem_cons.mpr ⟨?_, ih⟩
      rw [Token.isPart_lexeme, hk]
      rfl
  | redirection hr _ ih =>
      cases hr with
      | @intro op target o ho hk =>
          have hop : isPart op.lexeme = true := by
            rw [Token.isPart_lexeme, ho]
            cases o <;> rfl
          have htarget : isPart target.lexeme = true := by
            rw [Token.isPart_lexeme, hk]
            rfl
          exact List.forall_mem_cons.mpr ⟨hop, List.forall_mem_cons.mpr ⟨htarget, ih⟩⟩

/-- The words and the redirections of a command are what its tokens are separated into. -/
theorem Parts.separate_lexemes {ws : List Word} {rs : List Redirection} (h : Parts ws rs ts)
    (hs : ∀ t ∈ ts, t.WellSpelled) :
    separate (ts.map Token.lexeme) = (ws.map Word.lexeme, rs.flatMap Redirection.lexemes) := by
  induction h with
  | nil => rfl
  | @word t ws rs ts hk _ ih =>
      obtain ⟨_, hs⟩ := List.forall_mem_cons.mp hs
      have ht : t.lexeme.1 ∉ Token.Kind.redirections := by
        change t.kind ∉ _
        rw [hk]
        decide
      rw [List.map_cons, separate_word ht, ih hs, Token.lexeme, hk]
      rfl
  | @redirection r us ws rs ts hr _ ih =>
      obtain ⟨hs₁, hs₂⟩ := List.forall_mem_append.mp hs
      cases hr with
      | @intro op target o ho hk =>
          have hop : op.lexeme = (o.kind, o.text) :=
            Token.lexeme_of_kind (hs₁ op List.mem_cons_self) ho o.spelling?_kind
          have hmem : op.lexeme.1 ∈ Token.Kind.redirections := by
            rw [hop]
            exact o.kind_mem
          rw [List.map_append, List.map_cons, List.map_cons, List.map_nil, List.cons_append,
            List.singleton_append, separate_redirection hmem, ih hs₂, hop, Token.lexeme, hk]
          rfl

theorem Yields.arrange {c : Command} (h : c.Yields ts) (hs : ∀ t ∈ ts, t.WellSpelled)
    (hrest : Breaks rest) :
    Lexeme.arrange (ts.map Token.lexeme ++ rest) = c.lexemes ++ Lexeme.arrange rest := by
  rw [arrange_run (Parts.forall_isPart h) hrest, wordsFirst, Parts.separate_lexemes h hs]
  rfl

end Command

mutual

theorem Stage.Yields.arrange : ∀ (s : Stage) {ts : List Token} {rest : List Lexeme}, s.Yields ts →
    (∀ t ∈ ts, t.WellSpelled) → Breaks rest →
      Lexeme.arrange (ts.map Token.lexeme ++ rest) = s.lexemes ++ Lexeme.arrange rest
  | .command c, ts, rest, h, hs, hrest => by
      cases h with
      | command h => exact h.arrange hs hrest
  | .subshell body, ts, rest, h, hs, hrest => by
      cases h with
      | @subshell _ left right ts hl hbody hr =>
          obtain ⟨hsleft, hs⟩ := List.forall_mem_cons.mp hs
          obtain ⟨hsbody, hs⟩ := List.forall_mem_append.mp hs
          have hleft : left.lexeme = (.lparen, "(") := Token.lexeme_of_kind hsleft hl rfl
          have hright : right.lexeme = (.rparen, ")") :=
            Token.lexeme_of_kind (hs right List.mem_cons_self) hr rfl
          rw [List.map_cons, List.map_append, List.map_cons, List.map_nil, hleft, hright,
            List.cons_append, List.append_assoc, arrange_cons rfl, List.singleton_append,
            AndOr.Yields.arrange body hbody hsbody (breaks_cons rfl), arrange_cons rfl,
            Stage.lexemes]
          simp

theorem Pipeline.Yields.arrange : ∀ (p : Pipeline) {ts : List Token} {rest : List Lexeme},
    p.Yields ts → (∀ t ∈ ts, t.WellSpelled) → Breaks rest →
      Lexeme.arrange (ts.map Token.lexeme ++ rest) = p.lexemes ++ Lexeme.arrange rest
  | .single s, ts, rest, h, hs, hrest => by
      cases h with
      | single h => exact Stage.Yields.arrange s h hs hrest
  | .pipe s p, _, rest, h, hs, hrest => by
      cases h with
      | @pipe _ _ bar ts us h hb hp =>
          obtain ⟨hsfirst, hs⟩ := List.forall_mem_append.mp hs
          obtain ⟨hsbar, hs⟩ := List.forall_mem_cons.mp hs
          have hbar : bar.lexeme = (.pipe, "|") := Token.lexeme_of_kind hsbar hb rfl
          rw [List.map_append, List.map_cons, hbar, List.append_assoc, List.cons_append,
            Stage.Yields.arrange s h hsfirst (breaks_cons rfl), arrange_cons rfl,
            Pipeline.Yields.arrange p hp hs hrest, Pipeline.lexemes]
          simp

theorem AndOr.Yields.arrange : ∀ (a : AndOr) {ts : List Token} {rest : List Lexeme}, a.Yields ts →
    (∀ t ∈ ts, t.WellSpelled) → Breaks rest →
      Lexeme.arrange (ts.map Token.lexeme ++ rest) = a.lexemes ++ Lexeme.arrange rest
  | .single p, ts, rest, h, hs, hrest => by
      cases h with
      | single h => exact Pipeline.Yields.arrange p h hs hrest
  | .chain p op a, _, rest, h, hs, hrest => by
      cases h with
      | @chain _ _ _ t ts us h hk ha =>
          obtain ⟨hsfirst, hs⟩ := List.forall_mem_append.mp hs
          obtain ⟨hsop, hs⟩ := List.forall_mem_cons.mp hs
          have ht : t.lexeme = (op.kind, op.text) :=
            Token.lexeme_of_kind hsop hk op.spelling?_kind
          have hpart : isPart (op.kind, op.text) = false := by cases op <;> rfl
          rw [List.map_append, List.map_cons, ht, List.append_assoc, List.cons_append,
            Pipeline.Yields.arrange p h hsfirst (breaks_cons hpart), arrange_cons hpart,
            AndOr.Yields.arrange a ha hs hrest, AndOr.lexemes]
          simp

end

/-- The tokens of a tree are arranged into its lexemes. -/
theorem AndOr.arrange_of_yields {a : AndOr} (h : a.Yields ts) (hs : ∀ t ∈ ts, t.WellSpelled) :
    arrange (ts.map Token.lexeme) = a.lexemes := by
  have harrange := AndOr.Yields.arrange a h hs breaks_nil
  rwa [List.append_nil, show arrange [] = [] from rfl, List.append_nil] at harrange

end ShellGrammar
