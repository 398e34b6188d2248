import ShellGrammar.Proofs.Grammar.Derivation
import ShellGrammar.Proofs.Lexing.Separation

/-!
The lexemes of a tree, in the order in which the tree is written: in a command the words come
first and the redirections after them, each in their own order. Tokens with these lexemes yield
the tree, wherever they stand.
-/
namespace ShellGrammar

def Word.lexeme (w : Word) : Token.Kind × String := (.word, w.text)

def Redirection.lexemes (r : Redirection) : List (Token.Kind × String) :=
  [(r.op.kind, r.op.text), r.target.lexeme]

def Command.lexemes (c : Command) : List (Token.Kind × String) :=
  c.words.map Word.lexeme ++ c.redirections.flatMap Redirection.lexemes

mutual

def Stage.lexemes : Stage → List (Token.Kind × String)
  | .command c => c.lexemes
  | .subshell body => (.lparen, "(") :: (body.lexemes ++ [(.rparen, ")")])

def Pipeline.lexemes : Pipeline → List (Token.Kind × String)
  | .single s => s.lexemes
  | .pipe s rest => s.lexemes ++ (.pipe, "|") :: rest.lexemes

def AndOr.lexemes : AndOr → List (Token.Kind × String)
  | .single p => p.lexemes
  | .chain p op rest => p.lexemes ++ (op.kind, op.text) :: rest.lexemes

end

variable {ts : List Token}

theorem Token.kind_of_lexeme {t : Token} {k : Kind} {text : String} (h : t.lexeme = (k, text)) :
    t.kind = k ∧ t.text = text :=
  Prod.mk.inj h

theorem Redirection.yields_of_lexemes {r : Redirection} (h : ts.map Token.lexeme = r.lexemes) :
    r.Yields ts := by
  obtain ⟨op, us, rfl, hop, hus⟩ := List.map_eq_cons_iff.mp h
  obtain ⟨target, vs, rfl, htarget, hvs⟩ := List.map_eq_cons_iff.mp hus
  obtain ⟨hkind, htext⟩ := Token.kind_of_lexeme htarget
  cases List.map_eq_nil_iff.mp hvs
  have hr : r = ⟨r.op, ⟨target.text⟩⟩ := by rw [htext]
  rw [hr]
  exact .intro (Token.kind_of_lexeme hop).1 hkind

namespace Command

theorem Parts.of_redirections : ∀ {rs : List Redirection} {ts : List Token},
    ts.map Token.lexeme = rs.flatMap Redirection.lexemes → Parts [] rs ts
  | [], ts, h => by
      cases List.map_eq_nil_iff.mp h
      exact .nil
  | r :: rs, ts, h => by
      obtain ⟨us, vs, rfl, hr, hrs⟩ := List.map_eq_append_iff.mp h
      exact .redirection (Redirection.yields_of_lexemes hr) (of_redirections hrs)

theorem Parts.of_lexemes {rs : List Redirection} : ∀ {ws : List Word} {ts : List Token},
    ts.map Token.lexeme = ws.map Word.lexeme ++ rs.flatMap Redirection.lexemes → Parts ws rs ts
  | [], ts, h => of_redirections h
  | w :: ws, ts, h => by
      obtain ⟨t, us, rfl, ht, hus⟩ := List.map_eq_cons_iff.mp h
      obtain ⟨hkind, htext⟩ := Token.kind_of_lexeme ht
      have hw : w = ⟨t.text⟩ := by rw [htext]
      rw [hw]
      exact .word hkind (of_lexemes hus)

end Command

mutual

theorem Stage.yields_of_lexemes : ∀ (s : Stage) {ts : List Token},
    ts.map Token.lexeme = s.lexemes → s.Yields ts
  | .command c, ts, h => .command (Command.Parts.of_lexemes h)
  | .subshell body, ts, h => by
      obtain ⟨left, us, rfl, hleft, hus⟩ := List.map_eq_cons_iff.mp h
      obtain ⟨vs, ws, rfl, hbody, hws⟩ := List.map_eq_append_iff.mp hus
      obtain ⟨right, xs, rfl, hright, hxs⟩ := List.map_eq_cons_iff.mp hws
      cases List.map_eq_nil_iff.mp hxs
      exact .subshell (Token.kind_of_lexeme hleft).1 (AndOr.yields_of_lexemes body hbody)
        (Token.kind_of_lexeme hright).1

theorem Pipeline.yields_of_lexemes : ∀ (p : Pipeline) {ts : List Token},
    ts.map Token.lexeme = p.lexemes → p.Yields ts
  | .single s, ts, h => .single (Stage.yields_of_lexemes s h)
  | .pipe s rest, ts, h => by
      obtain ⟨us, vs, rfl, hs, hvs⟩ := List.map_eq_append_iff.mp h
      obtain ⟨bar, ws, rfl, hbar, hws⟩ := List.map_eq_cons_iff.mp hvs
      exact .pipe (Stage.yields_of_lexemes s hs) (Token.kind_of_lexeme hbar).1
        (Pipeline.yields_of_lexemes rest hws)

theorem AndOr.yields_of_lexemes : ∀ (a : AndOr) {ts : List Token},
    ts.map Token.lexeme = a.lexemes → a.Yields ts
  | .single p, ts, h => .single (Pipeline.yields_of_lexemes p h)
  | .chain p op rest, ts, h => by
      obtain ⟨us, vs, rfl, hp, hvs⟩ := List.map_eq_append_iff.mp h
      obtain ⟨t, ws, rfl, ht, hws⟩ := List.map_eq_cons_iff.mp hvs
      exact .chain (Pipeline.yields_of_lexemes p hp) (Token.kind_of_lexeme ht).1
        (AndOr.yields_of_lexemes rest hws)

end
end ShellGrammar
