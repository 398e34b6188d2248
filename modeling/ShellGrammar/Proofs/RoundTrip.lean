import ShellGrammar.Proofs.Grammar.Lexemes
import ShellGrammar.Proofs.Lexing.Agreement
import ShellGrammar.Proofs.Lexing.Quoting
import ShellGrammar.Proofs.Reading.Outcome

/-!
What is written is read back. The text of a tree stands for the lexemes of the tree, so its tokens
yield the tree, and no other tree is read from them. If the limit on nesting is too low for the
tree, the line is refused for this and for no other reason.
-/
namespace ShellGrammar
open Lexing Progress

theorem Word.standsFor (w : Word) : StandsFor w.write.toList [w.lexeme] := by
  have h := standsFor_quote w.text.toList
  rwa [String.ofList_toList, ← toList_quoteWord] at h

theorem Redirection.standsFor (r : Redirection) : StandsFor r.write.toList r.lexemes := by
  have h : StandsFor (r.op.text.toList ++ ' ' :: r.target.write.toList)
      ((r.op.kind, String.ofList r.op.text.toList) :: [r.target.lexeme]) := by
    refine .symbol_append (fun rest => ?_) r.target.standsFor
    cases r.op <;> rfl
  rw [String.ofList_toList] at h
  rw [write, String.toList_append, String.toList_append, List.append_assoc]
  exact h

theorem SimpleCommand.standsFor (s : SimpleCommand) :
    StandsFor s.write.toList (s.words.map Word.lexeme) := by
  have h := StandsFor.intercalate (f := Word.write) (g := fun w => [w.lexeme])
    fun w (_ : w ∈ s.words) => w.standsFor
  rwa [← List.map_eq_flatMap] at h

theorem Command.standsFor (c : Command) : StandsFor c.write.toList c.lexemes := by
  have hrs (rs : List Redirection) :
      StandsFor (" ".intercalate (rs.map Redirection.write)).toList
        (rs.flatMap Redirection.lexemes) :=
    .intercalate fun r _ => r.standsFor
  cases c with
  | bare r rs => exact hrs (r :: rs)
  | simple s rs =>
      cases rs with
      | nil => simpa [write, lexemes, simple?, redirections, words] using s.standsFor
      | cons r rs =>
          have hwrite : (simple s (r :: rs)).write.toList = s.write.toList ++
              ' ' :: (" ".intercalate ((r :: rs).map Redirection.write)).toList := by
            simp [write, simple?, redirections]
          rw [hwrite]
          exact s.standsFor.blank_append (hrs (r :: rs))

mutual

theorem Stage.standsFor : ∀ s : Stage, StandsFor s.write.toList s.lexemes
  | .command c => c.standsFor
  | .subshell body => by
      have hwrite : (Stage.subshell body).write.toList = '(' :: (body.write.toList ++ [')']) := by
        simp [Stage.write]
      rw [hwrite]
      exact (AndOr.standsFor body).parenthesized

theorem Pipeline.standsFor : ∀ p : Pipeline, StandsFor p.write.toList p.lexemes
  | .single s => Stage.standsFor s
  | .pipe s rest => by
      have hwrite : (Pipeline.pipe s rest).write.toList =
          s.write.toList ++ ' ' :: (['|'] ++ ' ' :: rest.write.toList) := by
        simp [Pipeline.write]
      rw [hwrite]
      exact (Stage.standsFor s).blank_append
        (.symbol_append (fun _ => rfl) (Pipeline.standsFor rest))

theorem AndOr.standsFor : ∀ a : AndOr, StandsFor a.write.toList a.lexemes
  | .single p => Pipeline.standsFor p
  | .chain p op rest => by
      have hwrite : (AndOr.chain p op rest).write.toList =
          p.write.toList ++ ' ' :: (op.text.toList ++ ' ' :: rest.write.toList) := by
        simp [AndOr.write]
      have hop : StandsFor (op.text.toList ++ ' ' :: rest.write.toList)
          ((op.kind, String.ofList op.text.toList) :: rest.lexemes) :=
        .symbol_append (fun _ => by cases op <;> rfl) (AndOr.standsFor rest)
      rw [String.ofList_toList] at hop
      rw [hwrite]
      exact (Pipeline.standsFor p).blank_append hop

end

/-- The tokens of a written tree have the lexemes of the tree. -/
theorem AndOr.lexemes_tokenize_write (a : AndOr) :
    (tokenize a.write).map Token.lexeme = a.lexemes := by
  obtain ⟨ts, hts, hlexemes⟩ := a.standsFor 0 [] rfl
  rw [List.append_nil, tokens_nil, List.append_nil] at hts
  rw [tokenize_eq_lexing, hts, hlexemes]

namespace Line
variable {d : Int} {endPosition : Option Int}

/-- A tree that is nested too deep for the limit is refused for that, as a greater limit would let
the whole line pass. -/
theorem ofTokens_nestingTooDeep {body : AndOr} {ts : List Token} (h : body.Yields ts)
    (hs : ∀ t ∈ ts, t.WellSpelled) (hd : 1 ≤ d) (hn : d < body.nesting) :
    ∃ e, ofTokens ts d endPosition = .error (.rejected e) ∧ e.kind = .nestingTooDeep d := by
  cases ofTokens_outcome h.ne_nil hs hd endPosition with
  | inl hread =>
      obtain ⟨other, _, hother, hle, _⟩ := hread
      have hsame : Line.sequence other = .sequence body := Yields.unique hs hother h
      cases hsame
      omega
  | inr hrejected =>
      obtain ⟨e, taken, rest, f, he, hts, hlocates⟩ := hrejected
      refine ⟨e, he, ?_⟩
      obtain ⟨p, hp, hf⟩ := hlocates.refused
      have haccepts : Accepts body.nesting (taken ++ rest) :=
        hts ▸ Reader.accepts_of_yields h hs (Nat.le_refl _)
      have hlimit : d.toNat ≤ body.nesting := by omega
      have hreason : f = .nestingTooDeep := eq_nestingTooDeep_of_accepts hlimit haccepts hp hf
      obtain ⟨c, hc, _, hreport⟩ := hlocates.report
      rw [hreason, Cursor.report, hc, Int.toNat_of_nonneg (by omega)] at hreport
      exact (Prod.mk.inj hreport).1.symm

/-- A tree is read back from its text if no path down to a leaf meets more than `d` subshells; else
the text is refused for being nested too deep. -/
theorem parse_write (body : AndOr) (hd : 1 ≤ d) :
    ((∀ path, (Node.sequence body).Path path → path.countP Node.isSubshell ≤ d) →
        parse (Node.sequence body).write d = .ok (.sequence body)) ∧
      ((∃ path, (Node.sequence body).Path path ∧ d < path.countP Node.isSubshell) →
        ∃ e, parse (Node.sequence body).write d = .error (.rejected e) ∧
          e.kind = .nestingTooDeep d) ∧
      parse Node.empty.write d = .ok .empty := by
  have hs := tokenize_wellSpelled body.write
  have hyields : body.Yields (tokenize body.write) :=
    body.yields_of_lexemes body.lexemes_tokenize_write
  refine ⟨fun h => ?_, fun ⟨path, hpath, hdeep⟩ => ?_, ?_⟩
  · obtain ⟨path, hpath, hcount⟩ := Node.exists_path_countP (.sequence body)
    have hn := h path hpath
    rw [hcount] at hn
    exact ofTokens_of_yields hs hd hyields hn
  · have hle := Node.countP_path_le hpath
    simp only [Node.nesting] at hle
    exact ofTokens_nestingTooDeep hyields hs hd (by omega)
  · have htokens : tokenize Node.empty.write = [] :=
      (tokenize_eq_lexing _).trans (tokens_nil 0)
    rw [parse, htokens]
    exact ofTokens_nil hd

/-- A word with blanks, a quote and a backslash within two subshells, at either side of the
limit. -/
theorem parse_write_twice_nested :
    let inner : AndOr := .single (.single (.command (.simple ⟨⟨"it's \\ (\""⟩, [⟨""⟩]⟩ [])))
    let body : AndOr := .single (.single (.subshell (.single (.single (.subshell inner)))))
    parse (Node.sequence body).write 2 = .ok (.sequence body) ∧
      ∃ e, parse (Node.sequence body).write 1 = .error (.rejected e) ∧
        e.kind = .nestingTooDeep 1 := by
  intro inner body
  have hn : (Node.sequence body).nesting = 2 := by decide
  obtain ⟨path, hpath, hcount⟩ := Node.exists_path_countP (.sequence body)
  refine ⟨(parse_write body (by decide)).1 fun path hpath => ?_,
    (parse_write body (by decide)).2.1 ⟨path, hpath, by omega⟩⟩
  have hle := Node.countP_path_le hpath
  omega

end Line
end ShellGrammar
