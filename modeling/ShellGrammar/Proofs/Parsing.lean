import ShellGrammar.Proofs.Grammar.Arrangement
import ShellGrammar.Proofs.Lexing.Feeding
import ShellGrammar.Proofs.Lexing.Partition
import ShellGrammar.Proofs.RoundTrip

/-!
Parsing whole texts. A text has a line or a syntax error and nothing else can go wrong with it, save
that the limit may not be positive; the empty line is the line of the texts that hold nothing but
blanks and line continuations. Writing the line of a text leaves the lexemes of the text as they
are, but for the redirections, which come behind the words of their commands.
-/
namespace ShellGrammar.Line
open Lexing

theorem yields_of_parse {text : String} {d : Int} {l : Line} (h : parse text d = .ok l) :
    l.Yields (tokenize text) :=
  yields_of_ofTokens (tokenize_wellSpelled text) h

theorem parse_eq_empty_iff {text : String} {d : Int} (hd : 1 ≤ d) :
    parse text d = .ok .empty ↔ Gap text.toList := by
  have hnil : tokenize text = [] ↔ Gap text.toList := by rw [tokenize_eq_lexing, tokens_eq_nil_iff]
  rw [← hnil]
  refine ⟨yields_of_parse, fun h => ?_⟩
  rw [parse, h]
  exact ofTokens_nil hd

/-- Under a limit that is not positive nothing is parsed; otherwise, or with the usual limit, every
text has a line or a syntax error, and no fault of the scanner stays behind them. The line is empty
for gaps only. -/
theorem parse_ok_or_rejected (text : String) (limit : Option Int) :
    (Scanner.new.feed text.toList).fault = none ∧ (Scanner.new.scan text.toList).fault = none ∧
      let result := parse text (limit.getD Cursor.defaultMaxDepth)
      ((∃ d, limit = some d ∧ d < 1) → result = .error .nestingLimit) ∧
        ((∀ d, limit = some d → 1 ≤ d) →
          ((∃ l, result = .ok l) ∨ ∃ e, result = .error (.rejected e)) ∧
            (result = .ok .empty ↔ Gap text.toList)) := by
  refine ⟨Scanner.fault_feed_new _, Scanner.fault_scan_new _, ?_, ?_⟩
  · rintro ⟨d, rfl, hd⟩
    exact ofTokens_nestingLimit hd
  · intro h
    have hd : 1 ≤ limit.getD Cursor.defaultMaxDepth := by
      cases limit with
      | none => decide
      | some d => exact h d rfl
    refine ⟨?_, parse_eq_empty_iff hd⟩
    cases ofTokens_ok_or_rejected (tokenize_wellSpelled text) hd (some text.length) with
    | inl hread =>
        obtain ⟨l, hl, _⟩ := hread
        exact .inl ⟨l, hl⟩
    | inr hrejected => exact .inr hrejected

/-- A void limit, the usual one, and a text without tokens. -/
theorem parse_ok_or_rejected_continued :
    parse "(" 0 = .error .nestingLimit ∧
      ((∃ l, parse "(" 128 = .ok l) ∨ ∃ e, parse "(" 128 = .error (.rejected e)) ∧
      parse " \\\n\t" 1 = .ok .empty :=
  ⟨(parse_ok_or_rejected "(" (some 0)).2.2.1 ⟨0, rfl, by decide⟩,
    ((parse_ok_or_rejected "(" none).2.2.2 (fun d hd => by cases hd)).1,
    ((parse_ok_or_rejected " \\\n\t" (some 1)).2.2.2 (fun d hd => by cases hd; decide)).2.mpr
      (.blank (by decide) (.continuation (.blank (by decide) .nil)))⟩

/-- The written line has the lexemes of the text in their order, with the redirections of each
command behind its words. -/
theorem lexemes_write_of_parse {text : String} {d : Int} {body : AndOr}
    (h : parse text d = .ok (.sequence body)) :
    (tokenize (Node.sequence body).write).map Token.lexeme =
        Lexeme.arrange ((tokenize text).map Token.lexeme) ∧
      (Lexeme.arrange ((tokenize text).map Token.lexeme)).Perm
        ((tokenize text).map Token.lexeme) := by
  have hyields : body.Yields (tokenize text) := yields_of_parse h
  refine ⟨?_, Lexeme.arrange_perm _⟩
  rw [AndOr.arrange_of_yields hyields (tokenize_wellSpelled text)]
  exact body.lexemes_tokenize_write

theorem lexemes_write_of_parse_redirected :
    let body : AndOr := .chain
      (.single (.command (.simple ⟨⟨"a"⟩, [⟨"c"⟩]⟩ [⟨.output, ⟨"b"⟩⟩, ⟨.append, ⟨"&"⟩⟩]))) .and
      (.single (.single (.subshell (.single (.single (.command
        (.simple ⟨⟨"e f"⟩, []⟩ [⟨.input, ⟨"d"⟩⟩])))))))
    parse "a >b c>>& && (<d 'e f')" 1 = .ok (.sequence body) ∧
      (tokenize (Node.sequence body).write).map Token.lexeme =
        [(.word, "a"), (.word, "c"), (.redirOut, ">"), (.word, "b"), (.redirAppend, ">>"),
          (.word, "&"), (.andAnd, "&&"), (.lparen, "("), (.word, "e f"), (.redirIn, "<"),
          (.word, "d"), (.rparen, ")")] := by
  intro body
  have hparse : parse "a >b c>>& && (<d 'e f')" 1 = .ok (.sequence body) := by
    with_unfolding_all rfl
  refine ⟨hparse, (lexemes_write_of_parse hparse).1.trans ?_⟩
  decide +kernel

end ShellGrammar.Line
