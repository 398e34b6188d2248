import ShellGrammar.Proofs.Grammar.Arrangement
import ShellGrammar.Proofs.Lexing.Joining
import ShellGrammar.Proofs.Lexing.Quoting

/-!
Any sequence of lexemes can be written as a text that has these lexemes: words are quoted, operators
stand for themselves, and blanks come between. Each written lexeme is scanned as a token of its own
and is separable, so the places of the tokens are those of the pieces in the text.
-/
namespace ShellGrammar
open Text Lexing Quoting

namespace Lexeme
variable {l : Lexeme}

/-- The text is the one that the kind stands for. -/
def WellSpelled (l : Lexeme) : Prop := ∀ s, l.1.spelling? = some s → l.2 = s

instance (l : Lexeme) : Decidable l.WellSpelled :=
  inferInstanceAs (Decidable (∀ s ∈ l.1.spelling?, l.2 = s))

def write (l : Lexeme) : String := if l.1 = .word then quoteWord l.2 else l.2

end Lexeme

theorem tokenize_quoteWord (text : String) : tokenize (quoteWord text) = [⟨text, .word, 0⟩] := by
  have hnil : part? [] = none := rfl
  have hquote := tokens_quote 0 text.toList hnil
  rw [List.append_nil, tokens_nil, String.ofList_toList] at hquote
  rw [tokenize_eq_lexing, toList_quoteWord, hquote]
  rfl

/-- No blank prolongs a quoted text. -/
theorem separable_quoteWord (text : String) : Separable (quoteWord text) := by
  intro b c hc
  have hquote := tokens_quote 0 text.toList (part?_blank hc b.toList)
  have hlength : (quote text.toList).length = (quoteWord text).length :=
    congrArg List.length (toList_quoteWord text).symm
  rw [String.ofList_toList, tokens_blank hc, hlength, Nat.add_assoc, tokens_add] at hquote
  have htoList : (quoteWord text ++ String.singleton c ++ b).toList =
      quote text.toList ++ c :: b.toList := by
    simp only [String.toList_append, toList_quoteWord, String.toList_singleton, List.append_assoc,
      List.singleton_append]
  rw [tokenize_quoteWord, tokenize_eq_lexing, htoList, hquote, tokenize_eq_lexing]
  rfl

namespace Lexeme
variable {l : Lexeme}

theorem tokenize_write (h : l.WellSpelled) : tokenize l.write = [⟨l.2, l.1, 0⟩] := by
  obtain ⟨kind, text⟩ := l
  cases kind with
  | word => exact tokenize_quoteWord text
  | _ =>
      cases h _ rfl
      decide +kernel

theorem separable_write (h : l.WellSpelled) : Separable l.write := by
  obtain ⟨kind, text⟩ := l
  cases kind with
  | word => exact separable_quoteWord text
  | _ =>
      cases h _ rfl
      exact separable_of_closed (by decide +kernel)

end Lexeme

/-- Where each lexeme has a token of its own, only its place in the text remains to be told. -/
theorem joinedTokens_written {ls : List Lexeme} (h : ∀ l ∈ ls, l.WellSpelled) :
    joinedTokens (ls.map Lexeme.write) =
      ls.mapIdx fun i l => ⟨l.2, l.1, joinedOffset (ls.map Lexeme.write) i⟩ := by
  induction ls with
  | nil => rfl
  | cons l ls ih =>
      obtain ⟨hl, hls⟩ := List.forall_mem_cons.mp h
      have hplace (i : Nat) (k : Lexeme) :
          Token.moved (l.write.length + 1) ⟨k.2, k.1, joinedOffset (ls.map Lexeme.write) i⟩ =
            ⟨k.2, k.1, joinedOffset ((l :: ls).map Lexeme.write) (i + 1)⟩ := by
        rw [List.map_cons, joinedOffset_cons_succ, Token.moved, Token.mk.injEq]
        refine ⟨rfl, rfl, ?_⟩
        dsimp only
        omega
      rw [List.map_cons, joinedTokens_cons, l.tokenize_write hl, ih hls, map_mapIdx,
        List.mapIdx_cons]
      simp only [hplace]
      rfl

/-- Lexemes are read back from the text that they are written as, each in its place. A single word
is read back from its quotation. -/
theorem tokenize_written (ls : List Lexeme) (h : ∀ l ∈ ls, l.WellSpelled) :
    tokenize (" ".intercalate (ls.map Lexeme.write)) =
        ls.mapIdx (fun i l => ⟨l.2, l.1, joinedOffset (ls.map Lexeme.write) i⟩) ∧
      ∀ text, tokenize (quoteWord text) = [⟨text, .word, 0⟩] := by
  refine ⟨?_, tokenize_quoteWord⟩
  rw [tokenize_intercalate, joinedTokens_written h]
  intro piece hpiece
  obtain ⟨l, hl, rfl⟩ := List.mem_map.mp (List.dropLast_subset _ hpiece)
  exact l.separable_write (h l hl)

/-- Words with a quote, with none at all and with a backslash before a line feed, and operators that
would be one if no blank came between. -/
theorem tokenize_written_quoted :
    tokenize "\"it's\" && '' < < '\\\n'" =
        [⟨"it's", .word, 0⟩, ⟨"&&", .andAnd, 7⟩, ⟨"", .word, 10⟩, ⟨"<", .redirIn, 13⟩,
          ⟨"<", .redirIn, 15⟩, ⟨"\\\n", .word, 17⟩] ∧
      tokenize (quoteWord "'\\\"") = [⟨"'\\\"", .word, 0⟩] := by
  obtain ⟨hwritten, hword⟩ := tokenize_written
    [(.word, "it's"), (.andAnd, "&&"), (.word, ""), (.redirIn, "<"), (.redirIn, "<"),
      (.word, "\\\n")] (by decide)
  exact ⟨hwritten.trans (by decide +kernel), hword _⟩

end ShellGrammar
