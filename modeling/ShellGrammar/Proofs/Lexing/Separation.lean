import ShellGrammar.Proofs.Lexing.Rules

/-!
How the tokens of a text come from the tokens of its pieces. A piece stands for lexemes, that is
for the kinds and texts of tokens, if its tokens have these lexemes wherever nothing follows that
would prolong a word. Pieces set apart by a blank stand for the lexemes of both, and so do pieces
with a symbol before them or parentheses around them.
-/
namespace ShellGrammar

/-- A token without its place. -/
def Token.lexeme (t : Token) : Token.Kind × String := (t.kind, t.text)

namespace Lexing
open Text
variable {as bs : List Char} {ks ls : List (Token.Kind × String)}

theorem isBlank_of_isSymbol {c : Char} (h : isSymbol c = true) : isBlank c = false := by
  simp only [isSymbol, List.contains_eq_mem, decide_eq_true_eq, List.mem_cons, List.not_mem_nil,
    or_false] at h
  rcases h with rfl | rfl | rfl | rfl | rfl | rfl <;> decide

def StandsFor (cs : List Char) (lexemes : List (Token.Kind × String)) : Prop :=
  ∀ (pos : Nat) (rest : List Char), part? rest = none →
    ∃ ts, tokens pos (cs ++ rest) = ts ++ tokens (pos + cs.length) rest ∧
      ts.map Token.lexeme = lexemes

namespace StandsFor

theorem nil : StandsFor [] [] :=
  fun _ _ _ => ⟨[], rfl, rfl⟩

theorem blank_append (h : StandsFor as ks) (k : StandsFor bs ls) :
    StandsFor (as ++ ' ' :: bs) (ks ++ ls) := by
  intro pos rest hrest
  obtain ⟨ts, hts, rfl⟩ := h pos (' ' :: (bs ++ rest)) (part?_blank (by decide) _)
  obtain ⟨us, hus, rfl⟩ := k (pos + as.length + 1) rest hrest
  refine ⟨ts ++ us, ?_, List.map_append⟩
  have hpos : pos + as.length + 1 + bs.length = pos + (as ++ ' ' :: bs).length := by
    simp only [List.length_append, List.length_cons]
    omega
  rw [List.append_assoc, List.cons_append, hts, tokens_blank (by decide), hus, hpos,
    List.append_assoc]

/-- A symbol that is taken whole before a blank. -/
theorem symbol_append {kind : Token.Kind}
    (h : ∀ rest, symbol? (as ++ ' ' :: rest) = some (kind, as.length)) (k : StandsFor bs ls) :
    StandsFor (as ++ ' ' :: bs) ((kind, String.ofList as) :: ls) := by
  intro pos rest hrest
  obtain ⟨us, hus, rfl⟩ := k (pos + as.length + 1) rest hrest
  obtain ⟨c, cs, rfl⟩ : ∃ c cs, as = c :: cs := by
    refine List.exists_cons_of_ne_nil ?_
    rintro rfl
    exact absurd (symbol?_size_pos (h [])).1 (Nat.lt_irrefl _)
  have hc : isBlank c = false := by
    apply isBlank_of_isSymbol
    rw [← isSome_symbol? c (cs ++ [' ']), ← List.cons_append, h []]
    rfl
  have hs : tokens pos (c :: cs ++ ' ' :: (bs ++ rest)) =
      ⟨String.ofList ((c :: cs ++ ' ' :: (bs ++ rest)).take (c :: cs).length), kind, pos⟩ ::
        tokens (pos + (c :: cs).length)
          ((c :: cs ++ ' ' :: (bs ++ rest)).drop (c :: cs).length) :=
    tokens_symbol hc (h _) pos
  have hpos : pos + (c :: cs).length + 1 + bs.length = pos + (c :: cs ++ ' ' :: bs).length := by
    simp only [List.length_append, List.length_cons]
    omega
  refine ⟨⟨String.ofList (c :: cs), kind, pos⟩ :: us, ?_, rfl⟩
  rw [List.take_left, List.drop_left, tokens_blank (by decide), hus, hpos] at hs
  rwa [List.append_assoc, List.cons_append]

theorem parenthesized (h : StandsFor as ks) :
    StandsFor ('(' :: (as ++ [')'])) ((.lparen, "(") :: (ks ++ [(.rparen, ")")])) := by
  intro pos rest _
  obtain ⟨ts, hts, rfl⟩ := h (pos + 1) (')' :: rest) (by simp [part?]; decide)
  refine ⟨⟨"(", .lparen, pos⟩ :: (ts ++ [⟨")", .rparen, (pos + 1 + as.length : Nat)⟩]), ?_, ?_⟩
  · have hpos : pos + 1 + as.length + 1 = pos + ('(' :: (as ++ [')'])).length := by
      simp only [List.length_append, List.length_cons, List.length_nil]
      omega
    have hright : tokens (pos + 1 + as.length) (')' :: rest) =
        ⟨")", .rparen, (pos + 1 + as.length : Nat)⟩ :: tokens (pos + 1 + as.length + 1) rest :=
      @tokens_symbol ')' rest .rparen 1 (by decide) rfl _
    have hleft : tokens pos ('(' :: (as ++ ')' :: rest)) =
        ⟨"(", .lparen, pos⟩ :: tokens (pos + 1) (as ++ ')' :: rest) :=
      @tokens_symbol '(' _ .lparen 1 (by decide) rfl _
    rw [List.cons_append, List.append_assoc, List.singleton_append, hleft, hts, hright, hpos]
    simp
  · simp [Token.lexeme]

theorem intercalate {α : Type} {f : α → String} {g : α → List (Token.Kind × String)} :
    ∀ {xs : List α}, (∀ x ∈ xs, StandsFor (f x).toList (g x)) →
      StandsFor (" ".intercalate (xs.map f)).toList (xs.flatMap g)
  | [], _ => nil
  | [x], h => by
      simpa using h x List.mem_cons_self
  | x :: y :: xs, h => by
      have ih : StandsFor (" ".intercalate ((y :: xs).map f)).toList ((y :: xs).flatMap g) :=
        intercalate fun z hz => h z (List.mem_cons_of_mem _ hz)
      rw [List.map_cons, List.map_cons, String.intercalate_cons_cons, String.toList_append,
        String.toList_append, List.append_assoc, List.flatMap_cons]
      exact blank_append (h x List.mem_cons_self) ih

end StandsFor
end Lexing
end ShellGrammar
