import ShellGrammar.Proofs.Lexing.Calls

/-!
What the fields of a scanner tell about each other. A scanner whose fields agree stands within a
text or behind the end of one, and the shapes of `Within` are the only ones with fields that agree
before the end. So the agreement holds after all calls, and with it no operator is ever unknown and
no character after an operator has lost its meaning.
-/
namespace ShellGrammar.Scanner
variable {s : Scanner}

/-- The fields agree with each other and with the mode. -/
structure Sound (s : Scanner) : Prop where
  quoted : s.inQuotes = true ↔ s.quote = some '\'' ∨ s.quote = some '"'
  unquoted : s.inQuotes = false → s.quote = none
  quotes : s.mode ≠ .final → (s.inQuotes = true ↔ s.mode = .quotes)
  escape : s.escape = true → s.mode = .word ∨ s.mode = .quotes ∧ s.quote = some '"'
  idle : s.mode = .initial ∨ s.mode = .final → s.pending.text = "" ∧ s.pending.kind = none
  operator : s.mode = .operator → s.pending.text ∈ ["|", ">", "<", "&"] ∧
    s.pending.kind = none ∧ s.escape = false ∧ s.inQuotes = false
  word : s.mode = .word → s.pending.kind = some .word ∨ s.pending.kind = none ∧ s.pending.text = ""
  inside : s.mode = .quotes → s.pending.kind = some .word
  position : s.pending.position ≤ s.offset

theorem Within.sound (h : s.Within) : s.Sound := by
  cases h with
  | ready hp => constructor <;> simp [Scanner.ready, Pending.blank, hp]
  | afterOperator hq hp =>
      rcases hq with rfl | rfl | rfl | rfl <;>
        constructor <;> simp [Scanner.afterOperator, hp]
  | withinWord text escape hp =>
      cases text <;> constructor <;> simp [Scanner.withinWord, hp]
  | withinQuotes text hq hp =>
      rcases hq with rfl | ⟨rfl, rfl⟩ <;> constructor <;> simp [Scanner.withinQuotes, hp]

namespace Sound

theorem not_quoted (h : s.Sound) (hf : s.mode ≠ .final) (hq : s.mode ≠ .quotes) :
    s.inQuotes = false ∧ s.quote = none := by
  have hin : s.inQuotes = false := Bool.eq_false_iff.mpr fun hin => hq ((h.quotes hf).mp hin)
  exact ⟨hin, h.unquoted hin⟩

theorem not_escaped (h : s.Sound) (hw : s.mode ≠ .word) (hq : s.mode ≠ .quotes) :
    s.escape = false := by
  refine Bool.eq_false_iff.mpr fun he => ?_
  rcases h.escape he with hm | hm
  · exact hw hm
  · exact hq hm.1

/-- Before the end of a text the fields agree in the shapes of `Within` only. -/
theorem within (h : s.Sound) (hm : s.mode ≠ .final) : s.Within := by
  have hunquoted := h.not_quoted hm
  have hunescaped := h.not_escaped
  obtain ⟨mode, ⟨text, kind, position⟩, escape, inQuotes, quote, offset⟩ := s
  simp only at hunquoted hunescaped
  have hp : position ≤ offset := h.position
  cases mode with
  | final => exact absurd rfl hm
  | initial =>
      obtain ⟨rfl, rfl⟩ : text = "" ∧ kind = none := h.idle (.inl rfl)
      obtain ⟨rfl, rfl⟩ := hunquoted nofun
      cases hunescaped nofun nofun
      exact .ready hp
  | operator =>
      obtain ⟨htext, rfl, rfl, _⟩ :
          text ∈ ["|", ">", "<", "&"] ∧ kind = none ∧ escape = false ∧ inQuotes = false :=
        h.operator rfl
      obtain ⟨rfl, rfl⟩ := hunquoted nofun
      simp only [List.mem_cons, List.not_mem_nil, or_false] at htext
      rcases htext with rfl | rfl | rfl | rfl
      · exact .afterOperator (q := '|') (by decide) hp
      · exact .afterOperator (q := '>') (by decide) hp
      · exact .afterOperator (q := '<') (by decide) hp
      · exact .afterOperator (q := '&') (by decide) hp
  | word =>
      obtain ⟨rfl, rfl⟩ := hunquoted nofun
      rcases h.word rfl with hkind | ⟨hkind, htext⟩
      · cases hkind
        rw [← String.ofList_toList (s := text)]
        exact .withinWord (some text.toList) escape hp
      · cases hkind
        cases htext
        exact .withinWord none escape hp
  | quotes =>
      obtain rfl : kind = some .word := h.inside rfl
      obtain rfl : inQuotes = true := (h.quotes hm).mpr rfl
      rw [← String.ofList_toList (s := text)]
      have hquote : quote = some '\'' ∨ quote = some '"' := h.quoted.mp rfl
      have hescape : escape = true → quote = some '"' := fun he =>
        ((h.escape he).resolve_left nofun).2
      rcases hquote with rfl | rfl
      · refine .withinQuotes text.toList (.inr ⟨rfl, ?_⟩) hp
        exact Bool.eq_false_iff.mpr fun he => absurd (hescape he) (by decide)
      · exact .withinQuotes text.toList (.inl rfl) hp

/-- A text is read to its end, or refused at once behind the end of another one. -/
theorem feed (h : s.Sound) (cs : List Char) :
    (s.feed cs).scanner.Sound ∧
      ((s.feed cs).fault = none ∨ s.mode = .final ∧ (s.feed cs).fault = some .finished) := by
  by_cases hm : s.mode = .final
  · cases cs with
    | nil => exact ⟨h, .inl rfl⟩
    | cons c cs =>
        rw [feed_final hm]
        exact ⟨h, .inr ⟨hm, rfl⟩⟩
  · obtain ⟨hfault, hwithin⟩ := (h.within hm).feed cs
    exact ⟨hwithin.sound, .inl hfault⟩

/-- The characters that an operator can begin with are operators themselves. -/
theorem pushOperator (h : s.Sound) (hm : s.mode = .operator) :
    ∃ kind, s.pushOperator =
      .ok ({ s with pending := { s.pending with kind := some kind } }.push .initial) := by
  have htext := (h.operator hm).1
  simp only [List.mem_cons, List.not_mem_nil, or_false] at htext
  obtain ⟨kind, hkind⟩ : ∃ kind, Glyph.singleOperators.lookup s.pending.text = some kind := by
    rcases htext with htext | htext | htext | htext <;> rw [htext] <;> exact ⟨_, rfl⟩
  refine ⟨kind, ?_⟩
  simp only [Scanner.pushOperator, hkind]

theorem authentic_glyph (h : s.Sound) (hm : s.mode = .operator) (c : Char) :
    (s.glyph c).authentic = true := by
  obtain ⟨_, _, hescape, hquotes⟩ := h.operator hm
  simp only [glyph, hescape, hquotes, Bool.false_eq_true, if_false]

/-- The end of a text leaves nothing but the quote and the number of characters. -/
theorem finish (h : s.Sound) :
    s.finish.scanner = { s with mode := .final, pending := .blank s.offset, escape := false } ∧
      s.finish.fault = none ∧ s.finish.tokens.length ≤ 1 := by
  rw [Scanner.finish]
  split
  · next hm =>
    obtain ⟨kind, hpush⟩ := h.pushOperator hm
    have hescape : s.escape = false := (h.operator hm).2.2.1
    simp only [hpush, push, hescape]
    exact ⟨trivial, trivial, Option.length_toList_le⟩
  · refine ⟨?_, rfl, Option.length_toList_le⟩
    cases hescape : s.escape with
    | true => simp only [settle, hescape, if_true, push]
    | false => simp only [settle, hescape, Bool.false_eq_true, if_false, push]

theorem finish_sound (h : s.Sound) : s.finish.scanner.Sound := by
  rw [h.finish.1]
  constructor
  · exact h.quoted
  · exact h.unquoted
  all_goals simp [Pending.blank]

theorem act (h : s.Sound) (call : Call) : (s.act call).Sound := by
  cases call with
  | feed text => exact (h.feed text.toList).1
  | finish => exact h.finish_sound
  | resetState | reset => exact Within.sound (.ready (Nat.le_refl _))

end Sound

theorem sound_after (h : s.Sound) (calls : List Call) : (s.after calls).Sound := by
  induction calls generalizing s with
  | nil => exact h
  | cons call calls ih => exact ih (h.act call)

/-- After any calls the fields agree. So an operator is never unknown, the character after one keeps
its meaning, a text is refused only behind the end of another one, and the end completes at most
one token. -/
theorem sound_after_calls (calls : List Call) :
    let s := new.after calls
    s.Sound ∧
      (s.mode = .operator →
        (∃ pushed, s.pushOperator = .ok pushed) ∧ ∀ c, (s.glyph c).authentic = true) ∧
      (∀ cs, (s.feed cs).fault = none ∨ s.mode = .final ∧ (s.feed cs).fault = some .finished) ∧
      s.finish.fault = none ∧ s.finish.tokens.length ≤ 1 := by
  intro s
  have hs : s.Sound := sound_after within_new.sound calls
  refine ⟨hs, fun hm => ⟨?_, hs.authentic_glyph hm⟩, fun cs => (hs.feed cs).2, hs.finish.2⟩
  obtain ⟨kind, hpush⟩ := hs.pushOperator hm
  exact ⟨_, hpush⟩

/-- The end came within a quotation and a further text was refused; after a reset a word and an
operator character are read. -/
theorem sound_after_calls_operator :
    let s := new.after [.feed "'a", .finish, .feed "b", .resetState, .feed "c\\ d<"]
    s.mode = .operator ∧ s.pending = ⟨"<", none, 6⟩ ∧
      (∃ pushed, s.pushOperator = .ok pushed) ∧ ∀ c, (s.glyph c).authentic = true := by
  intro s
  have hm : s.mode = .operator := by decide +kernel
  obtain ⟨_, hoperator, _⟩ :=
    sound_after_calls [.feed "'a", .finish, .feed "b", .resetState, .feed "c\\ d<"]
  exact ⟨hm, by decide +kernel, hoperator hm⟩

end ShellGrammar.Scanner
