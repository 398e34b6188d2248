import ShellGrammar.Proofs.Reading.Refusal
import ShellGrammar.Proofs.Reading.ViablePrefix

/-!
The kinds of syntax errors. A progress refuses a token for one of six causes, listed by `Refused`,
and the cause can be told from the tokens alone: from those at the place of the error and right
before it, from whether the tokens before it are a line already, and from whether a greater limit
would have let the line go on. `Line.Signals` says so for each kind of error without any reader or
progress in it; every other error is an unexpected token.
-/
namespace ShellGrammar
open Reader Progress

variable {taken rest us : List Token} {t : Token} {d : Int} {e : SyntaxError} {f : Fault}

namespace SyntaxError

/-- At the end of the tokens the line is not complete, whatever is missing. -/
theorem Locates.kind_at_end (h : e.Locates d.toNat taken [] f) : e.kind = .unexpectedEnd := by
  obtain ⟨p, _, hdemand⟩ := h.refused
  obtain ⟨c, _, hpeek, hreport⟩ := h.report
  have hf : f = .noCommand ∨ ∃ kinds, f = .unmet kinds := by
    obtain ⟨phase, depth⟩ := p
    cases phase <;> cases depth <;> cases hdemand <;> simp
  rcases hf with rfl | ⟨kinds, rfl⟩ <;> simp [Cursor.report, hpeek] at hreport <;>
    exact hreport.1.symm

/-- At a token the kinds with a meaning of their own tell the fault. -/
theorem Locates.kind_at_token (hd : 1 ≤ d) (h : e.Locates d.toNat taken (t :: us) f) :
    e.kind = match f with
      | .unmet _ | .noCommand => .unexpectedToken
      | .emptyGroup => .emptyGroup
      | .nestingTooDeep => .nestingTooDeep d
      | .trailingInput => .trailingInput := by
  obtain ⟨c, hc, hpeek, hreport⟩ := h.report
  have hlimit : (c.maxDepth : Int) = d := by omega
  cases f <;> simp [Cursor.report, hpeek, hlimit] at hreport <;> exact hreport.1.symm

end SyntaxError

namespace Line
variable {endPosition : Option Int}

/-- What an error at index `i` tells by its kind, for the kinds with a meaning of their own. -/
def Signals (d : Int) (ts : List Token) (i : Nat) : SyntaxError.Kind → Prop
  | .unexpectedEnd => i = ts.length
  | .nestingTooDeep limit => limit = d ∧ ts[i]?.map Token.kind = some .lparen ∧
      ∃ m, d < m ∧ Viable m (ts.take (i + 1))
  | .emptyGroup => ts[i]?.map Token.kind = some .rparen ∧
      1 ≤ i ∧ ts[i - 1]?.map Token.kind = some .lparen
  | .trailingInput => i < ts.length ∧ 1 ≤ i ∧ Accepted d (ts.take i)
  | .unexpectedToken | .general => False

section Token
variable {p : Progress} (hs : ∀ u ∈ taken ++ t :: us, u.WellSpelled) (hd : 1 ≤ d)
  (hp : Reached d.toNat taken p) (hf : p.step d.toNat t.kind = .error f)

include hs hd hp hf

theorem signals_nestingTooDeep_iff :
    Signals d (taken ++ t :: us) taken.length (.nestingTooDeep d) ↔ f = .nestingTooDeep := by
  have htake : (taken ++ t :: us).take (taken.length + 1) = taken ++ [t] := by
    rw [List.take_length_add_append]
    rfl
  have htoken : (taken ++ t :: us)[taken.length]? = some t := by simp
  have hsnoc : ∀ u ∈ taken ++ [t], u.WellSpelled := by
    intro u hu
    exact hs u (List.mem_of_mem_take (htake ▸ hu))
  rw [Signals, htake, htoken]
  refine ⟨fun ⟨_, _, m, hm, more, hmore, haccepted⟩ => ?_, fun h => ?_⟩
  · rw [accepted_iff_accepts (List.forall_mem_append.mpr ⟨hsnoc, hmore⟩) (by omega),
      List.append_assoc] at haccepted
    have hrefuses : p.Refuses d.toNat f (t :: more) := hf
    exact eq_nestingTooDeep_of_accepts (by omega) haccepted hp hrefuses
  · subst h
    obtain ⟨hk, n, q, hn, hq⟩ := (refused_of_step hf).of_nestingTooDeep
    have hreached : Reached n (taken ++ [t]) q := run_snoc (run_of_le (Nat.le_of_lt hn) hp) hq
    exact ⟨rfl, by rw [Option.map_some, hk], n, by omega,
      viable_of_reached hsnoc (by omega) hreached⟩

omit hs hd in
theorem signals_emptyGroup_iff :
    Signals d (taken ++ t :: us) taken.length .emptyGroup ↔ f = .emptyGroup := by
  have htoken : (taken ++ t :: us)[taken.length]? = some t := by simp
  have hlast (h : 1 ≤ taken.length) :
      (taken ++ t :: us)[taken.length - 1]? = taken.getLast? := by
    rw [List.getElem?_append_left (by omega), List.getLast?_eq_getElem?]
  rw [Signals, htoken, (refused_of_step hf).emptyGroup_iff, hp.opened_iff, Option.map_some,
    Option.some_inj]
  refine ⟨fun ⟨hk, hpos, hleft⟩ => ⟨hlast hpos ▸ hleft, hk⟩, fun ⟨hleft, hk⟩ => ?_⟩
  have hpos : 1 ≤ taken.length := by
    cases taken with
    | nil => cases hleft
    | cons => exact Nat.succ_pos _
  exact ⟨hk, hpos, hlast hpos ▸ hleft⟩

theorem signals_trailingInput_iff :
    Signals d (taken ++ t :: us) taken.length .trailingInput ↔ f = .trailingInput := by
  have htaken : ∀ u ∈ taken, u.WellSpelled := (List.forall_mem_append.mp hs).1
  rw [Signals, List.take_left, accepted_iff_accepts htaken hd, hp.accepts_iff,
    (refused_of_step hf).trailingInput_iff]
  refine ⟨fun h => h.2.2, fun h => ⟨by simp, ?_, h⟩⟩
  cases taken with
  | nil =>
      cases hp
      cases h
  | cons => exact Nat.succ_pos _

end Token

theorem kind_eq_iff_signals {kind : SyntaxError.Kind} (hs : ∀ t ∈ taken ++ rest, t.WellSpelled)
    (hd : 1 ≤ d) (h : e.Locates d.toNat taken rest f) (hkind : kind ≠ .unexpectedToken) :
    e.kind = kind ↔ Signals d (taken ++ rest) taken.length kind := by
  cases rest with
  | nil =>
      rw [h.kind_at_end]
      cases kind <;> simp [Signals]
  | cons t rest =>
      obtain ⟨p, hp, hf⟩ := h.refused
      have hstep : p.step d.toNat t.kind = .error f := hf
      rw [h.kind_at_token hd]
      cases kind with
      | unexpectedToken => exact absurd rfl hkind
      | general | unexpectedEnd => cases f <;> simp [Signals]
      | emptyGroup =>
          rw [signals_emptyGroup_iff hp hstep]
          cases f <;> simp
      | trailingInput =>
          rw [signals_trailingInput_iff hs hd hp hstep]
          cases f <;> simp
      | nestingTooDeep limit =>
          by_cases hlimit : limit = d
          · rw [hlimit, signals_nestingTooDeep_iff hs hd hp hstep]
            cases f <;> simp
          · have hsignals : ¬ Signals d (taken ++ t :: rest) taken.length (.nestingTooDeep limit) :=
              fun h => hlimit h.1
            cases f <;> simp [hsignals, Ne.symm hlimit]

/-- The kind of an error is told by the tokens: each kind with a meaning of its own is reported
where this meaning holds, and all other errors are unexpected tokens. -/
theorem kind_of_rejected {ts : List Token} (hs : ∀ t ∈ ts, t.WellSpelled) (hd : 1 ≤ d)
    (h : ofTokens ts d endPosition = .error (.rejected e)) :
    ∃ i : Nat, e.index = i ∧
      (∀ kind, kind ≠ .unexpectedToken → (e.kind = kind ↔ Signals d ts i kind)) ∧
      (e.kind = .unexpectedToken ↔ ∀ kind, ¬ Signals d ts i kind) := by
  obtain ⟨taken, rest, f, rfl, hlocates⟩ := exists_locates_of_rejected hs hd h
  have hkinds : ∀ kind, kind ≠ .unexpectedToken →
      (e.kind = kind ↔ Signals d (taken ++ rest) taken.length kind) :=
    fun kind => kind_eq_iff_signals hs hd hlocates
  refine ⟨taken.length, hlocates.index, hkinds, fun h kind hsignals => ?_, fun h => ?_⟩
  · have hne : kind ≠ .unexpectedToken := by
      rintro rfl
      exact hsignals
    exact hne ((hkinds kind hne).mpr hsignals ▸ h)
  · exact Decidable.of_not_not fun hne => h e.kind ((hkinds e.kind hne).mp rfl)

/-- The second parenthesis in `((a`, with only one subshell allowed: a greater limit would let the
line go on. The first parenthesis alone is not a line. -/
theorem kind_of_rejected_nested :
    (∃ m, 1 < m ∧ Viable m [⟨"(", .lparen, 0⟩, ⟨"(", .lparen, 1⟩]) ∧
      ¬ Accepted 1 [⟨"(", .lparen, 0⟩] := by
  have h : ofTokens [⟨"(", .lparen, 0⟩, ⟨"(", .lparen, 1⟩, ⟨"a", .word, 2⟩] 1 none =
      .error (.rejected ⟨.nestingTooDeep 1, [.word], some ⟨"(", .lparen, 1⟩, 1, 1,
        "subshells are nested too deep"⟩) := by
    with_unfolding_all rfl
  obtain ⟨i, hi, hkinds, _⟩ := kind_of_rejected (by decide) (by decide) h
  have hi : i = 1 := by
    simp only at hi
    omega
  subst hi
  obtain ⟨_, _, hviable⟩ := (hkinds (.nestingTooDeep 1) (by decide)).mp rfl
  have htrailing := mt (hkinds .trailingInput (by decide)).mpr (by decide)
  exact ⟨hviable, fun haccepted => htrailing ⟨by decide, by decide, haccepted⟩⟩

end Line
end ShellGrammar
