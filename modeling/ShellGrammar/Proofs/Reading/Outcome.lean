import ShellGrammar.Cursor
import ShellGrammar.Proofs.Reading.Completeness

/-!
What becomes of a whole list of tokens. Either the line is read, and then its tree yields the
tokens within the limit on nesting, or it is rejected with an error that tells where the progress
of the line was refused and why. No other failure is possible while the limit is positive and the
texts of the tokens suit their kinds.
-/
namespace ShellGrammar
open Reader Progress
variable {ts taken rest : List Token} {d : Int} {endPosition : Option Int}

namespace Cursor

/-- A line with tokens in it has an end, known or not. -/
theorem exists_position (c : Cursor) (h : c.tokens ≠ []) :
    ∃ position, c.position = .ok position ∧ ∀ t, c.peek = some t → position = t.position := by
  rw [position]
  cases hp : c.peek with
  | some t =>
      refine ⟨t.position, rfl, ?_⟩
      intro u hu
      cases hu
      rfl
  | none =>
      cases c.endPosition with
      | some p => exact ⟨p, rfl, fun t ht => by cases ht⟩
      | none =>
          rw [List.getLast?_eq_some_getLast h]
          exact ⟨_, rfl, fun t ht => by cases ht⟩

theorem moveTo_rest {c : Cursor} (h : c.rest = taken ++ rest) (opened : Nat) :
    c.moveTo rest opened =
      { c with index := c.index + taken.length, depth := c.depth + opened } := by
  rw [moveTo, h, List.length_append, Nat.add_sub_cancel]

end Cursor

/-- `e` tells what the progress of a line was refused for: `taken` leads to a progress that
refuses `rest` for the fault `f`. -/
structure SyntaxError.Locates (e : SyntaxError) (limit : Nat) (taken rest : List Token)
    (f : Fault) : Prop where
  refused : ∃ p, Reached limit taken p ∧ p.Refuses limit f rest
  index : e.index = taken.length
  found : e.found = rest.head?
  position : ∀ t, rest.head? = some t → e.position = t.position
  report : ∃ c : Cursor, c.maxDepth = limit ∧ c.peek = rest.head? ∧
    c.report f = (e.kind, e.expected, e.note)

/-- The error that is made of a fault locates it. -/
theorem Cursor.exists_failure {c : Cursor} {f : Fault} (hts : c.tokens = taken ++ rest)
    (hne : c.tokens ≠ []) (hi : c.index = taken.length)
    (hf : ∃ p, Reached c.maxDepth taken p ∧ p.Refuses c.maxDepth f rest) :
    ∃ e, c.failure (.fault f) = .rejected e ∧ e.Locates c.maxDepth taken rest f := by
  have hpeek : c.peek = rest.head? := by
    rw [peek, Cursor.rest, hts, hi, List.drop_left]
  obtain ⟨position, hp, ht⟩ := c.exists_position hne
  rw [hpeek] at ht
  refine ⟨⟨(c.report f).1, (c.report f).2.1, c.peek, c.index, position, (c.report f).2.2⟩, ?_, hf,
    ?_, hpeek, ht, c, rfl, hpeek, rfl⟩
  · simp only [failure, hp]
  · exact congrArg Int.ofNat hi

namespace Line

theorem ofTokens_eq (hd : 1 ≤ d) :
    ofTokens ts d endPosition = (Cursor.parse ⟨ts, d.toNat, endPosition, 0, 0⟩).1 := by
  have hnew : Cursor.new ts d endPosition = .ok ⟨ts, d.toNat, endPosition, 0, 0⟩ :=
    if_neg (by omega)
  rw [ofTokens, hnew]
  rfl

theorem ofTokens_nestingLimit (hd : d < 1) : ofTokens ts d endPosition = .error .nestingLimit := by
  have hnew : Cursor.new ts d endPosition = .error .nestingLimit := if_pos hd
  rw [ofTokens, hnew]
  rfl

theorem ofTokens_nil (hd : 1 ≤ d) : ofTokens [] d endPosition = .ok .empty := by
  rw [ofTokens_eq hd]
  rfl

theorem ofTokens_of_read {l : Line} (hd : 1 ≤ d) (h : (line d.toNat).read ts = .ok (l, rest)) :
    ofTokens ts d endPosition = .ok l := by
  rw [ofTokens_eq hd, Cursor.parse, Cursor.apply]
  simp only [Cursor.rest, Cursor.allowance, List.drop_zero, Nat.sub_zero, h]

theorem ofTokens_of_stop {stop : Stop} (hd : 1 ≤ d) (hts : ts = taken ++ stop.rest)
    (h : (line d.toNat).read ts = .error stop) :
    ofTokens ts d endPosition = .error
      (Cursor.failure ⟨ts, d.toNat, endPosition, taken.length, stop.opened⟩ stop.reason) := by
  rw [ofTokens_eq hd, Cursor.parse, Cursor.apply]
  simp only [Cursor.rest, Cursor.allowance, List.drop_zero, Nat.sub_zero, h]
  rw [Cursor.moveTo_rest (by simpa only [Cursor.rest, List.drop_zero] using hts)]
  simp only [Nat.zero_add]

/-- A line is read as a tree that yields it, or it is rejected where its progress is refused. -/
theorem ofTokens_outcome (hne : ts ≠ []) (hs : ∀ t ∈ ts, t.WellSpelled) (hd : 1 ≤ d)
    (endPosition : Option Int) :
    (∃ body : AndOr, ofTokens ts d endPosition = .ok (.sequence body) ∧ body.Yields ts ∧
        body.nesting ≤ d.toNat ∧ Accepts d.toNat ts) ∨
      ∃ e taken rest f, ofTokens ts d endPosition = .error (.rejected e) ∧ ts = taken ++ rest ∧
        e.Locates d.toNat taken rest f := by
  have hline := line_meets d.toNat hne hs
  cases hr : (line d.toNat).read ts with
  | ok result =>
      rw [hr] at hline
      obtain ⟨taken, hts, hrest, haccepts, body, hl, hy, hn⟩ := hline
      rw [hrest, List.append_nil] at hts
      rw [List.nil_append, ← hts] at haccepts hy
      exact .inl ⟨body, hl ▸ ofTokens_of_read hd hr, hy, hn, haccepts⟩
  | error stop =>
      rw [hr] at hline
      obtain ⟨taken, hts, p, f, hreached, hreason, hf⟩ := hline
      obtain ⟨e, he, hlocates⟩ := Cursor.exists_failure
        (c := ⟨ts, d.toNat, endPosition, taken.length, stop.opened⟩) hts hne rfl ⟨p, hreached, hf⟩
      refine .inr ⟨e, taken, stop.rest, f, ?_, hts, hlocates⟩
      rw [ofTokens_of_stop hd hts hr, hreason, he]

theorem ne_nil_of_rejected {e : SyntaxError} (hd : 1 ≤ d)
    (h : ofTokens ts d endPosition = .error (.rejected e)) : ts ≠ [] := by
  rintro rfl
  rw [ofTokens_nil hd] at h
  cases h

/-- Every syntax error locates what it was raised for. -/
theorem exists_locates_of_rejected {e : SyntaxError} (hs : ∀ t ∈ ts, t.WellSpelled) (hd : 1 ≤ d)
    (h : ofTokens ts d endPosition = .error (.rejected e)) :
    ∃ taken rest f, ts = taken ++ rest ∧ e.Locates d.toNat taken rest f := by
  cases ofTokens_outcome (ne_nil_of_rejected hd h) hs hd endPosition with
  | inl hread =>
      obtain ⟨body, hbody, _⟩ := hread
      rw [hbody] at h
      cases h
  | inr hrejected =>
      obtain ⟨e', taken, rest, f, he, hts, hlocates⟩ := hrejected
      rw [he] at h
      cases h
      exact ⟨taken, rest, f, hts, hlocates⟩

/-- A tree within the limit is what its tokens are read as. -/
theorem ofTokens_of_yields {l : Line} (hs : ∀ t ∈ ts, t.WellSpelled) (hd : 1 ≤ d)
    (h : l.Yields ts) (hn : l.node.nesting ≤ d) : ofTokens ts d endPosition = .ok l := by
  cases l with
  | empty =>
      rw [h]
      exact ofTokens_nil hd
  | sequence body => exact ofTokens_of_read hd (line_read h hs ((Int.le_toNat (by omega)).mpr hn))

/-- A list of tokens is read as a tree of its own or rejected. -/
theorem ofTokens_ok_or_rejected (hs : ∀ t ∈ ts, t.WellSpelled) (hd : 1 ≤ d)
    (endPosition : Option Int) :
    (∃ l : Line, ofTokens ts d endPosition = .ok l ∧ l.Yields ts ∧ l.node.nesting ≤ d) ∨
      ∃ e, ofTokens ts d endPosition = .error (.rejected e) := by
  by_cases hne : ts = []
  · subst hne
    refine .inl ⟨.empty, ofTokens_nil hd, rfl, ?_⟩
    simp only [node, Node.nesting]
    omega
  · cases ofTokens_outcome hne hs hd endPosition with
    | inl h =>
        obtain ⟨body, hbody, hy, hn, _⟩ := h
        refine .inl ⟨.sequence body, hbody, hy, ?_⟩
        simp only [node, Node.nesting]
        omega
    | inr h =>
        obtain ⟨e, _, _, _, he, _⟩ := h
        exact .inr ⟨e, he⟩

/-- Whatever the limit, what is read yields its tokens. -/
theorem yields_of_ofTokens {l : Line} (hs : ∀ t ∈ ts, t.WellSpelled)
    (h : ofTokens ts d endPosition = .ok l) : l.Yields ts := by
  by_cases hd : 1 ≤ d
  · cases ofTokens_ok_or_rejected hs hd endPosition with
    | inl hread =>
        obtain ⟨m, hm, hy, _⟩ := hread
        rw [hm] at h
        cases h
        exact hy
    | inr hrejected =>
        obtain ⟨e, he⟩ := hrejected
        rw [he] at h
        cases h
  · rw [ofTokens_nestingLimit (Int.not_le.mp hd)] at h
    cases h

theorem nesting_le_of_ofTokens {l : Line} (hs : ∀ t ∈ ts, t.WellSpelled) (hd : 1 ≤ d)
    (h : ofTokens ts d endPosition = .ok l) : l.node.nesting ≤ d := by
  cases ofTokens_ok_or_rejected hs hd endPosition with
  | inl hread =>
      obtain ⟨m, hm, _, hn⟩ := hread
      rw [hm] at h
      cases h
      exact hn
  | inr hrejected =>
      obtain ⟨e, he⟩ := hrejected
      rw [he] at h
      cases h

/-- No tokens have two trees. -/
theorem Yields.unique {l m : Line} (hs : ∀ t ∈ ts, t.WellSpelled) (hl : l.Yields ts)
    (hm : m.Yields ts) : l = m := by
  have hd : (1 : Int) ≤ max l.node.nesting m.node.nesting + 1 := by omega
  have hread : ofTokens ts _ none = .ok l := ofTokens_of_yields hs hd hl (by omega)
  rw [ofTokens_of_yields hs hd hm (by omega)] at hread
  cases hread
  rfl

/-- What is read is what the grammar derives from all the tokens within the limit. -/
theorem ofTokens_eq_ok_iff_yields (hs : ∀ t ∈ ts, t.WellSpelled) (hd : 1 ≤ d)
    (endPosition : Option Int) :
    (∀ l : Line, ofTokens ts d endPosition = .ok l ↔ l.Yields ts ∧ l.node.nesting ≤ d) ∧
      (∀ l m : Line, l.Yields ts → m.Yields ts → l = m) ∧
      ((∀ l : Line, l.Yields ts → d < l.node.nesting) →
        ∃ e, ofTokens ts d endPosition = .error (.rejected e)) := by
  have outcome := ofTokens_ok_or_rejected hs hd endPosition
  refine ⟨fun l => ⟨fun h => ?_, fun ⟨hl, hn⟩ => ofTokens_of_yields hs hd hl hn⟩,
    fun l m => Yields.unique hs, fun h => ?_⟩
  · cases outcome with
    | inl hread =>
        obtain ⟨m, hm, hy, hn⟩ := hread
        rw [hm] at h
        cases h
        exact ⟨hy, hn⟩
    | inr hrejected =>
        obtain ⟨e, he⟩ := hrejected
        rw [he] at h
        cases h
  · cases outcome with
    | inl hread =>
        obtain ⟨m, _, hy, hn⟩ := hread
        have hdeep := h m hy
        omega
    | inr hrejected => exact hrejected

/-- The line `a >b c | (d)`: the parts of its command come in any order, and only one subshell
is allowed. -/
theorem ofTokens_eq_ok_iff_yields_redirected :
    ofTokens [⟨"a", .word, 0⟩, ⟨">", .redirOut, 2⟩, ⟨"b", .word, 3⟩, ⟨"c", .word, 5⟩,
        ⟨"|", .pipe, 7⟩, ⟨"(", .lparen, 9⟩, ⟨"d", .word, 10⟩, ⟨")", .rparen, 11⟩] 1 (some 12) =
      .ok (.sequence (.single (.pipe (.command (.simple ⟨⟨"a"⟩, [⟨"c"⟩]⟩ [⟨.output, ⟨"b"⟩⟩]))
        (.single (.subshell (.single (.single (.command (.simple ⟨⟨"d"⟩, []⟩ []))))))))) := by
  refine ((ofTokens_eq_ok_iff_yields (by decide) (by decide) (some 12)).1 _).mpr ⟨?_, by decide⟩
  have output : (Redirection.mk .output ⟨"b"⟩).Yields [⟨">", .redirOut, 2⟩, ⟨"b", .word, 3⟩] :=
    @Redirection.Yields.intro ⟨">", .redirOut, 2⟩ ⟨"b", .word, 3⟩ .output rfl rfl
  have left : (Command.simple ⟨⟨"a"⟩, [⟨"c"⟩]⟩ [⟨.output, ⟨"b"⟩⟩]).Yields
      [⟨"a", .word, 0⟩, ⟨">", .redirOut, 2⟩, ⟨"b", .word, 3⟩, ⟨"c", .word, 5⟩] :=
    .word (t := ⟨"a", .word, 0⟩) rfl
      (.redirection output (.word (t := ⟨"c", .word, 5⟩) rfl .nil))
  have right : (Command.simple ⟨⟨"d"⟩, []⟩ []).Yields [⟨"d", .word, 10⟩] :=
    .word (t := ⟨"d", .word, 10⟩) rfl .nil
  exact AndOr.Yields.single (.pipe (.command left) rfl
    (.single (.subshell rfl (.single (.single (.command right))) rfl)))

end Line
end ShellGrammar
