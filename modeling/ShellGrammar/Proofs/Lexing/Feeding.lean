import ShellGrammar.Proofs.Lexing.Agreement

/-!
Feeding a text piece by piece. Since no text raises a fault, pieces leave a new scanner as the whole
text does, and complete the same tokens on the way; the offset counts the characters of all pieces.
-/
namespace ShellGrammar.Scanner

@[simp] theorem reset_eq_new (s : Scanner) : s.reset = new := rfl

theorem feed_append {s : Scanner} {as : List Char} (h : (s.feed as).fault = none)
    (bs : List Char) :
    s.feed (as ++ bs) =
      { (s.feed as).scanner.feed bs with
        tokens := (s.feed as).tokens ++ ((s.feed as).scanner.feed bs).tokens } := by
  induction as generalizing s with
  | nil => rfl
  | cons c as ih =>
      simp only [List.cons_append, feed] at h ⊢
      split
      · next hn =>
        rw [hn] at h
        cases h
      · next t before hn =>
        rw [hn] at h
        simp only [ih h, List.append_assoc]

/-- A text is scanned from where its first piece leaves the scanner. -/
theorem tokens_scan_append {s : Scanner} {as : List Char} (h : (s.feed as).fault = none)
    (bs : List Char) :
    (s.scan (as ++ bs)).tokens =
      (s.feed as).tokens ++ ((s.feed as).scanner.scan bs).tokens := by
  simp only [scan, feed_append h, List.append_assoc]

section Offset
variable {s t : Scanner} {g : Glyph} {mode : Mode} {ts : List Token}

@[simp] theorem offset_push : (s.push mode).1.offset = s.offset := rfl

@[simp] theorem offset_delimit : (s.delimit g).1.offset = s.offset := by
  simp only [delimit]
  split
  · rfl
  · split <;> rfl

@[simp] theorem offset_nextInWord : (s.nextInWord g).1.offset = s.offset := by
  simp only [nextInWord]
  split
  · rfl
  · split
    · rfl
    · split
      · rfl
      · split
        · rw [offset_delimit, offset_push]
        · split <;> rfl

@[simp] theorem offset_nextInitial : (s.nextInitial g).1.offset = s.offset := by
  simp only [nextInitial]
  split
  · rfl
  · split
    · rw [offset_delimit]
    · rw [offset_nextInWord]

@[simp] theorem offset_nextInQuotes : (s.nextInQuotes g).offset = s.offset := by
  simp only [nextInQuotes]
  split
  · rfl
  · split <;> rfl

theorem offset_pushOperator (h : s.pushOperator = .ok (t, ts)) : t.offset = s.offset := by
  rw [pushOperator] at h
  split at h <;> cases h
  rfl

theorem offset_nextAfterOperator (h : s.nextAfterOperator g = .ok (t, ts)) :
    t.offset = s.offset := by
  rw [nextAfterOperator] at h
  split at h
  · cases h
    rfl
  · cases hp : s.pushOperator with
    | error fault =>
        rw [hp] at h
        cases h
    | ok pushed =>
        rw [hp] at h
        cases h
        exact offset_nextInitial.trans (offset_pushOperator hp)

theorem offset_dispatch (h : s.dispatch g = .ok (t, ts)) : t.offset = s.offset := by
  rw [dispatch] at h
  split at h
  · rw [← offset_nextInitial (s := s) (g := g), Except.ok.inj h]
  · rw [← offset_nextInWord (s := s) (g := g), Except.ok.inj h]
  · cases h
    exact offset_nextInQuotes
  · exact offset_nextAfterOperator h
  · cases h

theorem offset_next {c : Char} (h : s.next c = .ok (t, ts)) : t.offset = s.offset + 1 := by
  cases hd : s.dispatch (s.glyph c) with
  | error fault =>
      rw [next, hd] at h
      cases h
  | ok after =>
      rw [next_of_dispatch rfl hd] at h
      cases h
      exact congrArg (· + 1) (offset_dispatch hd)

theorem offset_feed {cs : List Char} (h : (s.feed cs).fault = none) :
    (s.feed cs).scanner.offset = s.offset + cs.length := by
  induction cs generalizing s with
  | nil => rfl
  | cons c cs ih =>
      simp only [feed] at h ⊢
      split
      · next hn =>
        rw [hn] at h
        cases h
      · next hn =>
        rw [hn] at h
        rw [ih h, offset_next hn, List.length_cons, Nat.add_assoc, Nat.add_comm 1]

theorem offset_finish : s.finish.scanner.offset = s.offset := by
  rw [finish]
  split
  · split
    · rfl
    · next pushed _ hp => exact (offset_pushOperator hp : pushed.offset = s.offset)
  · simp only [offset_push, settle]
    split <;> rfl

end Offset

theorem fault_feed_new (cs : List Char) : (new.feed cs).fault = none :=
  new_eq_ready ▸ scan_ready.1

theorem fault_scan_new (cs : List Char) : (new.scan cs).fault = none :=
  new_eq_ready ▸ scan_ready.2.1

end ShellGrammar.Scanner
