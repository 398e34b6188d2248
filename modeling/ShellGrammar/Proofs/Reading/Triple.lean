import ShellGrammar.Reader

/-!
Specifications of readers. `r.Meets done ts Q E` says what `r` makes of the tokens `ts` when
`done` has been read before: the tokens that it takes move from the front of `ts` to the end of
`done`, and then `Q` holds of all that has been read, of the result and of what is left, or, if
the reader stops, `E` holds of all that has been read and of the stop. Each way of building readers
has its rule; the one for `many` asks for an invariant. Only tokens whose texts suit their kinds
are considered.
-/
namespace ShellGrammar.Reader
variable {α β : Type}

theorem nextIs_cons {kinds : List Token.Kind} {t : Token} {ts : List Token} :
    nextIs kinds (t :: ts) = false ↔ t.kind ∉ kinds := by
  simp [nextIs]

theorem nextIs_append (kinds more : List Token.Kind) (ts : List Token) :
    nextIs (kinds ++ more) ts = (nextIs kinds ts || nextIs more ts) := by
  cases ts <;> simp [nextIs]

def Ends (done ts : List Token) (Q : List Token → α → List Token → Prop)
    (E : List Token → Stop → Prop) : Except Stop (α × List Token) → Prop
  | .ok (a, rest) => ∃ taken, ts = taken ++ rest ∧ Q (done ++ taken) a rest
  | .error stop => ∃ taken, ts = taken ++ stop.rest ∧ E (done ++ taken) stop

def Meets (r : Reader α) (done ts : List Token) (Q : List Token → α → List Token → Prop)
    (E : List Token → Stop → Prop) : Prop :=
  (∀ t ∈ ts, t.WellSpelled) → Ends done ts Q E (r.read ts)

section Ends
variable {done ts us : List Token} {P Q : List Token → α → List Token → Prop}
  {D E : List Token → Stop → Prop} {result : Except Stop (α × List Token)}

theorem Ends.ok {a : α} (h : Q done a ts) : Ends done ts Q E (.ok (a, ts)) :=
  ⟨[], rfl, by rwa [List.append_nil]⟩

theorem Ends.error {reason : Reason} {opened : Nat} (h : E done ⟨reason, ts, opened⟩) :
    Ends done ts Q E (.error ⟨reason, ts, opened⟩) :=
  ⟨[], rfl, by rwa [List.append_nil]⟩

/-- Tokens taken earlier count as taken. -/
theorem Ends.after (h : Ends (done ++ us) ts Q E result) : Ends done (us ++ ts) Q E result := by
  cases result with
  | ok p | error stop =>
      obtain ⟨taken, ht, hq⟩ := h
      exact ⟨us ++ taken, by rw [ht, List.append_assoc], by rwa [← List.append_assoc]⟩

theorem Ends.mono (h : Ends done ts P D result) (hQ : ∀ us a rest, P us a rest → Q us a rest)
    (hE : ∀ us stop, D us stop → E us stop) : Ends done ts Q E result := by
  cases result with
  | ok p =>
      obtain ⟨taken, ht, hp⟩ := h
      exact ⟨taken, ht, hQ _ _ _ hp⟩
  | error stop =>
      obtain ⟨taken, ht, hd⟩ := h
      exact ⟨taken, ht, hE _ _ hd⟩

end Ends

namespace Meets
variable {r : Reader α} {next : α → Reader β} {done ts : List Token}
  {P Q : List Token → α → List Token → Prop} {R : List Token → β → List Token → Prop}
  {D E : List Token → Stop → Prop} {kinds : List Token.Kind}

theorem mono (h : r.Meets done ts P D) (hQ : ∀ us a rest, P us a rest → Q us a rest)
    (hE : ∀ us stop, D us stop → E us stop) : r.Meets done ts Q E :=
  fun hs => (h hs).mono hQ hE

theorem pure {a : α} (h : Q done a ts) : (Pure.pure a : Reader α).Meets done ts Q E :=
  fun _ => .ok h

theorem bind (h : r.Meets done ts (fun us a rest => (next a).Meets us rest R E) E) :
    (r >>= next).Meets done ts R E := by
  intro hs
  have hr := h hs
  rw [read_bind]
  cases hread : r.read ts with
  | ok p =>
      rw [hread] at hr
      obtain ⟨taken, rfl, hn⟩ := hr
      exact (hn fun t ht => hs t (List.mem_append_right _ ht)).after
  | error stop =>
      rw [hread] at hr
      exact hr

theorem stop {reason : Reason} (h : E done ⟨reason, ts, 0⟩) :
    (Reader.stop reason : Reader α).Meets done ts Q E :=
  fun _ => .error h

theorem lift {a : α} {e : Except BuildError α} (he : e = .ok a) (h : Q done a ts) :
    (Reader.lift e).Meets done ts Q E := by
  subst he
  exact pure h

theorem upcoming {Q : List Token → Bool → List Token → Prop} (h : Q done (nextIs kinds ts) ts) :
    (Reader.upcoming kinds).Meets done ts Q E :=
  fun _ => .ok h

theorem expect {Q : List Token → Token → List Token → Prop}
    (hit : ∀ t rest, ts = t :: rest → t.WellSpelled → t.kind ∈ kinds → Q (done ++ [t]) t rest)
    (miss : nextIs kinds ts = false → E done ⟨.fault (.unmet kinds), ts, 0⟩) :
    (Reader.expect kinds).Meets done ts Q E := by
  intro hs
  cases ts with
  | nil => exact .error (miss rfl)
  | cons t ts =>
      by_cases hk : t.kind ∈ kinds
      · have hq := hit t ts rfl (hs t List.mem_cons_self) hk
        simpa [Reader.expect, hk] using (Ends.ok hq).after
      · simpa [Reader.expect, hk] using Ends.error (miss (nextIs_cons.mpr hk))

theorem inside (h : r.Meets done ts Q fun us stop => E us { stop with opened := stop.opened + 1 }) :
    r.inside.Meets done ts Q E := by
  intro hs
  have hr := h hs
  cases hread : r.read ts with
  | ok p =>
      rw [hread] at hr
      simp only [Reader.inside, hread]
      exact hr
  | error stop =>
      rw [hread] at hr
      simp only [Reader.inside, hread]
      exact hr

section Many
variable {item : Token → Reader α} {Q : List Token → List α → List Token → Prop}
  {I : List Token → List α → List Token → Prop}
  (step : ∀ us as t rest, t.WellSpelled → t.kind ∈ kinds → I us as (t :: rest) →
    (item t).Meets (us ++ [t]) rest (fun us a rest => I us (as ++ [a]) rest) E)
include step

/-- One item has been read, and the loop goes on behind it. -/
theorem ends_of_item {middle : List Token} {as : List α} {t : Token} {a : α}
    {result : Except Stop (List α × List Token)} (hs : ∀ u ∈ t :: ts, u.WellSpelled)
    (hk : t.kind ∈ kinds) (hi : I done as (t :: ts)) (ha : (item t).read ts = .ok (a, middle))
    (hloop : ∀ done as, I done as middle → (∀ u ∈ middle, u.WellSpelled) →
      Ends done middle (fun us more rest => Q us (as ++ more) rest) E result) :
    Ends done (t :: ts) (fun us more rest => Q us (as ++ [a] ++ more) rest) E result := by
  obtain ⟨ht, hts⟩ := List.forall_mem_cons.mp hs
  have hitem := step done as t ts ht hk hi hts
  rw [ha] at hitem
  obtain ⟨taken, htaken, hi'⟩ := hitem
  rw [htaken] at hts ⊢
  exact (hloop _ _ hi' (List.forall_mem_append.mp hts).2).after.after

/-- The loop goes on from any items that have been read before. -/
theorem readMany_ends
    (last : ∀ us as rest, nextIs kinds rest = false → I us as rest → Q us as rest)
    (hs : ∀ t ∈ ts, t.WellSpelled) {as : List α} (hi : I done as ts) :
    Ends done ts (fun us more rest => Q us (as ++ more) rest) E (readMany kinds item ts) := by
  fun_induction readMany kinds item ts generalizing done as with
  | case1 => exact .ok (by simpa using last _ _ _ rfl hi)
  | case2 t ts hk a middle ha more rest hm ih =>
      have hmore := ends_of_item step hs (by simpa using hk) hi ha fun _ _ hi hs => ih hs hi
      rw [hm] at hmore
      obtain ⟨others, hothers, hq⟩ := hmore
      exact ⟨others, hothers, by simpa using hq⟩
  | case3 t ts hk a middle ha stop hm ih =>
      have hmore := ends_of_item step hs (by simpa using hk) hi ha fun _ _ hi hs => ih hs hi
      rw [hm] at hmore
      exact hmore
  | case4 t ts hk stop ha =>
      obtain ⟨ht, hts⟩ := List.forall_mem_cons.mp hs
      have hitem := step done as t ts ht (by simpa using hk) hi hts
      rw [ha] at hitem
      exact hitem.after
  | case5 t ts hk =>
      exact .ok (by simpa using last _ _ _ (nextIs_cons.mpr (by simpa using hk)) hi)

end Many

/-- The invariant `I` relates what has been read, the items read so far and what is left. -/
theorem many {item : Token → Reader α} {Q : List Token → List α → List Token → Prop}
    (I : List Token → List α → List Token → Prop) (first : I done [] ts)
    (step : ∀ us as t rest, t.WellSpelled → t.kind ∈ kinds → I us as (t :: rest) →
      (item t).Meets (us ++ [t]) rest (fun us a rest => I us (as ++ [a]) rest) E)
    (last : ∀ us as rest, nextIs kinds rest = false → I us as rest → Q us as rest) :
    (Reader.many kinds item).Meets done ts Q E := by
  intro hs
  exact (readMany_ends step last hs first).mono (fun us more rest h => by simpa using h)
    fun _ _ h => h

end Meets
end ShellGrammar.Reader
