import ShellGrammar.Json
import ShellGrammar.Proofs.Text.HexReading

/-!
Documents are ASCII. A character from 0x20 to 0x7e stands for itself, any other is written by an
escape of such characters, and the symbols between strings are ASCII themselves. What is written is
put in front of a rest, so each lemma passes the property on from the rest to the whole.
-/
namespace ShellGrammar.Json

variable {cs rest : List Char} {c : Char}

def Ascii (cs : List Char) : Prop := ∀ c ∈ cs, c.toNat < 0x80

instance (cs : List Char) : Decidable (Ascii cs) := List.decidableBAll _ cs

theorem Ascii.nil : Ascii [] := List.forall_mem_nil _

theorem Ascii.cons (hc : c.toNat < 0x80) (hcs : Ascii cs) : Ascii (c :: cs) :=
  List.forall_mem_cons.mpr ⟨hc, hcs⟩

theorem Ascii.append (hcs : Ascii cs) (hrest : Ascii rest) : Ascii (cs ++ rest) :=
  List.forall_mem_append.mpr ⟨hcs, hrest⟩

theorem ascii_unitEscape (n : Nat) : Ascii (unitEscape n) :=
  .cons (by decide) (.cons (by decide) fun _ h =>
    Nat.lt_of_le_of_lt (Text.mem_hexDigits_bounds h).2 (by decide))

theorem ascii_codePointEscape (n : Nat) : Ascii (codePointEscape n) := by
  unfold codePointEscape
  split
  · exact ascii_unitEscape n
  · exact (ascii_unitEscape _).append (ascii_unitEscape _)

theorem ascii_escapeChar (c : Char) : Ascii (escapeChar c) := by
  unfold escapeChar
  split
  · next h => rcases h with rfl | rfl <;> decide
  · iterate 5
      split
      · decide
    split
    · next hprintable => exact .cons (by omega) .nil
    · exact ascii_codePointEscape c.toNat

theorem ascii_renderString (text : String) (h : Ascii rest) : Ascii (renderString text rest) := by
  refine .cons (by decide) (.append (fun c hc => ?_) (.cons (by decide) h))
  obtain ⟨d, _, hd⟩ := List.mem_flatMap.mp hc
  exact ascii_escapeChar d c hd

theorem ascii_newline (pad : Nat) (h : Ascii rest) : Ascii (newline pad rest) :=
  .cons (by decide) (.append (fun c hc => (List.eq_of_mem_replicate hc) ▸ (by decide)) h)

mutual

theorem ascii_render {rest : List Char} (pad : Nat) (h : Ascii rest) :
    (v : Json) → Ascii (v.render pad rest)
  | null => .cons (by decide) (.cons (by decide) (.cons (by decide) (.cons (by decide) h)))
  | string s => ascii_renderString s h
  | array [] | object [] => .cons (by decide) (.cons (by decide) h)
  | array (v :: vs) =>
      .cons (by decide) (ascii_newline _ (ascii_render _
        (ascii_renderItems _ (ascii_newline pad (.cons (by decide) h)) vs) v))
  | object (f :: fs) =>
      .cons (by decide) (ascii_newline _ (ascii_renderField _
        (ascii_renderFields _ (ascii_newline pad (.cons (by decide) h)) fs) f))

theorem ascii_renderItems {rest : List Char} (pad : Nat) (h : Ascii rest) :
    (vs : List Json) → Ascii (renderItems pad rest vs)
  | [] => h
  | v :: vs => .cons (by decide)
      (ascii_newline pad (ascii_render pad (ascii_renderItems pad h vs) v))

theorem ascii_renderField {rest : List Char} (pad : Nat) (h : Ascii rest) :
    (f : String × Json) → Ascii (renderField pad rest f)
  | (key, v) =>
      ascii_renderString key (.cons (by decide) (.cons (by decide) (ascii_render pad h v)))

theorem ascii_renderFields {rest : List Char} (pad : Nat) (h : Ascii rest) :
    (fs : List (String × Json)) → Ascii (renderFields pad rest fs)
  | [] => h
  | f :: fs => .cons (by decide)
      (ascii_newline pad (ascii_renderField pad (ascii_renderFields pad h fs) f))

end

theorem ascii_pretty (v : Json) : Ascii v.pretty.toList := by
  rw [pretty, String.toList_ofList]
  exact ascii_render 0 .nil v

end ShellGrammar.Json
