import Mathlib.Data.List.DropRight
import Prefork.Text.Blank

namespace Prefork.Text

theorem trim_eq (cs : List Char) : trim cs = (cs.dropWhile isBlank).rdropWhile isBlank := rfl

theorem infix_trim (cs : List Char) : trim cs <:+: cs :=
  (List.rdropWhile_prefix isBlank _).isInfix.trans (List.dropWhile_suffix isBlank).isInfix

theorem trim_trim (cs : List Char) : trim (trim cs) = trim cs := by
  have hfront : (trim cs).dropWhile isBlank = trim cs := by
    rw [List.dropWhile_eq_self_iff]
    intro hl
    have hp : trim cs <+: cs.dropWhile isBlank := List.rdropWhile_prefix isBlank _
    rw [hp.getElem hl]
    exact List.dropWhile_get_zero_not isBlank cs _
  rw [trim_eq (trim cs), hfront, trim_eq, List.rdropWhile_idempotent]

theorem trim_cons {c : Char} (h : isBlank c = true) (cs : List Char) : trim (c :: cs) = trim cs := by
  rw [trim, List.dropWhile_cons_of_pos h, trim]

/-- Only the 26 capital letters change, to characters that are no capital letters. -/
theorem toLower_cases (c : Char) :
    c.isUpper = false ∧ c.toLower = c ∨
      c.isUpper = true ∧ 65 ≤ c.toNat ∧ c.toNat ≤ 90 ∧ c.toLower.toNat = c.toNat + 32 := by
  by_cases h : c.val ≥ 'A'.val ∧ c.val ≤ 'Z'.val
  · have hl : 65 ≤ c.toNat := UInt32.le_iff_toNat_le.1 h.1
    have hu : c.toNat ≤ 90 := UInt32.le_iff_toNat_le.1 h.2
    have hc : c.toLower.toNat = (c.toNat + 32) % 4294967296 :=
      congrArg Char.toNat (dif_pos h : c.toLower = _)
    exact .inr ⟨decide_eq_true h, hl, hu, by omega⟩
  · exact .inl ⟨decide_eq_false h, dif_neg h⟩

theorem toLower_of_isUpper_eq_false {c : Char} (h : c.isUpper = false) : c.toLower = c := by
  rcases toLower_cases c with ⟨-, hc⟩ | ⟨hu, -⟩
  · exact hc
  · rw [h] at hu
    cases hu

theorem isUpper_toLower (c : Char) : c.toLower.isUpper = false := by
  rcases toLower_cases c with ⟨hu, hc⟩ | ⟨-, hl, -, hn⟩
  · rw [hc, hu]
  · refine decide_eq_false fun h ↦ ?_
    have hz : c.toLower.toNat ≤ 90 := UInt32.le_iff_toNat_le.1 h.2
    omega

theorem isBlank_toLower (c : Char) : isBlank c.toLower = isBlank c := by
  rcases toLower_cases c with ⟨-, hc⟩ | ⟨-, hl, hu, hn⟩
  · rw [hc]
  · have hletter {d : Char} (hl : 65 ≤ d.toNat) (hu : d.toNat ≤ 122) : isBlank d = false := by
      simp only [isBlank, Bool.or_eq_false_iff, Bool.and_eq_false_iff, decide_eq_false_iff_not,
        beq_eq_false_iff_ne]
      omega
    have hc := hletter hl (by omega)
    have hd : isBlank c.toLower = false := hletter (by omega) (by omega)
    rw [hc, hd]

theorem toLower_eq_iff {d : Char} (hd : d.toNat < 65) (c : Char) : c.toLower = d ↔ c = d := by
  rcases toLower_cases c with ⟨-, hc⟩ | ⟨-, hl, -, hn⟩
  · rw [hc]
  · constructor
    · rintro rfl
      omega
    · rintro rfl
      omega

theorem trim_map_toLower (cs : List Char) :
    trim (cs.map Char.toLower) = (trim cs).map Char.toLower := by
  have hblank : isBlank ∘ Char.toLower = isBlank := funext isBlank_toLower
  rw [trim, List.dropWhile_map, ← List.map_reverse, hblank, List.dropWhile_map, ← List.map_reverse,
    hblank, trim]

end Prefork.Text
