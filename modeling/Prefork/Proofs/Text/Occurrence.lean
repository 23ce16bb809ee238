import Prefork.Text.Split

namespace Prefork.Text

variable {α : Type} [BEq α] [LawfulBEq α]

theorem prefix_of_findFrom {pattern xs : List α} (hp : pattern ≠ []) {k i : Nat}
    (h : findFrom pattern k xs = some i) : ∃ j, i = k + j ∧ pattern <+: xs.drop j := by
  induction xs generalizing k with
  | nil => simp [findFrom, hp] at h
  | cons x xs ih =>
    rw [findFrom] at h
    split at h
    · next hx =>
      cases h
      exact ⟨0, rfl, List.isPrefixOf_iff_prefix.1 hx⟩
    · obtain ⟨j, hj, hs⟩ := ih h
      exact ⟨j + 1, by omega, by simpa using hs⟩

theorem length_le_of_findFrom {pattern xs : List α} (hp : pattern ≠ []) {k i : Nat}
    (h : findFrom pattern k xs = some i) : pattern.length ≤ xs.length := by
  obtain ⟨j, -, hs⟩ := prefix_of_findFrom hp h
  have hl := hs.length_le
  rw [List.length_drop] at hl
  omega

/-- What follows a list does not move the first occurrence in it. -/
theorem findFrom_append {pattern xs : List α} (hp : pattern ≠ []) {k i : Nat}
    (h : findFrom pattern k xs = some i) (more : List α) :
    findFrom pattern k (xs ++ more) = some i := by
  induction xs generalizing k with
  | nil => simp [findFrom, hp] at h
  | cons x xs ih =>
    rw [findFrom] at h
    rw [List.cons_append, findFrom]
    split at h
    · next hx =>
      have hx' : pattern <+: x :: (xs ++ more) :=
        (List.isPrefixOf_iff_prefix.1 hx).trans (List.prefix_append (x :: xs) more)
      rwa [if_pos (List.isPrefixOf_iff_prefix.2 hx')]
    · next hx =>
      -- The pattern fits into what is there, so no occurrence here can reach beyond it.
      have hl := length_le_of_findFrom hp h
      have hx' : ¬ pattern <+: x :: (xs ++ more) := fun hs ↦ hx <| List.isPrefixOf_iff_prefix.2 <|
        List.prefix_of_prefix_length_le hs (List.prefix_append (x :: xs) more)
          (by rw [List.length_cons]; omega)
      rw [if_neg fun hs ↦ hx' (List.isPrefixOf_iff_prefix.1 hs)]
      exact ih h

theorem find?_append {pattern xs : List α} (hp : pattern ≠ []) {i : Nat}
    (h : find? pattern xs = some i) (more : List α) : find? pattern (xs ++ more) = some i :=
  findFrom_append hp h more

theorem prefix_of_find? {pattern xs : List α} (hp : pattern ≠ []) {i : Nat}
    (h : find? pattern xs = some i) : pattern <+: xs.drop i := by
  obtain ⟨j, hj, hs⟩ := prefix_of_findFrom hp h
  rwa [hj, Nat.zero_add]

theorem add_length_le_of_find? {pattern xs : List α} (hp : pattern ≠ []) {i : Nat}
    (h : find? pattern xs = some i) : i + pattern.length ≤ xs.length := by
  have hl := (prefix_of_find? hp h).length_le
  have hpos := List.length_pos_iff.2 hp
  rw [List.length_drop] at hl
  omega

theorem find?_eq_none_iff {pattern : List α} (hp : pattern ≠ []) (xs : List α) :
    find? pattern xs = none ↔ ¬ pattern <:+: xs := by
  rw [← isSome_find? hp, Option.not_isSome_iff_eq_none]

/-- The first occurrence is found in what ends with it. -/
theorem find?_take {pattern xs : List α} (hp : pattern ≠ []) {i : Nat}
    (h : find? pattern xs = some i) : find? pattern (xs.take (i + pattern.length)) = some i := by
  have hi : pattern <:+: xs.take (i + pattern.length) := by
    apply List.IsInfix.trans _ (List.drop_suffix i _).isInfix
    rw [List.drop_take, Nat.add_sub_cancel_left]
    exact (List.prefix_take_iff.2 ⟨prefix_of_find? hp h, Nat.le_refl _⟩).isInfix
  obtain ⟨j, hj⟩ := Option.isSome_iff_exists.1 ((isSome_find? hp _).2 hi)
  have hx := find?_append hp hj (xs.drop (i + pattern.length))
  rw [List.take_append_drop, h] at hx
  rw [hj, hx]

end Prefork.Text
