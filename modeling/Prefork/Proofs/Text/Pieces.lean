import Prefork.Text.Split

namespace Prefork.Text

variable {α : Type} {x : α} {separator front xs : List α}

/-- What occurs around an element that is not in it occurs on one side of it. -/
theorem infix_append_cons {pattern : List α} (hx : x ∉ pattern) {back : List α}
    (h : pattern <:+: front ++ x :: back) : pattern <:+: front ∨ pattern <:+: back := by
  induction front with
  | nil =>
    rcases List.infix_cons_iff.1 h with hp | hi
    · cases pattern with
      | nil => exact .inl List.nil_infix
      | cons y pattern =>
        obtain ⟨rfl, -⟩ := List.cons_prefix_cons.1 hp
        exact absurd List.mem_cons_self hx
    · exact .inr hi
  | cons y front ih =>
    rcases List.infix_cons_iff.1 h with hp | hi
    · -- A longer one would reach over the element.
      refine .inl (List.prefix_of_prefix_length_le hp (List.prefix_append (y :: front) _)
        (Nat.le_of_not_lt fun hlt ↦ hx ?_)).isInfix
      have hover : (y :: front) ++ [x] <+: pattern :=
        List.prefix_of_prefix_length_le (List.prefix_append_right_inj (y :: front) |>.2 ⟨back, rfl⟩)
          hp (by rw [List.length_append]; exact hlt)
      exact hover.subset (List.mem_append_right _ List.mem_cons_self)
    · exact (ih hi).imp_left fun hf ↦ List.infix_cons hf

variable [BEq α] [LawfulBEq α]

theorem pieces_eq_singleton (h : ¬ separator <:+: xs) : pieces separator xs = [xs] := by
  have hfrom (piece : List α) : piecesFrom separator 0 piece xs = [piece.reverse ++ xs] := by
    induction xs generalizing piece with
    | nil => rw [piecesFrom, List.append_nil]
    | cons y ys ih =>
      rw [List.infix_cons_iff, not_or, ← List.isPrefixOf_iff_prefix] at h
      rw [piecesFrom, if_neg (Nat.lt_irrefl 0), if_neg h.1, ih h.2, List.reverse_cons,
        List.append_assoc, List.singleton_append]
  exact hfrom []

omit [LawfulBEq α] in
theorem piecesFrom_drop (separator piece passed rest : List α) :
    piecesFrom separator passed.length piece (passed ++ rest) =
      piecesFrom separator 0 piece rest := by
  induction passed with
  | nil => rfl
  | cons y passed ih =>
    rw [List.cons_append, List.length_cons, piecesFrom, if_pos (Nat.succ_pos _),
      Nat.add_sub_cancel, ih]

omit [BEq α] [LawfulBEq α] in
/-- No separator reaches into the next one. -/
theorem prefix_of_prefix_separator (hx : x ∉ separator) {rest : List α} (hf : front ≠ [])
    (h : x :: separator <+: front ++ (x :: separator ++ rest)) : x :: separator <+: front := by
  refine List.prefix_of_prefix_length_le h (List.prefix_append ..) (Nat.le_of_not_lt fun hlt ↦ hx ?_)
  have hover : front ++ [x] <+: x :: separator :=
    List.prefix_of_prefix_length_le ((List.prefix_append_right_inj front).2 ⟨separator ++ rest, rfl⟩)
      h (by rw [List.length_append]; exact hlt)
  cases front with
  | nil => exact absurd rfl hf
  | cons y front =>
    obtain ⟨-, htail⟩ := List.cons_prefix_cons.1 hover
    exact htail.subset (List.mem_append_right _ List.mem_cons_self)

theorem piecesFrom_append (hx : x ∉ separator) {skip : Nat} (hs : skip ≤ front.length)
    (piece rest : List α) :
    piecesFrom (x :: separator) skip piece (front ++ (x :: separator ++ rest)) =
      piecesFrom (x :: separator) skip piece front ++ pieces (x :: separator) rest := by
  induction front generalizing skip piece with
  | nil =>
    obtain rfl : skip = 0 := Nat.le_zero.1 hs
    have hp : (x :: separator).isPrefixOf (x :: (separator ++ rest)) :=
      List.isPrefixOf_iff_prefix.2 (List.prefix_append (x :: separator) rest)
    have hnil : piecesFrom (x :: separator) 0 piece [] = [piece.reverse] := rfl
    rw [hnil, List.nil_append, List.cons_append, piecesFrom, if_neg (Nat.lt_irrefl 0), if_pos hp,
      List.length_cons, Nat.add_sub_cancel, piecesFrom_drop, pieces, List.singleton_append]
  | cons y front ih =>
    rw [List.length_cons] at hs
    rw [List.cons_append, piecesFrom, piecesFrom]
    split
    · exact ih (by omega) piece
    · by_cases hp : x :: separator <+: y :: front
      · have hlonger := hp.trans (List.prefix_append (y :: front) (x :: separator ++ rest))
        have hl := hp.length_le
        simp only [List.length_cons] at hl
        rw [List.cons_append] at hlonger
        rw [if_pos (List.isPrefixOf_iff_prefix.2 hlonger),
          if_pos (List.isPrefixOf_iff_prefix.2 hp), List.length_cons, Nat.add_sub_cancel,
          ih (by omega), List.cons_append]
      · have hlonger : ¬ x :: separator <+: y :: (front ++ (x :: separator ++ rest)) := fun h ↦
          hp (prefix_of_prefix_separator hx (List.cons_ne_nil y front) h)
        rw [if_neg fun h ↦ hlonger (List.isPrefixOf_iff_prefix.1 h),
          if_neg fun h ↦ hp (List.isPrefixOf_iff_prefix.1 h)]
        exact ih (Nat.zero_le _) _

theorem pieces_append (hx : x ∉ separator) (front rest : List α) :
    pieces (x :: separator) (front ++ (x :: separator ++ rest)) =
      pieces (x :: separator) front ++ pieces (x :: separator) rest :=
  piecesFrom_append hx (Nat.zero_le _) [] rest

theorem pieces_intercalate (hx : x ∉ separator) {first : List α} {others : List (List α)}
    (h : ∀ piece ∈ first :: others, ¬ x :: separator <:+: piece) :
    pieces (x :: separator) ((x :: separator).intercalate (first :: others)) = first :: others := by
  induction others generalizing first with
  | nil =>
    rw [List.intercalate_singleton]
    exact pieces_eq_singleton (h first List.mem_cons_self)
  | cons second others ih =>
    rw [List.intercalate_cons_cons, List.append_assoc, pieces_append hx,
      pieces_eq_singleton (h first List.mem_cons_self),
      ih fun piece hp ↦ h piece (List.mem_cons_of_mem first hp), List.singleton_append]

/-- Pieces are parts of the list without a separator in them. -/
theorem mem_pieces (hx : x ∉ separator) {piece : List α} (xs : List α)
    (h : piece ∈ pieces (x :: separator) xs) :
    piece <:+: xs ∧ ¬ x :: separator <:+: piece := by
  by_cases hi : x :: separator <:+: xs
  · obtain ⟨front, rest, hxs⟩ := hi
    have hl := congrArg List.length hxs
    simp only [List.length_append, List.length_cons] at hl
    rw [← hxs, List.append_assoc, pieces_append hx] at h
    rw [← hxs, List.append_assoc]
    rcases List.mem_append.1 h with h | h
    · obtain ⟨hpiece, hnone⟩ := mem_pieces hx front h
      exact ⟨hpiece.trans (List.prefix_append ..).isInfix, hnone⟩
    · obtain ⟨hpiece, hnone⟩ := mem_pieces hx rest h
      refine ⟨hpiece.trans ?_, hnone⟩
      exact ((List.suffix_append _ rest).trans (List.suffix_append _ _)).isInfix
  · rw [pieces_eq_singleton hi, List.mem_singleton] at h
    subst h
    exact ⟨List.infix_rfl, hi⟩
termination_by xs.length

theorem nil_mem_pieces (hx : x ∉ separator)
    (h : (x :: separator) ++ (x :: separator) <:+: xs) : [] ∈ pieces (x :: separator) xs := by
  obtain ⟨front, rest, rfl⟩ := h
  have hempty : pieces (x :: separator) ([] ++ (x :: separator ++ rest)) =
      [] :: pieces (x :: separator) rest := pieces_append hx [] rest
  rw [List.nil_append] at hempty
  rw [List.append_assoc, List.append_assoc, pieces_append hx, hempty]
  exact List.mem_append_right _ List.mem_cons_self

theorem cut?_append (h : x ∉ front) (rest : List α) :
    cut? x (front ++ x :: rest) = some (front, rest) := by
  have hf : ∀ y ∈ front, (y != x) = true := by
    intro y hy
    rw [bne_iff_ne]
    rintro rfl
    exact h hy
  rw [cut?, List.dropWhile_append_of_pos hf, List.takeWhile_append_of_pos hf]
  simp

theorem eq_of_cut? {rest : List α} (h : cut? x xs = some (front, rest)) :
    xs = front ++ x :: rest ∧ x ∉ front := by
  rw [cut?] at h
  split at h
  · cases h
  · next y behind hd =>
    cases h
    have hy : (y != x) = false := by
      have hn := List.head_dropWhile_not (· != x) (l := xs) (by rw [hd]; exact List.cons_ne_nil _ _)
      simpa [hd] using hn
    obtain rfl : y = x := by simpa using hy
    refine ⟨?_, fun hm ↦ ?_⟩
    · have hboth := List.takeWhile_append_dropWhile (p := (· != y)) (l := xs)
      rw [hd] at hboth
      exact hboth.symm
    · have hne := List.all_eq_true.1 List.all_takeWhile y hm
      simp at hne

end Prefork.Text
