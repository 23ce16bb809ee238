namespace Prefork.Text

variable {α : Type} [BEq α]

def findFrom (pattern : List α) (index : Nat) : List α → Option Nat
  | [] => if pattern.isEmpty then some index else none
  | x :: xs =>
    if pattern.isPrefixOf (x :: xs) then some index else findFrom pattern (index + 1) xs

def find? (pattern xs : List α) : Option Nat := findFrom pattern 0 xs

/-- The pieces of a list between the occurrences of `separator`, found from the left without
overlap. `skip` elements of an occurrence are still to be passed over; `piece` is reversed. -/
def piecesFrom (separator : List α) (skip : Nat) (piece : List α) : List α → List (List α)
  | [] => [piece.reverse]
  | x :: xs =>
    if 0 < skip then piecesFrom separator (skip - 1) piece xs
    else if separator.isPrefixOf (x :: xs) then
      piece.reverse :: piecesFrom separator (separator.length - 1) [] xs
    else piecesFrom separator 0 (x :: piece) xs

def pieces (separator xs : List α) : List (List α) := piecesFrom separator 0 [] xs

def cut? (mark : α) (xs : List α) : Option (List α × List α) :=
  match xs.dropWhile (· != mark) with
  | [] => none
  | _ :: behind => some (xs.takeWhile (· != mark), behind)

def before (p : α → Bool) (xs : List α) : List α := xs.takeWhile fun x ↦ !p x

def behind (p : α → Bool) (xs : List α) : List α := (xs.dropWhile fun x ↦ !p x).drop 1

variable [LawfulBEq α]

theorem isSome_findFrom {pattern : List α} (hp : pattern ≠ []) (i : Nat) (xs : List α) :
    (findFrom pattern i xs).isSome ↔ pattern <:+: xs := by
  induction xs generalizing i with
  | nil => simp [findFrom, hp]
  | cons x xs ih =>
    rw [findFrom, List.infix_cons_iff, ← List.isPrefixOf_iff_prefix]
    split <;> simp_all

theorem isSome_find? {pattern : List α} (hp : pattern ≠ []) (xs : List α) :
    (find? pattern xs).isSome ↔ pattern <:+: xs := isSome_findFrom hp 0 xs

omit [BEq α] [LawfulBEq α] in
/-- What occurs only in a longer list reaches into the part behind the shorter one. -/
theorem infix_append_iff {pattern front back more : List α} (h : ¬ pattern <:+: front ++ back)
    (hl : pattern.length ≤ back.length + 1) :
    pattern <:+: front ++ back ++ more ↔ pattern <:+: back ++ more := by
  constructor
  · rintro ⟨u, v, huv⟩
    have hlen : (front ++ back).length < u.length + pattern.length := by
      refine Nat.lt_of_not_le fun hle ↦
        h ⟨u, v.take ((front ++ back).length - (u ++ pattern).length), ?_⟩
      have := congrArg (List.take (front ++ back).length) huv
      rwa [List.take_left, List.take_append, List.take_of_length_le (by simpa using hle)] at this
    have := congrArg (List.drop front.length) huv
    rw [List.append_assoc front, List.drop_left, List.append_assoc,
      List.drop_append_of_le_length (by simp at hlen; omega), ← List.append_assoc] at this
    exact ⟨_, _, this⟩
  · rintro ⟨u, v, huv⟩
    exact ⟨front ++ u, v, by simp [← huv]⟩

end Prefork.Text
