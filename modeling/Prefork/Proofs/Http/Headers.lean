import Prefork.Http.Headers

namespace Prefork.Http

open Text (sameFolded fold)

theorem sameFolded_iff {s t : String} : sameFolded s t ↔ fold s = fold t := beq_iff_eq

theorem sameFolded_comm (s t : String) : sameFolded s t = sameFolded t s := by
  rw [Bool.eq_iff_iff, sameFolded_iff, sameFolded_iff, eq_comm]

theorem sameFolded_congr {s t : String} (h : sameFolded s t) (u : String) :
    sameFolded u s = sameFolded u t := by
  rw [Bool.eq_iff_iff, sameFolded_iff, sameFolded_iff, sameFolded_iff.1 h]

namespace Headers

theorem entries_set (h : Headers) (name value : String) :
    (h.set name value).entries =
      (h.entries.filter fun e ↦ !sameFolded e.1 name) ++ [(name, value)] := rfl

theorem get?_eq_head? (h : Headers) (name : String) : h.get? name = (h.getAll name).head? := by
  rw [get?, getAll, List.head?_map, List.head?_filter]

theorem getAll_congr {name other : String} (h : Headers) (hn : sameFolded name other) :
    h.getAll name = h.getAll other := by
  rw [getAll, getAll]
  simp only [sameFolded_congr hn]

theorem getAll_append (h : Headers) (name value other : String) :
    (h.append name value).getAll other =
      h.getAll other ++ if sameFolded name other then [value] else [] := by
  rw [getAll, append, List.filter_append, List.map_append]
  cases hn : sameFolded name other with
  | false => simp [getAll, hn]
  | true => simp [getAll, hn]

theorem getAll_erase (h : Headers) (name : String) : (h.erase name).getAll name = [] := by
  have hnone (e : String × String) : (sameFolded e.1 name && !sameFolded e.1 name) = false :=
    Bool.and_not_self _
  rw [getAll, erase, List.filter_filter]
  simp [hnone]

theorem getAll_erase_of_ne {name other : String} (h : Headers) (hn : sameFolded name other = false) :
    (h.erase name).getAll other = h.getAll other := by
  have hkept (e : String × String) :
      (sameFolded e.1 other && !sameFolded e.1 name) = sameFolded e.1 other := by
    cases he : sameFolded e.1 other with
    | false => rfl
    | true =>
      have hne : sameFolded name e.1 = false := by rw [sameFolded_congr he, hn]
      rw [sameFolded_comm, hne]
      rfl
  rw [getAll, erase, List.filter_filter]
  simp [hkept, getAll]

theorem getAll_set (h : Headers) (name value other : String) :
    (h.set name value).getAll other =
      if sameFolded name other then [value] else h.getAll other := by
  rw [set, getAll_append]
  cases hn : sameFolded name other with
  | true =>
    rw [← getAll_congr _ hn, getAll_erase]
    rfl
  | false => simp [getAll_erase_of_ne h hn]

theorem hasToken_erase (h : Headers) (name token : String) :
    (h.erase name).hasToken name token = false := by
  rw [hasToken, getAll_erase, List.any_nil]

/-- The last field of each name, in the order of these. -/
def latest : List (String × String) → List (String × String)
  | [] => []
  | f :: fields =>
    if fields.any fun e ↦ sameFolded e.1 f.1 then latest fields else f :: latest fields

theorem entries_foldl_set (fields : List (String × String)) (h : Headers) :
    (fields.foldl (fun h f ↦ h.set f.1 f.2) h).entries =
      (h.entries.filter fun e ↦ !fields.any fun f ↦ sameFolded f.1 e.1) ++ latest fields := by
  induction fields generalizing h with
  | nil =>
    rw [List.foldl_nil, latest, List.append_nil]
    exact (List.filter_eq_self.2 fun _ _ ↦ rfl).symm
  | cons f fields ih =>
    rw [List.foldl_cons, ih, entries_set, List.filter_append, List.filter_filter, latest]
    have hpred (e : String × String) :
        (!fields.any (fun g ↦ sameFolded g.1 e.1) && !sameFolded e.1 f.1) =
          !(f :: fields).any fun g ↦ sameFolded g.1 e.1 := by
      rw [List.any_cons, Bool.not_or, Bool.and_comm, sameFolded_comm]
    simp only [hpred, List.append_assoc]
    congr 1
    cases hf : fields.any fun e ↦ sameFolded e.1 f.1 <;> simp [hf]

/-- Of one name there is just the last field. -/
theorem filter_latest (fields : List (String × String)) (name : String) :
    ((latest fields).filter fun e ↦ sameFolded e.1 name) =
      (fields.filter fun e ↦ sameFolded e.1 name).getLast?.toList := by
  induction fields with
  | nil => rfl
  | cons f fields ih =>
    rw [latest]
    cases hn : sameFolded f.1 name with
    | false =>
      have hskip : (f :: fields).filter (fun e ↦ sameFolded e.1 name) =
          fields.filter fun e ↦ sameFolded e.1 name := by
        simp [hn]
      rw [hskip, ← ih]
      split
      · rfl
      · simp [hn]
    | true =>
      have hsame (e : String × String) : sameFolded e.1 f.1 = sameFolded e.1 name :=
        sameFolded_congr hn e.1
      have htake : (f :: fields).filter (fun e ↦ sameFolded e.1 name) =
          f :: fields.filter fun e ↦ sameFolded e.1 name := by
        simp [hn]
      simp only [hsame]
      rw [htake]
      split
      · next hany =>
        obtain ⟨e, he, hen⟩ := List.any_eq_true.1 hany
        have hne : fields.filter (fun e ↦ sameFolded e.1 name) ≠ [] :=
          List.ne_nil_of_mem (List.mem_filter.2 ⟨he, hen⟩)
        rw [ih, List.getLast?_cons_of_ne_nil hne]
      · next hany =>
        have hnil : fields.filter (fun e ↦ sameFolded e.1 name) = [] := by
          rw [List.filter_eq_nil_iff]
          intro e he hen
          exact hany (List.any_eq_true.2 ⟨e, he, hen⟩)
        rw [hnil] at ih ⊢
        simp [hn, ih]

theorem get?_latest (fields : List (String × String)) (name : String) :
    (Headers.mk (latest fields)).get? name =
      (fields.filter fun e ↦ sameFolded e.1 name).getLast?.map (·.2) := by
  rw [get?_eq_head?, getAll, filter_latest]
  cases (fields.filter fun e ↦ sameFolded e.1 name).getLast? <;> rfl

end Headers

end Prefork.Http
