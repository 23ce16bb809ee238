import Prefork.Reading

namespace Prefork.Reading

variable {ε α β : Type}

def extend (r : Reading ε α) (more : Bytes) : Reading ε α :=
  match r with
  | incomplete missing => incomplete missing
  | invalid e => invalid e
  | complete a rest => complete a (rest ++ more)

def isIncomplete : Reading ε α → Bool
  | incomplete _ => true
  | invalid _ | complete _ _ => false

def isComplete : Reading ε α → Bool
  | complete _ _ => true
  | incomplete _ | invalid _ => false

theorem eq_incomplete {r : Reading ε α} (h : r.isIncomplete) : ∃ n, r = incomplete n := by
  cases r with
  | incomplete n => exact ⟨n, rfl⟩
  | invalid e => cases h
  | complete a rest => cases h

theorem take_of_lt {n : Nat} {b : Bytes} (h : b.length < n) :
    (take n b : Reading ε Bytes) = incomplete (n - b.length) := by
  rw [take, List.take_of_length_le (Nat.le_of_lt h), if_pos h]

theorem take_of_le {n : Nat} {b : Bytes} (h : n ≤ b.length) :
    (take n b : Reading ε Bytes) = complete (b.take n) (b.drop n) := by
  rw [take, List.length_take_of_le h, if_neg (Nat.lt_irrefl n)]

theorem take_append {n : Nat} {b : Bytes} (h : b.length = n) (rest : Bytes) :
    (take n (b ++ rest) : Reading ε Bytes) = complete b rest := by
  subst h
  rw [take_of_le (by rw [List.length_append]; omega), List.take_left, List.drop_left]

theorem andThen_eq_complete {r : Reading ε α} {next : α → Bytes → Reading ε β} {c : β}
    {rest : Bytes} (h : r.andThen next = .complete c rest) :
    ∃ a b, r = .complete a b ∧ next a b = .complete c rest := by
  cases r with
  | incomplete n => cases h
  | invalid e => cases h
  | complete a b => exact ⟨a, b, rfl, h⟩

theorem map_eq_complete {r : Reading ε α} {f : α → β} {c : β} {rest : Bytes}
    (h : r.map f = .complete c rest) : ∃ a, r = .complete a rest ∧ f a = c := by
  cases r with
  | incomplete n => cases h
  | invalid e => cases h
  | complete a b =>
    cases h
    exact ⟨a, rfl, rfl⟩

theorem andThen_eq_incomplete {r : Reading ε α} {next : α → Bytes → Reading ε β} {n : Nat}
    (h : r.andThen next = .incomplete n) :
    r = .incomplete n ∨ ∃ a b, r = .complete a b ∧ next a b = .incomplete n := by
  cases r with
  | incomplete m =>
    cases h
    exact .inl rfl
  | invalid e => cases h
  | complete a b => exact .inr ⟨a, b, rfl, h⟩

theorem map_eq_incomplete {r : Reading ε α} {f : α → β} {n : Nat} (h : r.map f = .incomplete n) :
    r = .incomplete n := by
  cases r with
  | incomplete m =>
    cases h
    rfl
  | invalid e | complete a b => cases h

theorem ofExcept_eq_complete {r : Except ε α} {b rest : Bytes} {a : α}
    (h : Reading.ofExcept b r = .complete a rest) : r = .ok a ∧ b = rest := by
  cases r with
  | error e => cases h
  | ok c =>
    cases h
    exact ⟨rfl, rfl⟩

theorem length_of_take {n : Nat} {b a rest : Bytes}
    (h : (Reading.take n b : Reading ε Bytes) = .complete a rest) : a.length = n := by
  rcases Nat.lt_or_ge b.length n with hl | hl
  · rw [take_of_lt hl] at h
    cases h
  · rw [take_of_le hl] at h
    cases h
    exact List.length_take_of_le hl

theorem append_of_take {n : Nat} {b a rest : Bytes}
    (h : (Reading.take n b : Reading ε Bytes) = .complete a rest) : b = a ++ rest := by
  rcases Nat.lt_or_ge b.length n with hl | hl
  · rw [take_of_lt hl] at h
    cases h
  · rw [take_of_le hl] at h
    cases h
    exact (List.take_append_drop n b).symm

theorem lt_of_take_incomplete {n m : Nat} {b : Bytes}
    (h : (Reading.take n b : Reading ε Bytes) = .incomplete m) : b.length < n := by
  refine Nat.lt_of_not_le fun hl ↦ ?_
  rw [take_of_le hl] at h
  cases h

/-- Along the stream, what has been decided stays decided in the same way. -/
def Steady (read : Bytes → Reading ε α) (s : Bytes) : Prop :=
  ∀ b more, b ++ more <+: s → (read b).isIncomplete = false → read (b ++ more) = (read b).extend more

/-- A reader that is steady on every stream, decides nothing before the bytes it reports missing
are there, and leaves what is behind the value. -/
structure Incremental (read : Bytes → Reading ε α) : Prop where
  steady (s : Bytes) : Steady read s
  waits {b more : Bytes} {n : Nat} :
    read b = incomplete n → more.length < n → (read (b ++ more)).isIncomplete
  suffix {b rest : Bytes} {a : α} : read b = complete a rest → rest <:+ b

namespace Steady

variable {read : Bytes → Reading ε α} {s b more rest : Bytes} {e : ε} {a : α}

theorem front (h : Steady read s) (hb : b <+: s) : Steady read b :=
  fun c more hc hd ↦ h c more (hc.trans hb) hd

theorem invalid (h : Steady read (b ++ more)) (hb : read b = .invalid e) :
    read (b ++ more) = .invalid e := by
  rw [h b more List.prefix_rfl (by rw [hb]; rfl), hb, extend]

theorem complete (h : Steady read (b ++ more)) (hb : read b = .complete a rest) :
    read (b ++ more) = .complete a (rest ++ more) := by
  rw [h b more List.prefix_rfl (by rw [hb]; rfl), hb, extend]

theorem andThen (h : Steady read s) {next : α → Bytes → Reading ε β}
    (hn : ∀ a, Incremental (next a)) : Steady (fun b ↦ (read b).andThen next) s := by
  intro b more hb hd
  have hs := h b more hb
  cases hr : read b with
  | incomplete n => simp [hr, Reading.andThen, isIncomplete] at hd
  | invalid e =>
    rw [hr] at hs
    simp only [hr, hs rfl, Reading.andThen, extend]
  | complete a rest =>
    rw [hr] at hs
    simp only [hr, Reading.andThen] at hd
    simp only [hr, hs rfl, Reading.andThen, extend]
    exact (hn a).steady (rest ++ more) rest more List.prefix_rfl hd

/-- No proper front of what is just read whole can be read. -/
theorem isIncomplete_front {message : Bytes} (h : Steady read message)
    (hm : read message = .complete a []) (hb : b <+: message) (hne : b ≠ message) :
    (read b).isIncomplete := by
  obtain ⟨more, rfl⟩ := hb
  cases hr : read b with
  | incomplete n => rfl
  | invalid e => cases (h.invalid hr).symm.trans hm
  | complete c rest =>
    have hc := (h.complete hr).symm.trans hm
    rw [Reading.complete.injEq, List.append_eq_nil_iff] at hc
    rw [hc.2.2, List.append_nil] at hne
    exact absurd rfl hne

end Steady

namespace Incremental

variable {read : Bytes → Reading ε α}

theorem andThen (h : Incremental read) {next : α → Bytes → Reading ε β}
    (hn : ∀ a, Incremental (next a)) : Incremental (fun b ↦ (read b).andThen next) where
  steady s := (h.steady s).andThen hn
  waits {b more n} hb hl := by
    cases hr : read b with
    | incomplete m =>
      simp only [hr, Reading.andThen, incomplete.injEq] at hb
      obtain ⟨k, hk⟩ := eq_incomplete (h.waits hr (hb ▸ hl))
      simp only [hk, Reading.andThen, isIncomplete]
    | invalid e => simp [hr, Reading.andThen] at hb
    | complete a rest =>
      simp only [hr, Reading.andThen] at hb
      simp only [(h.steady (b ++ more)).complete hr, Reading.andThen]
      exact (hn a).waits hb hl
  suffix {b last c} hb := by
    cases hr : read b with
    | incomplete n | invalid e => simp [hr, Reading.andThen] at hb
    | complete a rest =>
      simp only [hr, Reading.andThen] at hb
      exact ((hn a).suffix hb).trans (h.suffix hr)

theorem map (h : Incremental read) (f : α → β) : Incremental (fun b ↦ (read b).map f) where
  steady s b more hb hd := by
    have hs := h.steady s b more hb
    cases hr : read b with
    | incomplete n => simp [hr, Reading.map, isIncomplete] at hd
    | invalid e | complete a rest =>
      rw [hr] at hs
      simp only [hr, hs rfl, Reading.map, extend]
  waits {b more n} hb hl := by
    cases hr : read b with
    | incomplete m =>
      simp only [hr, Reading.map, incomplete.injEq] at hb
      obtain ⟨k, hk⟩ := eq_incomplete (h.waits hr (hb ▸ hl))
      simp only [hk, Reading.map, isIncomplete]
    | invalid e | complete a rest => simp [hr, Reading.map] at hb
  suffix {b last c} hb := by
    cases hr : read b with
    | incomplete n | invalid e => simp [hr, Reading.map] at hb
    | complete a rest =>
      simp only [hr, Reading.map, complete.injEq] at hb
      exact hb.2 ▸ h.suffix hr

theorem ofExcept (r : Except ε α) : Incremental (Reading.ofExcept · r) where
  steady s b more hb hd := by cases r <;> rfl
  waits {b more n} hb hl := by cases r <;> simp [Reading.ofExcept] at hb
  suffix {b rest a} hb := by
    cases r with
    | error e => simp [Reading.ofExcept] at hb
    | ok c =>
      simp only [Reading.ofExcept, complete.injEq] at hb
      exact hb.2 ▸ List.suffix_rfl

theorem complete (a : α) : Incremental (.complete a : Bytes → Reading ε α) where
  steady s b more hb hd := rfl
  waits hb hl := by cases hb
  suffix hb := by cases hb; exact List.suffix_rfl

theorem invalid (e : ε) : Incremental (fun _ ↦ .invalid e : Bytes → Reading ε α) where
  steady s b more hb hd := rfl
  waits hb hl := by cases hb
  suffix hb := by cases hb

theorem take (n : Nat) : Incremental (Reading.take n : Bytes → Reading ε Bytes) where
  steady s b more hb hd := by
    rcases Nat.lt_or_ge b.length n with hl | hl
    · rw [take_of_lt hl] at hd
      cases hd
    · rw [take_of_le hl, take_of_le (by rw [List.length_append]; omega), extend,
        List.take_append_of_le_length hl, List.drop_append_of_le_length hl]
  waits {b more m} hb hl := by
    rcases Nat.lt_or_ge b.length n with hn | hn
    · rw [take_of_lt hn] at hb
      cases hb
      rw [take_of_lt (by rw [List.length_append]; omega)]
      rfl
    · rw [take_of_le hn] at hb
      cases hb
  suffix {b rest a} hb := by
    rcases Nat.lt_or_ge b.length n with hn | hn
    · rw [take_of_lt hn] at hb
      cases hb
    · rw [take_of_le hn] at hb
      cases hb
      exact List.drop_suffix n b

end Incremental

end Prefork.Reading
