import Mathlib.Tactic.ByContra
import Prefork.Coordination.Handles
import Prefork.Proofs.Text.Utf8

namespace Prefork.Coordination

namespace Slot

variable {s : Slot} {name other : Bytes}

theorem holds_iff : s.holds name = true ↔ s.isFree = false ∧ s.name = name := by
  simp [holds]

structure Fits (s : Slot) : Prop where
  width : s.key.length = width
  name : s.length.toNat ≤ Slot.width

theorem fits_zero : zero.Fits := ⟨List.length_replicate, by decide⟩

theorem length_name_le (h : s.Fits) : s.name.length ≤ width := by
  rw [Slot.name, List.length_take]
  have := h.name
  omega

theorem toNat_length_claim (h : name.length ≤ width) (value : Int64) :
    (claim name value).length.toNat = name.length :=
  UInt8.toNat_ofNat_of_lt' (Nat.lt_of_le_of_lt h (by decide))

theorem fits_claim (h : name.length ≤ width) (value : Int64) : (claim name value).Fits := by
  constructor
  · rw [claim, List.length_append, List.length_replicate]
    omega
  · rw [toNat_length_claim h]
    exact h

theorem name_claim (h : name.length ≤ width) (value : Int64) : (claim name value).name = name := by
  rw [Slot.name, toNat_length_claim h, claim, List.take_left]

theorem holds_claim (h : name.length ≤ width) (value : Int64) :
    (claim name value).holds other = true ↔ name = other := by
  rw [holds_iff, name_claim h]
  exact and_iff_right rfl

end Slot

def Store.slots : Store → List Slot
  | map _ => []
  | table slots _ => slots

def names (slots : List Slot) : List Bytes := (slots.filter (!·.isFree)).map (·.name)

/-- A table as its operations leave it. -/
structure Sound (slots : List Slot) : Prop where
  size : slots.length = Store.slotCount
  fits : ∀ s ∈ slots, s.Fits
  distinct : ∀ {i j : Nat} {s t : Slot} {name : Bytes}, slots[i]? = some s → slots[j]? = some t →
    s.holds name = true → t.holds name = true → i = j

theorem sound_fresh : Sound (List.replicate Store.slotCount .zero) where
  size := List.length_replicate
  fits s hs := List.eq_of_mem_replicate hs ▸ Slot.fits_zero
  distinct {i j s t name} hi _ hs _ := by
    have hz : s = .zero := List.eq_of_mem_replicate (List.mem_of_getElem? hi)
    subst hz
    cases hs

variable {slots : List Slot} {s t : Slot} {i : Nat} {name : Bytes}

theorem Sound.find?_of_holds (h : Sound slots) (hs : slots[i]? = some s)
    (hn : s.holds name = true) : slots.find? (Slot.holds name) = some s := by
  have hsome : (slots.find? (Slot.holds name)).isSome :=
    List.find?_isSome.2 ⟨s, List.mem_of_getElem? hs, hn⟩
  obtain ⟨t, ht⟩ := Option.isSome_iff_exists.1 hsome
  obtain ⟨j, hj⟩ := List.getElem?_of_mem (List.mem_of_find?_eq_some ht)
  obtain rfl := h.distinct hs hj hn (List.find?_some ht)
  rw [ht, ← hj, hs]

/-- A slot may be replaced by one whose name no other slot has. -/
theorem Sound.set (h : Sound slots) (ht : t.Fits)
    (hother : ∀ j u name, j ≠ i → slots[j]? = some u → u.holds name = true →
      t.holds name = false) : Sound (slots.set i t) where
  size := by rw [List.length_set, h.size]
  fits s hs := by
    rcases List.mem_or_eq_of_mem_set hs with hs | rfl
    · exact h.fits s hs
    · exact ht
  distinct {j k s u name} hj hk hs hu := by
    have hnot {k : Nat} {u : Slot} (hki : i ≠ k) (hk : (slots.set i t)[k]? = some u)
        (hu : u.holds name = true) : t.holds name = false := by
      rw [List.getElem?_set_ne hki] at hk
      exact hother k u name (Ne.symm hki) hk hu
    have hset {k : Nat} {u : Slot} (hki : i = k) (hk : (slots.set i t)[k]? = some u) : u = t := by
      subst hki
      rw [List.getElem?_set] at hk
      grind
    by_cases hji : i = j
    · by_cases hki : i = k
      · exact hji.symm.trans hki
      · have hsame := hset hji hj
        rw [hsame, hnot hki hk hu] at hs
        cases hs
    · by_cases hki : i = k
      · have hsame := hset hki hk
        rw [hsame, hnot hji hj hs] at hu
        cases hu
      · rw [List.getElem?_set_ne hji] at hj
        rw [List.getElem?_set_ne hki] at hk
        exact h.distinct hj hk hs hu

/-- What is found once a slot was replaced: the new one under its own name, and nothing any more
under the name of the old one. -/
theorem Sound.find?_set (h : Sound slots) (hset : Sound (slots.set i t)) (hs : slots[i]? = some s)
    (name : Bytes) :
    (slots.set i t).find? (Slot.holds name) =
      if t.holds name then some t
      else if s.holds name then none
      else slots.find? (Slot.holds name) := by
  have hlt : i < slots.length := (List.getElem?_eq_some_iff.1 hs).1
  by_cases ht : t.holds name = true
  · rw [if_pos ht]
    exact hset.find?_of_holds (List.getElem?_set_self hlt) ht
  rw [if_neg ht]
  by_cases hn : s.holds name = true
  · rw [if_pos hn, List.find?_eq_none]
    intro u hu hun
    obtain ⟨j, hj⟩ := List.getElem?_of_mem hu
    by_cases hji : i = j
    · subst hji
      rw [List.getElem?_set_self hlt] at hj
      cases hj
      exact ht hun
    · rw [List.getElem?_set_ne hji] at hj
      exact hji (h.distinct hs hj hn hun)
  · rw [if_neg hn]
    cases hf : slots.find? (Slot.holds name) with
    | none =>
      rw [List.find?_eq_none] at hf ⊢
      intro u hu
      rcases List.mem_or_eq_of_mem_set hu with hu | rfl
      · exact hf u hu
      · exact ht
    | some u =>
      obtain ⟨j, hj⟩ := List.getElem?_of_mem (List.mem_of_find?_eq_some hf)
      have hun : u.holds name = true := List.find?_some hf
      have hji : i ≠ j := by
        rintro rfl
        cases hs.symm.trans hj
        exact hn hun
      have hj' : (slots.set i t)[j]? = some u := by rw [List.getElem?_set_ne hji, hj]
      exact hset.find?_of_holds hj' hun

theorem mem_names : name ∈ names slots ↔ ∃ s ∈ slots, s.holds name = true := by
  simp only [names, List.mem_map, List.mem_filter, Bool.not_eq_true', Slot.holds_iff, and_assoc]

theorem Sound.nodup_names (h : Sound slots) : (names slots).Nodup := by
  rw [names, List.Nodup, List.pairwise_map, List.pairwise_filter, List.pairwise_iff_getElem]
  intro i j hi hj hlt hs ht he
  have heq := h.distinct (List.getElem?_eq_getElem hi) (List.getElem?_eq_getElem hj)
    (Slot.holds_iff.2 ⟨by simpa using hs, rfl⟩) (Slot.holds_iff.2 ⟨by simpa using ht, he.symm⟩)
  omega

theorem Sound.length_le_of_mem_names (h : Sound slots) (hn : name ∈ names slots) :
    name.length ≤ Slot.width := by
  obtain ⟨s, hs, hname⟩ := mem_names.1 hn
  obtain ⟨-, rfl⟩ := Slot.holds_iff.1 hname
  exact Slot.length_name_le (h.fits s hs)

theorem Sound.full_iff (h : Sound slots) :
    (names slots).length = Store.slotCount ↔ slots.findIdx? Slot.isFree = none := by
  rw [names, List.length_map, ← h.size, List.length_filter_eq_length_iff,
    List.findIdx?_eq_none_iff]
  simp only [Bool.not_eq_true']

theorem getElem?_of_findIdx? {p : Slot → Bool} (h : slots.findIdx? p = some i) :
    ∃ s, slots[i]? = some s ∧ p s = true := by
  obtain ⟨hi, hp, -⟩ := List.findIdx?_eq_some_iff_getElem.1 h
  exact ⟨slots[i], List.getElem?_eq_getElem hi, hp⟩

theorem modify_eq_set (hs : slots[i]? = some s) (f : Slot → Slot) :
    slots.modify i f = slots.set i (f s) := by
  apply List.ext_getElem?
  intro j
  rw [List.getElem?_modify, List.getElem?_set]
  have hi : i < slots.length := (List.getElem?_eq_some_iff.1 hs).1
  by_cases hij : i = j
  · subst hij
    rw [if_pos rfl, if_pos hi, hs]
    simp
  · simp [hij]

/-- The table answers for every key as the map does. -/
def Mirrors (slots : List Slot) (entries : Std.TreeMap String Int64) : Prop :=
  ∀ key, (Store.table slots true).lookup key = entries[key]?

variable {entries : Std.TreeMap String Int64} {key : String} {value : Int64}

/-- A slot that held this key or none is replaced by one that holds it. -/
theorem Sound.insert (h : Sound slots) (hm : Mirrors slots entries) (hs : slots[i]? = some s)
    (hold : ∀ name, s.holds name = true → Utf8.encode key = name) (hfits : t.Fits)
    (hnew : ∀ name, t.holds name = true ↔ Utf8.encode key = name) (hvalue : t.value = value)
    (hfree : ∀ u ∈ slots, u.holds (Utf8.encode key) = true → s.holds (Utf8.encode key) = true) :
    Sound (slots.set i t) ∧ Mirrors (slots.set i t) (entries.insert key value) := by
  have hset : Sound (slots.set i t) := by
    refine h.set hfits fun j u name hj hu hun ↦ ?_
    by_contra ht
    obtain rfl := (hnew name).1 (by simpa using ht)
    have hsame := h.distinct hs hu (hfree u (List.mem_of_getElem? hu) hun) hun
    exact hj hsame.symm
  refine ⟨hset, fun other ↦ ?_⟩
  have hfound := hm other
  rw [Store.lookup] at hfound
  rw [Store.lookup, h.find?_set hset hs, Std.TreeMap.getElem?_insert]
  by_cases he : key = other
  · subst he
    rw [if_pos ((hnew _).2 rfl), if_pos (by simp), Option.map_some, hvalue]
  · have hne : ¬ Utf8.encode key = Utf8.encode other := mt Utf8.encode_inj.1 he
    rw [if_neg (mt (hnew _).1 hne), if_neg (mt (hold _) hne), if_neg (by simpa using he), hfound]

theorem Sound.erase (h : Sound slots) (hm : Mirrors slots entries) (hs : slots[i]? = some s)
    (hn : s.holds (Utf8.encode key) = true) :
    Sound (slots.set i { s with used := 0 }) ∧
      Mirrors (slots.set i { s with used := 0 }) (entries.erase key) := by
  have hfits : Slot.Fits { s with used := 0 } :=
    ⟨(h.fits s (List.mem_of_getElem? hs)).width, (h.fits s (List.mem_of_getElem? hs)).name⟩
  have hset : Sound (slots.set i { s with used := 0 }) := h.set hfits fun _ _ _ _ _ _ ↦ rfl
  refine ⟨hset, fun other ↦ ?_⟩
  have hfound := hm other
  rw [Store.lookup] at hfound
  rw [Store.lookup, h.find?_set hset hs, Std.TreeMap.getElem?_erase, if_neg (by nofun)]
  by_cases he : key = other
  · subst he
    rw [if_pos hn, if_pos (by simp)]
    rfl
  · have hne : ¬ s.holds (Utf8.encode other) = true := by
      intro ho
      have hnames := (Slot.holds_iff.1 hn).2.symm.trans (Slot.holds_iff.1 ho).2
      exact he (Utf8.encode_inj.1 hnames)
    rw [if_neg hne, if_neg (by simpa using he), hfound]

theorem notMem_names : name ∉ names slots ↔ slots.findIdx? (Slot.holds name) = none := by
  rw [mem_names, List.findIdx?_eq_none_iff]
  simp

theorem lookup_eq_none_iff :
    (Store.table slots true).lookup key = none ↔ Utf8.encode key ∉ names slots := by
  rw [Store.lookup, Option.map_eq_none_iff, List.find?_eq_none, mem_names]
  simp only [not_exists, not_and]

theorem mirrors_fresh : Mirrors (List.replicate Store.slotCount .zero) {} := by
  intro key
  have hnames : names (List.replicate Store.slotCount .zero) = [] := rfl
  rw [lookup_eq_none_iff.2 (hnames ▸ List.not_mem_nil), Std.TreeMap.getElem?_emptyc]

def Full (slots : List Slot) (key : String) : Prop :=
  Utf8.encode key ∉ names slots ∧ (names slots).length = Store.slotCount

instance (slots : List Slot) (key : String) : Decidable (Full slots key) :=
  inferInstanceAs (Decidable (_ ∧ _))

/-- Binding is refused by a full table only, and else does to the table what it does to the map. -/
theorem Sound.bind (h : Sound slots) (hm : Mirrors slots entries)
    (hkey : key.utf8ByteSize ≤ Store.maxKey) (value : Int64) :
    Full slots key ∧ (Store.table slots true).bind key value = .error (.storeFull key) ∨
      ¬ Full slots key ∧ ∃ slots', (Store.table slots true).bind key value =
        .ok (.table slots' true) ∧ Sound slots' ∧ Mirrors slots' (entries.insert key value) := by
  rw [Full, notMem_names, h.full_iff]
  cases hown : slots.findIdx? (Slot.holds (Utf8.encode key)) with
  | some i =>
    obtain ⟨s, hs, hn⟩ := getElem?_of_findIdx? hown
    have hname := (Slot.holds_iff.1 hn).2
    have hbind : (Store.table slots true).bind key value =
        .ok (.table (slots.set i { s with value }) true) := by
      rw [Store.bind, hown]
      simp only [modify_eq_set hs]
    have hfits : Slot.Fits { s with value } :=
      ⟨(h.fits s (List.mem_of_getElem? hs)).width, (h.fits s (List.mem_of_getElem? hs)).name⟩
    have hnew (name : Bytes) : Slot.holds name { s with value } = true ↔ Utf8.encode key = name := by
      rw [← hname]
      exact Slot.holds_iff.trans (and_iff_right (Slot.holds_iff.1 hn).1)
    refine .inr ⟨by simp, _, hbind, ?_⟩
    exact h.insert hm hs (fun name ho ↦ (hnew name).1 ho) hfits hnew rfl fun _ _ _ ↦ hn
  | none =>
    cases hfree : slots.findIdx? Slot.isFree with
    | none =>
      refine .inl ⟨⟨rfl, rfl⟩, ?_⟩
      rw [Store.bind, hown, hfree]
    | some i =>
      obtain ⟨s, hs, hn⟩ := getElem?_of_findIdx? hfree
      have hbind : (Store.table slots true).bind key value =
          .ok (.table (slots.set i (.claim (Utf8.encode key) value)) true) := by
        rw [Store.bind, hown, hfree]
      have hlen : (Utf8.encode key).length ≤ Slot.width := by
        rw [Utf8.length_encode]
        exact hkey
      have hempty (name : Bytes) : ¬ s.holds name = true := by
        simp [Slot.holds, hn]
      have habsent : ∀ u ∈ slots, ¬ u.holds (Utf8.encode key) = true := by
        rw [List.findIdx?_eq_none_iff] at hown
        simpa using hown
      refine .inr ⟨by simp, _, hbind, ?_⟩
      exact h.insert hm hs (fun name ho ↦ absurd ho (hempty name)) (Slot.fits_claim hlen value)
        (fun name ↦ Slot.holds_claim hlen value) rfl fun u hu ho ↦ absurd ho (habsent u hu)

theorem Sound.unbind (h : Sound slots) (hm : Mirrors slots entries) (key : String) :
    ∃ slots', (Store.table slots true).unbind key = .table slots' true ∧ Sound slots' ∧
      Mirrors slots' (entries.erase key) := by
  cases hown : slots.findIdx? (Slot.holds (Utf8.encode key)) with
  | some i =>
    obtain ⟨s, hs, hn⟩ := getElem?_of_findIdx? hown
    refine ⟨_, ?_, h.erase hm hs hn⟩
    rw [Store.unbind, hown]
    simp only [modify_eq_set hs]
  | none =>
    refine ⟨slots, ?_, h, fun other ↦ ?_⟩
    · rw [Store.unbind, hown]
    · have hfound := hm other
      rw [Std.TreeMap.getElem?_erase]
      by_cases he : key = other
      · subst he
        rw [if_pos (by simp), lookup_eq_none_iff.2 (notMem_names.2 hown)]
      · rw [if_neg (by simpa using he), hfound]

end Prefork.Coordination
