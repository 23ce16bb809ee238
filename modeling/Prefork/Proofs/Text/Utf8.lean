import Prefork.Text.Utf8

namespace Prefork.Utf8

open String (utf8EncodeChar)

theorem toNat_ofNat {n : Nat} (h : n < 256) : (UInt8.ofNat n).toNat = n :=
  UInt8.toNat_ofNat_of_lt h

theorem lead_eq (b : UInt8) :
    lead b =
      if b.toNat < 0xC2 then none
      else if b.toNat < 0xE0 then some (.within 1 0x80 0xBF (b.toNat % 32) 1)
      else if b.toNat = 0xE0 then some (.within 2 0xA0 0xBF (b.toNat % 16) 1)
      else if b.toNat = 0xED then some (.within 2 0x80 0x9F (b.toNat % 16) 1)
      else if b.toNat < 0xF0 then some (.within 2 0x80 0xBF (b.toNat % 16) 1)
      else if b.toNat = 0xF0 then some (.within 3 0x90 0xBF (b.toNat % 8) 1)
      else if b.toNat < 0xF4 then some (.within 3 0x80 0xBF (b.toNat % 8) 1)
      else if b.toNat = 0xF4 then some (.within 3 0x80 0x8F (b.toNat % 8) 1)
      else none := by
  simp only [lead, UInt8.lt_iff_toNat_lt, ← UInt8.toNat_inj]
  rfl

theorem lead_two {n : Nat} (hl : 2 ≤ n) (hh : n < 32) :
    lead (UInt8.ofNat (n + 192)) = some (.within 1 0x80 0xBF n 1) := by
  have hm : (n + 192) % 32 = n := by omega
  rw [lead_eq, toNat_ofNat (by omega), if_neg (by omega), if_pos (by omega), hm]

theorem lead_three {n : Nat} (hh : n < 16) :
    ∃ low high : UInt8, lead (UInt8.ofNat (n + 224)) = some (.within 2 low high n 1) ∧
      low.toNat = (if n = 0 then 0xA0 else 0x80) ∧ high.toNat = if n = 13 then 0x9F else 0xBF := by
  have hm : (n + 224) % 16 = n := by omega
  rw [lead_eq, toNat_ofNat (by omega), if_neg (by omega), if_neg (by omega), hm]
  by_cases h0 : n = 0
  · subst h0
    exact ⟨0xA0, 0xBF, rfl, rfl, rfl⟩
  rw [if_neg (by omega)]
  by_cases h13 : n = 13
  · subst h13
    exact ⟨0x80, 0x9F, rfl, rfl, rfl⟩
  rw [if_neg (by omega), if_pos (by omega), if_neg h0, if_neg h13]
  exact ⟨0x80, 0xBF, rfl, rfl, rfl⟩

theorem lead_four {n : Nat} (hh : n < 5) :
    ∃ low high : UInt8, lead (UInt8.ofNat (n + 240)) = some (.within 3 low high n 1) ∧
      low.toNat = (if n = 0 then 0x90 else 0x80) ∧ high.toNat = if n = 4 then 0x8F else 0xBF := by
  have hm : (n + 240) % 8 = n := by omega
  rw [lead_eq, toNat_ofNat (by omega), if_neg (by omega), if_neg (by omega), if_neg (by omega),
    if_neg (by omega), if_neg (by omega), hm]
  by_cases h0 : n = 0
  · subst h0
    exact ⟨0x90, 0xBF, rfl, rfl, rfl⟩
  rw [if_neg (by omega)]
  by_cases h4 : n = 4
  · subst h4
    exact ⟨0x80, 0x8F, rfl, rfl, rfl⟩
  rw [if_pos (by omega), if_neg h0, if_neg h4]
  exact ⟨0x80, 0xBF, rfl, rfl, rfl⟩

/-- A byte that continues a character adds its low bits. -/
theorem decodeFrom_within {index owed value seen n : Nat} {done : List Char} {low high : UInt8}
    {rest : Bytes} (hn : n < 64) (hl : low.toNat ≤ n + 128) (hh : n + 128 ≤ high.toNat) :
    decodeFrom index done (.within owed low high value seen) (UInt8.ofNat (n + 128) :: rest) =
      if owed ≤ 1 then
        decodeFrom (index + seen + 1) (Char.ofNat (64 * value + n) :: done) .start rest
      else decodeFrom index done (.within (owed - 1) 0x80 0xBF (64 * value + n) (seen + 1)) rest := by
  have hb : (UInt8.ofNat (n + 128)).toNat = n + 128 := toNat_ofNat (by omega)
  have hm : (n + 128) % 64 = n := by omega
  rw [decodeFrom, if_pos (by rw [UInt8.le_iff_toNat_le, UInt8.le_iff_toNat_le, hb]; exact ⟨hl, hh⟩),
    hb, hm]

theorem decodeFrom_lead {index : Nat} {done : List Char} {b : UInt8} {rest : Bytes} {state : State}
    (h : lead b = some state) :
    decodeFrom index done .start (b :: rest) = decodeFrom index done state rest := by
  have hb : ¬ b < 0x80 := by
    intro hlt
    rw [lead_eq, if_pos (Nat.lt_trans (UInt8.lt_iff_toNat_lt.1 hlt) (by decide))] at h
    cases h
  rw [decodeFrom, if_neg hb, h]

/-- The bytes of a character are decoded to it, wherever they stand. -/
theorem decodeFrom_encodeChar (index : Nat) (done : List Char) (c : Char) (rest : Bytes) :
    ∃ next, decodeFrom index done .start (utf8EncodeChar c ++ rest) =
      decodeFrom next (c :: done) .start rest := by
  have hc : Char.ofNat c.val.toNat = c := Char.ofNat_toNat c
  have hvalid : c.val.toNat < 0xD800 ∨ 0xDFFF < c.val.toNat ∧ c.val.toNat < 0x110000 := c.valid
  rw [utf8EncodeChar]
  generalize c.val.toNat = v at hc hvalid
  split
  · next h1 =>
    refine ⟨index + 1, ?_⟩
    have hb : (UInt8.ofNat v).toNat = v := toNat_ofNat (by omega)
    rw [List.cons_append, List.nil_append, decodeFrom,
      if_pos (by rw [UInt8.lt_iff_toNat_lt, hb]; exact Nat.lt_succ_of_le h1), hb, hc]
  split
  · next h1 h2 =>
    have hv : 64 * (v / 64 % 32) + v % 64 = v := by omega
    simp only [List.cons_append, List.nil_append]
    rw [decodeFrom_lead (lead_two (by omega) (by omega)), decodeFrom_within (by omega)
      (Nat.le_add_left ..) (by show v % 64 + 128 ≤ 191; omega), if_pos (by decide), hv, hc]
    exact ⟨_, rfl⟩
  split
  · next h1 h2 h3 =>
    obtain ⟨low, high, hlead, hlow, hhigh⟩ := lead_three (n := v / 4096 % 16) (by omega)
    have hv : 64 * (64 * (v / 4096 % 16) + v / 64 % 64) + v % 64 = v := by omega
    -- A first byte that leaves no room below or above is one at the edge of the valid range.
    have hl : low.toNat ≤ v / 64 % 64 + 128 := by
      rw [hlow]
      split <;> omega
    have hh : v / 64 % 64 + 128 ≤ high.toNat := by
      rw [hhigh]
      split <;> omega
    simp only [List.cons_append, List.nil_append]
    rw [decodeFrom_lead hlead, decodeFrom_within (by omega) hl hh, if_neg (by decide),
      decodeFrom_within (by omega) (Nat.le_add_left ..) (by show v % 64 + 128 ≤ 191; omega),
      if_pos (by decide), hv, hc]
    exact ⟨_, rfl⟩
  · next h1 h2 h3 =>
    obtain ⟨low, high, hlead, hlow, hhigh⟩ := lead_four (n := v / 262144 % 8) (by omega)
    have hv : 64 * (64 * (64 * (v / 262144 % 8) + v / 4096 % 64) + v / 64 % 64) + v % 64 = v := by
      omega
    have hl : low.toNat ≤ v / 4096 % 64 + 128 := by
      rw [hlow]
      split <;> omega
    have hh : v / 4096 % 64 + 128 ≤ high.toNat := by
      rw [hhigh]
      split <;> omega
    simp only [List.cons_append, List.nil_append]
    rw [decodeFrom_lead hlead, decodeFrom_within (by omega) hl hh, if_neg (by decide),
      decodeFrom_within (by omega) (Nat.le_add_left ..) (by show v / 64 % 64 + 128 ≤ 191; omega),
      if_neg (by decide),
      decodeFrom_within (by omega) (Nat.le_add_left ..) (by show v % 64 + 128 ≤ 191; omega),
      if_pos (by decide), hv, hc]
    exact ⟨_, rfl⟩

theorem decodeFrom_flatMap (index : Nat) (done cs : List Char) (rest : Bytes) :
    ∃ next, decodeFrom index done .start (cs.flatMap utf8EncodeChar ++ rest) =
      decodeFrom next (cs.reverse ++ done) .start rest := by
  induction cs generalizing index done with
  | nil => exact ⟨index, rfl⟩
  | cons c cs ih =>
    obtain ⟨next, hn⟩ :=
      decodeFrom_encodeChar index done c (cs.flatMap utf8EncodeChar ++ rest)
    obtain ⟨last, hl⟩ := ih next (c :: done)
    refine ⟨last, ?_⟩
    rw [List.flatMap_cons, List.append_assoc, hn, hl, List.reverse_cons, List.append_assoc,
      List.singleton_append]

theorem decode_flatMap (cs : List Char) : decode (cs.flatMap utf8EncodeChar) = .ok cs := by
  obtain ⟨next, hn⟩ := decodeFrom_flatMap 0 [] cs []
  rw [List.append_nil, List.append_nil] at hn
  rw [decode, hn, decodeFrom, List.reverse_reverse]

/-- Characters that were decoded stay in front. -/
theorem prefix_of_decodeFrom {index : Nat} {done cs : List Char} {state : State} {b : Bytes}
    (h : decodeFrom index done state b = .ok cs) : done.reverse <+: cs := by
  fun_induction decodeFrom index done state b with
  | case1 index done =>
    cases h
    exact List.prefix_rfl
  | case3 index done b rest hb ih =>
    exact List.IsPrefix.trans ⟨_, (List.reverse_cons ..).symm⟩ (ih h)
  | case2 | case5 | case8 => cases h
  | case4 index done b rest hb state hs ih => exact ih h
  | case6 index done owed low high value seen b rest hb next ho ih =>
    exact List.IsPrefix.trans ⟨_, (List.reverse_cons ..).symm⟩ (ih h)
  | case7 index done owed low high value seen b rest hb next ho ih => exact ih h

/-- The bytes of a text begin with those of another only if it begins with that. -/
theorem prefix_of_encoded {cs ds : List Char}
    (h : cs.flatMap utf8EncodeChar <+: ds.flatMap utf8EncodeChar) : cs <+: ds := by
  obtain ⟨rest, hr⟩ := h
  obtain ⟨next, hn⟩ := decodeFrom_flatMap 0 [] cs rest
  have hd : decodeFrom next (cs.reverse ++ []) .start rest = .ok ds := by
    rw [← hn, hr]
    exact decode_flatMap ds
  have hp := prefix_of_decodeFrom hd
  rwa [List.append_nil, List.reverse_reverse] at hp

theorem decode_encode (s : String) : decode (encode s) = .ok s.toList := decode_flatMap s.toList

/-- Bytes below 128 are characters of their own. -/
theorem toNat_of_mem_encodeChar {c : Char} {b : UInt8} (h : b ∈ utf8EncodeChar c)
    (hb : b.toNat < 128) : c.toNat = b.toNat := by
  have htag {n tag : Nat} (ht : 128 ≤ tag) (hn : n + tag < 256) : b ≠ UInt8.ofNat (n + tag) := by
    rintro rfl
    rw [toNat_ofNat hn] at hb
    omega
  rw [utf8EncodeChar] at h
  have hv : c.toNat = c.val.toNat := rfl
  rw [hv]
  generalize c.val.toNat = v at h
  split at h
  · next h1 =>
    rw [List.mem_singleton] at h
    rw [h, toNat_ofNat (by omega)]
  split at h
  · simp only [List.mem_cons, List.not_mem_nil, or_false] at h
    rcases h with h | h
    all_goals exact absurd h (htag (by decide) (by omega))
  split at h
  all_goals
    simp only [List.mem_cons, List.not_mem_nil, or_false] at h
  · rcases h with h | h | h
    all_goals exact absurd h (htag (by decide) (by omega))
  · rcases h with h | h | h | h
    all_goals exact absurd h (htag (by decide) (by omega))

theorem encodeChar_of_lt {c : Char} (h : c.toNat < 128) :
    utf8EncodeChar c = [UInt8.ofNat c.toNat] := by
  have hv : c.val.toNat ≤ 127 := Nat.le_of_lt_succ h
  rw [utf8EncodeChar, if_pos hv]
  rfl

/-- Bytes that begin with an ASCII one occur in a text only as the characters they are. -/
theorem infix_of_encoded {c : Char} (hc : c.toNat < 128) {cs : List Char} (ds : List Char)
    (h : (c :: cs).flatMap utf8EncodeChar <:+: ds.flatMap utf8EncodeChar) : c :: cs <:+: ds := by
  induction ds with
  | nil =>
    rw [List.flatMap_cons, encodeChar_of_lt hc] at h
    exact absurd h.length_le (by simp)
  | cons d ds ih =>
    obtain ⟨front, rest, hf⟩ := h
    rcases Nat.lt_or_ge front.length (utf8EncodeChar d).length with hlt | hle
    · -- A byte of the first character is then ASCII, so it is that character, and its only byte.
      have hover : front ++ [UInt8.ofNat c.toNat] <+: utf8EncodeChar d := by
        refine List.prefix_of_prefix_length_le ?_ (List.prefix_append _ (ds.flatMap utf8EncodeChar))
          (by rw [List.length_append]; exact hlt)
        rw [← List.flatMap_cons, ← hf, List.append_assoc, List.flatMap_cons, encodeChar_of_lt hc]
        exact (List.prefix_append_right_inj front).2 ⟨_, rfl⟩
      have hb : (UInt8.ofNat c.toNat).toNat = c.toNat := toNat_ofNat (by omega)
      have hd : d.toNat = c.toNat := by
        rw [toNat_of_mem_encodeChar (hover.subset (List.mem_append_right _ List.mem_cons_self))
          (by omega), hb]
      have hl := hover.length_le
      simp only [encodeChar_of_lt (hd ▸ hc), List.length_append, List.length_singleton] at hl
      obtain rfl : front = [] := List.eq_nil_of_length_eq_zero (by omega)
      exact (prefix_of_encoded ⟨rest, hf⟩).isInfix
    · rw [List.flatMap_cons (x := d), List.append_assoc] at hf
      have hfront : utf8EncodeChar d <+: front :=
        List.prefix_of_prefix_length_le ⟨_, hf.symm⟩ (List.prefix_append ..) hle
      obtain ⟨later, rfl⟩ := hfront
      rw [List.append_assoc, List.append_cancel_left_eq, ← List.append_assoc] at hf
      exact List.infix_cons (ih ⟨later, rest, hf⟩)

theorem length_encode (s : String) : (encode s).length = s.utf8ByteSize := by
  have h : s.toList.utf8Encode = s.toByteArray := String.utf8Encode_toList
  rw [String.utf8ByteSize, ← h, List.utf8Encode, List.size_toByteArray, encode]

theorem encode_inj {s t : String} : encode s = encode t ↔ s = t := by
  constructor
  · intro h
    have hd : decode (encode s) = decode (encode t) := congrArg decode h
    rw [decode_encode, decode_encode] at hd
    exact String.toList_inj.1 (Except.ok.inj hd)
  · intro h
    rw [h]

end Prefork.Utf8
