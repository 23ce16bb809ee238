import Prefork.Supervision.Heartbeat

namespace Prefork.Supervision

namespace Heartbeat

theorem ofNat_toNat_word {field : Bytes} (h : field.length = 4) :
    Bytes.ofNat 4 (UInt32.ofNat (Bytes.toNat field)).toNat = field := by
  have hlt := Bytes.toNat_lt field
  rw [h] at hlt
  rw [UInt32.toNat_ofNat_of_lt' hlt, ← h, Bytes.ofNat_toNat]

theorem ofNat_toNat_longWord {field : Bytes} (h : field.length = 8) :
    Bytes.ofNat 8 (UInt64.ofNat (Bytes.toNat field)).toNat = field := by
  have hlt := Bytes.toNat_lt field
  rw [h] at hlt
  rw [UInt64.toNat_ofNat_of_lt' hlt, ← h, Bytes.ofNat_toNat]

structure Layout where
  worker : Bytes
  flag : UInt8
  timestamp : Bytes
  count : Bytes
  rest : Bytes
  length_worker : worker.length = 4
  length_timestamp : timestamp.length = 8
  length_count : count.length = 4

namespace Layout

def front (l : Layout) : Bytes := l.worker ++ [l.flag] ++ l.timestamp ++ l.count

def bytes (l : Layout) : Bytes := l.front ++ l.rest

def report (l : Layout) (timestamp : Option UInt64) : Heartbeat :=
  ⟨UInt32.ofNat (Bytes.toNat l.worker), timestamp, UInt32.ofNat (Bytes.toNat l.count)⟩

theorem exists_of_length {b : Bytes} (h : size ≤ b.length) : ∃ l : Layout, l.bytes = b := by
  rw [size] at h
  have hflag : b.drop 4 = [b[4]] ++ b.drop 5 := List.drop_eq_getElem_cons (by omega)
  have htimestamp : b.drop 5 = (b.drop 5).take 8 ++ b.drop 13 := by
    have hsplit := (List.take_append_drop 8 (b.drop 5)).symm
    rwa [List.drop_drop] at hsplit
  have hcount : b.drop 13 = (b.drop 13).take 4 ++ b.drop 17 := by
    have hsplit := (List.take_append_drop 4 (b.drop 13)).symm
    rwa [List.drop_drop] at hsplit
  refine ⟨⟨b.take 4, b[4], (b.drop 5).take 8, (b.drop 13).take 4, b.drop 17, ?_, ?_, ?_⟩, ?_⟩
  · rw [List.length_take]
    omega
  · rw [List.length_take, List.length_drop]
    omega
  · rw [List.length_take, List.length_drop]
    omega
  · simp only [bytes, front, List.append_assoc]
    rw [← hcount, ← htimestamp, ← hflag, List.take_append_drop]

variable (l : Layout)

theorem length_front : l.front.length = size := by
  simp only [front, List.length_append, l.length_worker, l.length_timestamp, l.length_count,
    List.length_singleton, size]

theorem take_bytes : l.bytes.take size = l.front := List.take_left' l.length_front

theorem getElem?_flag : l.bytes[4]? = some l.flag := by
  simp [bytes, front, l.length_worker]

theorem take_flag : l.bytes.take 5 = l.worker ++ [l.flag] := by
  have hlen : (l.worker ++ [l.flag]).length = 5 := by rw [List.length_append, l.length_worker]; rfl
  rw [bytes, front, List.append_assoc, List.append_assoc]
  exact List.take_left' hlen

theorem take_count : (l.bytes.drop 13).take 4 = l.count := by
  have hbefore : (l.worker ++ [l.flag] ++ l.timestamp).length = 13 := by
    simp only [List.length_append, l.length_worker, l.length_timestamp, List.length_singleton]
  exact field_append _ l.rest hbefore l.length_count

theorem decode_bytes : decode l.bytes = match l.flag.toNat with
    | 0 => .ok (l.report none)
    | 1 => .ok (l.report (some (UInt64.ofNat (Bytes.toNat l.timestamp))))
    | n => .error (.invalidFlag n) := by
  have hflag : Bytes.toNat [l.flag] = l.flag.toNat := by simp [Bytes.toNat]
  rw [← hflag]
  exact decode_fields l.rest l.length_worker rfl l.length_timestamp l.length_count

theorem encode_sentinel :
    (l.report none).encode = l.worker ++ [0] ++ List.replicate 8 0 ++ l.count := by
  simp only [encode, report]
  rw [ofNat_toNat_word l.length_worker, ofNat_toNat_word l.length_count]
  rfl

theorem encode_stamped :
    (l.report (some (UInt64.ofNat (Bytes.toNat l.timestamp)))).encode =
      l.worker ++ [1] ++ l.timestamp ++ l.count := by
  simp only [encode, report]
  rw [ofNat_toNat_word l.length_worker, ofNat_toNat_word l.length_count,
    ofNat_toNat_longWord l.length_timestamp]
  rfl

end Layout

theorem decode_of_short {b : Bytes} (h : b.length < size) :
    decode b = .error (.truncated b.length) := by
  rw [decode, if_pos h]

theorem encode_injective {h h' : Heartbeat} (he : h.encode = h'.encode) : h = h' := by
  have hread := decode_encode h []
  rw [he, decode_encode h' []] at hread
  exact (Except.ok.inj hread).symm

/-- What a message is written as once it was read: its first bytes, but for the timestamp of a
sentinel. -/
def Written (b : Bytes) (h : Heartbeat) : Prop :=
  b[4]? = some 0 ∧ h.encode = b.take 5 ++ List.replicate 8 0 ++ (b.drop 13).take 4 ∨
    b[4]? = some 1 ∧ h.encode = b.take 17

theorem Written.unique {b : Bytes} {h h' : Heartbeat} (hw : Written b h) (hw' : Written b h') :
    h = h' := by
  rcases hw with ⟨hflag, he⟩ | ⟨hflag, he⟩
  · rcases hw' with ⟨-, he'⟩ | ⟨hflag', -⟩
    · exact encode_injective (he.trans he'.symm)
    · rw [hflag] at hflag'
      cases hflag'
  · rcases hw' with ⟨hflag', -⟩ | ⟨-, he'⟩
    · rw [hflag] at hflag'
      cases hflag'
    · exact encode_injective (he.trans he'.symm)

namespace Layout

variable (l : Layout)

theorem decode_of_zero (h : l.flag = 0) :
    decode l.bytes = .ok (l.report none) ∧ Written l.bytes (l.report none) := by
  constructor
  · rw [decode_bytes, h]
    rfl
  · left
    rw [getElem?_flag, take_flag, take_count, encode_sentinel, h]
    exact ⟨rfl, rfl⟩

theorem decode_of_one (h : l.flag = 1) : ∃ t,
    decode l.bytes = .ok (l.report (some t)) ∧ Written l.bytes (l.report (some t)) := by
  refine ⟨UInt64.ofNat (Bytes.toNat l.timestamp), ?_, ?_⟩
  · rw [decode_bytes, h]
    rfl
  · right
    have htake : l.bytes.take 17 = l.front := l.take_bytes
    rw [getElem?_flag, htake, encode_stamped, front, h]
    exact ⟨rfl, rfl⟩

theorem decode_of_other (h₀ : l.flag ≠ 0) (h₁ : l.flag ≠ 1) :
    decode l.bytes = .error (.invalidFlag l.flag.toNat) := by
  have hzero : l.flag.toNat ≠ 0 := fun h ↦ h₀ (UInt8.toNat_inj.1 h)
  have hone : l.flag.toNat ≠ 1 := fun h ↦ h₁ (UInt8.toNat_inj.1 h)
  rw [decode_bytes]
  split
  · contradiction
  · contradiction
  · rfl

end Layout

/-- All that can come of a message. -/
theorem decode_cases (b : Bytes) :
    b.length < size ∧ decode b = .error (.truncated b.length) ∨
      size ≤ b.length ∧ (∃ flag, b[4]? = some flag ∧ flag ≠ 0 ∧ flag ≠ 1 ∧
        decode b = .error (.invalidFlag flag.toNat)) ∨
      size ≤ b.length ∧ ∃ h, decode b = .ok h ∧ Written b h := by
  by_cases hb : b.length < size
  · exact .inl ⟨hb, decode_of_short hb⟩
  · have hsize : size ≤ b.length := Nat.le_of_not_lt hb
    obtain ⟨l, rfl⟩ := Layout.exists_of_length hsize
    right
    by_cases h₀ : l.flag = 0
    · exact .inr ⟨hsize, _, l.decode_of_zero h₀⟩
    · by_cases h₁ : l.flag = 1
      · obtain ⟨t, hread⟩ := l.decode_of_one h₁
        exact .inr ⟨hsize, _, hread⟩
      · exact .inl ⟨hsize, l.flag, l.getElem?_flag, h₀, h₁, l.decode_of_other h₀ h₁⟩

theorem Written.flag {b : Bytes} {h : Heartbeat} (hw : Written b h) :
    b[4]? = some 0 ∨ b[4]? = some 1 :=
  hw.imp And.left And.left

variable {b : Bytes}

theorem decode_eq_truncated_iff {n : Nat} :
    decode b = .error (.truncated n) ↔ b.length < size ∧ n = b.length := by
  rcases decode_cases b with ⟨hlen, hread⟩ | ⟨hlen, flag, -, -, -, hread⟩ | ⟨hlen, h, hread, -⟩
  · simp [hread, hlen, eq_comm]
  · simp [hread, Nat.not_lt.2 hlen]
  · simp [hread, Nat.not_lt.2 hlen]

theorem decode_eq_invalidFlag_iff {n : Nat} :
    decode b = .error (.invalidFlag n) ↔
      size ≤ b.length ∧ ∃ flag, b[4]? = some flag ∧ flag ≠ 0 ∧ flag ≠ 1 ∧ n = flag.toNat := by
  rcases decode_cases b with ⟨hlen, hread⟩ | ⟨hlen, flag, hflag, h₀, h₁, hread⟩ |
    ⟨hlen, h, hread, hwritten⟩
  · simp [hread, Nat.not_le.2 hlen]
  · simp [hread, hlen, hflag, h₀, h₁, eq_comm]
  · rcases hwritten.flag with hflag | hflag
    · simp [hread, hflag]
    · simp [hread, hflag]

theorem exists_decode_iff :
    (∃ h, decode b = .ok h) ↔ size ≤ b.length ∧ (b[4]? = some 0 ∨ b[4]? = some 1) := by
  rcases decode_cases b with ⟨hlen, hread⟩ | ⟨hlen, flag, hflag, h₀, h₁, hread⟩ |
    ⟨hlen, h, hread, hwritten⟩
  · simp [hread, Nat.not_le.2 hlen]
  · simp [hread, hflag, h₀, h₁]
  · simp [hread, hlen, hwritten.flag]

theorem decode_eq_ok_iff {h : Heartbeat} :
    decode b = .ok h ↔ size ≤ b.length ∧ Written b h := by
  rcases decode_cases b with ⟨hlen, hread⟩ | ⟨hlen, flag, hflag, h₀, h₁, hread⟩ |
    ⟨hlen, beat, hread, hwritten⟩
  · simp [hread, Nat.not_le.2 hlen]
  · have hnot : ¬ Written b h := by
      intro hwritten
      rcases hwritten.flag with hflag' | hflag'
      · exact h₀ (Option.some.inj (hflag.symm.trans hflag'))
      · exact h₁ (Option.some.inj (hflag.symm.trans hflag'))
    simp [hread, hnot]
  · rw [hread]
    constructor
    · intro he
      cases he
      exact ⟨hlen, hwritten⟩
    · intro hw
      rw [hwritten.unique hw.2]

/-- A heartbeat reads back from its 17 bytes, whatever comes behind them. A message that is shorter
is refused for its length, and then one with a flag that is neither 0 nor 1 for its flag. Every
other message is read, and is written again with the same 17 bytes, but for the timestamp of a
sentinel, which becomes zero. -/
theorem decode_exact :
    (∀ (h : Heartbeat) (rest : Bytes), h.encode.length = 17 ∧ decode (h.encode ++ rest) = .ok h) ∧
      ∀ b : Bytes,
        (∀ n, decode b = .error (.truncated n) ↔ b.length < 17 ∧ n = b.length) ∧
        (∀ n, decode b = .error (.invalidFlag n) ↔
          17 ≤ b.length ∧ ∃ flag, b[4]? = some flag ∧ flag ≠ 0 ∧ flag ≠ 1 ∧ n = flag.toNat) ∧
        ((∃ h, decode b = .ok h) ↔ 17 ≤ b.length ∧ (b[4]? = some 0 ∨ b[4]? = some 1)) ∧
        ∀ h, decode b = .ok h ↔ 17 ≤ b.length ∧ Written b h := by
  constructor
  · intro h rest
    exact ⟨h.length_encode, decode_encode h rest⟩
  · intro b
    refine ⟨?_, ?_, exists_decode_iff, ?_⟩
    · intro n
      exact decode_eq_truncated_iff
    · intro n
      exact decode_eq_invalidFlag_iff
    · intro h
      exact decode_eq_ok_iff

/-- What a sentinel has for a timestamp is lost, and so is what comes behind it. -/
example :
    let bytes : Bytes := [0, 0, 0, 2, 0, 0, 0, 0, 0, 0, 0, 1, 2, 0, 0, 0, 7, 9]
    (decode bytes).toOption.map encode =
      some [0, 0, 0, 2, 0, 0, 0, 0, 0, 0, 0, 0, 0, 0, 0, 0, 7] := by
  decide +kernel

end Heartbeat

end Prefork.Supervision
