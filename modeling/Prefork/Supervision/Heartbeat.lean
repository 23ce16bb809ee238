import Prefork.Bytes

namespace Prefork.Supervision

/-- A worker's report of its open connections. The last one, a sentinel, has no timestamp. -/
structure Heartbeat where
  worker : UInt32
  timestamp : Option UInt64
  openCount : UInt32
  deriving DecidableEq, Repr

inductive HeartbeatError where
  | truncated (size : Nat)
  | invalidFlag (flag : Nat)
  deriving DecidableEq, Repr

def HeartbeatError.message : HeartbeatError → String
  | truncated size => s!"heartbeat truncated: {size} bytes"
  | invalidFlag flag => s!"invalid heartbeat flag: {flag}"

namespace Heartbeat

def size : Nat := 17

def isSentinel (h : Heartbeat) : Bool := h.timestamp.isNone

def encode (h : Heartbeat) : Bytes :=
  let (flag, timestamp) := match h.timestamp with
    | some t => (1, t.toNat)
    | none => (0, 0)
  Bytes.ofNat 4 h.worker.toNat ++ Bytes.ofNat 1 flag ++ Bytes.ofNat 8 timestamp ++
    Bytes.ofNat 4 h.openCount.toNat

/-- Bytes behind the fields are ignored, and so is the timestamp of a sentinel. -/
def decode (b : Bytes) : Except HeartbeatError Heartbeat :=
  if b.length < size then .error (.truncated b.length)
  else
    let field (start width : Nat) : Nat := Bytes.toNat ((b.drop start).take width)
    let report (timestamp : Option UInt64) : Heartbeat :=
      { worker := UInt32.ofNat (field 0 4), timestamp, openCount := UInt32.ofNat (field 13 4) }
    match field 4 1 with
    | 0 => .ok (report none)
    | 1 => .ok (report (some (UInt64.ofNat (field 5 8))))
    | flag => .error (.invalidFlag flag)

theorem length_encode (h : Heartbeat) : h.encode.length = size := by
  simp [encode, size]

theorem field_append {field : Bytes} {start width : Nat} (before after : Bytes)
    (hs : before.length = start) (hw : field.length = width) :
    ((before ++ field ++ after).drop start).take width = field := by
  subst hs hw
  simp

/-- What the four fields say, whatever comes behind them. -/
theorem decode_fields {worker flag timestamp count : Bytes} (rest : Bytes)
    (hw : worker.length = 4) (hf : flag.length = 1) (ht : timestamp.length = 8)
    (hc : count.length = 4) : decode (worker ++ flag ++ timestamp ++ count ++ rest) =
      let report (t : Option UInt64) : Heartbeat :=
        ⟨UInt32.ofNat (Bytes.toNat worker), t, UInt32.ofNat (Bytes.toNat count)⟩
      match Bytes.toNat flag with
      | 0 => .ok (report none)
      | 1 => .ok (report (some (UInt64.ofNat (Bytes.toNat timestamp))))
      | n => .error (.invalidFlag n) := by
  generalize hb : worker ++ flag ++ timestamp ++ count ++ rest = b
  have hlt : ¬ b.length < size := by
    simp only [← hb, List.length_append, hw, hf, ht, hc, size]
    omega
  have hworker : (b.drop 0).take 4 = worker := by
    rw [← hb]
    simpa using field_append [] (flag ++ timestamp ++ count ++ rest) rfl hw
  have hflag : (b.drop 4).take 1 = flag := by
    rw [← hb]
    simpa using field_append worker (timestamp ++ count ++ rest) hw hf
  have htimestamp : (b.drop 5).take 8 = timestamp := by
    rw [← hb]
    simpa using field_append (worker ++ flag) (count ++ rest)
      (by rw [List.length_append, hw, hf]) ht
  have hcount : (b.drop 13).take 4 = count := by
    rw [← hb]
    simpa using field_append (worker ++ flag ++ timestamp) rest
      (by simp only [List.length_append, hw, hf, ht]) hc
  simp only [decode, if_neg hlt, hworker, hflag, htimestamp, hcount]

/-- A heartbeat reads back from what is written of it, whatever comes behind. -/
theorem decode_encode (h : Heartbeat) (rest : Bytes) : decode (h.encode ++ rest) = .ok h := by
  obtain ⟨worker, timestamp, count⟩ := h
  have hword (n : UInt32) : UInt32.ofNat (Bytes.toNat (Bytes.ofNat 4 n.toNat)) = n := by
    rw [Bytes.toNat_ofNat, Nat.mod_eq_of_lt (by exact n.toNat_lt), UInt32.ofNat_toNat]
  have hlong (n : UInt64) : UInt64.ofNat (Bytes.toNat (Bytes.ofNat 8 n.toNat)) = n := by
    rw [Bytes.toNat_ofNat, Nat.mod_eq_of_lt (by exact n.toNat_lt), UInt64.ofNat_toNat]
  have hfields (flag : Nat) (t : Nat) := decode_fields rest (Bytes.length_ofNat 4 worker.toNat)
    (Bytes.length_ofNat 1 flag) (Bytes.length_ofNat 8 t) (Bytes.length_ofNat 4 count.toNat)
  cases timestamp with
  | none =>
    refine (hfields 0 0).trans ?_
    rw [hword, hword]
    rfl
  | some t =>
    refine (hfields 1 t.toNat).trans ?_
    rw [hword, hword, hlong]
    rfl

end Heartbeat

end Prefork.Supervision
