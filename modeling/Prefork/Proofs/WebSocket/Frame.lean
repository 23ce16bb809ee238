import Prefork.Proofs.Steady
import Prefork.WebSocket.Frame

namespace Prefork.WebSocket.Frame

open Reading (Incremental)

theorem Start.incremental : Incremental Start.read where
  steady s b more hb hd := by
    match b with
    | [] | [x] => cases hd
    | first :: second :: rest =>
      simp only [Start.read, List.cons_append]
      split
      · rfl
      · split <;> rfl
  waits {b more n} hb hl := by
    match b, more with
    | [], [] | [], [x] | [x], [] => rfl
    | [], _ :: _ :: _ | [x], _ :: _ =>
      cases hb
      simp only [List.length_cons] at hl
      omega
    | first :: second :: rest, more =>
      simp only [Start.read] at hb
      split at hb
      · cases hb
      · split at hb <;> cases hb
  suffix {b rest a} hb := by
    match b with
    | [] | [x] => cases hb
    | first :: second :: last =>
      simp only [Start.read] at hb
      split at hb
      · cases hb
      · split at hb
        · cases hb
        · cases hb
          exact List.suffix_append [first, second] rest

theorem Start.length_of_read {b rest : Bytes} {start : Start}
    (h : Start.read b = .complete start rest) : rest.length + 2 = b.length := by
  match b with
  | [] | [x] => cases h
  | first :: second :: last =>
    simp only [Start.read] at h
    split at h
    · cases h
    · split at h
      · cases h
      · cases h
        rfl

theorem incremental_readLength (code : Nat) : Incremental (readLength code) := by
  by_cases h126 : code = 126
  · exact (funext fun b ↦ if_pos h126 : readLength code = _) ▸ (Incremental.take 2).map _
  · by_cases h127 : code = 127
    · have h : readLength code = fun b ↦ (Reading.take 8 b).andThen fun field rest ↦
          if Bytes.toNat field < 0x8000000000000000 then .complete (Bytes.toNat field) rest
          else .invalid .lengthOverflow :=
        funext fun b ↦ by rw [readLength, if_neg h126, if_pos h127]
      rw [h]
      refine (Incremental.take 8).andThen fun field ↦ ?_
      by_cases hf : Bytes.toNat field < 0x8000000000000000
      · simp only [if_pos hf]
        exact Incremental.complete _
      · simp only [if_neg hf]
        exact Incremental.invalid _
    · have h : readLength code = .complete code :=
        funext fun b ↦ by rw [readLength, if_neg h126, if_neg h127]
      exact h ▸ Incremental.complete code

theorem incremental_readMask (masked : Bool) : Incremental (readMask masked) := by
  cases masked with
  | true => exact (Incremental.take 4).map Mask.ofBytes?
  | false => exact Incremental.complete none

def readBehind (limit : Nat) (start : Start) (b : Bytes) : Reading FrameError Frame :=
  (readLength start.lengthCode b).andThen fun length b ↦
  (Reading.ofExcept b (checkLength start limit length)).andThen fun _ b ↦
  (readMask start.masked b).andThen fun mask b ↦
  (Reading.take length b).map fun payload ↦
    { fin := start.fin, opcode := start.opcode, mask
      payload := match mask with
        | some mask => mask.apply payload
        | none => payload }

theorem read_eq (limit : Nat) (b : Bytes) :
    read limit b = (Start.read b).andThen (readBehind limit) := rfl

theorem incremental_readBehind (limit : Nat) (start : Start) :
    Incremental (readBehind limit start) :=
  (incremental_readLength start.lengthCode).andThen fun length ↦
    (Incremental.ofExcept (checkLength start limit length)).andThen fun _ ↦
      (incremental_readMask start.masked).andThen fun _ ↦ (Incremental.take length).map _

/-- A frame is read in the same way whatever follows it, and not before it is there. -/
theorem incremental_read (limit : Nat) : Incremental (read limit) :=
  Start.incremental.andThen (incremental_readBehind limit)

theorem length_lt_of_read {limit : Nat} {b rest : Bytes} {frame : Frame}
    (h : read limit b = .complete frame rest) : rest.length < b.length := by
  rw [read_eq] at h
  cases hs : Start.read b with
  | incomplete n | invalid e => simp [hs, Reading.andThen] at h
  | complete start last =>
    have hl := Start.length_of_read hs
    rw [hs] at h
    have hr := ((incremental_readBehind limit start).suffix h).length_le
    omega

end Prefork.WebSocket.Frame
