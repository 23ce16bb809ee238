import Prefork.Proofs.WebSocket.Frame

namespace Prefork

namespace WebSocket

namespace Mask

theorem ofBytes?_bytes (m : Mask) : ofBytes? m.bytes = some m := rfl

theorem length_apply (m : Mask) (payload : Bytes) : (m.apply payload).length = payload.length :=
  List.length_mapIdx

theorem apply_apply (m : Mask) (payload : Bytes) : m.apply (m.apply payload) = payload := by
  refine List.ext_getElem (by rw [length_apply, length_apply]) fun i h h' ↦ ?_
  simp only [apply, List.getElem_mapIdx]
  rw [UInt8.xor_assoc, UInt8.xor_self, UInt8.xor_zero]

end Mask

namespace Frame

/-- A frame that a reader with the limit takes. -/
structure Admissible (limit : Nat) (f : Frame) : Prop where
  control : f.opcode.isControl = true → f.fin = true ∧ f.payload.length ≤ maxControlPayload
  limit : f.payload.length ≤ limit
  size : f.payload.length < 0x8000000000000000

/-- The ways to write the length of a payload: in the second byte of a frame, or behind it. -/
inductive LengthForm where
  | short | word | long
  deriving DecidableEq, Repr

namespace LengthForm

def code (form : LengthForm) (length : Nat) : Nat :=
  match form with
  | short => length
  | word => 126
  | long => 127

def width : LengthForm → Nat
  | short => 0
  | word => 2
  | long => 8

def Fits (form : LengthForm) (length : Nat) : Prop :=
  match form with
  | short => length ≤ 125
  | word => length < 0x10000
  | long => length < 0x8000000000000000

def shortest (length : Nat) : LengthForm :=
  if length ≤ 125 then short else if length < 0x10000 then word else long

variable {form : LengthForm} {length : Nat}

theorem fits_shortest (h : length < 0x8000000000000000) : (shortest length).Fits length := by
  unfold shortest
  split
  · next hs => exact hs
  · split
    · next hm => exact hm
    · exact h

theorem code_lt (h : form.Fits length) : form.code length < 128 := by
  cases form with
  | short => exact Nat.lt_of_le_of_lt h (by decide)
  | word => exact (by decide : 126 < 128)
  | long => exact (by decide : 127 < 128)

theorem width_shortest_le (h : form.Fits length) : (shortest length).width ≤ form.width := by
  unfold shortest
  cases form with
  | short =>
    have hs : length ≤ 125 := h
    simp only [if_pos hs, Nat.le_refl]
  | word =>
    have hm : length < 0x10000 := h
    rw [if_pos hm]
    split <;> decide
  | long =>
    split
    · decide
    · split <;> decide

theorem Fits.lt (h : form.Fits length) : length < 0x8000000000000000 := by
  cases form with
  | short => exact Nat.lt_of_le_of_lt h (by decide)
  | word => exact Nat.lt_of_lt_of_le h (by decide)
  | long => exact h

theorem width_inj {form' : LengthForm} : form.width = form'.width ↔ form = form' := by
  cases form <;> cases form' <;> decide

end LengthForm

theorem lengthField_eq (masked : Bool) (length : Nat) :
    lengthField masked length =
      UInt8.ofNat ((if masked then 128 else 0) + (LengthForm.shortest length).code length) ::
        Bytes.ofNat (LengthForm.shortest length).width length := by
  unfold lengthField LengthForm.shortest
  by_cases hs : length ≤ 125
  · simp only [if_pos hs]
    rfl
  · by_cases hm : length < 0x10000
    · simp only [if_neg hs, if_pos hm]
      rfl
    · simp only [if_neg hs, if_neg hm]
      rfl

def covered (f : Frame) : Bytes :=
  match f.mask with
  | some mask => mask.bytes ++ mask.apply f.payload
  | none => f.payload

def wire (f : Frame) (form : LengthForm) : Bytes :=
  UInt8.ofNat ((if f.fin then 128 else 0) + f.opcode.code) ::
    UInt8.ofNat ((if f.mask.isSome then 128 else 0) + form.code f.payload.length) ::
      (Bytes.ofNat form.width f.payload.length ++ f.covered)

theorem length_payload_le_covered (f : Frame) : f.payload.length ≤ f.covered.length := by
  obtain ⟨fin, opcode, mask, payload⟩ := f
  cases mask with
  | none => exact Nat.le_refl _
  | some mask =>
    rw [covered, List.length_append, mask.length_apply]
    exact Nat.le_add_left ..

theorem length_wire (f : Frame) (form : LengthForm) :
    (f.wire form).length = 2 + form.width + f.covered.length := by
  simp only [wire, List.length_cons, List.length_append, Bytes.length_ofNat]
  omega

theorem pack_eq_wire (f : Frame) : f.pack = f.wire (.shortest f.payload.length) := by
  rw [pack, lengthField_eq]
  rfl

theorem length_payload_lt (f : Frame) : f.payload.length < f.pack.length := by
  have hl := f.length_payload_le_covered
  rw [pack_eq_wire, length_wire]
  omega

theorem read_start (fin : Bool) (opcode : Opcode) (masked : Bool) {code : Nat} (h : code < 128)
    (rest : Bytes) :
    Start.read (UInt8.ofNat ((if fin then 128 else 0) + opcode.code) ::
      UInt8.ofNat ((if masked then 128 else 0) + code) :: rest) =
      .complete ⟨fin, opcode, masked, code⟩ rest := by
  have hsecond : (UInt8.ofNat ((if masked then 128 else 0) + code)).toNat =
      (if masked then 128 else 0) + code := by
    rw [UInt8.toNat_ofNat', Nat.mod_eq_of_lt]
    split <;> omega
  have hmasked : decide (128 ≤ (if masked then 128 else 0) + code) = masked := by
    cases masked
    · simp only [Bool.false_eq_true, if_false, decide_eq_false_iff_not]
      omega
    · simp only [if_true, decide_eq_true_eq]
      omega
  have hcode : ((if masked then 128 else 0) + code) % 128 = code := by
    split <;> omega
  simp only [Start.read, hsecond, hmasked, hcode]
  cases fin <;> cases opcode <;> rfl

theorem readLength_code {form : LengthForm} {length : Nat} (h : form.Fits length) (rest : Bytes) :
    readLength (form.code length) (Bytes.ofNat form.width length ++ rest) =
      .complete length rest := by
  cases form with
  | short =>
    have hs : length ≤ 125 := h
    have hc : LengthForm.short.code length = length := rfl
    rw [hc, readLength, if_neg (by omega), if_neg (by omega)]
    rfl
  | word =>
    have hm : length % Bytes.span 2 = length := Nat.mod_eq_of_lt h
    simp only [LengthForm.code, LengthForm.width]
    rw [readLength, if_pos rfl, Reading.take_append (Bytes.length_ofNat 2 length), Reading.map,
      Bytes.toNat_ofNat, hm]
  | long =>
    have hl : length < 0x8000000000000000 := h
    have hn : Bytes.toNat (Bytes.ofNat 8 length) = length := by
      rw [Bytes.toNat_ofNat, Bytes.span_eight, Nat.mod_eq_of_lt (by omega)]
    simp only [LengthForm.code, LengthForm.width]
    rw [readLength, if_neg (by decide), if_pos rfl,
      Reading.take_append (Bytes.length_ofNat 8 length), Reading.andThen, hn, if_pos hl]

theorem Admissible.checkLength {limit : Nat} {f : Frame} (h : f.Admissible limit) (start : Start)
    (hf : start.fin = f.fin) (ho : start.opcode = f.opcode) :
    Frame.checkLength start limit f.payload.length = .ok () := by
  have hl := h.limit
  rw [Frame.checkLength, hf, ho]
  cases hc : f.opcode.isControl with
  | false => simp only [Bool.false_and, Bool.false_eq_true, if_false, Nat.not_lt.2 hl]
  | true =>
    obtain ⟨hfin, hs⟩ := h.control hc
    simp only [hfin, Bool.not_true, Bool.and_false, Bool.false_eq_true, if_false, Bool.true_and,
      decide_eq_true_eq, Nat.not_lt.2 hs, Nat.not_lt.2 hl]

/-- A frame is read from each of its forms, whatever follows it. -/
theorem read_wire {limit : Nat} {f : Frame} {form : LengthForm} (h : f.Admissible limit)
    (hf : form.Fits f.payload.length) (rest : Bytes) :
    read limit (f.wire form ++ rest) = .complete f rest := by
  have hcheck :=
    h.checkLength ⟨f.fin, f.opcode, f.mask.isSome, form.code f.payload.length⟩ rfl rfl
  rw [wire, read_eq]
  simp only [List.cons_append, List.append_assoc]
  rw [read_start _ _ _ (LengthForm.code_lt hf), Reading.andThen, readBehind, readLength_code hf,
    Reading.andThen, hcheck, Reading.ofExcept, Reading.andThen]
  obtain ⟨fin, opcode, mask, payload⟩ := f
  cases mask with
  | none =>
    simp only [covered, Option.isSome_none, readMask, Bool.false_eq_true, if_false, Reading.andThen]
    rw [Reading.take_append rfl, Reading.map]
  | some mask =>
    simp only [covered, Option.isSome_some, readMask, if_true, List.append_assoc]
    have hm : mask.bytes.length = 4 := rfl
    rw [Reading.take_append hm, Reading.map, Reading.andThen, Mask.ofBytes?_bytes,
      Reading.take_append (Mask.length_apply mask payload), Reading.map]
    simp only [Mask.apply_apply]

/-- A packed frame is read back, whatever follows it. -/
theorem read_pack {limit : Nat} {f : Frame} (h : f.Admissible limit) (rest : Bytes) :
    read limit (f.pack ++ rest) = .complete f rest := by
  rw [pack_eq_wire]
  exact read_wire h (LengthForm.fits_shortest h.size) rest

theorem length_le_of_incomplete {limit : Nat} {f : Frame} (h : f.Admissible limit)
    {front : Bytes} (hf : front <+: f.pack) {n : Nat} (hn : read limit front = .incomplete n) :
    front.length + n ≤ f.pack.length := by
  obtain ⟨more, hm⟩ := hf
  have hwhole : read limit (front ++ more) = .complete f [] := by
    rw [hm, ← List.append_nil f.pack, read_pack h]
  apply Nat.le_of_not_lt
  intro hlt
  have hw : (read limit (front ++ more)).isIncomplete := by
    apply (incremental_read limit).waits hn
    rw [← hm, List.length_append] at hlt
    omega
  rw [hwhole] at hw
  cases hw

/-- A packed frame is read back and what follows it is left. Before all of it is there the reader
waits, and it asks for no more than is to come. -/
theorem packed_reads_back {limit : Nat} {f : Frame} (h : f.Admissible limit) :
    (∀ rest, read limit (f.pack ++ rest) = .complete f rest) ∧
      ∀ front, front <+: f.pack → front ≠ f.pack →
        ∃ n, read limit front = .incomplete n ∧ front.length + n ≤ f.pack.length := by
  refine ⟨read_pack h, ?_⟩
  intro front hf hne
  have hwhole : read limit f.pack = .complete f [] := by
    rw [← List.append_nil f.pack, read_pack h]
  have hwaits : (read limit front).isIncomplete :=
    ((incremental_read limit).steady f.pack).isIncomplete_front hwhole hf hne
  obtain ⟨n, hn⟩ := Reading.eq_incomplete hwaits
  exact ⟨n, hn, length_le_of_incomplete h hf hn⟩

/-- A masked fragment of 64 KiB, with the start of another frame behind it, and its header cut
inside the length field. -/
theorem packed_reads_back_masked :
    let f : Frame := ⟨false, .binary, some ⟨1, 2, 3, 4⟩, List.replicate 0x10000 7⟩
    f.Admissible 0x10000 ∧ read 0x10000 (f.pack ++ [0x81]) = .complete f [0x81] ∧
      ∃ n, read 0x10000 (f.pack.take 9) = .incomplete n ∧
        (f.pack.take 9).length + n ≤ f.pack.length := by
  intro f
  have hl : f.payload.length = 0x10000 := List.length_replicate
  have h : f.Admissible 0x10000 := ⟨nofun, Nat.le_of_eq hl, hl ▸ by decide⟩
  obtain ⟨hback, hfront⟩ := packed_reads_back h
  refine ⟨h, hback [0x81], hfront (f.pack.take 9) (List.take_prefix 9 f.pack) ?_⟩
  intro he
  have hlong : (f.pack.take 9).length = f.pack.length := congrArg List.length he
  have hpack := f.length_payload_lt
  rw [List.length_take] at hlong
  omega

theorem Start.lengthCode_lt {b rest : Bytes} {start : Start}
    (h : Start.read b = .complete start rest) : start.lengthCode < 128 := by
  match b with
  | [] | [x] => cases h
  | first :: second :: last =>
    simp only [Start.read] at h
    split at h
    · cases h
    · split at h
      · cases h
      · cases h
        exact Nat.mod_lt _ (by decide)

theorem form_of_readLength {code length : Nat} {b rest : Bytes} (hc : code < 128)
    (h : readLength code b = .complete length rest) :
    ∃ form : LengthForm, form.Fits length ∧ form.code length = code ∧
      b = Bytes.ofNat form.width length ++ rest := by
  rw [readLength] at h
  split at h
  · next h126 =>
    obtain ⟨field, hf, rfl⟩ := Reading.map_eq_complete h
    have hw : field.length = 2 := Reading.length_of_take hf
    have hlt := Bytes.toNat_lt field
    have hback := Bytes.ofNat_toNat field
    rw [hw] at hlt hback
    refine ⟨.word, hlt, h126.symm, ?_⟩
    rw [LengthForm.width, hback]
    exact Reading.append_of_take hf
  · split at h
    · next h127 =>
      obtain ⟨field, last, hf, hv⟩ := Reading.andThen_eq_complete h
      have hw : field.length = 8 := Reading.length_of_take hf
      have hback := Bytes.ofNat_toNat field
      rw [hw] at hback
      split at hv
      · next hlt =>
        cases hv
        refine ⟨.long, hlt, h127.symm, ?_⟩
        rw [LengthForm.width, hback]
        exact Reading.append_of_take hf
      · cases hv
    · cases h
      exact ⟨.short, (by omega : code ≤ 125), rfl, rfl⟩

theorem lt_of_readLength {code length : Nat} {b rest : Bytes} (hc : code < 128)
    (h : readLength code b = .complete length rest) : length < 0x8000000000000000 := by
  obtain ⟨form, hfits, -⟩ := form_of_readLength hc h
  exact hfits.lt

theorem of_checkLength {start : Start} {limit length : Nat}
    (h : checkLength start limit length = .ok ()) :
    (start.opcode.isControl = true → start.fin = true ∧ length ≤ maxControlPayload) ∧
      length ≤ limit := by
  rw [checkLength] at h
  split at h
  · cases h
  · next hfin =>
    split at h
    · cases h
    · next hsize =>
      split at h
      · cases h
      · next hlimit =>
        refine ⟨fun hc ↦ ?_, by omega⟩
        rw [hc, Bool.true_and] at hfin hsize
        exact ⟨by simpa using hfin, by simpa using hsize⟩

theorem admissible_of_read {limit : Nat} {b rest : Bytes} {f : Frame}
    (h : read limit b = .complete f rest) : f.Admissible limit := by
  rw [read_eq] at h
  obtain ⟨start, b₁, hs, h⟩ := Reading.andThen_eq_complete h
  rw [readBehind] at h
  obtain ⟨length, b₂, hl, h⟩ := Reading.andThen_eq_complete h
  obtain ⟨u, b₃, hc, h⟩ := Reading.andThen_eq_complete h
  obtain ⟨mask, b₄, -, h⟩ := Reading.andThen_eq_complete h
  obtain ⟨payload, hp, rfl⟩ := Reading.map_eq_complete h
  have hsize := lt_of_readLength (Start.lengthCode_lt hs) hl
  obtain ⟨hcontrol, hlimit⟩ := of_checkLength (Reading.ofExcept_eq_complete hc).1
  have hlength := Reading.length_of_take hp
  cases mask with
  | none =>
    subst hlength
    exact ⟨hcontrol, hlimit, hsize⟩
  | some mask =>
    have hm : (mask.apply payload).length = length := (mask.length_apply payload).trans hlength
    exact ⟨fun hc ↦ ⟨(hcontrol hc).1, hm ▸ (hcontrol hc).2⟩, hm ▸ hlimit, hm ▸ hsize⟩

def readAll (limit : Nat) (b : Bytes) : List Frame × Option FrameError × Bytes :=
  match h : read limit b with
  | .incomplete _ => ([], none, b)
  | .invalid e => ([], some e, b)
  | .complete f rest =>
    have := length_lt_of_read h
    (f :: (readAll limit rest).1, (readAll limit rest).2)
termination_by b.length

variable {limit : Nat} {b rest : Bytes}

theorem readAll_incomplete {n : Nat} (h : read limit b = .incomplete n) :
    readAll limit b = ([], none, b) := by
  rw [readAll]
  split <;> simp_all

theorem readAll_invalid {e : FrameError} (h : read limit b = .invalid e) :
    readAll limit b = ([], some e, b) := by
  rw [readAll]
  split <;> simp_all

theorem readAll_complete {f : Frame} (h : read limit b = .complete f rest) :
    readAll limit b = (f :: (readAll limit rest).1, (readAll limit rest).2) := by
  rw [readAll]
  split <;> simp_all

theorem admissible_of_mem_readAll (limit : Nat) (b : Bytes) {f : Frame}
    (h : f ∈ (readAll limit b).1) : f.Admissible limit := by
  cases hr : read limit b with
  | incomplete n =>
    rw [readAll_incomplete hr] at h
    cases h
  | invalid e =>
    rw [readAll_invalid hr] at h
    cases h
  | complete g rest =>
    have hl := length_lt_of_read hr
    rw [readAll_complete hr] at h
    rcases List.mem_cons.1 h with rfl | h
    · exact admissible_of_read hr
    · exact admissible_of_mem_readAll limit rest h
termination_by b.length

theorem readAll_flatMap_pack {fs : List Frame} (h : ∀ f ∈ fs, f.Admissible limit) :
    readAll limit (fs.flatMap pack) = (fs, none, []) := by
  induction fs with
  | nil => exact readAll_incomplete (n := 2) rfl
  | cons f fs ih =>
    obtain ⟨hf, hfs⟩ := List.forall_mem_cons.1 h
    rw [List.flatMap_cons, readAll_complete (read_pack hf _), ih hfs]

end Frame

end WebSocket

end Prefork
