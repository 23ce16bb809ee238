import Prefork.Proofs.WebSocket.Packing

namespace Prefork.WebSocket.Frame

def unpack (limit : Nat) (buffer : Bytes) : Except FrameError (Option Frame) × Bytes :=
  match read limit buffer with
  | .incomplete _ => (.ok none, buffer)
  | .invalid e => (.error e, buffer)
  | .complete f rest => (.ok (some f), rest)

def announced? (second : UInt8) (behind : Bytes) : Option Nat :=
  let code := second.toNat % 128
  if code ≤ 125 then some code
  else
    let width := if code = 126 then 2 else 8
    if width ≤ behind.length then some (Bytes.toNat (behind.take width)) else none

theorem Start.eq_of_read {b rest : Bytes} {start : Start}
    (h : Start.read b = .complete start rest) :
    b = UInt8.ofNat ((if start.fin then 128 else 0) + start.opcode.code) ::
      UInt8.ofNat ((if start.masked then 128 else 0) + start.lengthCode) :: rest := by
  match b with
  | [] | [x] => cases h
  | first :: second :: last =>
    simp only [Start.read] at h
    split at h
    · cases h
    · next hreserved =>
      split at h
      · cases h
      · next opcode hopcode =>
        cases h
        have hcode : opcode.code = first.toNat % 16 := by
          simpa using List.find?_some hopcode
        have hfirst := first.toNat_lt
        have hsecond := second.toNat_lt
        congr 1
        · rw [← UInt8.toNat_inj, UInt8.toNat_ofNat', hcode]
          simp only [decide_eq_true_eq]
          split <;> omega
        · congr 1
          rw [← UInt8.toNat_inj, UInt8.toNat_ofNat']
          simp only [decide_eq_true_eq]
          split <;> omega

theorem eq_of_readMask {masked : Bool} {mask : Option Mask} {b rest : Bytes}
    (h : readMask masked b = .complete mask rest) :
    mask.isSome = masked ∧ b = mask.elim [] Mask.bytes ++ rest := by
  cases masked with
  | false =>
    cases h
    exact ⟨rfl, rfl⟩
  | true =>
    obtain ⟨key, hk, rfl⟩ := Reading.map_eq_complete h
    have hb := Reading.append_of_take hk
    have hl : key.length = 4 := Reading.length_of_take hk
    match key with
    | [x, y, z, w] => exact ⟨rfl, hb⟩

/-- A frame that is read stands there in one of its forms. -/
theorem wire_of_read {limit : Nat} {b rest : Bytes} {f : Frame}
    (h : read limit b = .complete f rest) :
    ∃ form : LengthForm, form.Fits f.payload.length ∧ b = f.wire form ++ rest := by
  rw [read_eq] at h
  obtain ⟨start, b₁, hs, h⟩ := Reading.andThen_eq_complete h
  rw [readBehind] at h
  obtain ⟨length, b₂, hl, h⟩ := Reading.andThen_eq_complete h
  obtain ⟨u, b₃, hc, h⟩ := Reading.andThen_eq_complete h
  obtain ⟨mask, b₄, hm, h⟩ := Reading.andThen_eq_complete h
  obtain ⟨payload, hp, rfl⟩ := Reading.map_eq_complete h
  obtain ⟨form, hfits, hcode, hb₁⟩ := form_of_readLength (Start.lengthCode_lt hs) hl
  obtain ⟨hmasked, hb₂⟩ := eq_of_readMask hm
  have hlength := Reading.length_of_take hp
  have hb₄ := Reading.append_of_take hp
  rw [← (Reading.ofExcept_eq_complete hc).2] at hb₂
  cases mask with
  | none =>
    refine ⟨form, hlength ▸ hfits, ?_⟩
    simp only [wire, covered, Start.eq_of_read hs, ← hmasked, hlength, hcode, hb₁, hb₂, hb₄]
    simp
  | some mask =>
    have hlength : (mask.apply payload).length = length := by rw [mask.length_apply, hlength]
    refine ⟨form, hlength ▸ hfits, ?_⟩
    simp only [wire, covered, Start.eq_of_read hs, ← hmasked, hlength, hcode, hb₁, hb₂, hb₄]
    simp [mask.apply_apply]

theorem length_payload_le_of_read {limit : Nat} {b rest : Bytes} {f : Frame}
    (h : read limit b = .complete f rest) : f.payload.length + rest.length ≤ b.length := by
  obtain ⟨form, -, rfl⟩ := wire_of_read h
  have hl := f.length_payload_le_covered
  rw [List.length_append, length_wire]
  omega

structure Allowed (limit : Nat) (first : UInt8) (length : Nat) : Prop where
  limit : length ≤ limit
  control : 8 ≤ first.toNat % 16 → 128 ≤ first.toNat ∧ length ≤ maxControlPayload

theorem Start.read_cons {first second : UInt8} {behind rest : Bytes} {start : Start}
    (h : Start.read (first :: second :: behind) = .complete start rest) :
    rest = behind ∧ start.lengthCode = second.toNat % 128 ∧
      (start.fin = true ↔ 128 ≤ first.toNat) ∧
      (8 ≤ first.toNat % 16 → start.opcode.isControl = true) := by
  simp only [Start.read] at h
  split at h
  · cases h
  · split at h
    · cases h
    · next opcode hopcode =>
      cases h
      have hcode : opcode.code = first.toNat % 16 := by
        simpa using List.find?_some hopcode
      refine ⟨rfl, rfl, decide_eq_true_iff, fun hc ↦ ?_⟩
      rw [← hcode] at hc
      cases opcode with
      | continuation | text | binary => exact absurd hc (by decide)
      | close | ping | pong => rfl

/-- Where a length is announced, none but that is read. -/
theorem readLength_of_announced {second : UInt8} {behind : Bytes} {length : Nat}
    (h : announced? second behind = some length) :
    (∃ rest, readLength (second.toNat % 128) behind = .complete length rest) ∨
      readLength (second.toNat % 128) behind = .invalid .lengthOverflow := by
  simp only [announced?] at h
  by_cases hs : second.toNat % 128 ≤ 125
  · rw [if_pos hs] at h
    cases h
    rw [readLength, if_neg (by omega), if_neg (by omega)]
    exact .inl ⟨behind, rfl⟩
  · rw [if_neg hs] at h
    by_cases h126 : second.toNat % 128 = 126
    · rw [if_pos h126] at h
      rw [readLength, if_pos h126]
      split at h
      · next hw =>
        cases h
        rw [Reading.take_of_le hw]
        exact .inl ⟨_, rfl⟩
      · cases h
    · rw [if_neg h126] at h
      rw [readLength, if_neg h126, if_pos (by omega)]
      split at h
      · next hw =>
        cases h
        rw [Reading.take_of_le hw, Reading.andThen]
        split
        · exact .inl ⟨_, rfl⟩
        · exact .inr rfl
      · cases h

theorem Start.read_cons_ne_incomplete (first second : UInt8) (behind : Bytes) (n : Nat) :
    Start.read (first :: second :: behind) ≠ .incomplete n := by
  intro h
  simp only [Start.read] at h
  split at h
  · cases h
  · split at h <;> cases h

theorem length_lt_of_readLength_incomplete {code n : Nat} {b : Bytes}
    (h : readLength code b = .incomplete n) : b.length < 8 := by
  rw [readLength] at h
  split at h
  · have hlt : b.length < 2 := Reading.lt_of_take_incomplete (Reading.map_eq_incomplete h)
    omega
  · split at h
    · rcases Reading.andThen_eq_incomplete h with hf | ⟨field, last, -, hf⟩
      · exact Reading.lt_of_take_incomplete hf
      · split at hf <;> cases hf
    · cases h

theorem length_lt_of_readMask_incomplete {masked : Bool} {n : Nat} {b : Bytes}
    (h : readMask masked b = .incomplete n) : b.length < 4 := by
  cases masked with
  | false => cases h
  | true => exact Reading.lt_of_take_incomplete (Reading.map_eq_incomplete h)

/-- While a length within the limit is not contradicted, no more is awaited than its frame has. -/
theorem length_lt_of_incomplete {limit n : Nat} {b : Bytes} (h : read limit b = .incomplete n) :
    b.length < limit + 14 := by
  rw [read_eq] at h
  rcases Reading.andThen_eq_incomplete h with hs | ⟨start, b₁, hs, hbehind⟩
  · match b with
    | [] | [x] =>
      simp only [List.length_cons, List.length_nil]
      omega
    | first :: second :: last => exact absurd hs (Start.read_cons_ne_incomplete first second last n)
  have hstart := Start.length_of_read hs
  rw [readBehind] at hbehind
  rcases Reading.andThen_eq_incomplete hbehind with hl | ⟨length, b₂, hl, hchecked⟩
  · have hlt := length_lt_of_readLength_incomplete hl
    omega
  obtain ⟨form, -, -, rfl⟩ := form_of_readLength (Start.lengthCode_lt hs) hl
  have hwidth : form.width ≤ 8 := by cases form <;> decide
  rw [List.length_append, Bytes.length_ofNat] at hstart
  rcases Reading.andThen_eq_incomplete hchecked with hc | ⟨u, b₃, hc, hmasked⟩
  · cases hk : checkLength start limit length <;> rw [hk] at hc <;> cases hc
  obtain ⟨hok, rfl⟩ := Reading.ofExcept_eq_complete hc
  have hlimit := (of_checkLength hok).2
  rcases Reading.andThen_eq_incomplete hmasked with hm | ⟨mask, b₄, hm, hp⟩
  · have hlt := length_lt_of_readMask_incomplete hm
    omega
  · have hlt : b₄.length < length := Reading.lt_of_take_incomplete (Reading.map_eq_incomplete hp)
    have hmask := congrArg List.length (eq_of_readMask hm).2
    rw [List.length_append] at hmask
    have hkey : (mask.elim [] Mask.bytes).length ≤ 4 := by
      cases mask with
      | none => exact Nat.zero_le 4
      | some mask => exact Nat.le_refl 4
    omega

theorem allowed_of_incomplete {limit n length : Nat} {first second : UInt8} {behind : Bytes}
    (h : read limit (first :: second :: behind) = .incomplete n)
    (ha : announced? second behind = some length) : Allowed limit first length := by
  rw [read_eq] at h
  rcases Reading.andThen_eq_incomplete h with hs | ⟨start, rest, hs, hbehind⟩
  · exact absurd hs (Start.read_cons_ne_incomplete first second behind n)
  obtain ⟨rfl, hcode, hfin, hcontrol⟩ := Start.read_cons hs
  rw [readBehind, hcode] at hbehind
  rcases readLength_of_announced ha with ⟨b, hl⟩ | hl
  · rw [hl, Reading.andThen] at hbehind
    cases hc : checkLength start limit length with
    | error e =>
      rw [hc] at hbehind
      cases hbehind
    | ok u =>
      obtain ⟨hrules, hlimit⟩ := of_checkLength hc
      refine ⟨hlimit, fun h8 ↦ ?_⟩
      obtain ⟨hwhole, hsmall⟩ := hrules (hcontrol h8)
      exact ⟨hfin.1 hwhole, hsmall⟩
  · rw [hl] at hbehind
    cases hbehind

/-- More input changes no verdict: a frame is taken off again, with what follows it left, and an
error stays the same. Without a frame the buffer is left as it was. Where the verdict is to wait,
the buffer is shorter than the longest frame within the limit, and its header, if it has a whole
one, is allowed. -/
theorem unpack_append (limit : Nat) (buffer more : Bytes) :
    match unpack limit buffer with
    | (.ok (some f), left) =>
      unpack limit (buffer ++ more) = (.ok (some f), left ++ more)
    | (.error e, left) =>
      left = buffer ∧ unpack limit (buffer ++ more) = (.error e, buffer ++ more)
    | (.ok none, left) =>
      left = buffer ∧ buffer.length < limit + 14 ∧
        ∀ first second behind length, buffer = first :: second :: behind →
          announced? second behind = some length → Allowed limit first length := by
  have hsteady := (incremental_read limit).steady (buffer ++ more)
  simp only [unpack]
  cases hr : read limit buffer with
  | incomplete n =>
    refine ⟨rfl, length_lt_of_incomplete hr, ?_⟩
    rintro first second behind length rfl ha
    exact allowed_of_incomplete hr ha
  | invalid e =>
    refine ⟨rfl, ?_⟩
    rw [hsteady.invalid hr]
  | complete f rest =>
    simp only [hsteady.complete hr]

/-- No fewer bytes than that bound may wait: a masked frame of two bytes, with its length in eight. -/
example : let buffer := [130, 255, 0, 0, 0, 0, 0, 0, 0, 2, 1, 2, 3, 4, 105]
    buffer.length + 1 = 2 + 14 ∧ unpack 2 buffer = (.ok none, buffer) := ⟨rfl, rfl⟩

/-- A frame that is unpacked stands at the front in one of its forms. The packed form is the
shortest: it takes no more bytes, and as many only if it is the form that stands there. -/
theorem pack_of_unpack {limit : Nat} {buffer left : Bytes} {f : Frame}
    (h : unpack limit buffer = (.ok (some f), left)) :
    let n := buffer.length - left.length
    f.pack.length ≤ n ∧ unpack limit f.pack = (.ok (some f), []) ∧
      (f.pack.length = n ↔ f.pack = buffer.take n) ∧
      ∃ form : LengthForm, buffer = f.wire form ++ left ∧
        (f.pack.length = n ↔ form = .shortest f.payload.length) := by
  have hr : read limit buffer = .complete f left := by
    rw [unpack] at h
    split at h <;> cases h
    assumption
  have hback := read_pack (admissible_of_read hr) []
  obtain ⟨form, hfits, rfl⟩ := wire_of_read hr
  have hn : (f.wire form ++ left).length - left.length = (f.wire form).length := by
    rw [List.length_append, Nat.add_sub_cancel]
  have hform : f.pack.length = (f.wire form).length ↔ form = .shortest f.payload.length := by
    rw [pack_eq_wire, length_wire, length_wire, eq_comm (a := form), ← LengthForm.width_inj]
    omega
  simp only [hn, List.take_left]
  refine ⟨?_, ?_, ⟨fun hl ↦ ?_, fun he ↦ congrArg List.length he⟩, form, rfl, hform⟩
  · have hle := LengthForm.width_shortest_le hfits
    rw [pack_eq_wire, length_wire, length_wire]
    omega
  · rw [List.append_nil] at hback
    rw [unpack, hback]
  · rw [pack_eq_wire, ← hform.1 hl]

/-- A masked text of two bytes, with its length in eight. -/
theorem pack_of_unpack_long :
    let buffer : Bytes := [129, 255, 0, 0, 0, 0, 0, 0, 0, 2, 1, 2, 3, 4, 105, 107, 137]
    let f : Frame := { opcode := .text, mask := some ⟨1, 2, 3, 4⟩, payload := [104, 105] }
    unpack 2 buffer = (.ok (some f), [137]) ∧ f.pack.length ≤ 16 ∧
      unpack 2 f.pack = (.ok (some f), []) ∧ (f.pack.length = 16 ↔ f.pack = buffer.take 16) ∧
      ∃ form : LengthForm, buffer = f.wire form ++ [137] ∧
        (f.pack.length = 16 ↔ form = .shortest 2) := by
  intro buffer f
  have h : unpack 2 buffer = (.ok (some f), [137]) := rfl
  exact ⟨h, pack_of_unpack h⟩

end Prefork.WebSocket.Frame
