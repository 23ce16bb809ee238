namespace Prefork

abbrev Bytes := List UInt8

namespace Bytes

def span : Nat → Nat
  | 0 => 1
  | width + 1 => 256 * span width

theorem span_two : span 2 = 0x10000 := rfl

theorem span_eight : span 8 = 0x10000000000000000 := rfl

theorem span_pos (width : Nat) : 0 < span width := by
  induction width with
  | zero => exact Nat.one_pos
  | succ width ih =>
    rw [span]
    omega

/-- The lowest `width` bytes of a number, the most significant one first. -/
def ofNat : Nat → Nat → Bytes
  | 0, _ => []
  | width + 1, n => UInt8.ofNat (n / span width) :: ofNat width n

def toNat (b : Bytes) : Nat := b.foldl (fun n x ↦ 256 * n + x.toNat) 0

@[simp] theorem length_ofNat (width n : Nat) : (ofNat width n).length = width := by
  induction width with
  | zero => rfl
  | succ width ih => simp [ofNat, ih]

theorem foldl_toNat (n : Nat) (b : Bytes) :
    b.foldl (fun n x ↦ 256 * n + x.toNat) n = n * span b.length + toNat b := by
  induction b generalizing n with
  | nil => simp [toNat, span]
  | cons x b ih =>
    rw [toNat, List.foldl_cons, List.foldl_cons, ih, ih (256 * 0 + x.toNat), List.length_cons, span,
      Nat.mul_zero, Nat.zero_add, Nat.add_mul, Nat.mul_comm 256 n, Nat.mul_assoc, Nat.add_assoc]

theorem toNat_cons (x : UInt8) (b : Bytes) :
    toNat (x :: b) = x.toNat * span b.length + toNat b := by
  rw [toNat, List.foldl_cons, foldl_toNat, Nat.mul_zero, Nat.zero_add]

theorem toNat_lt (b : Bytes) : toNat b < span b.length := by
  induction b with
  | nil => exact Nat.one_pos
  | cons x b ih =>
    have hx := x.toNat_lt
    have hm := Nat.mul_le_mul_right (span b.length) (Nat.le_of_lt_succ hx)
    rw [toNat_cons, List.length_cons, span]
    omega

theorem toNat_ofNat (width n : Nat) : toNat (ofNat width n) = n % span width := by
  induction width with
  | zero => exact (Nat.mod_one n).symm
  | succ width ih =>
    have hm : n % span (width + 1) = n % span width + span width * (n / span width % 256) := by
      rw [span, Nat.mul_comm, Nat.mod_mul]
    rw [ofNat, toNat_cons, ih, length_ofNat, UInt8.toNat_ofNat', hm, Nat.mul_comm, Nat.add_comm]

/-- What is beyond the lowest `width` bytes is not written. -/
theorem ofNat_add (width k n : Nat) : ofNat width (k * span width + n) = ofNat width n := by
  induction width generalizing k with
  | zero => rfl
  | succ width ih =>
    have hs : k * span (width + 1) + n = 256 * k * span width + n := by
      rw [span, ← Nat.mul_assoc, Nat.mul_comm k]
    have hd : (256 * k * span width + n) / span width = 256 * k + n / span width := by
      rw [Nat.add_comm, Nat.add_mul_div_right _ _ (span_pos width), Nat.add_comm]
    have hb : UInt8.ofNat (256 * k + n / span width) = UInt8.ofNat (n / span width) := by
      rw [← UInt8.toNat_inj, UInt8.toNat_ofNat', UInt8.toNat_ofNat', Nat.mul_add_mod]
    rw [ofNat, ofNat, hs, hd, hb, ih]

theorem ofNat_toNat (b : Bytes) : ofNat b.length (toNat b) = b := by
  induction b with
  | nil => rfl
  | cons x b ih =>
    have hd : (x.toNat * span b.length + toNat b) / span b.length = x.toNat := by
      rw [Nat.add_comm, Nat.add_mul_div_right _ _ (span_pos _), Nat.div_eq_of_lt (toNat_lt b),
        Nat.zero_add]
    rw [List.length_cons, ofNat, toNat_cons, hd, ofNat_add, ih, UInt8.ofNat_toNat]

end Bytes

end Prefork
