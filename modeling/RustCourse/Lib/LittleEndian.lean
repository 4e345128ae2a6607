import Mathlib.Data.Nat.Basic
import Mathlib.Data.UInt
import Mathlib.Tactic.Ring

/-!
# Little-endian numbers

The base-256 digits of a number, the lowest first.  `bytes width n` are the lowest `width`
of them, so what does not fit is cut off, and `value` reads digits back
(`value_bytes`).  For 32-bit words the two are `to_le_bytes` and `from_le_bytes`.

## Strategy

Both functions are recursive in the number of digits, so the round trip is an induction on the
width: the remainder by 256 is the first digit, and the quotient has one digit less.  What is
too wide loses its upper digits, so the round trip holds modulo `256 ^ width`.
-/

namespace RustCourse.LittleEndian

/-! ## Digits -/

/-- The lowest `width` digits of `n`. -/
def bytes : ℕ → ℕ → List UInt8
  | 0, _ => []
  | width + 1, n => UInt8.ofNat n :: bytes width (n / 256)

/-- The number with these digits. -/
def value : List UInt8 → ℕ
  | [] => 0
  | digit :: rest => digit.toNat + 256 * value rest

@[simp] theorem length_bytes (width n : ℕ) : (bytes width n).length = width := by
  induction width generalizing n with
  | zero => rfl
  | succ width ih => rw [bytes, List.length_cons, ih]

theorem value_bytes (width n : ℕ) : value (bytes width n) = n % 256 ^ width := by
  induction width generalizing n with
  | zero => rw [bytes, value, Nat.pow_zero, Nat.mod_one]
  | succ width ih =>
      have hdigit : (UInt8.ofNat n).toNat = n % 256 := UInt8.toNat_ofNat
      calc value (bytes (width + 1) n)
          = n % 256 + 256 * (n / 256 % 256 ^ width) := by rw [bytes, value, ih, hdigit]
        _ = n % (256 * 256 ^ width) := Nat.mod_mul.symm
        _ = n % 256 ^ (width + 1) := by rw [Nat.pow_succ']

/-! ## Words -/

/-- `u32::to_le_bytes` -/
def toLeBytes (n : UInt32) : List UInt8 := bytes 4 n.toNat

/-- `u32::from_le_bytes` -/
def fromLeBytes (digits : List UInt8) : UInt32 := UInt32.ofNat (value digits)

@[simp] theorem length_toLeBytes (n : UInt32) : (toLeBytes n).length = 4 :=
  length_bytes 4 n.toNat

theorem fromLeBytes_toLeBytes (n : UInt32) : fromLeBytes (toLeBytes n) = n := by
  have hfits : n.toNat < 256 ^ 4 := n.toNat_lt
  rw [fromLeBytes, toLeBytes, value_bytes, Nat.mod_eq_of_lt hfits, UInt32.ofNat_toNat]

end RustCourse.LittleEndian
