import Mathlib.Data.Nat.Digits.Lemmas

/-!
# Splice.Lib.Radix

Unsigned integers as byte lists of a fixed length, least significant byte first
(`toLE` / `ofLE`) and most significant byte first (`toBE` / `ofBE`), and the
assembly of a machine word from its bytes by shifts and ors.

The values are `Nat.ofDigits` at base 256; the fixed length is what `Nat.digits`
does not give.
-/

namespace Radix

/-! ## Fixed-length byte lists -/

/-- The `k` low bytes of `n`, least significant first. -/
def toLE : Nat → Nat → List UInt8
  | 0, _ => []
  | k + 1, n => UInt8.ofNat n :: toLE k (n / 256)

/-- The `k` low bytes of `n`, most significant first (network byte order). -/
def toBE (k n : Nat) : List UInt8 := (toLE k n).reverse

/-- The value of a byte list, least significant byte first. -/
def ofLE (bs : List UInt8) : Nat := Nat.ofDigits 256 (bs.map UInt8.toNat)

/-- The value of a byte list, most significant byte first. -/
def ofBE (bs : List UInt8) : Nat := ofLE bs.reverse

@[simp] theorem length_toLE (k n : Nat) : (toLE k n).length = k := by
  induction k generalizing n with
  | zero => rfl
  | succ k ih => simp [toLE, ih]

@[simp] theorem length_toBE (k n : Nat) : (toBE k n).length = k := by
  simp [toBE]

@[simp] theorem ofLE_nil : ofLE [] = 0 := rfl

theorem ofLE_cons (b : UInt8) (bs : List UInt8) :
    ofLE (b :: bs) = b.toNat + 256 * ofLE bs := by
  simp [ofLE, Nat.ofDigits_cons]

theorem ofLE_append (as bs : List UInt8) :
    ofLE (as ++ bs) = ofLE as + 256 ^ as.length * ofLE bs := by
  simp [ofLE, Nat.ofDigits_append]

/-- The first byte counts most. -/
theorem ofBE_cons (b : UInt8) (bs : List UInt8) :
    ofBE (b :: bs) = b.toNat * 256 ^ bs.length + ofBE bs := by
  simp only [ofBE, List.reverse_cons, ofLE_append, ofLE_cons, List.length_reverse, ofLE_nil]
  rw [Nat.mul_zero, Nat.add_zero, Nat.mul_comm, Nat.add_comm]

/-- Bytes in front of others count by the length of those. -/
theorem ofBE_append (as bs : List UInt8) :
    ofBE (as ++ bs) = ofBE as * 256 ^ bs.length + ofBE bs := by
  simp only [ofBE, List.reverse_append, ofLE_append, List.length_reverse]
  rw [Nat.mul_comm, Nat.add_comm]

/-- A byte list denotes a number of at most its length in bytes. -/
theorem ofLE_lt (bs : List UInt8) : ofLE bs < 256 ^ bs.length := by
  induction bs with
  | nil => simp
  | cons b bs ih =>
      have hb : b.toNat < 256 := b.toNat_lt
      rw [ofLE_cons, List.length_cons, Nat.pow_succ]
      omega

theorem ofBE_lt (bs : List UInt8) : ofBE bs < 256 ^ bs.length := by
  simpa [ofBE] using ofLE_lt bs.reverse

/-- Only zeros have the value zero. -/
theorem ofLE_eq_zero_iff (bs : List UInt8) : ofLE bs = 0 ↔ ∀ b ∈ bs, b = 0 := by
  induction bs with
  | nil => simp
  | cons b bs ih =>
      have hb : b.toNat = 0 ↔ b = 0 := by
        rw [← UInt8.toNat_inj]
        rfl
      rw [ofLE_cons, List.forall_mem_cons, ← ih, ← hb]
      omega

theorem ofBE_eq_zero_iff (bs : List UInt8) : ofBE bs = 0 ↔ ∀ b ∈ bs, b = 0 := by
  simp [ofBE, ofLE_eq_zero_iff]

/-! ## Round trips -/

/-- The bytes of a number give it back, but for what does not fit. -/
theorem ofLE_toLE_mod (k n : Nat) : ofLE (toLE k n) = n % 256 ^ k := by
  induction k generalizing n with
  | zero => simp [toLE, Nat.mod_one]
  | succ k ih =>
      rw [toLE, ofLE_cons, ih, UInt8.toNat_ofNat', Nat.pow_succ' (m := 256), Nat.mod_mul]

/-- A number that fits `k` bytes is read back from them. -/
theorem ofLE_toLE {k n : Nat} (h : n < 256 ^ k) : ofLE (toLE k n) = n := by
  rw [ofLE_toLE_mod, Nat.mod_eq_of_lt h]

theorem ofBE_toBE {k n : Nat} (h : n < 256 ^ k) : ofBE (toBE k n) = n := by
  rw [ofBE, toBE, List.reverse_reverse, ofLE_toLE h]

/-- Bytes are determined by their value and their number. -/
theorem toLE_ofLE (bs : List UInt8) : toLE bs.length (ofLE bs) = bs := by
  induction bs with
  | nil => rfl
  | cons b bs ih =>
      have hb : b.toNat < 256 := b.toNat_lt
      have hdiv : ofLE (b :: bs) / 256 = ofLE bs := by rw [ofLE_cons]; omega
      have hlow : UInt8.ofNat (ofLE (b :: bs)) = b := by
        apply UInt8.toNat_inj.mp
        rw [UInt8.toNat_ofNat', ofLE_cons]
        omega
      rw [List.length_cons, toLE, hdiv, ih, hlow]

/-- Both orders give the same value only to a list that reads the same both ways. -/
theorem ofLE_eq_ofBE_iff (bs : List UInt8) : ofLE bs = ofBE bs ↔ bs.reverse = bs := by
  constructor
  · intro h
    have hreverse := toLE_ofLE bs.reverse
    rw [List.length_reverse, show ofLE bs.reverse = ofLE bs from h.symm, toLE_ofLE] at hreverse
    exact hreverse.symm
  · intro h
    rw [ofBE, h]

/-! ## Single bytes -/

/-- A byte contributes its weight, counted from the front in one order and from the
end in the other. -/
theorem le_ofLE_append (before after : List UInt8) (b : UInt8) :
    b.toNat * 256 ^ before.length ≤ ofLE (before ++ b :: after) := by
  rw [ofLE_append, ofLE_cons, Nat.mul_comm]
  exact le_trans (Nat.mul_le_mul_left _ (Nat.le_add_right _ _)) (Nat.le_add_left _ _)

/-- A byte counts at least by what stands behind it. -/
theorem le_ofBE_append (before after : List UInt8) (b : UInt8) :
    b.toNat * 256 ^ after.length ≤ ofBE (before ++ b :: after) := by
  rw [ofBE_append, ofBE_cons]
  omega

/-! ## Words assembled from bytes -/

/-- Or-ing a number above the bits already set adds it at its weight. -/
theorem or_shiftLeft_eq_add {x b s : Nat} (hx : x < 2 ^ s) : x ||| b <<< s = x + b * 2 ^ s := by
  rw [Nat.shiftLeft_eq, Nat.or_comm, Nat.mul_comm, ← Nat.two_pow_add_eq_or_of_lt hx, Nat.add_comm]

/-- A byte shifted within a word keeps its value times its weight. -/
theorem byte_shiftLeft_lt {b : UInt8} {s w : Nat} (hs : s + 8 ≤ w) : b.toNat <<< s < 2 ^ w := by
  rw [Nat.shiftLeft_eq]
  calc b.toNat * 2 ^ s < 2 ^ 8 * 2 ^ s := Nat.mul_lt_mul_of_pos_right b.toNat_lt (Nat.two_pow_pos s)
    _ = 2 ^ (s + 8) := by rw [Nat.pow_add, Nat.mul_comm]
    _ ≤ 2 ^ w := Nat.pow_le_pow_right (by decide) hs

/-- Or-ing a byte above the bits in use adds it at its place. -/
theorem toNat_or_shiftLeft64 {x : UInt64} {b : UInt8} {s : Nat} (hx : x.toNat < 2 ^ s)
    (hs : s + 8 ≤ 64) :
    (x ||| (b.toUInt64 <<< UInt64.ofNat s)).toNat = x.toNat + b.toNat * 2 ^ s := by
  have hs64 : s % 2 ^ 64 % 64 = s := by omega
  rw [UInt64.toNat_or, UInt64.toNat_shiftLeft, UInt64.toNat_ofNat', hs64, UInt8.toNat_toUInt64,
    Nat.mod_eq_of_lt (byte_shiftLeft_lt hs), or_shiftLeft_eq_add hx]

/-- The same holds in 16 bits. -/
theorem toNat_or_shiftLeft16 {x : UInt16} {b : UInt8} {s : Nat} (hx : x.toNat < 2 ^ s)
    (hs : s + 8 ≤ 16) :
    (x ||| (b.toUInt16 <<< UInt16.ofNat s)).toNat = x.toNat + b.toNat * 2 ^ s := by
  have hs16 : s % 2 ^ 16 % 16 = s := by omega
  rw [UInt16.toNat_or, UInt16.toNat_shiftLeft, UInt16.toNat_ofNat', hs16, UInt8.toNat_toUInt16,
    Nat.mod_eq_of_lt (byte_shiftLeft_lt hs), or_shiftLeft_eq_add hx]

/-- Or bytes into a word, from bit `s` up. -/
def orBytes (x : UInt64) (s : Nat) : List UInt8 → UInt64
  | [] => x
  | b :: bs => orBytes (x ||| (b.toUInt64 <<< UInt64.ofNat s)) (s + 8) bs

/-- A word assembled byte by byte is the little-endian number of its bytes. -/
theorem toNat_orBytes {x : UInt64} {s : Nat} {bs : List UInt8} (hx : x.toNat < 2 ^ s)
    (hs : s + 8 * bs.length ≤ 64) : (orBytes x s bs).toNat = x.toNat + 2 ^ s * ofLE bs := by
  induction bs generalizing x s with
  | nil => simp [orBytes]
  | cons b bs ih =>
      rw [List.length_cons] at hs
      have hb : b.toNat < 2 ^ 8 := b.toNat_lt
      have hor := toNat_or_shiftLeft64 (b := b) hx (by omega)
      have hlt : (x ||| (b.toUInt64 <<< UInt64.ofNat s)).toNat < 2 ^ (s + 8) := by
        rw [hor, Nat.pow_add]
        have hmul : b.toNat * 2 ^ s ≤ (2 ^ 8 - 1) * 2 ^ s := Nat.mul_le_mul_right _ (by omega)
        omega
      rw [orBytes, ih hlt (by omega), hor, ofLE_cons, Nat.pow_add, Nat.mul_add,
        Nat.mul_comm (2 ^ s) b.toNat, Nat.mul_assoc, Nat.add_assoc]

end Radix
