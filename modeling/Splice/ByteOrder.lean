import Splice.Lib.Radix
import Mathlib.Data.FinEnum

/-!
# Splice.ByteOrder

The conversions between host and network byte order that `data_frame` and
`data_frame_parser` use (`ntoh16`, `hton16`, `ntoh64`, `hton64`).  The source
tests the byte order of the host at run time; here the host is a parameter, and
the test reads the first byte of the object representation of `num`, as the
source does.
-/

namespace Splice

open Radix

/-- The byte order of the host. -/
inductive Endian where
  | little
  | big
  deriving DecidableEq, Repr

namespace Endian

/-- The object representation of a `k`-byte unsigned integer. -/
def bytes : Endian → Nat → Nat → List UInt8
  | .little, k, n => toLE k n
  | .big, k, n => toBE k n

/-- `*reinterpret_cast<const char*>(&num) == num`, with `num` the 4-byte 42. -/
def isLittle (host : Endian) : Bool := (host.bytes 4 42).head? == some 42

@[simp] theorem isLittle_little : isLittle .little = true := rfl

@[simp] theorem isLittle_big : isLittle .big = false := rfl

@[simp] theorem length_bytes (host : Endian) (k n : Nat) : (host.bytes k n).length = k := by
  cases host <;> simp [bytes]

end Endian

/-! ## Byte swaps -/

/-- `swap16`: the two bytes change places. -/
def swap16 (x : UInt16) : UInt16 := ((x &&& 0x00FF) <<< 8) ||| ((x &&& 0xFF00) >>> 8)

/-- `swap64`: the eight bytes in the opposite order. -/
def swap64 (x : UInt64) : UInt64 :=
  ((x &&& 0x00000000000000FF) <<< 56) |||
  ((x &&& 0x000000000000FF00) <<< 40) |||
  ((x &&& 0x0000000000FF0000) <<< 24) |||
  ((x &&& 0x00000000FF000000) <<< 8) |||
  ((x &&& 0x000000FF00000000) >>> 8) |||
  ((x &&& 0x0000FF0000000000) >>> 24) |||
  ((x &&& 0x00FF000000000000) >>> 40) |||
  ((x &&& 0xFF00000000000000) >>> 56)

/-- Convert a `uint16_t` from the network byte order to the host byte order. -/
def ntoh16 (host : Endian) (net16 : UInt16) : UInt16 :=
  if host.isLittle then swap16 net16 else net16

/-- Convert a `uint16_t` from the host byte order to the network byte order. -/
def hton16 (host : Endian) (host16 : UInt16) : UInt16 :=
  if host.isLittle then swap16 host16 else host16

/-- Convert a `uint64_t` from the network byte order to the host byte order. -/
def ntoh64 (host : Endian) (net64 : UInt64) : UInt64 :=
  if host.isLittle then swap64 net64 else net64

/-- Convert a `uint64_t` from the host byte order to the network byte order. -/
def hton64 (host : Endian) (host64 : UInt64) : UInt64 :=
  if host.isLittle then swap64 host64 else host64

/-! ## Words as their bytes -/

/-- The word that `extended_payload_len1` and `extended_payload_len2` put
together from two bytes: the first one received is the least significant. -/
def word16 (b0 b1 : UInt8) : UInt16 := b0.toUInt16 ||| (b1.toUInt16 <<< 8)

/-- The word that the eight `extended_payload_len` states put together. -/
def word64 (b0 b1 b2 b3 b4 b5 b6 b7 : UInt8) : UInt64 :=
  b0.toUInt64 ||| (b1.toUInt64 <<< 8) ||| (b2.toUInt64 <<< 16) ||| (b3.toUInt64 <<< 24) |||
    (b4.toUInt64 <<< 32) ||| (b5.toUInt64 <<< 40) ||| (b6.toUInt64 <<< 48) ||| (b7.toUInt64 <<< 56)

/-- The first byte received is the least significant. -/
theorem toNat_word16 (b0 b1 : UInt8) : (word16 b0 b1).toNat = ofLE [b0, b1] := by
  have hbytes : word16 b0 b1 = b0.toUInt16 ||| (b1.toUInt16 <<< UInt16.ofNat 8) := rfl
  have h0 : b0.toUInt16.toNat < 2 ^ 8 := b0.toNat_lt
  rw [hbytes, toNat_or_shiftLeft16 h0 (by decide), UInt8.toNat_toUInt16, ofLE_cons, ofLE_cons,
    ofLE_nil]
  omega

/-- The same of eight bytes. -/
theorem toNat_word64 (b0 b1 b2 b3 b4 b5 b6 b7 : UInt8) :
    (word64 b0 b1 b2 b3 b4 b5 b6 b7).toNat = ofLE [b0, b1, b2, b3, b4, b5, b6, b7] := by
  have hbytes : word64 b0 b1 b2 b3 b4 b5 b6 b7 =
      orBytes b0.toUInt64 8 [b1, b2, b3, b4, b5, b6, b7] := rfl
  have h0 : b0.toUInt64.toNat < 2 ^ 8 := b0.toNat_lt
  rw [hbytes, toNat_orBytes h0 (by simp), UInt8.toNat_toUInt64, ofLE_cons b0,
    show (2 : Nat) ^ 8 = 256 by decide]

/-! ## Swapping a word reverses its bytes -/

private theorem and_or_right16 (x y z : UInt16) : (x ||| y) &&& z = (x &&& z) ||| (y &&& z) := by
  apply UInt16.toBitVec_inj.mp
  simp [BitVec.and_or_distrib_right]

private theorem and_or_right64 (x y z : UInt64) : (x ||| y) &&& z = (x &&& z) ||| (y &&& z) := by
  apply UInt64.toBitVec_inj.mp
  simp [BitVec.and_or_distrib_right]

theorem swap16_or (x y : UInt16) : swap16 (x ||| y) = swap16 x ||| swap16 y := by
  simp only [swap16, and_or_right16, UInt16.shiftLeft_or, UInt16.shiftRight_or]
  ac_rfl

/-- Eight pairs or-ed are the first ones and the second ones. -/
private theorem or_zip64 (a0 a1 a2 a3 a4 a5 a6 a7 b0 b1 b2 b3 b4 b5 b6 b7 : UInt64) :
    (a0 ||| b0) ||| (a1 ||| b1) ||| (a2 ||| b2) ||| (a3 ||| b3) |||
      (a4 ||| b4) ||| (a5 ||| b5) ||| (a6 ||| b6) ||| (a7 ||| b7) =
    (a0 ||| a1 ||| a2 ||| a3 ||| a4 ||| a5 ||| a6 ||| a7) |||
      (b0 ||| b1 ||| b2 ||| b3 ||| b4 ||| b5 ||| b6 ||| b7) := by
  ac_rfl

/-- The order of eight words or-ed does not matter. -/
private theorem or_reverse64 (a0 a1 a2 a3 a4 a5 a6 a7 : UInt64) :
    a0 ||| a1 ||| a2 ||| a3 ||| a4 ||| a5 ||| a6 ||| a7 =
      a7 ||| a6 ||| a5 ||| a4 ||| a3 ||| a2 ||| a1 ||| a0 := by
  ac_rfl

theorem swap64_or (x y : UInt64) : swap64 (x ||| y) = swap64 x ||| swap64 y := by
  simp only [swap64, and_or_right64, UInt64.shiftLeft_or, UInt64.shiftRight_or]
  exact or_zip64 ..

/- A swap distributes over the or that assembles the word, so what is left is where
it takes a single byte: a fact about 256 values for each position. -/

theorem swap16_byte : ∀ b : UInt8,
    swap16 b.toUInt16 = b.toUInt16 <<< 8 ∧ swap16 (b.toUInt16 <<< 8) = b.toUInt16 := by
  decide +kernel

/-- Where a byte goes in a swap, from each of the eight places. -/
theorem swap64_byte : ∀ b : UInt8,
    swap64 b.toUInt64 = b.toUInt64 <<< 56 ∧
    swap64 (b.toUInt64 <<< 8) = b.toUInt64 <<< 48 ∧
    swap64 (b.toUInt64 <<< 16) = b.toUInt64 <<< 40 ∧
    swap64 (b.toUInt64 <<< 24) = b.toUInt64 <<< 32 ∧
    swap64 (b.toUInt64 <<< 32) = b.toUInt64 <<< 24 ∧
    swap64 (b.toUInt64 <<< 40) = b.toUInt64 <<< 16 ∧
    swap64 (b.toUInt64 <<< 48) = b.toUInt64 <<< 8 ∧
    swap64 (b.toUInt64 <<< 56) = b.toUInt64 := by
  decide +kernel

theorem swap16_word16 (b0 b1 : UInt8) : swap16 (word16 b0 b1) = word16 b1 b0 := by
  rw [word16, swap16_or, (swap16_byte b0).1, (swap16_byte b1).2, word16, UInt16.or_comm]

/-- A swap reverses the eight bytes of a word. -/
theorem swap64_word64 (b0 b1 b2 b3 b4 b5 b6 b7 : UInt8) :
    swap64 (word64 b0 b1 b2 b3 b4 b5 b6 b7) = word64 b7 b6 b5 b4 b3 b2 b1 b0 := by
  obtain ⟨h0, -⟩ := swap64_byte b0
  obtain ⟨-, h1, -⟩ := swap64_byte b1
  obtain ⟨-, -, h2, -⟩ := swap64_byte b2
  obtain ⟨-, -, -, h3, -⟩ := swap64_byte b3
  obtain ⟨-, -, -, -, h4, -⟩ := swap64_byte b4
  obtain ⟨-, -, -, -, -, h5, -⟩ := swap64_byte b5
  obtain ⟨-, -, -, -, -, -, h6, -⟩ := swap64_byte b6
  obtain ⟨-, -, -, -, -, -, -, h7⟩ := swap64_byte b7
  simp only [word64, swap64_or, h0, h1, h2, h3, h4, h5, h6, h7]
  exact or_reverse64 ..

/-! ## What the conversions compute -/

/-- The number that a decoder on this host takes from a multi-byte field of the
wire.  The bytes are put together least significant first and swapped on a
little-endian host only, so a big-endian host reads the field backwards. -/
def Endian.fieldValue : Endian → List UInt8 → Nat
  | .little, bs => ofBE bs
  | .big, bs => ofLE bs

/-- Zero reads the same both ways. -/
theorem Endian.fieldValue_eq_zero_iff (host : Endian) (bs : List UInt8) :
    host.fieldValue bs = 0 ↔ ∀ b ∈ bs, b = 0 := by
  cases host <;> simp [fieldValue, ofBE_eq_zero_iff, ofLE_eq_zero_iff]

/-- A field of two bytes has the value that its host reads. -/
theorem toNat_ntoh16_word16 (host : Endian) (b0 b1 : UInt8) :
    (ntoh16 host (word16 b0 b1)).toNat = host.fieldValue [b0, b1] := by
  cases host with
  | little =>
      simp only [ntoh16, Endian.isLittle_little, if_true, swap16_word16, toNat_word16]
      rfl
  | big => simp [ntoh16, toNat_word16, Endian.fieldValue]

/-- A field of eight bytes has the value that its host reads. -/
theorem toNat_ntoh64_word64 (host : Endian) (b0 b1 b2 b3 b4 b5 b6 b7 : UInt8) :
    (ntoh64 host (word64 b0 b1 b2 b3 b4 b5 b6 b7)).toNat =
      host.fieldValue [b0, b1, b2, b3, b4, b5, b6, b7] := by
  cases host with
  | little =>
      simp only [ntoh64, Endian.isLittle_little, if_true, swap64_word64, toNat_word64]
      rfl
  | big => simp [ntoh64, toNat_word64, Endian.fieldValue]

/-- On either host the object representation of `hton16 n` is `n` in network
byte order. -/
theorem bytes_hton16 (host : Endian) (n : UInt16) :
    host.bytes 2 (hton16 host n).toNat = toBE 2 n.toNat := by
  obtain ⟨b0, b1, hb⟩ : ∃ b0 b1, toLE 2 n.toNat = [b0, b1] := ⟨_, _, rfl⟩
  have hval : ofLE [b0, b1] = n.toNat := by rw [← hb]; exact ofLE_toLE n.toNat_lt
  have hn : n = word16 b0 b1 := by
    apply UInt16.toNat_inj.mp
    rw [toNat_word16, hval]
  cases host with
  | little =>
      have hsw : (hton16 .little n).toNat = ofLE [b1, b0] := by
        rw [hton16, Endian.isLittle_little, if_pos rfl, hn, swap16_word16, toNat_word16]
      rw [hsw, toBE, hb]
      exact toLE_ofLE [b1, b0]
  | big => rfl

/-- A word in network order lies most significant byte first in memory. -/
theorem bytes_hton64 (host : Endian) (n : UInt64) :
    host.bytes 8 (hton64 host n).toNat = toBE 8 n.toNat := by
  obtain ⟨b0, b1, b2, b3, b4, b5, b6, b7, hb⟩ :
      ∃ b0 b1 b2 b3 b4 b5 b6 b7, toLE 8 n.toNat = [b0, b1, b2, b3, b4, b5, b6, b7] :=
    ⟨_, _, _, _, _, _, _, _, rfl⟩
  have hval : ofLE [b0, b1, b2, b3, b4, b5, b6, b7] = n.toNat := by
    rw [← hb]; exact ofLE_toLE n.toNat_lt
  have hn : n = word64 b0 b1 b2 b3 b4 b5 b6 b7 := by
    apply UInt64.toNat_inj.mp
    rw [toNat_word64, hval]
  cases host with
  | little =>
      have hsw : (hton64 .little n).toNat = ofLE [b7, b6, b5, b4, b3, b2, b1, b0] := by
        rw [hton64, Endian.isLittle_little, if_pos rfl, hn, swap64_word64, toNat_word64]
      rw [hsw, toBE, hb]
      exact toLE_ofLE [b7, b6, b5, b4, b3, b2, b1, b0]
  | big => rfl

end Splice
