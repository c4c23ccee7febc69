import Splice.FrameBody

/-!
# Splice.FrameFormat

The frame of RFC 6455 section 5.2 as bytes: the three length forms, the masked
frame a client sends and the unmasked one a server sends.  This is the format that
the encoder and the decoder are compared with; nothing of it is taken from them but
the names of the opcodes.  The lemmas say what the functions of the decoder make of it.
-/

namespace Splice

open Radix

/-- The three encodings of a payload length. -/
inductive LengthForm where
  | len7
  | len16
  | len64
  deriving DecidableEq, Repr

namespace LengthForm

/-- The sizes a form can hold. -/
def Holds : LengthForm → Nat → Prop
  | .len7, n => n ≤ 125
  | .len16, n => n ≤ 65535
  | .len64, n => n < 2 ^ 64

instance (form : LengthForm) (n : Nat) : Decidable (form.Holds n) :=
  match form with
  | .len7 => inferInstanceAs (Decidable (n ≤ 125))
  | .len16 => inferInstanceAs (Decidable (n ≤ 65535))
  | .len64 => inferInstanceAs (Decidable (n < 2 ^ 64))

/-- The 7-bit field. -/
def code : LengthForm → Nat → Nat
  | .len7, n => n
  | .len16, _ => 126
  | .len64, _ => 127

/-- The number of extended length bytes. -/
def width : LengthForm → Nat
  | .len7 => 0
  | .len16 => 2
  | .len64 => 8

/-- The extended length, in network byte order. -/
def extended (form : LengthForm) (n : Nat) : List UInt8 := toBE form.width n

/-- The length byte under a mask bit. -/
def lengthByte (form : LengthForm) (mask : Bool) (n : Nat) : UInt8 :=
  UInt8.ofNat ((if mask then 128 else 0) + form.code n)

/-- The only form that section 5.2 lets a sender use. -/
def minimal (n : Nat) : LengthForm :=
  if n ≤ 125 then .len7 else if n ≤ 65535 then .len16 else .len64

theorem holds_minimal {n : Nat} (h : n < 2 ^ 64) : (minimal n).Holds n := by
  unfold minimal
  split_ifs <;> simp only [Holds] <;> omega

@[simp] theorem length_extended (form : LengthForm) (n : Nat) :
    (form.extended n).length = form.width := by
  simp [extended]

theorem code_lt {form : LengthForm} {n : Nat} (h : form.Holds n) : form.code n < 128 := by
  cases form <;> simp only [Holds, code] at * <;> omega

/-- The second byte is the mask bit and the code. -/
theorem toNat_lengthByte {form : LengthForm} {n : Nat} (h : form.Holds n) (mask : Bool) :
    (form.lengthByte mask n).toNat = (if mask then 128 else 0) + form.code n := by
  have hc := code_lt h
  rw [lengthByte, UInt8.toNat_ofNat']
  cases mask <;> simp only [if_true, if_false, Bool.false_eq_true] <;> omega

/-- Its lower seven bits are the code. -/
theorem low7_lengthByte {form : LengthForm} {n : Nat} (h : form.Holds n) (mask : Bool) :
    DataFrameParser.low7 (form.lengthByte mask n) = form.code n := by
  have hc := code_lt h
  rw [DataFrameParser.low7, toNat_lengthByte h]
  cases mask <;> simp only [if_true, if_false, Bool.false_eq_true] <;> omega

/-- Its top bit is the mask bit. -/
theorem topBit_lengthByte {form : LengthForm} {n : Nat} (h : form.Holds n) (mask : Bool) :
    DataFrameParser.topBit (form.lengthByte mask n) = mask := by
  have hc := code_lt h
  rw [DataFrameParser.topBit, toNat_lengthByte h]
  cases mask <;> simp only [if_true, if_false, Bool.false_eq_true, decide_eq_true_eq,
    decide_eq_false_iff_not] <;> omega

/-- It says how many bytes of extended length follow. -/
theorem extLength_lengthByte {form : LengthForm} {n : Nat} (h : form.Holds n) (mask : Bool) :
    DataFrameParser.extLength (form.lengthByte mask n) = form.width := by
  rw [DataFrameParser.extLength, low7_lengthByte h]
  cases form with
  | len7 =>
      have hn : n ≤ 125 := h
      rw [show code .len7 n = n from rfl, if_neg (by omega), if_neg (by omega), width]
  | len16 => simp [code, width]
  | len64 => simp [code, width]

/-- An extended length field holds the size. -/
theorem ofBE_extended {form : LengthForm} {n : Nat} (hform : form ≠ .len7) (h : form.Holds n) :
    ofBE (form.extended n) = n := by
  apply ofBE_toBE
  cases form with
  | len7 => exact absurd rfl hform
  | len16 | len64 =>
      simp only [Holds, width] at *
      omega

/-- A little-endian host reads every size right. -/
theorem wireSize_little {form : LengthForm} {n : Nat} (h : form.Holds n) (mask : Bool) :
    DataFrameParser.wireSize .little (form.lengthByte mask n) (form.extended n) = n := by
  rw [DataFrameParser.wireSize, low7_lengthByte h]
  cases form with
  | len7 =>
      have hn : n ≤ 125 := h
      rw [show code .len7 n = n from rfl, if_neg (by omega)]
  | len16 => exact ofBE_extended (by simp) h
  | len64 => exact ofBE_extended (by simp) h

/-- And zero is read as zero by the others. -/
theorem wireSize_eq_zero_iff (host : Endian) {form : LengthForm} {n : Nat} (h : form.Holds n)
    (mask : Bool) :
    DataFrameParser.wireSize host (form.lengthByte mask n) (form.extended n) = 0 ↔ n = 0 := by
  have hsize := wireSize_little h mask
  unfold DataFrameParser.wireSize at hsize ⊢
  split_ifs at hsize ⊢ with hext
  · rw [Endian.fieldValue_eq_zero_iff, ← Endian.fieldValue_eq_zero_iff .little, hsize]
  · rw [hsize]

end LengthForm

/-! ## Opcodes -/

namespace OperationCode

/-- The opcode numbers of section 5.2. -/
def number : OperationCode → Nat
  | .continuationFrame => 0x0
  | .textFrame => 0x1
  | .binaryFrame => 0x2
  | .connectionClose => 0x8
  | .ping => 0x9
  | .pong => 0xA
  | .reserved => 0xF

/-- The meaning of a nibble: the opcode of that number, or `reserved` where there is none. -/
def Denotes (op : OperationCode) (n : Nat) : Prop :=
  op.number = n ∨ op = .reserved ∧ ∀ op' : OperationCode, op'.number ≠ n

theorem number_injective : Function.Injective number := by
  intro op op' h
  cases op <;> cases op' <;> first | rfl | cases h

/-- The decoder's `switch` finds it. -/
theorem denotes_iff {op : OperationCode} {n : Fin 16} :
    op.Denotes n ↔ op = DataFrameParser.opcodeOfBits (UInt8.ofNat n) := by
  have hall : ∀ n : Fin 16, (DataFrameParser.opcodeOfBits (UInt8.ofNat n)).number = n ∨
      DataFrameParser.opcodeOfBits (UInt8.ofNat n) = .reserved ∧
        (n : Nat) ∉ [0x0, 0x1, 0x2, 0x8, 0x9, 0xA, 0xF] := by
    decide
  have hnumber : ∀ op : OperationCode, op.number ∈ [0x0, 0x1, 0x2, 0x8, 0x9, 0xA, 0xF] := by
    intro op
    cases op <;> decide
  constructor
  · rintro (heq | ⟨rfl, hnone⟩)
    · rcases hall n with hn | ⟨-, hn⟩
      · exact number_injective (heq.trans hn.symm)
      · exact absurd (heq ▸ hnumber op) hn
    · rcases hall n with hn | ⟨hn, -⟩
      · exact absurd hn (hnone _)
      · exact hn.symm
  · rintro rfl
    refine (hall n).imp_right fun ⟨hn, hnot⟩ => ⟨hn, fun op' heq => ?_⟩
    exact hnot (heq ▸ hnumber op')

end OperationCode

/-! ## Masked frames, from a client -/

/-- A masked frame: any FIN, any opcode nibble, any key, any form that holds its
payload. -/
structure ClientFrame where
  fin : Bool
  opcode : Fin 16
  form : LengthForm
  maskingKey : MaskingKey
  payload : List UInt8
  holds : form.Holds payload.length

namespace ClientFrame

/-- FIN and opcode; the reserved bits are zero. -/
def head (frame : ClientFrame) : UInt8 :=
  UInt8.ofNat ((if frame.fin then 128 else 0) + frame.opcode)

/-- The length byte, with its mask bit. -/
def len (frame : ClientFrame) : UInt8 := frame.form.lengthByte true frame.payload.length

/-- The extended length. -/
def ext (frame : ClientFrame) : List UInt8 := frame.form.extended frame.payload.length

/-- An index into the key. -/
theorem mod_four_lt (i : Nat) : i % 4 < 4 := Nat.mod_lt i (by decide)

/-- The payload as it travels: byte `i` under byte `i % 4` of the key. -/
def masked (frame : ClientFrame) : List UInt8 :=
  frame.payload.mapIdx fun i b => b ^^^ frame.maskingKey.get ⟨i % 4, mod_four_lt i⟩

/-- What follows the first byte. -/
def tail (frame : ClientFrame) : List UInt8 :=
  frame.len :: frame.ext ++ frame.maskingKey.toList ++ frame.masked

/-- The frame on the wire. -/
def bytes (frame : ClientFrame) : List UInt8 := frame.head :: frame.tail

@[simp] theorem length_masked (frame : ClientFrame) :
    frame.masked.length = frame.payload.length :=
  List.length_mapIdx

/-- The length of what follows the first byte. -/
theorem length_tail (frame : ClientFrame) :
    frame.tail.length = 5 + frame.form.width + frame.payload.length := by
  simp only [tail, ext, List.length_append, List.length_cons, LengthForm.length_extended,
    Vector.length_toList, length_masked]
  omega

/-- The length of a frame. -/
theorem length_bytes (frame : ClientFrame) :
    frame.bytes.length = 6 + frame.form.width + frame.payload.length := by
  rw [bytes, List.length_cons, length_tail]
  omega

/-- The mask is its own inverse. -/
theorem unmask_masked (frame : ClientFrame) :
    DataFrameParser.unmask frame.maskingKey 0 frame.masked = frame.payload := by
  have hmasked : frame.masked = DataFrameParser.unmask frame.maskingKey 0 frame.payload := by
    simp only [DataFrameParser.unmask_eq_mapIdx, Nat.zero_add]
    rfl
  rw [hmasked, DataFrameParser.unmask_unmask]

theorem topBit_len (frame : ClientFrame) : DataFrameParser.topBit frame.len = true :=
  LengthForm.topBit_lengthByte frame.holds true

theorem low7_len (frame : ClientFrame) :
    DataFrameParser.low7 frame.len = frame.form.code frame.payload.length :=
  LengthForm.low7_lengthByte frame.holds true

theorem extLength_len (frame : ClientFrame) :
    DataFrameParser.extLength frame.len = frame.form.width :=
  LengthForm.extLength_lengthByte frame.holds true

/-- The first byte gives FIN and the opcode back. -/
theorem head_eq (frame : ClientFrame) :
    DataFrameParser.topBit frame.head = frame.fin ∧
      frame.head &&& 0x0F = UInt8.ofNat frame.opcode := by
  have hall : ∀ (fin : Bool) (opcode : Fin 16),
      DataFrameParser.topBit (UInt8.ofNat ((if fin then 128 else 0) + opcode)) = fin ∧
        UInt8.ofNat ((if fin then 128 else 0) + opcode) &&& 0x0F = UInt8.ofNat opcode := by
    decide
  exact hall frame.fin frame.opcode

/-- The host takes the payload's size from the length fields. -/
def Readable (host : Endian) (frame : ClientFrame) : Prop :=
  DataFrameParser.wireSize host frame.len frame.ext = frame.payload.length

instance (host : Endian) (frame : ClientFrame) : Decidable (frame.Readable host) :=
  inferInstanceAs (Decidable (_ = _))

/-- Every frame is readable on a little-endian host. -/
theorem readable_little (frame : ClientFrame) : frame.Readable .little :=
  LengthForm.wireSize_little frame.holds true

/-- The size leaves the mask bit of a byte in front of its field clear. -/
theorem length_payload_lt (frame : ClientFrame) :
    frame.payload.length < 128 * 256 ^ frame.ext.length := by
  have hholds := frame.holds
  rw [ext, LengthForm.length_extended]
  cases hf : frame.form <;> rw [hf] at hholds <;>
    simp only [LengthForm.Holds, LengthForm.width] at * <;> omega

end ClientFrame

/-! ## Unmasked frames, from a server -/

/-- The bytes of an unmasked frame with the minimal length form. -/
def serverFrame (fin : Bool) (opcode : OperationCode) (payload : List UInt8) : List UInt8 :=
  let form := LengthForm.minimal payload.length
  UInt8.ofNat ((if fin then 0x80 else 0) + opcode.number) ::
    form.lengthByte false payload.length :: form.extended payload.length ++ payload

end Splice
