import Splice.DataFrame
import Splice.Lib.Incremental

/-!
# Splice.DataFrameParser

`rfc6455_engine::data_frame_parser`: a byte-at-a-time machine over the fifteen
states of the source, filling a `DataFrame`.

`consume` is the source's `switch`, one arm a state.  The lemmas below it say what
`parse` does from the head of each field to its end, so that later modules never
unfold a state: the two header bytes, the extended length, the masking key and
the payload.
-/

namespace Splice

open Incremental

namespace DataFrameParser

/-- `data_frame_parser::state`. -/
inductive State where
  | finOpcode
  | maskPayloadLen
  | extendedPayloadLen1
  | extendedPayloadLen2
  | extendedPayloadLen3
  | extendedPayloadLen4
  | extendedPayloadLen5
  | extendedPayloadLen6
  | extendedPayloadLen7
  | extendedPayloadLen8
  | maskingKey1
  | maskingKey2
  | maskingKey3
  | maskingKey4
  | payload
  deriving DecidableEq, Repr

/-- `get_bits`: the byte arrives as a (signed) `char` and is promoted to `int`. -/
def getBits (b : Int8) (offset count : Int32) : UInt8 :=
  ((b.toInt32 >>> offset) &&& ((1 <<< count) - 1)).toInt8.toUInt8

/-- The `switch` of state `fin_opcode`. -/
def opcodeOfBits (bits : UInt8) : OperationCode :=
  match bits with
  | 0x0 => .continuationFrame
  | 0x1 => .textFrame
  | 0x2 => .binaryFrame
  | 0x8 => .connectionClose
  | 0x9 => .ping
  | 0xA => .pong
  | _ => .reserved

/-- Where the parser goes once the length is known. -/
def afterLength (frame : DataFrame) : State :=
  if frame.mask then .maskingKey1 else .payload

/-- `extended_payload_len64_ |= temp << shift`. -/
def orExtended (frame : DataFrame) (input : UInt8) (shift : UInt64) : DataFrame :=
  { frame with
    extendedPayloadLen64 := frame.extendedPayloadLen64 ||| (input.toUInt64 <<< shift) }

/-- The size that state `payload` compares with the payload read so far. -/
def declaredSize (frame : DataFrame) : Nat :=
  if frame.payloadLen == 127 then frame.extendedPayloadLen64.toNat
  else if frame.payloadLen == 126 then frame.extendedPayloadLen16.toNat
  else frame.payloadLen.toInt64.toUInt64.toNat

/-- Byte `i` of the masking key, cyclically. -/
def maskAt (key : MaskingKey) (i : Nat) : UInt8 := key.get ⟨i % 4, Nat.mod_lt i (by decide)⟩

/-- `consume`: handle the next byte of input. -/
def consume (host : Endian) : State × DataFrame → UInt8 → Tribool × State × DataFrame
  | (.finOpcode, frame), input =>
      (.indeterminate, .maskPayloadLen,
        { frame with
          fin := getBits input.toInt8 7 1 == 1
          opcode := opcodeOfBits (getBits input.toInt8 0 4) })
  | (.maskPayloadLen, frame), input =>
      let frame := { frame with
        mask := getBits input.toInt8 7 1 == 1
        payloadLen := (getBits input.toInt8 0 7).toInt8 }
      if frame.payloadLen == 0 then
        (.true, .maskPayloadLen, frame)
      else if frame.payloadLen == 126 || frame.payloadLen == 127 then
        (.indeterminate, .extendedPayloadLen1, frame)
      else
        (.indeterminate, afterLength frame, frame)
  | (.extendedPayloadLen1, frame), input =>
      if frame.payloadLen == 126 then
        (.indeterminate, .extendedPayloadLen2,
          { frame with extendedPayloadLen16 := input.toUInt16 })
      else if frame.payloadLen == 127 then
        (.indeterminate, .extendedPayloadLen2,
          { frame with extendedPayloadLen64 := input.toUInt64 })
      else
        (.indeterminate, .extendedPayloadLen2, frame)
  | (.extendedPayloadLen2, frame), input =>
      if frame.payloadLen == 126 then
        let frame := { frame with
          extendedPayloadLen16 :=
            ntoh16 host (frame.extendedPayloadLen16 ||| (input.toUInt16 <<< 8)) }
        (.indeterminate, afterLength frame, frame)
      else if frame.payloadLen == 127 then
        (.indeterminate, .extendedPayloadLen3, orExtended frame input 8)
      else
        -- neither branch of the source is taken: the state stays as it is
        (.indeterminate, .extendedPayloadLen2, frame)
  | (.extendedPayloadLen3, frame), input =>
      (.indeterminate, .extendedPayloadLen4, orExtended frame input 16)
  | (.extendedPayloadLen4, frame), input =>
      (.indeterminate, .extendedPayloadLen5, orExtended frame input 24)
  | (.extendedPayloadLen5, frame), input =>
      (.indeterminate, .extendedPayloadLen6, orExtended frame input 32)
  | (.extendedPayloadLen6, frame), input =>
      (.indeterminate, .extendedPayloadLen7, orExtended frame input 40)
  | (.extendedPayloadLen7, frame), input =>
      (.indeterminate, .extendedPayloadLen8, orExtended frame input 48)
  | (.extendedPayloadLen8, frame), input =>
      let frame := orExtended frame input 56
      let frame := { frame with
        extendedPayloadLen64 := ntoh64 host frame.extendedPayloadLen64 }
      (.indeterminate, afterLength frame, frame)
  | (.maskingKey1, frame), input =>
      (.indeterminate, .maskingKey2, { frame with maskingKey := frame.maskingKey.set 0 input })
  | (.maskingKey2, frame), input =>
      (.indeterminate, .maskingKey3, { frame with maskingKey := frame.maskingKey.set 1 input })
  | (.maskingKey3, frame), input =>
      (.indeterminate, .maskingKey4, { frame with maskingKey := frame.maskingKey.set 2 input })
  | (.maskingKey4, frame), input =>
      (.indeterminate, .payload, { frame with maskingKey := frame.maskingKey.set 3 input })
  | (.payload, frame), input =>
      let mask := maskAt frame.maskingKey frame.payload.length
      let frame := { frame with payload := frame.payload ++ [input ^^^ mask] }
      if frame.payload.length == declaredSize frame then
        (.true, .payload, frame)
      else
        (.indeterminate, .payload, frame)

/-- `parse`, on the parser's state and the frame it is called with. -/
def parse (host : Endian) (state : State) (frame : DataFrame) (input : List UInt8) :
    Tribool × (State × DataFrame) × List UInt8 :=
  Incremental.parse (consume host) (state, frame) input

/-! ## Single bytes -/

/-- The mask bit (and the FIN bit) of a byte. -/
def topBit (b : UInt8) : Bool := 128 ≤ b.toNat

/-- The 7-bit length of a byte. -/
def low7 (b : UInt8) : Nat := b.toNat % 128

theorem getBits_top : ∀ b : UInt8, (getBits b.toInt8 7 1 == 1) = topBit b := by
  decide +kernel

theorem getBits_nibble : ∀ b : UInt8, getBits b.toInt8 0 4 = b &&& 0x0F := by
  decide +kernel

/-- `frame.payload_len_ = get_bits(input, 0, 7)`. -/
def payloadLenOf (b : UInt8) : Int8 := (getBits b.toInt8 0 7).toInt8

/-- The 7-bit length, as the parser compares and widens it, is the lower seven bits. -/
theorem payloadLenOf_eq : ∀ b : UInt8,
    (payloadLenOf b == 0) = (low7 b == 0) ∧
    (payloadLenOf b == 126) = (low7 b == 126) ∧
    (payloadLenOf b == 127) = (low7 b == 127) ∧
    (payloadLenOf b).toInt64.toUInt64.toNat = low7 b := by
  decide +kernel

/-! ## The header bytes -/

/-- The frame after state `fin_opcode` has read `b`. -/
def withHead (frame : DataFrame) (b : UInt8) : DataFrame :=
  { frame with fin := topBit b, opcode := opcodeOfBits (b &&& 0x0F) }

/-- The frame after state `mask_payload_len` has read `b`. -/
def withLen (frame : DataFrame) (b : UInt8) : DataFrame :=
  { frame with mask := topBit b, payloadLen := payloadLenOf b }

/-- A length of 126 announces two bytes more. -/
theorem payloadLen_withLen_126 (frame : DataFrame) {b : UInt8} (h : low7 b = 126) :
    (withLen frame b).payloadLen = 126 := by
  have h126 := (payloadLenOf_eq b).2.1
  simpa [withLen, h] using h126

/-- A length of 127 announces eight bytes more. -/
theorem payloadLen_withLen_127 (frame : DataFrame) {b : UInt8} (h : low7 b = 127) :
    (withLen frame b).payloadLen = 127 := by
  have h127 := (payloadLenOf_eq b).2.2.1
  simpa [withLen, h] using h127

@[simp] theorem parse_nil (host : Endian) (state : State) (frame : DataFrame) :
    parse host state frame [] = (.indeterminate, (state, frame), []) := rfl

/-- The first byte gives FIN and the opcode. -/
theorem parse_finOpcode (host : Endian) (frame : DataFrame) (b : UInt8) (bs : List UInt8) :
    parse host .finOpcode frame (b :: bs) = parse host .maskPayloadLen (withHead frame b) bs := by
  apply parse_cons_of_indeterminate
  simp only [consume, withHead, getBits_top, getBits_nibble]

/-- The second byte gives the mask bit and the 7-bit length, which says what is read next. -/
theorem parse_maskPayloadLen (host : Endian) (frame : DataFrame) (b : UInt8) (bs : List UInt8) :
    parse host .maskPayloadLen frame (b :: bs) =
      if low7 b = 0 then (.true, (.maskPayloadLen, withLen frame b), bs)
      else if low7 b = 126 ∨ low7 b = 127 then
        parse host .extendedPayloadLen1 (withLen frame b) bs
      else parse host (afterLength (withLen frame b)) (withLen frame b) bs := by
  obtain ⟨h0, h126, h127, -⟩ := payloadLenOf_eq b
  have hget : (getBits b.toInt8 0 7).toInt8 = payloadLenOf b := rfl
  simp only [parse, Incremental.parse, consume, withLen, getBits_top, hget, h0, h126, h127]
  by_cases hz : low7 b = 0
  · simp [hz]
  · by_cases he : low7 b = 126 ∨ low7 b = 127
    · rcases he with he | he <;> simp [he]
    · simp [hz, not_or.mp he]

/-! ## The extended length -/

/-- Two bytes of extended length, in network order. -/
theorem parse_extended16 (host : Endian) {frame : DataFrame} (h : frame.payloadLen = 126)
    (b0 b1 : UInt8) (bs : List UInt8) :
    parse host .extendedPayloadLen1 frame (b0 :: b1 :: bs) =
      parse host (afterLength frame)
        { frame with extendedPayloadLen16 := ntoh16 host (word16 b0 b1) } bs := by
  simp [parse, Incremental.parse, consume, h, word16, afterLength]

/-- Eight bytes of extended length, in network order. -/
theorem parse_extended64 (host : Endian) {frame : DataFrame} (h : frame.payloadLen = 127)
    (b0 b1 b2 b3 b4 b5 b6 b7 : UInt8) (bs : List UInt8) :
    parse host .extendedPayloadLen1 frame
        (b0 :: b1 :: b2 :: b3 :: b4 :: b5 :: b6 :: b7 :: bs) =
      parse host (afterLength frame)
        { frame with
          extendedPayloadLen64 := ntoh64 host (word64 b0 b1 b2 b3 b4 b5 b6 b7) } bs := by
  have h126 : ((127 : Int8) == 126) = false := by decide
  simp only [parse, Incremental.parse, consume, h, h126, orExtended, word64, afterLength,
    beq_self_eq_true, if_true, Bool.false_eq_true, if_false]
  rfl

/-! ## The masking key -/

/-- The four bytes of the key. -/
theorem parse_maskingKey (host : Endian) (frame : DataFrame) (k0 k1 k2 k3 : UInt8)
    (bs : List UInt8) :
    parse host .maskingKey1 frame (k0 :: k1 :: k2 :: k3 :: bs) =
      parse host .payload { frame with maskingKey := #v[k0, k1, k2, k3] } bs := by
  have hkey : (((frame.maskingKey.set 0 k0).set 1 k1).set 2 k2).set 3 k3 = #v[k0, k1, k2, k3] := by
    ext i hi
    match i, hi with
    | 0, _ | 1, _ | 2, _ | 3, _ => simp
  simp only [parse, Incremental.parse, consume, hkey]

/-! ## The payload -/

/-- The payload bytes `bs`, the first of them at index `i`, with the mask taken
off (or put on: the operation is its own inverse). -/
def unmask (key : MaskingKey) : Nat → List UInt8 → List UInt8
  | _, [] => []
  | i, b :: bs => (b ^^^ maskAt key i) :: unmask key (i + 1) bs

@[simp] theorem length_unmask (key : MaskingKey) (i : Nat) (bs : List UInt8) :
    (unmask key i bs).length = bs.length := by
  induction bs generalizing i with
  | nil => rfl
  | cons b bs ih => simp [unmask, ih]

@[simp] theorem unmask_unmask (key : MaskingKey) (i : Nat) (bs : List UInt8) :
    unmask key i (unmask key i bs) = bs := by
  induction bs generalizing i with
  | nil => rfl
  | cons b bs ih =>
      rw [unmask, unmask, ih, UInt8.xor_assoc, UInt8.xor_self, UInt8.xor_zero]

/-- Byte `j` of a part that begins at index `i`. -/
theorem unmask_eq_mapIdx (key : MaskingKey) (i : Nat) (bs : List UInt8) :
    unmask key i bs = bs.mapIdx fun j b => b ^^^ maskAt key (i + j) := by
  induction bs generalizing i with
  | nil => rfl
  | cons b bs ih =>
      rw [unmask, ih, List.mapIdx_cons]
      simp only [Nat.add_zero, Nat.add_assoc, Nat.add_comm 1]

/-- Unmasking with two keys cannot give the same bytes unless there are none. -/
theorem eq_nil_of_unmask {bs bs' : List UInt8}
    (h : ∀ key : MaskingKey, unmask key 0 bs = bs') : bs = [] := by
  cases bs with
  | nil => rfl
  | cons b bs =>
      have heq := (h #v[0, 0, 0, 0]).trans (h #v[1, 0, 0, 0]).symm
      have hbyte : b ^^^ 0 = b ^^^ 1 := List.head_eq_of_cons_eq heq
      exact absurd (UInt8.xor_right_inj b |>.mp hbyte) (by decide)

/-- The frame with `bs` read as further payload. -/
def withPayload (frame : DataFrame) (bs : List UInt8) : DataFrame :=
  { frame with payload := frame.payload ++ unmask frame.maskingKey frame.payload.length bs }

@[simp] theorem declaredSize_withPayload (frame : DataFrame) (bs : List UInt8) :
    declaredSize (withPayload frame bs) = declaredSize frame := rfl

@[simp] theorem length_payload_withPayload (frame : DataFrame) (bs : List UInt8) :
    (withPayload frame bs).payload.length = frame.payload.length + bs.length := by
  simp [withPayload]

theorem withPayload_nil (frame : DataFrame) : withPayload frame [] = frame := by
  simp [withPayload, unmask]

theorem withPayload_cons (frame : DataFrame) (b : UInt8) (bs : List UInt8) :
    withPayload frame (b :: bs) = withPayload (withPayload frame [b]) bs := by
  simp [withPayload, unmask]

/-- A byte of the payload is the last one exactly if the length says so. -/
theorem consume_payload (host : Endian) (frame : DataFrame) (b : UInt8) :
    consume host (.payload, frame) b =
      if frame.payload.length + 1 = declaredSize frame then
        (.true, .payload, withPayload frame [b])
      else (.indeterminate, .payload, withPayload frame [b]) := by
  have hsize : declaredSize { frame with
      payload := frame.payload ++ [b ^^^ maskAt frame.maskingKey frame.payload.length] } =
        declaredSize frame := rfl
  simp only [consume, hsize, List.length_append, List.length_singleton, beq_iff_eq]
  rfl

/-- State `payload`, up to the byte that completes the frame. -/
theorem parse_payload (host : Endian) {frame : DataFrame} {data : List UInt8}
    (h : frame.payload.length + data.length = declaredSize frame) (hne : data ≠ [])
    (rest : List UInt8) :
    parse host .payload frame (data ++ rest) =
      (.true, (.payload, withPayload frame data), rest) := by
  induction data generalizing frame with
  | nil => exact absurd rfl hne
  | cons b data ih =>
      have hc := consume_payload host frame b
      rw [List.length_cons] at h
      cases data with
      | nil =>
          rw [if_pos (by simpa using h)] at hc
          exact parse_cons_of_definite hc (by decide) rest
      | cons b' data =>
          rw [if_neg (by rw [← h, List.length_cons]; omega)] at hc
          have hrest : (withPayload frame [b]).payload.length + (b' :: data).length =
              declaredSize (withPayload frame [b]) := by
            simp only [length_payload_withPayload, declaredSize_withPayload, List.length_singleton]
            omega
          have hstep := ih hrest (by simp)
          rw [withPayload_cons]
          exact (parse_cons_of_indeterminate hc _).trans hstep

/-- State `payload` asks for more data until then, and for ever once the payload
has reached the declared size unnoticed. -/
theorem parse_payload_indeterminate (host : Endian) {frame : DataFrame} {data : List UInt8}
    (h : frame.payload.length + data.length < declaredSize frame ∨
      declaredSize frame ≤ frame.payload.length) :
    parse host .payload frame data = (.indeterminate, (.payload, withPayload frame data), []) := by
  induction data generalizing frame with
  | nil => rw [withPayload_nil]; rfl
  | cons b data ih =>
      have hc := consume_payload host frame b
      rw [List.length_cons] at h
      rw [if_neg (by omega)] at hc
      have hrest : (withPayload frame [b]).payload.length + data.length <
          declaredSize (withPayload frame [b]) ∨
            declaredSize (withPayload frame [b]) ≤ (withPayload frame [b]).payload.length := by
        simp only [length_payload_withPayload, declaredSize_withPayload, List.length_singleton]
        omega
      have hstep := ih hrest
      rw [withPayload_cons]
      exact (parse_cons_of_indeterminate hc _).trans hstep

end DataFrameParser

end Splice
