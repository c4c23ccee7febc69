import Splice.ByteOrder

/-!
# Splice.DataFrame

`rfc6455_engine::data_frame`: the WebSocket frame object that the parser fills
and `to_buffers` writes out.

The object keeps the scratch members that `to_buffers` describes to the socket
(`fin_opcode_`, `mask_payload_len_`, the two extended lengths), so an encoding is
a function of the frame *and* an update of it.  The constructors leave
`masking_key_` alone: what it holds then is a parameter of `DataFrame.new`.
-/

namespace Splice

/-- `data_frame::operation_code`. -/
inductive OperationCode where
  | continuationFrame
  | textFrame
  | binaryFrame
  | connectionClose
  | ping
  | pong
  | reserved
  deriving DecidableEq, Repr

/-- `boost::array<boost::uint8_t, 4>`. -/
abbrev MaskingKey := Vector UInt8 4

/-- `rfc6455_engine::data_frame`. -/
structure DataFrame where
  fin : Bool
  opcode : OperationCode
  mask : Bool
  finOpcode : Int8
  maskPayloadLen : Int8
  payloadLen : Int8
  extendedPayloadLen16 : UInt16
  extendedPayloadLen64 : UInt64
  maskingKey : MaskingKey
  payload : List UInt8
  deriving DecidableEq, Repr

namespace DataFrame

/-- `data_frame()`; `junk` is what the uninitialised `masking_key_` holds. -/
def new (junk : MaskingKey) : DataFrame where
  fin := true
  opcode := .textFrame
  mask := false
  finOpcode := 0
  maskPayloadLen := 0
  payloadLen := 0
  extendedPayloadLen16 := 0
  extendedPayloadLen64 := 0
  maskingKey := junk
  payload := []

/-- `data_frame(const std::string&)`. -/
def ofString (junk : MaskingKey) (str : List UInt8) : DataFrame :=
  { new junk with payload := str }

/-- What the `switch` of `to_buffers` ors into the first byte. -/
def opcodeBits : OperationCode → Int8
  | .continuationFrame => 0x0
  | .textFrame => 0x1
  | .binaryFrame => 0x2
  | .connectionClose => 0x8
  | .ping => 0x9
  | .pong => 0xA
  | .reserved => 0xF

/-- `to_buffers()`: the memory that the returned buffers describe when the call
returns, and the frame with its scratch members set. -/
def toBuffers (host : Endian) (frame : DataFrame) : List (List UInt8) × DataFrame :=
  let frame := if frame.fin then { frame with finOpcode := frame.finOpcode ||| 0x80 } else frame
  let frame := { frame with finOpcode := frame.finOpcode ||| opcodeBits frame.opcode }
  let size := frame.payload.length
  if size < 126 then
    let frame := { frame with maskPayloadLen := (UInt8.ofNat size).toInt8 }
    ([[frame.finOpcode.toUInt8], [frame.maskPayloadLen.toUInt8], frame.payload], frame)
  else if size < 65537 then
    let frame := { frame with
      maskPayloadLen := 126
      extendedPayloadLen16 := hton16 host (UInt16.ofNat size) }
    ([[frame.finOpcode.toUInt8], [frame.maskPayloadLen.toUInt8],
      host.bytes 2 frame.extendedPayloadLen16.toNat, frame.payload], frame)
  else
    let frame := { frame with
      maskPayloadLen := 127
      extendedPayloadLen64 := hton64 host (UInt64.ofNat size) }
    ([[frame.finOpcode.toUInt8], [frame.maskPayloadLen.toUInt8],
      host.bytes 8 frame.extendedPayloadLen64.toNat, frame.payload], frame)

/-- The bytes that a gather write of `to_buffers()` puts on the socket. -/
def encode (host : Endian) (frame : DataFrame) : List UInt8 :=
  (frame.toBuffers host).1.flatten

/-! ## The shape of an encoding -/

/-- The first byte after `to_buffers()`: what was in `fin_opcode_`, FIN, opcode. -/
def headByte (frame : DataFrame) : UInt8 :=
  ((if frame.fin then frame.finOpcode ||| 0x80 else frame.finOpcode) |||
    opcodeBits frame.opcode).toUInt8

/-- The length bytes that `to_buffers` writes for a payload of `size` bytes. -/
def lengthBytes (size : Nat) : List UInt8 :=
  if size < 126 then [UInt8.ofNat size]
  else if size < 65537 then 126 :: Radix.toBE 2 (size % 2 ^ 16)
  else 127 :: Radix.toBE 8 (size % 2 ^ 64)

/-- An encoding is first byte, length, payload, on either host. -/
theorem encode_eq (host : Endian) (frame : DataFrame) :
    frame.encode host =
      headByte frame :: lengthBytes frame.payload.length ++ frame.payload := by
  have h126 : (126 : Int8).toUInt8 = 126 := by decide
  have h127 : (127 : Int8).toUInt8 = 127 := by decide
  cases hfin : frame.fin <;> simp only [encode, toBuffers, headByte, lengthBytes, hfin] <;>
    split_ifs <;>
    simp [bytes_hton16, bytes_hton64, h126, h127]

end DataFrame

end Splice
