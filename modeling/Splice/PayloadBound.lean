import Splice.FrameBody
import Splice.Handshake

/-!
# Splice.PayloadBound

How much payload a read can bring.  A step of `data_frame_parser` appends one byte at most,
whatever the header declares, and a complete frame has two bytes in front of its payload; so
what `on_guid_read` copies fits the buffer that it copies to (`guidCopy_fits`), with no check
in the source.
-/

namespace Splice

open Incremental (Tribool parse_measure_le)

namespace DataFrameParser

/-- A byte makes the payload longer by one at most. -/
theorem length_payload_consume (host : Endian) (s : State × DataFrame) (b : UInt8) :
    (consume host s b).2.2.payload.length ≤ s.2.payload.length + 1 := by
  obtain ⟨state, frame⟩ := s
  cases state with
  | payload =>
      rw [consume_payload]
      split <;> simp
  | maskPayloadLen =>
      simp only [consume]
      split
      · simp
      · split <;> simp
  | extendedPayloadLen1 | extendedPayloadLen2 =>
      simp only [consume]
      split
      · simp
      · split <;> simp [orExtended]
  | _ => simp [consume, orExtended]

/-- **The payload grows by no more than the bytes read**, in any call. -/
theorem length_payload_parse (host : Endian) (state : State) (frame : DataFrame)
    (input : List UInt8) :
    (parse host state frame input).2.1.2.payload.length +
        (parse host state frame input).2.2.length ≤ frame.payload.length + input.length :=
  parse_measure_le (f := fun s => s.2.payload.length) (length_payload_consume host)
    (state, frame) input

/-- A complete frame has two bytes in front of its payload. -/
theorem length_payload_of_complete {host : Endian} {frame out : DataFrame} {state : State}
    {input rest : List UInt8} (hp : frame.payload = [])
    (h : parse host .finOpcode frame input = (.true, (state, out), rest)) :
    out.payload.length + 2 + rest.length ≤ input.length := by
  obtain ⟨b, body, rfl, hread⟩ := exists_read_of_parse_finOpcode hp h
  have hlen := body.length_bytes
  simp only [List.length_append, List.length_cons, hread.length_payload]
  omega

end DataFrameParser

open DataFrameParser

/-! ## The copy -/

variable {η : Type}

/-- The buffer that the payload is copied to, and what is handed on with it. -/
def guidCopy (store : Store) (payload : List UInt8) : Store × HandShakeData :=
  let (idp, store) := store.mkIncomingData
  (store.fill idp payload, ⟨.wsGuid, idp, payload.length⟩)

/-- The copy of the payload, and the `hand_shake_data_t` made of it, stay in the buffer and
are as long as the payload is. -/
structure CopyFits (store : Store) (payload : List UInt8) : Prop where
  size_le : (guidCopy store payload).2.size ≤ IncomingData.zero.data.length
  string_eq : (guidCopy store payload).2.string (guidCopy store payload).1 = payload

/-- What `on_guid_read` does with a read of `bytesTransferred` bytes: a complete frame has a
payload that is two bytes shorter and fits the copy, and a text frame is handed on in it. -/
structure GuidReadFits (η : Type) (host : Endian) (junk : MaskingKey) (store : Store)
    (incomingData bytesTransferred : Nat) : Prop where
  payload : ∀ state readFrame rest,
    parse host .finOpcode (.new junk) (store.front incomingData bytesTransferred) =
        (.true, (state, readFrame), rest) →
      readFrame.payload.length + 2 ≤ bytesTransferred ∧ CopyFits store readFrame.payload
  copies : ∀ (up : WsClass) (handshakeFail : η) state readFrame rest,
    parse host .finOpcode (.new junk) (store.front incomingData bytesTransferred) =
        (.true, (state, readFrame), rest) →
      readFrame.opcode = .textFrame →
        WsHandshake.onGuidRead host junk up handshakeFail store incomingData .finOpcode 0
            bytesTransferred =
          ((guidCopy store readFrame.payload).1,
            WsHandshake.doCustomHandshake up handshakeFail (guidCopy store readFrame.payload).1
              (guidCopy store readFrame.payload).2)

/-- A payload of up to 8192 bytes fits the buffer it is copied to. -/
theorem copyFits_of_length_le (store : Store) {payload : List UInt8}
    (h : payload.length ≤ 8192) : CopyFits store payload where
  size_le := by
    rw [IncomingData.zero.length_data]
    exact h
  string_eq := by
    have hptr : store.mkIncomingData.1 < store.mkIncomingData.2.length := by
      simp [Store.mkIncomingData]
    exact Store.front_fill store.mkIncomingData.2 hptr h

/-- A read holds no more than its size, and no more than the buffer. -/
theorem length_front_le (store : Store) (ptr size : Nat) :
    (store.front ptr size).length ≤ size ∧ (store.front ptr size).length ≤ 8192 := by
  rw [Store.front, IncomingData.front, List.length_take, IncomingData.length_data]
  exact ⟨Nat.min_le_left _ _, Nat.min_le_right _ _⟩

/-- **The copy of a GUID fits** whatever was read. -/
theorem guidReadFits (η : Type) (host : Endian) (junk : MaskingKey) (store : Store)
    (incomingData bytesTransferred : Nat) :
    GuidReadFits η host junk store incomingData bytesTransferred where
  payload state readFrame rest hparse := by
    have hlen := length_payload_of_complete rfl hparse
    obtain ⟨hsize, hbuffer⟩ := length_front_le store incomingData bytesTransferred
    exact ⟨by omega, copyFits_of_length_le store (by omega)⟩
  copies up handshakeFail state readFrame rest hparse hopcode := by
    simp [WsHandshake.onGuidRead, hparse, hopcode, guidCopy]

/-- **The GUID copy stays in its buffer**: no call brings more payload than bytes, and what
`on_guid_read` copies is two bytes shorter than what it has read. -/
theorem guidCopy_fits (η : Type) (host : Endian) :
    (∀ (state : State) (frame : DataFrame) (input : List UInt8),
      (parse host state frame input).2.1.2.payload.length +
        (parse host state frame input).2.2.length ≤ frame.payload.length + input.length) ∧
    ∀ (junk : MaskingKey) (store : Store) (incomingData bytesTransferred : Nat),
      GuidReadFits η host junk store incomingData bytesTransferred :=
  ⟨length_payload_parse host, guidReadFits η host⟩

end Splice
