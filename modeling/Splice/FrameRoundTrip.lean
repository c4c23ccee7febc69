import Splice.FrameDecode

/-!
# Splice.FrameRoundTrip

The encoder against the format, and the decoder against the encoder.

`to_buffers` writes the frame of section 5.2 for every payload but one size: 65536
bytes still take the 16-bit form, whose field then holds zero.  Its frames carry no
masking key, and the decoder unmasks an unmasked payload all the same, with
whatever `masking_key_` holds; so what comes back from a fresh frame object is what
was encoded only if there is no payload to unmask.
-/

namespace Splice

open Incremental
open DataFrameParser

namespace DataFrame

/-- A newly constructed frame given FIN, opcode and payload. -/
def fresh (junk : MaskingKey) (fin : Bool) (opcode : OperationCode) (payload : List UInt8) :
    DataFrame :=
  { new junk with fin := fin, opcode := opcode, payload := payload }

/-- FIN and opcode of a frame, as section 5.2 puts them in the first byte. -/
def headCode (fin : Bool) (opcode : OperationCode) : UInt8 :=
  UInt8.ofNat ((if fin then 0x80 else 0) + opcode.number)

/-! ## The encoder -/

/-- The first byte keeps the bits that `fin_opcode_` already held. -/
theorem headByte_eq (frame : DataFrame) :
    headByte frame = frame.finOpcode.toUInt8 ||| headCode frame.fin frame.opcode := by
  have hbits : ∀ opcode, (0x80 ||| opcodeBits opcode).toUInt8 = headCode true opcode ∧
      (opcodeBits opcode).toUInt8 = headCode false opcode := by
    intro opcode
    cases opcode <;> decide
  cases hfin : frame.fin with
  | false =>
      simp only [headByte, hfin, Bool.false_eq_true, if_false, Int8.toUInt8_or]
      rw [(hbits frame.opcode).2]
  | true =>
      simp only [headByte, hfin, if_true, Int8.or_assoc]
      rw [Int8.toUInt8_or, (hbits frame.opcode).1]

/-- The first byte of a new frame is that of section 5.2. -/
theorem headByte_fresh (junk : MaskingKey) (fin : Bool) (opcode : OperationCode)
    (payload : List UInt8) : headByte (fresh junk fin opcode payload) = headCode fin opcode := by
  rw [headByte_eq]
  exact UInt8.zero_or

/-- Off the boundary the length is written in its minimal form. -/
theorem lengthBytes_eq {n : Nat} (h : n < 2 ^ 64) (hne : n ≠ 65536) :
    lengthBytes n = (LengthForm.minimal n).lengthByte false n ::
      (LengthForm.minimal n).extended n := by
  unfold lengthBytes LengthForm.minimal
  by_cases h7 : n ≤ 125
  · rw [if_pos (by omega), if_pos h7]
    simp [LengthForm.lengthByte, LengthForm.code, LengthForm.extended, LengthForm.width,
      Radix.toBE, Radix.toLE]
  · rw [if_neg (by omega), if_neg h7]
    by_cases h16 : n ≤ 65535
    · rw [if_pos (by omega), if_pos h16, Nat.mod_eq_of_lt (by omega)]
      rfl
    · rw [if_neg (by omega), if_neg h16, Nat.mod_eq_of_lt h]
      rfl

/-- At 65536 the encoder announces the 16-bit form where the format needs the
64-bit one. -/
theorem encode_ne_serverFrame (host : Endian) (junk : MaskingKey) (fin : Bool)
    (opcode : OperationCode) {payload : List UInt8} (h : payload.length = 65536) :
    (fresh junk fin opcode payload).encode host ≠ serverFrame fin opcode payload := by
  intro heq
  rw [encode_eq] at heq
  have hlen : (fresh junk fin opcode payload).payload.length = 65536 := h
  have hbyte := congrArg (fun bs => bs[1]?) heq
  simp [hlen, h, serverFrame, lengthBytes, LengthForm.minimal, LengthForm.lengthByte,
    LengthForm.code] at hbyte

/-- **The encoder emits the frame of section 5.2**, on either host and for every
payload size but 65536. -/
theorem encode_eq_serverFrame_iff (host : Endian) (junk : MaskingKey) (fin : Bool)
    (opcode : OperationCode) (payload : List UInt8) (hsize : payload.length < 2 ^ 64) :
    (fresh junk fin opcode payload).encode host = serverFrame fin opcode payload ↔
      payload.length ≠ 65536 := by
  constructor
  · exact fun heq h => encode_ne_serverFrame host junk fin opcode h heq
  · intro hne
    rw [encode_eq, headByte_fresh, show (fresh junk fin opcode payload).payload = payload from rfl,
      lengthBytes_eq hsize hne]
    rfl

/-- A pong with one byte. -/
theorem encode_eq_serverFrame_iff_pong :
    (fresh #v[1, 2, 3, 4] true .pong [0x70]).encode .big = serverFrame true .pong [0x70] ↔
      ([0x70] : List UInt8).length ≠ 65536 :=
  encode_eq_serverFrame_iff .big _ true .pong [0x70] (by decide)

/-- 65536 bytes are announced as an empty payload. -/
theorem encode_65536_counterexample :
    (fresh #v[0, 0, 0, 0] true .binaryFrame (List.replicate 65536 0)).encode .little ≠
      serverFrame true .binaryFrame (List.replicate 65536 0) :=
  encode_ne_serverFrame .little _ true .binaryFrame List.length_replicate

/-! ## Decoding what was encoded -/

/-- A fresh parser with a fresh frame object as target gives the frame back from its
encoding and reads every byte of it, whatever the object's `masking_key_` held. -/
def RoundTrips (host : Endian) (frame : DataFrame) : Prop :=
  ∀ junk, ∃ state out,
    parse host .finOpcode (.new junk) (frame.encode host) = (.true, (state, out), []) ∧
    out.fin = frame.fin ∧ out.opcode = frame.opcode ∧ out.payload = frame.payload ∧
    out.mask = false

/-- `fin_opcode_` holds no FIN or opcode bit that the frame's own first byte lacks;
the reserved bits are free.  A newly constructed frame holds zero there. -/
def NoStaleBits (frame : DataFrame) : Prop :=
  (frame.finOpcode.toUInt8 &&& 0x8F) ||| headCode frame.fin frame.opcode =
    headCode frame.fin frame.opcode

/-- What the decoder takes from the first byte, against what the encoder meant. -/
theorem headByte_decoded_iff (frame : DataFrame) (hopcode : frame.opcode ≠ .reserved) :
    (topBit (headByte frame) = frame.fin ∧
      opcodeOfBits (headByte frame &&& 0x0F) = frame.opcode) ↔ frame.NoStaleBits := by
  have hall : ∀ (stale : UInt8) (fin : Bool) (opcode : OperationCode), opcode ≠ .reserved →
      ((topBit (stale ||| headCode fin opcode) = fin ∧
        opcodeOfBits ((stale ||| headCode fin opcode) &&& 0x0F) = opcode) ↔
      (stale &&& 0x8F) ||| headCode fin opcode = headCode fin opcode) := by
    intro stale fin opcode
    cases fin <;> cases opcode <;> revert stale <;> decide +kernel
  rw [headByte_eq]
  exact hall _ _ _ hopcode

/-- The length fields are an unmasked second byte and what it announces. -/
theorem lengthBytes_cons (n : Nat) :
    ∃ len ext, lengthBytes n = len :: ext ∧ topBit len = false ∧ ext.length = extLength len := by
  unfold lengthBytes
  split_ifs with h126 h16
  · refine ⟨_, [], rfl, ?_, ?_⟩
    · rw [topBit, UInt8.toNat_ofNat']
      simp only [decide_eq_false_iff_not]
      omega
    · rw [extLength, low7, UInt8.toNat_ofNat', if_neg (by omega), if_neg (by omega)]
      rfl
  · exact ⟨126, _, rfl, rfl, Radix.length_toBE _ _⟩
  · exact ⟨127, _, rfl, rfl, Radix.length_toBE _ _⟩

/-- A decoding of an encoding has read exactly the payload, and taken the mask off
it with the key that the target held. -/
theorem payload_of_parse_encode {host : Endian} {frame : DataFrame} {junk : MaskingKey}
    {state : State} {out : DataFrame}
    (h : parse host .finOpcode (.new junk) (frame.encode host) = (.true, (state, out), [])) :
    out.payload = unmask junk 0 frame.payload := by
  obtain ⟨len, ext, hbytes, hmask, hext⟩ := lengthBytes_cons frame.payload.length
  rw [encode_eq, List.cons_append, parse_finOpcode, hbytes] at h
  have hp : (withHead (.new junk) (headByte frame)).payload = [] := rfl
  obtain ⟨body, hbody, hread⟩ := exists_read_of_parse hp h
  obtain ⟨hlen, -, htail⟩ := body.eq_of_bytes_append hext hbody.symm
  have hkey : body.key = [] := by
    apply List.length_eq_zero_iff.mp
    rw [body.length_key, keyLength, hlen, hmask]
    simp
  have hdata : body.data = frame.payload := by simpa [hkey] using htail
  rw [hread.payload, hkey, hdata]
  rfl

/-- **Decoding undoes encoding exactly for frames without payload**, and then if no
stale bit of an earlier encoding is left in the first byte. -/
theorem roundTrips_iff (host : Endian) (frame : DataFrame) (hopcode : frame.opcode ≠ .reserved) :
    frame.RoundTrips host ↔ frame.payload = [] ∧ frame.NoStaleBits := by
  have hstart : ∀ junk, parse host .finOpcode (.new junk) (frame.encode host) =
      parse host .maskPayloadLen (withHead (.new junk) (headByte frame))
        (lengthBytes frame.payload.length ++ frame.payload) := by
    intro junk
    rw [encode_eq, List.cons_append, parse_finOpcode]
  constructor
  · intro h
    have hnil : frame.payload = [] := by
      apply eq_nil_of_unmask
      intro junk
      obtain ⟨state, out, hparse, -, -, hpayload, -⟩ := h junk
      exact (payload_of_parse_encode hparse).symm.trans hpayload
    refine ⟨hnil, (headByte_decoded_iff frame hopcode).mp ?_⟩
    obtain ⟨state, out, hparse, hfin, hop, -, -⟩ := h #v[0, 0, 0, 0]
    rw [hstart, hnil] at hparse
    have hout : withLen (withHead (.new #v[0, 0, 0, 0]) (headByte frame)) 0 = out :=
      congrArg (fun p => p.2.1.2) hparse
    rw [← hfin, ← hop, ← hout]
    exact ⟨rfl, rfl⟩
  · rintro ⟨hnil, hstale⟩ junk
    obtain ⟨htop, hnibble⟩ := (headByte_decoded_iff frame hopcode).mpr hstale
    refine ⟨.maskPayloadLen, withLen (withHead (.new junk) (headByte frame)) 0, ?_, htop, hnibble,
      hnil.symm, rfl⟩
    rw [hstart, hnil]
    rfl

/-- A ping with one byte, not final. -/
theorem roundTrips_iff_ping : (fresh #v[7, 7, 7, 7] false .ping [0x61]).RoundTrips .little ↔
    ([0x61] : List UInt8) = [] ∧ (fresh #v[7, 7, 7, 7] false .ping [0x61]).NoStaleBits :=
  roundTrips_iff .little (fresh #v[7, 7, 7, 7] false .ping [0x61]) (by decide)

/-- The text "A" comes back as another byte when the target's `masking_key_` holds a
one. -/
theorem roundTrips_counterexample :
    ¬ (fresh #v[0, 0, 0, 0] true .textFrame [0x41]).RoundTrips .little := by
  intro h
  obtain ⟨state, out, hparse, -, -, hpayload, -⟩ := h #v[1, 0, 0, 0]
  have hdecoded : (parse .little .finOpcode (.new #v[1, 0, 0, 0])
      ((fresh #v[0, 0, 0, 0] true .textFrame [0x41]).encode .little)).2.1.2.payload = [0x40] := by
    decide
  rw [hparse] at hdecoded
  exact absurd (hdecoded.symm.trans hpayload) (by decide)

end DataFrame

end Splice
