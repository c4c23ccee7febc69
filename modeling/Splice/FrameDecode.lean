import Splice.FrameFormat

/-!
# Splice.FrameDecode

The decoder on the frames of a client: a masked frame with a payload is a
`FrameBody`, so the parser reads it to its last byte in one call, and by the chunk
law of `Incremental` in any sequence of calls.
-/

namespace Splice

open Incremental
open DataFrameParser

namespace ClientFrame

/-- `out` is what the decoder should make of the frame. -/
structure Received (frame : ClientFrame) (out : DataFrame) : Prop where
  fin : out.fin = frame.fin
  opcode : out.opcode.Denotes frame.opcode
  mask : out.mask = true
  payload : out.payload = frame.payload

/-- A frame with a payload does not say that it is empty. -/
theorem code_ne_zero {frame : ClientFrame} (hne : frame.payload ≠ []) : low7 frame.len ≠ 0 := by
  have hpos : 0 < frame.payload.length := List.length_pos_iff.mpr hne
  rw [low7_len]
  cases frame.form <;> simp only [LengthForm.code] <;> omega

theorem length_ext (frame : ClientFrame) : frame.ext.length = extLength frame.len := by
  rw [extLength_len, ext, LengthForm.length_extended]

theorem length_maskingKey {frame : ClientFrame} (hne : frame.payload ≠ []) :
    frame.maskingKey.toList.length = keyLength frame.len := by
  rw [keyLength, if_pos ⟨topBit_len frame, code_ne_zero hne⟩, Vector.length_toList]

/-- What follows the first byte of a non-empty frame, as the parser takes it. -/
def toBody {host : Endian} (frame : ClientFrame) (hne : frame.payload ≠ [])
    (hread : frame.Readable host) : FrameBody host where
  len := frame.len
  ext := frame.ext
  key := frame.maskingKey.toList
  data := frame.masked
  length_ext := length_ext frame
  length_key := length_maskingKey hne
  length_data := by rw [length_masked, hread]
  data_ne_nil := by
    intro _ hnil
    have hlen := congrArg List.length hnil
    rw [length_masked, List.length_nil] at hlen
    exact hne (List.length_eq_zero_iff.mp hlen)

/-- The key used is the one that was sent. -/
theorem usedKey_toList (junk key : MaskingKey) : usedKey junk key.toList = key := by
  obtain ⟨⟨l⟩, hl⟩ := key
  match l, hl with
  | [k0, k1, k2, k3], _ => rfl

/-- The frame from its length byte on, by the time its first byte has been read. -/
theorem parse_tail {host : Endian} {frame : ClientFrame} (hne : frame.payload ≠ [])
    (hread : frame.Readable host) (into : DataFrame) (hp : into.payload = []) (rest : List UInt8) :
    ∃ state out, parse host .maskPayloadLen into (frame.tail ++ rest) =
        (.true, (state, out), rest) ∧
      out.fin = into.fin ∧ out.opcode = into.opcode ∧ out.mask = true ∧
      out.payload = frame.payload := by
  obtain ⟨state, out, hparse, hfin, hopcode, hmask, hpayload⟩ :=
    parse_body (frame.toBody hne hread) hp rest
  refine ⟨state, out, hparse, hfin, hopcode, ?_, ?_⟩
  · rw [hmask]
    exact topBit_len frame
  · rw [hpayload]
    simp only [toBody, usedKey_toList, unmask_masked]

/-- Without a payload, a frame in the 7-bit form ends for the parser at its length byte. -/
theorem parse_tail_of_nil {host : Endian} {frame : ClientFrame} (hnil : frame.payload = [])
    (hform : frame.form = .len7) (into : DataFrame) :
    parse host .maskPayloadLen into frame.tail =
      (.true, (.maskPayloadLen, withLen into frame.len), frame.maskingKey.toList) := by
  have hzero : low7 frame.len = 0 := by rw [low7_len, hform, hnil]; rfl
  have hext : frame.ext = [] := by rw [ext, hform]; rfl
  have hmasked : frame.masked = [] := by rw [masked, hnil]; rfl
  rw [tail, hext, hmasked, List.append_nil, List.singleton_append, parse_maskPayloadLen,
    if_pos hzero]

/-- What the parser makes of a frame that arrives alone, from its length byte on. -/
theorem parse_tail_alone {host : Endian} {frame : ClientFrame}
    (hform : frame.payload = [] → frame.form = .len7) (hread : frame.Readable host)
    (into : DataFrame) (hp : into.payload = []) :
    ∃ state out rest, parse host .maskPayloadLen into frame.tail = (.true, (state, out), rest) ∧
      out.opcode = into.opcode ∧ out.payload = frame.payload := by
  by_cases hnil : frame.payload = []
  · exact ⟨_, _, _, parse_tail_of_nil hnil (hform hnil) into, rfl, hp.trans hnil.symm⟩
  · obtain ⟨state, out, hparse, -, hopcode, -, hpayload⟩ := parse_tail hnil hread into hp []
    rw [List.append_nil] at hparse
    exact ⟨state, out, [], hparse, hopcode, hpayload⟩

/-- **A non-empty frame is decoded in one call**, whatever follows it. -/
theorem parse_bytes {host : Endian} {frame : ClientFrame} (hne : frame.payload ≠ [])
    (hread : frame.Readable host) (into : DataFrame) (hp : into.payload = []) (rest : List UInt8) :
    ∃ state out, parse host .finOpcode into (frame.bytes ++ rest) = (.true, (state, out), rest) ∧
      frame.Received out := by
  obtain ⟨state, out, hparse, hfin, hopcode, hmask, hpayload⟩ :=
    parse_tail hne hread (withHead into frame.head) hp rest
  obtain ⟨htop, hnibble⟩ := head_eq frame
  refine ⟨state, out, ?_, ⟨hfin.trans htop, ?_, hmask, hpayload⟩⟩
  · rw [bytes, List.cons_append, parse_finOpcode]
    exact hparse
  · rw [OperationCode.denotes_iff, hopcode, withHead, hnibble]

end ClientFrame

/-- **Chunked decoding**: fed to a fresh parser in any number of calls on one fresh
frame object, a non-empty masked frame makes every call but the last ask for more
data, having read its whole chunk; the call that holds the last byte answers
*true*, stops right behind that byte and leaves the frame as it was sent. -/
theorem parseCalls_clientFrame (junk : MaskingKey) (frame : ClientFrame)
    (hne : frame.payload ≠ []) (chunks : List (List UInt8)) (last rest : List UInt8)
    (hlast : last ≠ []) (hcut : chunks.flatten ++ last = frame.bytes) :
    ∃ state out,
      parseCalls (consume .little) (.finOpcode, .new junk) (chunks ++ [last ++ rest]) =
        (chunks.map (fun _ => (.indeterminate, [])) ++ [(.true, rest)], (state, out)) ∧
      frame.Received out := by
  obtain ⟨state, out, hparse, hout⟩ :=
    ClientFrame.parse_bytes hne (ClientFrame.readable_little frame) (.new junk) rfl []
  rw [List.append_nil, ← hcut] at hparse
  exact ⟨state, out, parseCalls_of_parse chunks (by decide) hlast hparse rest, hout⟩

/-- The text frame "Hi" in two calls cut inside the masking key, a byte of the next
frame behind it. -/
theorem parseCalls_clientFrame_hi : ∃ state out,
    parseCalls (consume .little) (.finOpcode, .new #v[0, 0, 0, 0])
      ([[0x81, 0x82, 1, 2]] ++ [[3, 4, 0x49, 0x6B] ++ [0x81]]) =
        ([[0x81, 0x82, 1, 2]].map (fun _ => (.indeterminate, [])) ++ [(.true, [0x81])],
          (state, out)) ∧
      ClientFrame.Received ⟨true, 1, .len7, #v[1, 2, 3, 4], [0x48, 0x69], by decide⟩ out :=
  parseCalls_clientFrame _ _ (by decide) _ _ _ (by decide) (by decide)

end Splice
