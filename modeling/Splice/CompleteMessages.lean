import Splice.WsSession
import Splice.FrameValidity

/-!
# Splice.CompleteMessages

What an established session does with frames that come one to a read: text frames go to
`on_read`, pings and pongs are passed over, and anything else ends the session.  The
`switch` of `on_read_data_frame` looks at the opcode alone, so a fragment under one of the
three opcodes is taken for a whole message (`seesOnlyMessages_iff`).
-/

namespace Splice

open Incremental (parse_invariant)
open DataFrameParser

namespace ClientFrame

/-- Text, ping or pong. -/
def isTextPingPong (frame : ClientFrame) : Bool :=
  decide (frame.opcode = 1 ∨ frame.opcode = 9 ∨ frame.opcode = 10)

def isText (frame : ClientFrame) : Bool := decide (frame.opcode = 1)

/-- A whole text, ping or pong: no fragment. -/
def passes (frame : ClientFrame) : Bool := frame.fin && frame.isTextPingPong

/-- The host has all of the frame that it waits for. -/
def Completes (host : Endian) (frame : ClientFrame) : Prop :=
  wireSize host frame.len frame.ext ≤ frame.payload.length

/-- The host reads a text as long as it is, and of another frame at most what is there; every
frame is so on a little-endian host (`readsRight_little`). -/
def ReadsRight (host : Endian) (frame : ClientFrame) : Prop :=
  frame.Completes host ∧ (frame.isText → frame.Readable host)

theorem Readable.completes {host : Endian} {frame : ClientFrame} (h : frame.Readable host) :
    frame.Completes host := h.le

/-- On a little-endian host every length is read as it was meant. -/
theorem readsRight_little (frame : ClientFrame) : frame.ReadsRight .little :=
  ⟨(readable_little frame).completes, fun _ => readable_little frame⟩

/-- The parser's opcode against the number of the frame: text, ping or pong, or another one. -/
theorem opcodeOfBits_cases (frame : ClientFrame) :
    (opcodeOfBits (UInt8.ofNat frame.opcode) = .textFrame ∧ frame.isText ∧ frame.isTextPingPong) ∨
    ((opcodeOfBits (UInt8.ofNat frame.opcode) = .ping ∨
        opcodeOfBits (UInt8.ofNat frame.opcode) = .pong) ∧
      frame.isText = false ∧ frame.isTextPingPong) ∨
    ((opcodeOfBits (UInt8.ofNat frame.opcode)) ∉
        [OperationCode.textFrame, .ping, .pong] ∧
      frame.isText = false ∧ frame.isTextPingPong = false) := by
  unfold isText isTextPingPong
  generalize frame.opcode = opcode
  revert opcode
  decide

/-- The part of a frame that the host reads after its first byte. -/
def readBody {host : Endian} (frame : ClientFrame) (hne : frame.payload ≠ [])
    (h : frame.Completes host) : FrameBody host where
  len := frame.len
  ext := frame.ext
  key := frame.maskingKey.toList
  data := frame.masked.take (wireSize host frame.len frame.ext)
  length_ext := length_ext frame
  length_key := length_maskingKey hne
  length_data := by
    rw [List.length_take, length_masked]
    exact Nat.min_eq_left h
  data_ne_nil := by
    have hsize := LengthForm.wireSize_eq_zero_iff host frame.holds true
    have hmasked := frame.length_masked
    simp_all [len, ext, ← List.length_eq_zero_iff]

/-- The bytes of a frame are those that are read of it and those behind. -/
theorem bytes_eq_readBody {host : Endian} (frame : ClientFrame) (hne : frame.payload ≠ [])
    (h : frame.Completes host) :
    frame.bytes = frame.head :: (frame.readBody hne h).bytes ++
      frame.masked.drop (wireSize host frame.len frame.ext) := by
  simp [bytes, tail, readBody, FrameBody.bytes]

end ClientFrame

namespace DataFrameParser

variable {host : Endian} {junk : MaskingKey} {frame : ClientFrame}

/-- No byte takes the parser back to the first state. -/
theorem consume_ne_finOpcode (host : Endian) (s : State × DataFrame) (input : UInt8) :
    (consume host s input).2.1 ≠ .finOpcode := by
  obtain ⟨state, frame⟩ := s
  cases state <;> simp [consume, WsSession.afterLength_past] <;> split_ifs <;>
    simp [WsSession.afterLength_past]

/-- A frame that the host has all of is handed over. -/
theorem parse_of_completes (junk : MaskingKey) (hne : frame.payload ≠ [])
    (h : frame.Completes host) :
    ∃ state out rest, parse host .finOpcode (.new junk) frame.bytes = (.true, (state, out), rest) ∧
      out.opcode = opcodeOfBits (UInt8.ofNat frame.opcode) ∧
      (out.payload = frame.payload ↔ frame.Readable host) := by
  have hempty : (withHead (.new junk) frame.head).payload = [] := rfl
  let rest := frame.masked.drop (wireSize host frame.len frame.ext)
  obtain ⟨state, out, hparse, hout⟩ := parse_body (frame.readBody hne h) hempty rest
  refine ⟨state, out, rest, ?_, ?_, ?_⟩
  · rw [frame.bytes_eq_readBody hne h, List.cons_append, parse_finOpcode]
    exact hparse
  · rw [hout.opcode, withHead, frame.head_eq.2]
  · constructor
    · intro hpayload
      have hlength := hout.length_payload
      rw [hpayload, (frame.readBody hne h).length_data] at hlength
      exact hlength.symm
    · intro hread
      have hall : frame.masked.length = wireSize host frame.len frame.ext := by
        rw [ClientFrame.length_masked, hread]
      have htake : (frame.readBody hne h).data = frame.masked :=
        List.take_of_length_le hall.le
      rw [hout.payload, htake, ClientFrame.readBody, ClientFrame.usedKey_toList,
        ClientFrame.unmask_masked]

/-- Of another it asks for more. -/
theorem parse_of_not_completes (junk : MaskingKey) (hne : frame.payload ≠ [])
    (h : ¬ frame.Completes host) :
    ∃ state out rest, parse host .finOpcode (.new junk) frame.bytes =
        (.indeterminate, (state, out), rest) ∧ state ≠ .finOpcode := by
  cases hparse : parse host .finOpcode (.new junk) frame.bytes with
  | mk answer p =>
      obtain ⟨⟨state, out⟩, rest⟩ := p
      cases answer with
      | false => exact absurd (congrArg Prod.fst hparse) (parse_ne_false host _ _ _)
      | indeterminate =>
          refine ⟨state, out, rest, rfl, ?_⟩
          have hpast : (parse host .finOpcode (.new junk) frame.bytes).2.1.1 ≠ .finOpcode := by
            rw [ClientFrame.bytes, parse_finOpcode]
            exact parse_invariant (P := fun s : State × DataFrame => s.1 ≠ .finOpcode)
              (fun s input _ => consume_ne_finOpcode host s input) (by simp) frame.tail
          rwa [hparse] at hpast
      | true =>
          obtain ⟨b, body, hbytes, -⟩ := exists_read_of_parse_finOpcode (by rfl) hparse
          have hext : frame.ext.length = extLength frame.len := by
            rw [ClientFrame.extLength_len, ClientFrame.ext, LengthForm.length_extended]
          have htail : body.bytes ++ rest =
              frame.len :: frame.ext ++ (frame.maskingKey.toList ++ frame.masked) := by
            simpa [ClientFrame.bytes, ClientFrame.tail] using (List.cons.inj hbytes).2.symm
          obtain ⟨hlen, hexteq, hdata⟩ := body.eq_of_bytes_append hext htail
          have hlength := congrArg List.length hdata
          have hkey : body.key.length = 4 := by
            rw [body.length_key, keyLength, hlen,
              if_pos ⟨frame.topBit_len, ClientFrame.code_ne_zero hne⟩]
          have hsize := body.length_data
          rw [hlen, hexteq] at hsize
          simp only [List.length_append, Vector.length_toList, ClientFrame.length_masked,
            hkey] at hlength
          exact absurd (by omega : wireSize host frame.len frame.ext ≤ frame.payload.length) h

end DataFrameParser

namespace WsSession

variable {host : Endian} {frame : ClientFrame} {frames : List ClientFrame}

/-- What a session is to do with frames, one to a read. -/
inductive Handles : List ClientFrame → List Call → Prop
  | nil : Handles [] []
  | text {frame frames calls} : frame.passes → frame.isText → Handles frames calls →
      Handles (frame :: frames) (.onRead frame.payload :: .asyncReadSome .finOpcode :: calls)
  | pingPong {frame frames calls} : frame.passes → frame.isText = false →
      Handles frames calls → Handles (frame :: frames) (.asyncReadSome .finOpcode :: calls)
  | ends {frame frames msg} : frame.passes = false → Handles (frame :: frames) [.onError msg]

/-- A message is handed over exactly for a text frame that passes. -/
theorem handles_onRead_iff {msg : List UInt8} {calls : List Call} :
    Handles (frame :: frames) (.onRead msg :: .asyncReadSome .finOpcode :: calls) ↔
      (frame.passes ∧ frame.isText ∧ msg = frame.payload) ∧ Handles frames calls := by
  constructor
  · intro h
    cases h with
    | text hpasses htext hcalls => exact ⟨⟨hpasses, htext, rfl⟩, hcalls⟩
  · rintro ⟨⟨hpasses, htext, rfl⟩, hcalls⟩
    exact .text hpasses htext hcalls

/-- The next read is started exactly behind a ping or a pong that passes. -/
theorem handles_asyncReadSome_iff {frameParser : State} {calls : List Call} :
    Handles (frame :: frames) (.asyncReadSome frameParser :: calls) ↔
      (frame.passes ∧ frame.isText = false ∧ frameParser = .finOpcode) ∧
        Handles frames calls := by
  constructor
  · intro h
    cases h with
    | pingPong hpasses htext hcalls => exact ⟨⟨hpasses, htext, rfl⟩, hcalls⟩
  · rintro ⟨⟨hpasses, htext, rfl⟩, hcalls⟩
    exact .pingPong hpasses htext hcalls

/-- The reading ends in an error exactly at a frame that does not pass. -/
theorem handles_onError_iff {msg : String} :
    Handles (frame :: frames) [.onError msg] ↔ frame.passes = false := by
  constructor
  · intro h
    cases h with
    | ends hpasses => exact hpasses
  · exact .ends

/-- It hands over the whole texts in front of the frame that ends it. -/
theorem Handles.delivered {calls : List Call} (h : Handles frames calls) :
    WsSession.delivered calls =
      ((frames.takeWhile ClientFrame.passes).filter ClientFrame.isText).map
        ClientFrame.payload := by
  induction h with
  | nil => rfl
  | text hpasses htext _ ih => simpa [WsSession.delivered, hpasses, htext] using ih
  | pingPong hpasses htext _ ih => simpa [WsSession.delivered, hpasses, htext] using ih
  | ends hpasses => simp [WsSession.delivered, hpasses]

/-- The law of `on_read` for a run whose reads are `frames`: the calls are as they should
be, and so are the messages that reach `on_read`. -/
def SeesOnlyMessages (host : Endian) (junk : Nat → MaskingKey) (frames : List ClientFrame) :
    Prop :=
  ∃ calls, run host junk (frames.map ClientFrame.bytes) = onHandshakeSuccess ++ calls ∧
    Handles frames calls ∧
    delivered calls = ((frames.takeWhile ClientFrame.passes).filter ClientFrame.isText).map
      ClientFrame.payload

/-- Seeing only messages is handling each frame as it should be. -/
theorem seesOnlyMessages_iff_handles (host : Endian) (junk : Nat → MaskingKey)
    (frames : List ClientFrame) :
    SeesOnlyMessages host junk frames ↔
      Handles frames (runReads host junk (some .finOpcode) (frames.map ClientFrame.bytes)) := by
  constructor
  · rintro ⟨calls, hrun, hcalls, -⟩
    rwa [← List.append_cancel_left hrun] at hcalls
  · intro h
    exact ⟨_, rfl, h, h.delivered⟩

/-! ## One frame in one read -/

/-- The calls of a read that holds one frame, and of the reads behind it. -/
theorem runReads_bytes (junk : Nat → MaskingKey) (hne : frame.payload ≠ [])
    (h : frame.Completes host) (reads : List (List UInt8)) :
    ∃ out, out.opcode = opcodeOfBits (UInt8.ofNat frame.opcode) ∧
      (out.payload = frame.payload ↔ frame.Readable host) ∧
      runReads host junk (some .finOpcode) (frame.bytes :: reads) =
        onReadDataFrame out ++
          runReads host (fun i => junk (i + 1)) (outstanding (onReadDataFrame out)) reads := by
  obtain ⟨state, out, rest, hparse, hopcode, hpayload⟩ := parse_of_completes (junk 0) hne h
  refine ⟨out, hopcode, hpayload, ?_⟩
  simp [runReads, onReadDataframe, hparse, onParsed]

/-- A frame of another opcode is an error. -/
theorem onReadDataFrame_of_notMem {readFrame : DataFrame}
    (h : readFrame.opcode ∉ [OperationCode.textFrame, .ping, .pong]) :
    ∃ msg, onReadDataFrame readFrame = [.onError msg] := by
  unfold onReadDataFrame
  split <;> simp_all

/-- A session that waits for the rest of a frame has not passed over it. -/
theorem not_handles_of_not_completes (junk : Nat → MaskingKey) (hne : frame.payload ≠ [])
    (h : ¬ frame.Completes host) (reads : List (List UInt8)) :
    ¬ Handles (frame :: frames) (runReads host junk (some .finOpcode) (frame.bytes :: reads)) := by
  obtain ⟨state, out, rest, hparse, hstate⟩ := parse_of_not_completes (junk 0) hne h
  simp [runReads, onReadDataframe, hparse, onParsed, handles_asyncReadSome_iff, hstate]

/-- A text, ping or pong is handled right if it is whole and its size is read right. -/
theorem handles_cons_iff_of_isTextPingPong (junk : Nat → MaskingKey) (hne : frame.payload ≠ [])
    (hknown : frame.isTextPingPong) (reads : List (List UInt8)) :
    Handles (frame :: frames) (runReads host junk (some .finOpcode) (frame.bytes :: reads)) ↔
      (frame.fin ∧ frame.ReadsRight host) ∧
        Handles frames (runReads host (fun i => junk (i + 1)) (some .finOpcode) reads) := by
  by_cases h : frame.Completes host
  · obtain ⟨out, hopcode, hpayload, hcalls⟩ := runReads_bytes junk hne h reads
    rw [hcalls]
    rcases frame.opcodeOfBits_cases with ⟨hop, htext, -⟩ | ⟨hop | hop, htext, -⟩ | ⟨-, -, hother⟩
    · simp [onReadDataFrame, hopcode, hop, outstanding, handles_onRead_iff, hpayload,
        ClientFrame.passes, ClientFrame.ReadsRight, hknown, htext, h]
    · simp [onReadDataFrame, hopcode, hop, outstanding, handles_asyncReadSome_iff,
        ClientFrame.passes, ClientFrame.ReadsRight, hknown, htext, h]
    · simp [onReadDataFrame, hopcode, hop, outstanding, handles_asyncReadSome_iff,
        ClientFrame.passes, ClientFrame.ReadsRight, hknown, htext, h]
    · simp [hknown] at hother
  · have hnot : ¬ Handles (frame :: frames) _ := not_handles_of_not_completes junk hne h reads
    simp [hnot, ClientFrame.ReadsRight, h]

/-- Any other frame ends the session, if the host has all of it. -/
theorem handles_cons_iff_of_not_isTextPingPong (junk : Nat → MaskingKey)
    (hne : frame.payload ≠ []) (hknown : frame.isTextPingPong = false)
    (reads : List (List UInt8)) :
    Handles (frame :: frames) (runReads host junk (some .finOpcode) (frame.bytes :: reads)) ↔
      frame.Completes host := by
  by_cases h : frame.Completes host
  · obtain ⟨out, hopcode, -, hcalls⟩ := runReads_bytes junk hne h reads
    rcases frame.opcodeOfBits_cases with ⟨-, -, hother⟩ | ⟨-, -, hother⟩ | ⟨hop, -, -⟩
    · simp [hknown] at hother
    · simp [hknown] at hother
    · obtain ⟨msg, herror⟩ := onReadDataFrame_of_notMem (hopcode ▸ hop)
      simp [hcalls, herror, outstanding, runReads_none, handles_onError_iff, ClientFrame.passes,
        hknown, h]
  · have hnot : ¬ Handles (frame :: frames) _ := not_handles_of_not_completes junk hne h reads
    simp [hnot, h]

/-! ## The run -/

/-- **The session hands over whole messages and no others** exactly if no fragment is a
text, ping or pong that comes before the first other frame, and the host reads the sizes. -/
theorem seesOnlyMessages_iff (host : Endian) (junk : Nat → MaskingKey)
    (frames : List ClientFrame) (hframes : ∀ frame ∈ frames, frame.payload ≠ []) :
    SeesOnlyMessages host junk frames ↔
      (∀ frame ∈ frames.takeWhile ClientFrame.isTextPingPong,
        frame.fin ∧ frame.ReadsRight host) ∧
      ∀ frame ∈ (frames.dropWhile ClientFrame.isTextPingPong).head?, frame.Completes host := by
  rw [seesOnlyMessages_iff_handles]
  induction frames generalizing junk with
  | nil => simpa [runReads] using Handles.nil
  | cons frame frames ih =>
      have hne := hframes frame List.mem_cons_self
      have hlater : ∀ frame ∈ frames, frame.payload ≠ [] := fun frame hframe =>
        hframes frame (List.mem_cons_of_mem _ hframe)
      rw [List.map_cons]
      by_cases hknown : frame.isTextPingPong
      · rw [handles_cons_iff_of_isTextPingPong junk hne hknown, ih _ hlater]
        simp [hknown, and_assoc]
      · simp only [Bool.not_eq_true] at hknown
        rw [handles_cons_iff_of_not_isTextPingPong junk hne hknown]
        simp [hknown]

theorem seesOnlyMessages_iff_text_ping_close :
    let frames : List ClientFrame :=
      [⟨true, 1, .len7, #v[0, 0, 0, 0], [0x48, 0x69], by decide⟩,
        ⟨true, 9, .len7, #v[0, 0, 0, 0], [0x48], by decide⟩,
        ⟨true, 8, .len7, #v[0, 0, 0, 0], [0x03, 0xE8], by decide⟩]
    SeesOnlyMessages .little (fun _ => #v[0, 0, 0, 0]) frames ↔
      (∀ frame ∈ frames.takeWhile ClientFrame.isTextPingPong,
        frame.fin ∧ frame.ReadsRight .little) ∧
      ∀ frame ∈ (frames.dropWhile ClientFrame.isTextPingPong).head?,
        frame.Completes .little :=
  seesOnlyMessages_iff .little _ _ (by simp)

/-- The first fragment of a text reaches `on_read`. -/
theorem seesOnlyMessages_counterexample :
    ¬ SeesOnlyMessages .little (fun _ => #v[0, 0, 0, 0])
      [⟨false, 1, .len7, #v[0, 0, 0, 0], [0x41], by decide⟩] := by
  rw [seesOnlyMessages_iff_handles]
  intro h
  exact absurd h.delivered (by decide)

end WsSession

end Splice
