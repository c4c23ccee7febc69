import Splice.FrameFormat

/-!
# Splice.FrameValidity

What `data_frame_parser` does with bytes that are no frame.  It never answers *false*: no
state of it looks at the reserved bits, at the opcode and FIN together or at the form of a
length.  So it is right about an input only if that is the beginning of a valid frame,
or begins with one (`judges_iff`).
-/

namespace Splice

open Incremental Radix
open DataFrameParser (low7 topBit wireSize extLength keyLength FrameBody)

/-! ## Valid frames -/

/-- The control frames of section 5.5. -/
def OperationCode.isControl : OperationCode → Bool
  | .connectionClose | .ping | .pong => true
  | .continuationFrame | .textFrame | .binaryFrame | .reserved => false

/-- A frame that section 5.2 allows, masked or not: reserved bits zero, a defined opcode, the
minimal length form, and control frames whole and short. -/
structure ValidFrame where
  fin : Bool
  opcode : OperationCode
  key : Option MaskingKey
  data : List UInt8
  opcode_ne : opcode ≠ .reserved
  control_fin : opcode.isControl → fin = true
  control_length : opcode.isControl → data.length ≤ 125
  length_lt : data.length < 2 ^ 63

namespace ValidFrame

variable (frame : ValidFrame)

def form : LengthForm := .minimal frame.data.length

def head : UInt8 := UInt8.ofNat ((if frame.fin then 128 else 0) + frame.opcode.number)

def len : UInt8 := frame.form.lengthByte frame.key.isSome frame.data.length

def ext : List UInt8 := frame.form.extended frame.data.length

def keyBytes : List UInt8 :=
  match frame.key with
  | none => []
  | some key => key.toList

/-- The frame on the wire; `data` is the payload as it travels. -/
def bytes : List UInt8 := frame.head :: (frame.len :: frame.ext ++ (frame.keyBytes ++ frame.data))

theorem holds : frame.form.Holds frame.data.length :=
  LengthForm.holds_minimal (frame.length_lt.trans (by decide))

theorem length_ext : frame.ext.length = extLength frame.len := by
  rw [ext, LengthForm.length_extended, len, LengthForm.extLength_lengthByte frame.holds]

theorem low7_len : low7 frame.len = frame.form.code frame.data.length :=
  LengthForm.low7_lengthByte frame.holds _

theorem topBit_len : topBit frame.len = frame.key.isSome :=
  LengthForm.topBit_lengthByte frame.holds _

/-- The 7-bit field is zero exactly if there is no payload. -/
theorem low7_len_eq_zero : low7 frame.len = 0 ↔ frame.data = [] := by
  rw [low7_len, form, LengthForm.minimal, ← List.length_eq_zero_iff]
  split_ifs <;> simp only [LengthForm.code] <;> omega

theorem length_keyBytes : frame.keyBytes.length = if frame.key.isSome then 4 else 0 := by
  unfold keyBytes
  cases frame.key <;> simp

/-- No valid frame has a reserved bit set. -/
theorem head_reserved : frame.head &&& 0x70 = 0 := by
  have hall : ∀ (fin : Bool) (opcode : OperationCode),
      UInt8.ofNat ((if fin then 128 else 0) + opcode.number) &&& 0x70 = 0 := by
    intro fin opcode
    cases fin <;> cases opcode <;> decide
  exact hall frame.fin frame.opcode

/-! ## Where the parser stops -/

/-- How many bytes a host reads of the frame: it takes the size from the length fields, and
a size of zero ends the frame before its key. -/
def stop (host : Endian) : Nat :=
  if frame.data = [] then 2
  else 2 + frame.ext.length + frame.keyBytes.length + wireSize host frame.len frame.ext

variable {frame : ValidFrame} {host : Endian}

theorem wireSize_ne_zero (h : frame.data ≠ []) : wireSize host frame.len frame.ext ≠ 0 := by
  have hsize := LengthForm.wireSize_eq_zero_iff host frame.holds frame.key.isSome
  simpa [len, ext, hsize] using h

/-- What the parser has read of a frame when it stops. -/
theorem exists_body (hstop : frame.stop host ≤ frame.bytes.length) :
    ∃ body : FrameBody host, frame.head :: body.bytes <+: frame.bytes ∧
      (frame.head :: body.bytes).length = frame.stop host := by
  have hlow := low7_len_eq_zero frame
  have hkey : frame.keyBytes.length = if topBit frame.len = true then 4 else 0 := by
    rw [topBit_len, length_keyBytes]
  by_cases hdata : frame.data = []
  · have hzero := hlow.mpr hdata
    refine ⟨⟨frame.len, [], [], [], ?_, ?_, ?_, ?_⟩, ?_, ?_⟩
    · simp [extLength, hzero]
    · simp [keyLength, hzero]
    · simp [wireSize, hzero]
    · simp [hzero]
    · simp [FrameBody.bytes, bytes]
    · simp [FrameBody.bytes, stop, hdata]
  · have hzero : low7 frame.len ≠ 0 := mt hlow.mp hdata
    have hsize : wireSize host frame.len frame.ext ≠ 0 := wireSize_ne_zero hdata
    have hle : wireSize host frame.len frame.ext ≤ frame.data.length := by
      simp only [stop, hdata, if_false, bytes, List.length_cons, List.length_append] at hstop
      omega
    refine ⟨⟨frame.len, frame.ext, frame.keyBytes,
      frame.data.take (wireSize host frame.len frame.ext), frame.length_ext, ?_, ?_, ?_⟩, ?_, ?_⟩
    · simp [hkey, keyLength, hzero]
    · simp [hle]
    · intro _ hnil
      rw [List.take_eq_nil_iff] at hnil
      simp [hsize, hdata] at hnil
    · refine ⟨frame.data.drop (wireSize host frame.len frame.ext), ?_⟩
      simp [FrameBody.bytes, bytes]
    · simp only [FrameBody.bytes, stop, hdata, if_false, List.length_cons, List.length_append,
        List.length_take]
      omega

/-- Where a body begins like a frame, it ends where the parser stops in the frame. -/
theorem length_of_body {body : FrameBody host} {b : UInt8} {rest rest' : List UInt8}
    (h : b :: body.bytes ++ rest = frame.bytes ++ rest') :
    (b :: body.bytes).length = frame.stop host := by
  have htail : body.bytes ++ rest =
      frame.len :: frame.ext ++ (frame.keyBytes ++ frame.data ++ rest') := by
    have hbytes := (List.cons.inj h).2
    simpa [bytes] using hbytes
  obtain ⟨hlen, hext, -⟩ := body.eq_of_bytes_append frame.length_ext htail
  have hlow := low7_len_eq_zero frame
  have hlength := body.length_bytes
  rw [body.length_data, hlen, hext] at hlength
  rw [List.length_cons, hlength, stop]
  by_cases hdata : frame.data = []
  · have hzero := hlow.mpr hdata
    simp [hdata, hzero, extLength, keyLength, wireSize]
  · have hzero : low7 frame.len ≠ 0 := mt hlow.mp hdata
    rw [if_neg hdata, frame.length_ext, length_keyBytes, ← topBit_len, keyLength]
    simp only [hzero, ne_eq, not_false_eq_true, and_true]
    omega

end ValidFrame

namespace DataFrameParser

variable {host : Endian} {junk : MaskingKey} {input : List UInt8} {frame : ValidFrame}

/-- **The parser rejects nothing.** -/
theorem consume_ne_false (s : State × DataFrame) (b : UInt8) : (consume host s b).1 ≠ .false := by
  obtain ⟨state, frame⟩ := s
  cases state with
  | maskPayloadLen | extendedPayloadLen1 | extendedPayloadLen2 =>
      simp only [consume]
      split
      · simp
      · split <;> simp
  | payload =>
      simp only [consume]
      split <;> simp
  | _ => simp [consume]

/-- The parser never answers *false*. -/
theorem parse_ne_false (host : Endian) (state : State) (frame : DataFrame) (input : List UInt8) :
    (parse host state frame input).1 ≠ .false :=
  Incremental.parse_ne (by simp) consume_ne_false (state, frame) input

/-- The parser stops in a frame where the host does. -/
theorem parse_of_stop_le (junk : MaskingKey) (hstop : frame.stop host ≤ frame.bytes.length)
    (hinput : frame.bytes.take (frame.stop host) <+: input) :
    ∃ s, parse host .finOpcode (.new junk) input = (.true, s, input.drop (frame.stop host)) := by
  obtain ⟨body, hstart, hlength⟩ := ValidFrame.exists_body hstop
  have htake : frame.bytes.take (frame.stop host) = frame.head :: body.bytes := by
    rw [← hlength]
    exact (List.prefix_iff_eq_take.mp hstart).symm
  rw [htake] at hinput
  obtain ⟨rest, rfl⟩ := hinput
  have hdrop : (frame.head :: body.bytes ++ rest).drop (frame.stop host) = rest := by
    rw [← hlength, List.drop_left]
  have hempty : (withHead (.new junk) frame.head).payload = [] := rfl
  obtain ⟨state, out, hparse, -⟩ := parse_body body hempty rest
  rw [hdrop, List.cons_append, parse_finOpcode]
  exact ⟨_, hparse⟩

/-- What it has read of a frame is what the host reads of it. -/
theorem length_of_parse {s : State × DataFrame} {rest more more' : List UInt8}
    (hparse : parse host .finOpcode (.new junk) input = (.true, s, rest))
    (hframe : input ++ more = frame.bytes ++ more') :
    input.length = frame.stop host + rest.length := by
  obtain ⟨state, out⟩ := s
  obtain ⟨b, body, rfl, -⟩ := exists_read_of_parse_finOpcode (by rfl) hparse
  have hbytes : b :: body.bytes ++ (rest ++ more) = frame.bytes ++ more' := by
    simpa using hframe
  rw [List.length_append, ValidFrame.length_of_body hbytes]

/-- What the contract of the parser says about an input: what it accepts is a valid frame,
and it asks for more data only where a valid frame can still come of it. -/
def Judges (host : Endian) (junk : MaskingKey) (input : List UInt8) : Prop :=
  (∀ s rest, parse host .finOpcode (.new junk) input = (.true, s, rest) →
    ∃ frame : ValidFrame, input = frame.bytes ++ rest) ∧
  ((¬ ∃ frame : ValidFrame, input <+: frame.bytes) →
    (parse host .finOpcode (.new junk) input).1 ≠ .indeterminate)

/-- **The parser is right** about the beginning of a valid frame in which the host does not
stop, about a valid frame at whose end it stops, and about nothing else. -/
theorem judges_iff (host : Endian) (junk : MaskingKey) (input : List UInt8) :
    Judges host junk input ↔ ∃ frame : ValidFrame,
      (input <+: frame.bytes ∧ input.length < frame.stop host) ∨
        (frame.bytes <+: input ∧ frame.bytes.length = frame.stop host) := by
  cases hparse : parse host .finOpcode (.new junk) input with
  | mk answer p =>
      obtain ⟨s, rest⟩ := p
      constructor
      · rintro ⟨htrue, hasks⟩
        cases answer with
        | false => exact absurd (congrArg Prod.fst hparse) (parse_ne_false host _ _ input)
        | true =>
            obtain ⟨frame, rfl⟩ := htrue s rest hparse
            have hbytes : frame.bytes ++ rest ++ [] = frame.bytes ++ rest := by simp
            have hlength := length_of_parse hparse hbytes
            refine ⟨frame, Or.inr ⟨List.prefix_append _ _, ?_⟩⟩
            rw [List.length_append] at hlength
            omega
        | indeterminate =>
            by_contra hnone
            refine hasks ?_ (congrArg Prod.fst hparse)
            rintro ⟨frame, hstart⟩
            have hle : frame.stop host ≤ input.length := by
              by_contra hlt
              exact hnone ⟨frame, Or.inl ⟨hstart, by omega⟩⟩
            have htake : frame.bytes.take (frame.stop host) <+: input := by
              rw [List.prefix_iff_eq_take.mp hstart]
              exact (List.take_prefix_take_left hle)
            obtain ⟨s', hs'⟩ := parse_of_stop_le junk (hle.trans hstart.length_le) htake
            simp [hparse] at hs'
      · rintro ⟨frame, ⟨hstart, hlt⟩ | ⟨hstart, hlength⟩⟩
        · obtain ⟨more, hmore⟩ := hstart
          refine ⟨fun s' rest' hs' => ?_, fun hnone => absurd ⟨frame, more, hmore⟩ hnone⟩
          have hbytes : input ++ more = frame.bytes ++ [] := by simpa using hmore
          have hstop := length_of_parse hs' hbytes
          omega
        · obtain ⟨more, rfl⟩ := hstart
          have htake : frame.bytes.take (frame.stop host) <+: frame.bytes ++ more := by
            rw [← hlength, List.take_length]
            exact List.prefix_append _ more
          obtain ⟨s', hs'⟩ := parse_of_stop_le junk hlength.ge htake
          rw [← hlength, List.drop_left] at hs'
          refine ⟨fun s'' rest' hs'' => ⟨frame, ?_⟩, fun _ => by simp [hs']⟩
          rw [hs'] at hs''
          have hrest : more = rest' := congrArg (fun p => p.2.2) hs''
          rw [hrest]

/-- A frame with a reserved bit. -/
theorem judges_counterexample : ¬ Judges .little #v[0, 0, 0, 0] [0xC1, 0x01, 0x41] := by
  rintro ⟨htrue, -⟩
  have hparse : (parse .little .finOpcode (.new #v[0, 0, 0, 0]) [0xC1, 0x01, 0x41]).1 = .true := by
    decide
  obtain ⟨frame, hframe⟩ := htrue _ _ (Prod.ext hparse rfl)
  have hhead : frame.head = 0xC1 := (List.cons.inj hframe).1.symm
  have hreserved := frame.head_reserved
  rw [hhead] at hreserved
  exact absurd hreserved (by decide)

end DataFrameParser

end Splice
