import Splice.FrameRoundTrip
import Splice.Lib.Transition

/-!
# Splice.FrameHistory

A frame object that is used more than once.  `to_buffers` assigns the length members at
each call, but ors FIN and opcode into `fin_opcode_`, which only the constructors clear:
that byte gathers the codes of all the encodings before (`encode_after`).  The other bytes
keep no history, and nothing of it shows where a frame is encoded once, as the sessions do
(`keepsNoHistory_ofString`).
-/

namespace Splice

open Transition

namespace DataFrame

/-! ## Uses of a frame object -/

/-- An assignment to one of the three members that a frame is made of, or a call. -/
inductive Use where
  | fin (fin : Bool)
  | opcode (opcode : OperationCode)
  | payload (payload : List UInt8)
  | toBuffers
  deriving DecidableEq, Repr

/-- The frame after a use. -/
def use (host : Endian) (frame : DataFrame) : Use → DataFrame
  | .fin fin => { frame with fin := fin }
  | .opcode opcode => { frame with opcode := opcode }
  | .payload payload => { frame with payload := payload }
  | .toBuffers => (frame.toBuffers host).2

/-- The frame after some uses, in their order. -/
def after (host : Endian) (frame : DataFrame) (uses : List Use) : DataFrame :=
  uses.foldl (use host) frame

/-- The bytes of each call are those of a newly constructed frame that is given the same
FIN, opcode and payload. -/
def KeepsNoHistory (host : Endian) (frame : DataFrame) (uses : List Use) : Prop :=
  Throughout (fun past use => use = .toBuffers → ∀ junk,
    (frame.after host past).encode host =
      (fresh junk (frame.after host past).fin (frame.after host past).opcode
        (frame.after host past).payload).encode host) uses

/-- FIN and opcode at each of the calls, as section 5.2 puts them in the first byte. -/
def headCodes (fin : Bool) (opcode : OperationCode) : List Use → List UInt8
  | [] => []
  | .fin fin :: uses => headCodes fin opcode uses
  | .opcode opcode :: uses => headCodes fin opcode uses
  | .payload _ :: uses => headCodes fin opcode uses
  | .toBuffers :: uses => headCode fin opcode :: headCodes fin opcode uses

/-- The bits of a byte are among those of another one. -/
def BitsWithin (a b : UInt8) : Prop := a ||| b = b

instance (a b : UInt8) : Decidable (BitsWithin a b) := inferInstanceAs (Decidable (a ||| b = b))

/-! ## What a call leaves -/

variable (host : Endian) (frame : DataFrame)

/-- A call writes scratch members only, and leaves `fin_opcode_` as it has been sent. -/
theorem exists_toBuffers : ∃ len len16 len64, (frame.toBuffers host).2 =
    { frame with
      finOpcode := frame.headByte.toInt8
      maskPayloadLen := len
      extendedPayloadLen16 := len16
      extendedPayloadLen64 := len64 } := by
  by_cases hfin : frame.fin
  · simp only [toBuffers, headByte, if_pos hfin, Int8.toInt8_toUInt8]
    split_ifs <;> exact ⟨_, _, _, rfl⟩
  · simp only [toBuffers, headByte, if_neg hfin, Int8.toInt8_toUInt8]
    split_ifs <;> exact ⟨_, _, _, rfl⟩

@[simp] theorem toBuffers_fin : (frame.toBuffers host).2.fin = frame.fin := by
  obtain ⟨len, len16, len64, h⟩ := exists_toBuffers host frame
  rw [h]

@[simp] theorem toBuffers_opcode : (frame.toBuffers host).2.opcode = frame.opcode := by
  obtain ⟨len, len16, len64, h⟩ := exists_toBuffers host frame
  rw [h]

/-- The first byte sent is what is left in `fin_opcode_`. -/
theorem toBuffers_finOpcode :
    (frame.toBuffers host).2.finOpcode.toUInt8 = frame.headByte := by
  obtain ⟨len, len16, len64, h⟩ := exists_toBuffers host frame
  rw [h]
  exact UInt8.toUInt8_toInt8 _

/-- What a call sends, against a newly constructed frame: only the first byte can differ. -/
theorem encode_eq_fresh_iff (junk : MaskingKey) :
    frame.encode host = (fresh junk frame.fin frame.opcode frame.payload).encode host ↔
      BitsWithin frame.finOpcode.toUInt8 (headCode frame.fin frame.opcode) := by
  have hpayload : (fresh junk frame.fin frame.opcode frame.payload).payload = frame.payload := rfl
  rw [encode_eq, encode_eq, hpayload, List.cons_append, List.cons_append, List.cons_eq_cons,
    headByte_fresh, headByte_eq, BitsWithin]
  exact and_iff_left rfl

/-! ## Histories -/

/-- `fin_opcode_` behind some uses: the codes of all the calls, over what it held before. -/
theorem finOpcode_after (uses : List Use) :
    (frame.after host uses).finOpcode.toUInt8 =
      (headCodes frame.fin frame.opcode uses).foldl (· ||| ·) frame.finOpcode.toUInt8 := by
  induction uses generalizing frame with
  | nil => rfl
  | cons next uses ih =>
      rw [after, List.foldl_cons, ← after, ih]
      cases next with
      | fin | opcode | payload => rfl
      | toBuffers =>
          rw [use, toBuffers_finOpcode, headByte_eq, toBuffers_fin, toBuffers_opcode, headCodes,
            List.foldl_cons]

/-- **What the history changes in an encoding** is its first byte, which has the bits of all
the codes that have been sent. -/
theorem encode_after (uses : List Use) :
    (frame.after host uses).encode host =
      ((headCodes frame.fin frame.opcode uses).foldl (· ||| ·) frame.finOpcode.toUInt8 |||
          headCode (frame.after host uses).fin (frame.after host uses).opcode) ::
        lengthBytes (frame.after host uses).payload.length ++ (frame.after host uses).payload := by
  rw [encode_eq, headByte_eq, finOpcode_after]

/-- A history is judged use by use. -/
theorem keepsNoHistory_cons (next : Use) (uses : List Use) :
    KeepsNoHistory host frame (next :: uses) ↔
      (next = .toBuffers →
        BitsWithin frame.finOpcode.toUInt8 (headCode frame.fin frame.opcode)) ∧
      KeepsNoHistory host (frame.use host next) uses := by
  have hfirst : (∀ junk, frame.encode host =
      (fresh junk frame.fin frame.opcode frame.payload).encode host) ↔
        BitsWithin frame.finOpcode.toUInt8 (headCode frame.fin frame.opcode) := by
    simp only [encode_eq_fresh_iff, forall_const]
  rw [← hfirst]
  exact throughout_cons

/-- A new frame that is encoded once, as the sessions do with each message. -/
theorem keepsNoHistory_ofString (junk : MaskingKey) (str : List UInt8) :
    KeepsNoHistory host (ofString junk str) [.toBuffers] :=
  (keepsNoHistory_cons host _ _ _).mpr ⟨fun _ => UInt8.zero_or, throughout_nil⟩

/-- **Encoding keeps no history** exactly if FIN and opcode have at each call all the bits
that they had at the call before, and at the first one those that `fin_opcode_` held. -/
theorem keepsNoHistory_iff (host : Endian) (frame : DataFrame) (uses : List Use) :
    KeepsNoHistory host frame uses ↔
      List.IsChain BitsWithin
        (frame.finOpcode.toUInt8 :: headCodes frame.fin frame.opcode uses) := by
  induction uses generalizing frame with
  | nil => simp [KeepsNoHistory, headCodes]
  | cons next uses ih =>
      rw [keepsNoHistory_cons, ih]
      cases next with
      | fin | opcode | payload => simp [use, headCodes]
      | toBuffers =>
          rw [use, toBuffers_finOpcode, toBuffers_fin, toBuffers_opcode, headCodes,
            List.isChain_cons_cons, headByte_eq]
          simp only [true_imp_iff]
          refine and_congr_right fun hbits => ?_
          rw [hbits]

/-- A text frame, and then a binary frame with the same object: the second call sends the
opcode 3. -/
theorem keepsNoHistory_counterexample :
    ¬ KeepsNoHistory .little (new #v[0, 0, 0, 0])
      [.toBuffers, .opcode .binaryFrame, .toBuffers] := by
  intro h
  have hsecond := h [.toBuffers, .opcode .binaryFrame] .toBuffers (List.prefix_refl _) rfl
    #v[0, 0, 0, 0]
  exact absurd hsecond (by decide)

end DataFrame

end Splice
