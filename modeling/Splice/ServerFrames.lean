import Splice.FrameRoundTrip
import Splice.Lib.StreamReader

/-!
# Splice.ServerFrames

What a client makes of the frames that the server sends: `readServerFrame` is a strict reader
of unmasked frames as section 5.2 has them, with the size in its minimal form.  It gets the
messages back that the sessions write, except for one size (`readAll_textFrames`).
-/

namespace Splice

open Radix (ofBE)
open StreamReader

/-- FIN and opcode of a first byte. -/
def ofHeadCode (head : UInt8) : Option (Bool × OperationCode) :=
  [OperationCode.continuationFrame, .textFrame, .binaryFrame, .connectionClose, .ping, .pong]
    |>.findSome? fun opcode =>
      if head = DataFrame.headCode true opcode then some (true, opcode)
      else if head = DataFrame.headCode false opcode then some (false, opcode)
      else none

/-- An extended length, which has to be needed. -/
def readExtended (width least : Nat) : Reader UInt8 Nat := do
  let field ← take width
  liftM (if least ≤ ofBE field ∧ ofBE field < 2 ^ 63 then some (ofBE field) else none)

/-- The size of the payload. -/
def readSize : Reader UInt8 Nat := do
  let len ← one
  if len < 126 then return len.toNat
  else if len = 126 then readExtended 2 126
  else if len = 127 then readExtended 8 65536
  else liftM (none : Option Nat)

/-- FIN, opcode and payload of the next frame. -/
def readServerFrame : Reader UInt8 (Bool × OperationCode × List UInt8) := do
  let head ← one
  let (fin, opcode) ← liftM (ofHeadCode head)
  let size ← readSize
  let payload ← take size
  return (fin, opcode, payload)

theorem ofHeadCode_headCode (fin : Bool) {opcode : OperationCode} (h : opcode ≠ .reserved) :
    ofHeadCode (DataFrame.headCode fin opcode) = some (fin, opcode) := by
  cases fin <;> cases opcode <;> first | exact absurd rfl h | decide

/-- An extended length in its minimal form is read back. -/
theorem reads_readExtended {width least n : Nat} (hleast : least ≤ n) (hlt : n < 2 ^ 63)
    (hfits : n < 256 ^ width) : Reads (readExtended width least) n (Radix.toBE width n) := by
  have hvalue : ofBE (Radix.toBE width n) = n := Radix.ofBE_toBE hfits
  have htake : Reads (take width) (Radix.toBE width n) (Radix.toBE width n) := by
    simpa using reads_take (Radix.toBE width n)
  have hlift : Reads (readExtended width least) n (Radix.toBE width n ++ []) :=
    htake.bind (reads_lift (by rw [hvalue, if_pos ⟨hleast, hlt⟩]))
  rwa [List.append_nil] at hlift

/-- A length in its minimal form is read back. -/
theorem reads_readSize {n : Nat} (h : n < 2 ^ 63) :
    Reads readSize n ((LengthForm.minimal n).lengthByte false n ::
      (LengthForm.minimal n).extended n) := by
  refine (reads_one _).bind ?_
  have hbyte := LengthForm.toNat_lengthByte (LengthForm.holds_minimal (by omega : n < 2 ^ 64)) false
  unfold LengthForm.minimal at hbyte ⊢
  by_cases h7 : n ≤ 125
  · rw [if_pos h7] at hbyte ⊢
    have hlen : (LengthForm.len7.lengthByte false n).toNat = n := hbyte.trans (Nat.zero_add n)
    have hlt : LengthForm.len7.lengthByte false n < 126 := by
      rw [UInt8.lt_iff_toNat_lt, hlen]
      exact Nat.lt_succ_of_le h7
    rw [if_pos hlt, hlen]
    exact reads_pure n
  · rw [if_neg h7] at hbyte ⊢
    by_cases h16 : n ≤ 65535
    · rw [if_pos h16] at hbyte ⊢
      have hlen : LengthForm.len16.lengthByte false n = 126 := UInt8.toNat_inj.mp hbyte
      rw [hlen, if_neg (by decide), if_pos rfl]
      exact reads_readExtended (by omega) h (by omega)
    · rw [if_neg h16] at hbyte ⊢
      have hlen : LengthForm.len64.lengthByte false n = 127 := UInt8.toNat_inj.mp hbyte
      rw [hlen, if_neg (by decide), if_neg (by decide), if_pos rfl]
      exact reads_readExtended (by omega) h (by omega)

/-- **A frame is read back whatever follows it.** -/
theorem reads_serverFrame (fin : Bool) {opcode : OperationCode} (hopcode : opcode ≠ .reserved)
    {payload : List UInt8} (hsize : payload.length < 2 ^ 63) :
    Reads readServerFrame (fin, opcode, payload) (serverFrame fin opcode payload) := by
  let form := LengthForm.minimal payload.length
  have hbytes : serverFrame fin opcode payload = [DataFrame.headCode fin opcode] ++
      (form.lengthByte false payload.length :: form.extended payload.length ++
        (payload ++ [])) := by
    simp [serverFrame, DataFrame.headCode, form]
  rw [hbytes]
  refine (reads_one _).bind (Reads.lift_bind (ofHeadCode_headCode fin hopcode) ?_)
  exact (reads_readSize hsize).bind ((reads_take payload).bind (reads_pure _))

theorem stable_readExtended (width least : Nat) : Stable (readExtended width least) :=
  (stable_take width).bind fun _ => stable_lift _

/-- More bytes behind a length do not change what is read of it. -/
theorem stable_readSize : Stable readSize := by
  refine stable_one.bind fun len => ?_
  split_ifs
  · exact stable_pure _
  · exact stable_readExtended 2 126
  · exact stable_readExtended 8 65536
  · exact stable_lift none

/-- More bytes behind a frame do not change what is read of it. -/
theorem stable_readServerFrame : Stable readServerFrame :=
  stable_one.bind fun _ => (stable_lift _).bind fun _ =>
    stable_readSize.bind fun size => (stable_take size).bind fun _ => stable_pure _

/-! ## The messages of the sessions -/

/-- A message in a new text frame. -/
def textFrame (msg : List UInt8) : List UInt8 := 0x81 :: DataFrame.lengthBytes msg.length ++ msg

/-- What the new frame's masking key holds does not matter. -/
theorem flatten_ofString (host : Endian) (junk : MaskingKey) (msg : List UInt8) :
    ((DataFrame.ofString junk msg).toBuffers host).1.flatten = textFrame msg := by
  have hhead : DataFrame.headByte (DataFrame.ofString junk msg) = 0x81 := by
    show ((0 ||| 0x80 : Int8) ||| 0x1).toUInt8 = 0x81
    decide
  have hencode := DataFrame.encode_eq host (DataFrame.ofString junk msg)
  rw [hhead] at hencode
  exact hencode

/-- The sizes that the encoder gets right and that a frame may have. -/
def Sendable (msg : List UInt8) : Prop := msg.length ≠ 65536 ∧ msg.length < 2 ^ 63

instance (msg : List UInt8) : Decidable (Sendable msg) :=
  inferInstanceAs (Decidable (_ ∧ _))

/-- **A text frame is read back** with its message. -/
theorem reads_textFrame {msg : List UInt8} (h : Sendable msg) :
    Reads readServerFrame (true, .textFrame, msg) (textFrame msg) := by
  have hframe : textFrame msg = serverFrame true .textFrame msg := by
    have hlt : msg.length < 2 ^ 64 := Nat.lt_trans h.2 (by decide)
    rw [textFrame, DataFrame.lengthBytes_eq hlt h.1]
    rfl
  rw [hframe]
  exact reads_serverFrame true (by decide) h.2

/-- **A client that has received a part of the messages' frames gets as many of them as are
whole**, and all of them when it has received all. -/
theorem readAll_textFrames {msgs : List (List UInt8)} {wire : List UInt8}
    (hsize : ∀ msg ∈ msgs, Sendable msg) (hwire : wire <+: msgs.flatMap textFrame) :
    (readAll readServerFrame wire).1 <+: msgs.map (fun msg => (true, .textFrame, msg)) ∧
      (wire = msgs.flatMap textFrame →
        (readAll readServerFrame wire).1 = msgs.map fun msg => (true, .textFrame, msg)) :=
  readAll_of_prefix (fun msg hmsg => reads_textFrame (hsize msg hmsg))
    (fun _ _ => List.cons_ne_nil _ _) stable_readServerFrame rfl hwire

end Splice
