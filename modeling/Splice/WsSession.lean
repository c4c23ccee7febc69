import Splice.CommonTypes
import Splice.FrameOverlap

/-!
# Splice.WsSession

An established `ws_session`: what `on_read_dataframe` does with each read of the
socket, and which messages reach `on_read` over a run.

Two things of the source decide the result.  `read_frame` is a local variable, so
a frame begun in one read is continued in the next one on a new object, of which
only the parser's state survives; and the position that `parse` returns is ignored,
so what a read holds behind the end of a frame is gone.
-/

namespace Splice

open Incremental (Tribool parse_invariant parse_stuck)
open DataFrameParser

/-- `boost::lexical_cast<std::string>` of an operation code. -/
def OperationCode.toString : OperationCode → String
  | .continuationFrame => "continuation_frame"
  | .textFrame => "text_frame"
  | .binaryFrame => "binary_frame"
  | .connectionClose => "connection_close"
  | .ping => "ping"
  | .pong => "pong"
  | .reserved => "? 6"

namespace WsSession

/-- What a handler calls, in order.  `asyncReadSome` is the next read of the socket,
with the parser bound to its handler. -/
inductive Call where
  | onRead (msg : List UInt8)
  | onError (msg : String)
  | onErrorCode (error : ErrorCode)
  | asyncReadSome (parser : State)
  deriving DecidableEq, Repr

def onHandshakeSuccess : List Call := [.asyncReadSome .finOpcode]

def onReadDataFrame (readFrame : DataFrame) : List Call :=
  match readFrame.opcode with
  | .textFrame => [.onRead readFrame.payload, .asyncReadSome .finOpcode]
  | .pong | .ping => [.asyncReadSome .finOpcode]
  | .continuationFrame | .binaryFrame | .connectionClose | .reserved =>
      [.onError ("invalid opcode:" ++ readFrame.opcode.toString)]

/-- The `switch` on the result of `parse`. -/
def onParsed : Tribool × (State × DataFrame) × List UInt8 → List Call
  | (.false, _, _) => [.onError ""]
  | (.indeterminate, (frameParser, _), _) => [.asyncReadSome frameParser]
  | (.true, (_, readFrame), _) => onReadDataFrame readFrame

/-- `on_read_dataframe`, called with the `bytes_transferred` bytes of the buffer;
`junk` is what `masking_key_` of the local `read_frame` happens to hold. -/
def onReadDataframe (host : Endian) (junk : MaskingKey) (frameParser : State) (error : ErrorCode)
    (incoming : List UInt8) : List Call :=
  if error ≠ 0 then [.onErrorCode error]
  else onParsed (parse host frameParser (.new junk) incoming)

/-- The parser of the read that is outstanding after some calls. -/
def outstanding : List Call → Option State
  | [] => none
  | .asyncReadSome frameParser :: _ => some frameParser
  | _ :: calls => outstanding calls

/-- The calls made while the socket completes one read after the other. -/
def runReads (host : Endian) (junk : Nat → MaskingKey) :
    Option State → List (List UInt8) → List Call
  | some frameParser, incoming :: reads =>
      let calls := onReadDataframe host (junk 0) frameParser 0 incoming
      calls ++ runReads host (fun i => junk (i + 1)) (outstanding calls) reads
  | _, _ => []

/-- A session from `on_handshake_success` on. -/
def run (host : Endian) (junk : Nat → MaskingKey) (reads : List (List UInt8)) : List Call :=
  onHandshakeSuccess ++ runReads host junk (outstanding onHandshakeSuccess) reads

/-- The messages that reached `on_read`. -/
def delivered (calls : List Call) : List (List UInt8) :=
  calls.filterMap fun
    | .onRead msg => some msg
    | _ => none

/-- Whatever is in the uninitialised members of the frame objects, `on_read` is called
once for each frame, in order, with the frame's payload. -/
def Delivers (host : Endian) (frames : List ClientFrame) (reads : List (List UInt8)) : Prop :=
  ∀ junk, delivered (run host junk reads) = frames.map ClientFrame.payload

/-- How frames have to arrive: each in one read of its own, or in two of which the
first holds its first byte; and with a size that the host reads right. -/
inductive Arrives (host : Endian) : List ClientFrame → List (List UInt8) → Prop
  | nil : Arrives host [] []
  | whole {frame frames reads} : frame.Readable host → Arrives host frames reads →
      Arrives host (frame :: frames) (frame.bytes :: reads)
  | afterHead {frame frames reads} : frame.Readable host → Arrives host frames reads →
      Arrives host (frame :: frames) ([frame.head] :: frame.tail :: reads)

/-! ## One read -/

/-- The messages delivered from a read on. -/
def deliveredFrom (host : Endian) (junk : Nat → MaskingKey) (frameParser : State)
    (reads : List (List UInt8)) : List (List UInt8) :=
  delivered (runReads host junk (some frameParser) reads)

/-- The messages delivered once a read has been parsed. -/
def deliveredAfter (host : Endian) (junk : Nat → MaskingKey) (reads : List (List UInt8)) :
    Tribool × (State × DataFrame) × List UInt8 → List (List UInt8)
  | (.false, _, _) => []
  | (.indeterminate, (frameParser, _), _) => deliveredFrom host junk frameParser reads
  | (.true, (_, readFrame), _) =>
      match readFrame.opcode with
      | .textFrame => readFrame.payload :: deliveredFrom host junk .finOpcode reads
      | .pong | .ping => deliveredFrom host junk .finOpcode reads
      | .continuationFrame | .binaryFrame | .connectionClose | .reserved => []

variable {host : Endian}

theorem runReads_none (junk : Nat → MaskingKey) (reads : List (List UInt8)) :
    runReads host junk none reads = [] := by
  cases reads <;> rfl

@[simp] theorem deliveredFrom_nil (junk : Nat → MaskingKey) (frameParser : State) :
    deliveredFrom host junk frameParser [] = [] := rfl

/-- The first read is parsed, and the others from where that leads. -/
theorem deliveredFrom_cons (junk : Nat → MaskingKey) (frameParser : State)
    (incoming : List UInt8) (reads : List (List UInt8)) :
    deliveredFrom host junk frameParser (incoming :: reads) =
      deliveredAfter host (fun i => junk (i + 1)) reads
        (parse host frameParser (.new (junk 0)) incoming) := by
  simp only [deliveredFrom, runReads, onReadDataframe, ne_eq, not_true_eq_false, if_false]
  obtain ⟨r, ⟨state, out⟩, rest⟩ := parse host frameParser (.new (junk 0)) incoming
  cases r with
  | false => simp [onParsed, deliveredAfter, delivered, outstanding, runReads_none]
  | indeterminate => simp [onParsed, deliveredAfter, delivered, outstanding, deliveredFrom]
  | true =>
      cases hop : out.opcode <;>
        simp [onParsed, onReadDataFrame, deliveredAfter, delivered, outstanding, deliveredFrom,
          runReads_none, hop]

/-- A run delivers from its first read what the memory of that read and the memory of
the later ones lead to. -/
theorem forall_deliveredFrom_cons {frameParser : State} {incoming : List UInt8}
    {reads msgs : List (List UInt8)} :
    (∀ junk, deliveredFrom host junk frameParser (incoming :: reads) = msgs) ↔
      ∀ key junk, deliveredAfter host junk reads
        (parse host frameParser (.new key) incoming) = msgs := by
  constructor
  · intro h key junk
    have hcons := h fun
      | 0 => key
      | i + 1 => junk i
    rwa [deliveredFrom_cons] at hcons
  · intro h junk
    rw [deliveredFrom_cons]
    exact h _ _

/-! ## Reads that end inside a frame -/

/-- Behind the length come the key and the payload. -/
theorem afterLength_past (frame : DataFrame) :
    afterLength frame ≠ .finOpcode ∧ afterLength frame ≠ .maskPayloadLen := by
  rw [afterLength]
  split <;> decide

/-- Past the length byte with a frame object that has not seen it: `payload_len_` is
zero, and no payload is ever as long as that. -/
def Stuck (s : State × DataFrame) : Prop :=
  s.1 ≠ .finOpcode ∧ s.1 ≠ .maskPayloadLen ∧ s.2.payloadLen = 0

/-- A parser that is stuck asks for more, whatever it is given. -/
theorem consume_stuck (host : Endian) (s : State × DataFrame) (input : UInt8) (h : Stuck s) :
    (consume host s input).1 = .indeterminate ∧ Stuck (consume host s input).2 := by
  obtain ⟨state, frame⟩ := s
  obtain ⟨hfin, hmask, hlen⟩ := h
  have h126 : ((0 : Int8) == 126) = false := by decide
  have h127 : ((0 : Int8) == 127) = false := by decide
  have hzero : (0 : Int8).toInt64.toUInt64.toNat = 0 := by decide
  replace hlen : frame.payloadLen = 0 := hlen
  cases state <;> simp_all [consume, Stuck, orExtended, afterLength_past, declaredSize]

/-- The session waits for ever. -/
theorem deliveredFrom_of_stuck {frameParser : State} (hfin : frameParser ≠ .finOpcode)
    (hmask : frameParser ≠ .maskPayloadLen) (junk : Nat → MaskingKey)
    (reads : List (List UInt8)) : deliveredFrom host junk frameParser reads = [] := by
  induction reads generalizing frameParser junk with
  | nil => rfl
  | cons incoming reads ih =>
      have hstuck : Stuck (frameParser, .new (junk 0)) := ⟨hfin, hmask, rfl⟩
      obtain ⟨⟨state, frame⟩, hparse, hstate⟩ := parse_stuck (consume_stuck host) hstuck incoming
      rw [deliveredFrom_cons, parse, hparse]
      exact ih hstate.1 hstate.2.1 _

/-- A parser that has read the length byte does not come back to it. -/
theorem consume_past (host : Endian) (s : State × DataFrame) (input : UInt8)
    (h : s.1 ≠ .finOpcode ∧ s.1 ≠ .maskPayloadLen) :
    (consume host s input).2.1 ≠ .finOpcode ∧ (consume host s input).2.1 ≠ .maskPayloadLen := by
  obtain ⟨state, frame⟩ := s
  cases state <;> simp_all [consume, afterLength_past] <;> split_ifs <;> simp [afterLength_past]

/-- Reads that end inside a frame, its length byte read, deliver nothing more. -/
theorem deliveredAfter_indeterminate {into : DataFrame} {incoming : List UInt8}
    (hne : incoming ≠ [])
    (h : (parse host .maskPayloadLen into incoming).1 = .indeterminate)
    (junk : Nat → MaskingKey) (reads : List (List UInt8)) :
    deliveredAfter host junk reads
      (parse host .maskPayloadLen into incoming) = [] := by
  obtain ⟨len, tail, rfl⟩ := List.exists_cons_of_ne_nil hne
  obtain ⟨state, hstate, hparse⟩ : ∃ state, (state ≠ .finOpcode ∧ state ≠ .maskPayloadLen) ∧
      parse host .maskPayloadLen into (len :: tail) =
        parse host state (withLen into len) tail := by
    rw [parse_maskPayloadLen] at h ⊢
    split_ifs at h ⊢ with hz he
    · exact ⟨.extendedPayloadLen1, by decide, rfl⟩
    · exact ⟨_, afterLength_past _, rfl⟩
  have hpast : (parse host state (withLen into len) tail).2.1.1 ≠ .finOpcode ∧
      (parse host state (withLen into len) tail).2.1.1 ≠ .maskPayloadLen :=
    parse_invariant
      (P := fun s : State × DataFrame => s.1 ≠ .finOpcode ∧ s.1 ≠ .maskPayloadLen)
      (consume_past host) hstate tail
  rw [hparse] at h ⊢
  cases hres : parse host state (withLen into len) tail with
  | mk r p =>
      rw [hres] at h hpast
      rw [show r = .indeterminate from h]
      exact deliveredFrom_of_stuck hpast.1 hpast.2 junk reads

/-! ## Reads that complete a frame -/

/-- A payload that does not depend on the memory is masked on the wire. -/
theorem topBit_of_unmask {body : FrameBody host} {msg : List UInt8} (hdata : body.data ≠ [])
    (h : ∀ junk, unmask (usedKey junk body.key) 0 body.data = msg) : topBit body.len = true := by
  by_contra hmask
  have hnokey : body.key = [] := by
    apply List.length_eq_zero_iff.mp
    rw [body.length_key, keyLength, if_neg (by simp [hmask])]
  rw [hnokey] at h
  exact hdata (eq_nil_of_unmask h)

/-- A text that is delivered, whatever is in the memory, is masked and as long as its
frame says. -/
theorem text_of_delivered {into : MaskingKey → DataFrame}
    (hkey : ∀ key, (into key).maskingKey = key) (htext : ∀ key, (into key).opcode = .textFrame)
    {body : FrameBody host} {state : State} {rest msg : List UInt8}
    {reads msgs : List (List UInt8)} (hmsg : msg ≠ [])
    (hall : ∀ key, ∃ out, body.Read (into key) out ∧ ∀ junk,
      deliveredAfter host junk reads (.true, (state, out), rest) = msg :: msgs) :
    topBit body.len = true ∧ body.data ≠ [] ∧ body.data.length = msg.length ∧
      ∀ junk, deliveredFrom host junk .finOpcode reads = msgs := by
  have hdeliver : ∀ key, unmask (usedKey key body.key) 0 body.data = msg ∧
      ∀ junk, deliveredFrom host junk .finOpcode reads = msgs := by
    intro key
    obtain ⟨out, hread, hout⟩ := hall key
    have hop : out.opcode = .textFrame := by rw [hread.opcode, htext]
    simp only [deliveredAfter, hop, List.cons.injEq] at hout
    refine ⟨?_, fun junk => (hout junk).2⟩
    rw [← (hout fun _ => key).1, hread.payload, hkey]
  have hlen : body.data.length = msg.length := by
    rw [← (hdeliver #v[0, 0, 0, 0]).1, length_unmask]
  have hdata : body.data ≠ [] := by
    intro hnil
    rw [hnil] at hlen
    exact hmsg (List.length_eq_zero_iff.mp hlen.symm)
  exact ⟨topBit_of_unmask hdata fun key => (hdeliver key).1, hdata, hlen,
    (hdeliver #v[0, 0, 0, 0]).2⟩

/-- What a read does that leads to the message `msg`, whatever is in the memory: the
bytes from the length byte on are a masked frame body with the message in it, or a
ping or pong after which the message is still to come. -/
theorem exists_body_of_delivered {into : MaskingKey → DataFrame}
    (hpayload : ∀ key, (into key).payload = []) (hkey : ∀ key, (into key).maskingKey = key)
    {opcode : OperationCode} (hopcode : ∀ key, (into key).opcode = opcode)
    {incoming msg : List UInt8} {reads msgs : List (List UInt8)} (hne : incoming ≠ [])
    (hmsg : msg ≠ [])
    (h : ∀ key junk, deliveredAfter host junk reads
      (parse host .maskPayloadLen (into key) incoming) = msg :: msgs) :
    ∃ (body : FrameBody host) (rest : List UInt8), incoming = body.bytes ++ rest ∧
      ((opcode = .textFrame ∧ topBit body.len = true ∧ body.data ≠ [] ∧
          body.data.length = msg.length ∧
          ∀ junk, deliveredFrom host junk .finOpcode reads = msgs) ∨
        (opcode ≠ .textFrame ∧
          ∀ junk, deliveredFrom host junk .finOpcode reads = msg :: msgs)) := by
  have hzero := h #v[0, 0, 0, 0]
  cases hparse : parse host .maskPayloadLen (into #v[0, 0, 0, 0]) incoming with
  | mk r p =>
      obtain ⟨⟨state, out⟩, rest⟩ := p
      cases r with
      | false =>
          have hnone := hzero fun _ => #v[0, 0, 0, 0]
          rw [hparse] at hnone
          exact absurd hnone (by simp [deliveredAfter])
      | indeterminate =>
          have hnone := hzero fun _ => #v[0, 0, 0, 0]
          rw [deliveredAfter_indeterminate hne (by rw [hparse])] at hnone
          exact absurd hnone (by simp)
      | true =>
          obtain ⟨body, rfl, -⟩ := exists_read_of_parse (hpayload _) hparse
          -- the same body is read whatever the memory holds
          have hall : ∀ key, ∃ out, body.Read (into key) out ∧ ∀ junk,
              deliveredAfter host junk reads (.true, (state, out), rest) = msg :: msgs := by
            intro key
            obtain ⟨state', out, hread, hout⟩ := parse_body body (hpayload key) rest
            refine ⟨out, hout, fun junk => ?_⟩
            have hjunk := h key junk
            rwa [hread] at hjunk
          refine ⟨body, rest, rfl, ?_⟩
          by_cases htext : opcode = .textFrame
          · have hop : ∀ key, (into key).opcode = .textFrame := fun key =>
              (hopcode key).trans htext
            exact .inl ⟨htext, text_of_delivered hkey hop hmsg hall⟩
          · obtain ⟨out, hread, hout⟩ := hall #v[0, 0, 0, 0]
            refine .inr ⟨htext, fun junk => ?_⟩
            have hjunk := hout junk
            have hop : out.opcode = opcode := by rw [hread.opcode, hopcode]
            cases hcase : opcode <;> simp_all [deliveredAfter]

/-- A session that is behind with its reads is still behind after a read: `gap` is the
part of the frames to deliver that has been thrown away. -/
theorem exists_gap_of_delivered (into : MaskingKey → DataFrame) {opcode : OperationCode}
    {frames : List ClientFrame} {gap tail : List UInt8} {b : UInt8} {reads : List (List UInt8)}
    (hpayload : ∀ key, (into key).payload = []) (hkey : ∀ key, (into key).maskingKey = key)
    (hopcode : ∀ key, (into key).opcode = opcode)
    (hframes : ∀ frame ∈ frames, frame.payload ≠ []) (hne : frames ≠ []) (hgap : gap ≠ [])
    (htail : tail ≠ [])
    (hbytes : frames.flatMap ClientFrame.bytes = gap ++ b :: (tail ++ reads.flatten))
    (hdeliver : ∀ key junk, deliveredAfter host junk reads
      (parse host .maskPayloadLen (into key) tail) = frames.map ClientFrame.payload) :
    ∃ gap' later, gap' ≠ [] ∧ later ≠ [] ∧ (∀ frame ∈ later, frame.payload ≠ []) ∧
      later.flatMap ClientFrame.bytes = gap' ++ reads.flatten ∧
      ∀ junk, deliveredFrom host junk .finOpcode reads = later.map ClientFrame.payload := by
  obtain ⟨frame, frames, rfl⟩ := List.exists_cons_of_ne_nil hne
  obtain ⟨hmsg, hmsgs⟩ := List.forall_mem_cons.mp hframes
  obtain ⟨body, rest, rfl, ⟨-, hmask, hdata, hlen, hlater⟩ | ⟨-, hlater⟩⟩ :=
    exists_body_of_delivered hpayload hkey hopcode htail hmsg hdeliver
  · have hstream : gap ++ b :: body.bytes ++ (rest ++ reads.flatten) =
        frame.bytes ++ frames.flatMap ClientFrame.bytes := by
      rw [← List.flatMap_cons, hbytes]
      simp
    obtain ⟨gap', hgap', hgapeq⟩ := body.body_ends_behind hgap hmask hdata hlen hstream
    have hlaterne : frames ≠ [] := by
      rintro rfl
      exact hgap' (List.append_eq_nil_iff.mp hgapeq.symm).1
    exact ⟨gap' ++ rest, frames, by simp [hgap'], hlaterne, hmsgs, by rw [hgapeq]; simp, hlater⟩
  · exact ⟨gap ++ b :: body.bytes ++ rest, frame :: frames, by simp, hne, hframes,
      by rw [hbytes]; simp, hlater⟩

/-- A session that is behind never delivers all frames; `b` is a first byte that has been
read. -/
theorem eq_nil_of_behind {reads : List (List UInt8)} (hreads : ∀ incoming ∈ reads, incoming ≠ [])
    {frames : List ClientFrame} (hframes : ∀ frame ∈ frames, frame.payload ≠ [])
    {gap : List UInt8} (hgap : gap ≠ []) :
    (frames.flatMap ClientFrame.bytes = gap ++ reads.flatten →
      (∀ junk, deliveredFrom host junk .finOpcode reads = frames.map ClientFrame.payload) →
        frames = []) ∧
    (∀ b, frames.flatMap ClientFrame.bytes = gap ++ b :: reads.flatten →
      (∀ junk, deliveredFrom host junk .maskPayloadLen reads =
        frames.map ClientFrame.payload) → frames = []) := by
  induction reads generalizing frames gap with
  | nil =>
      refine ⟨fun _ h => ?_, fun _ _ h => ?_⟩ <;>
        exact List.map_eq_nil_iff.mp (h fun _ => #v[0, 0, 0, 0]).symm
  | cons incoming reads ih =>
      obtain ⟨hne, hrest⟩ := List.forall_mem_cons.mp hreads
      constructor
      · intro hbytes hdeliver
        obtain ⟨b, tail, rfl⟩ := List.exists_cons_of_ne_nil hne
        rw [forall_deliveredFrom_cons] at hdeliver
        simp only [parse_finOpcode] at hdeliver
        by_cases htail : tail = []
        · subst htail
          exact (ih hrest hframes hgap).2 b (by simpa using hbytes) fun junk =>
            hdeliver #v[0, 0, 0, 0] junk
        · by_contra hframesne
          obtain ⟨gap', later, hgap', hlaterne, hlater, hbytes', hdeliver'⟩ :=
            exists_gap_of_delivered (fun key => withHead (.new key) b) (fun _ => rfl)
              (fun _ => rfl) (fun _ => rfl) hframes hframesne hgap htail hbytes hdeliver
          exact hlaterne ((ih hrest hlater hgap').1 hbytes' hdeliver')
      · intro b hbytes hdeliver
        rw [forall_deliveredFrom_cons] at hdeliver
        by_contra hframesne
        obtain ⟨gap', later, hgap', hlaterne, hlater, hbytes', hdeliver'⟩ :=
          exists_gap_of_delivered .new (fun _ => rfl) (fun _ => rfl) (fun _ => rfl) hframes
            hframesne hgap hne hbytes hdeliver
        exact hlaterne ((ih hrest hlater hgap').1 hbytes' hdeliver')

/-! ## Runs -/

/-- What is delivered, by the reads alone. -/
theorem delivers_iff_deliveredFrom {frames : List ClientFrame} {reads : List (List UInt8)} :
    Delivers host frames reads ↔
      ∀ junk, deliveredFrom host junk .finOpcode reads = frames.map ClientFrame.payload :=
  Iff.rfl

/-- Frames that arrive one by one are delivered one by one; without a payload, if they are in
the 7-bit form. -/
theorem delivers_of_arrives {frames : List ClientFrame} {reads : List (List UInt8)}
    (htext : ∀ frame ∈ frames, frame.opcode = 1 ∧ (frame.payload = [] → frame.form = .len7))
    (h : Arrives host frames reads) : Delivers host frames reads := by
  induction h with
  | nil => intro junk; rfl
  | @whole frame frames reads hread _ ih =>
      obtain ⟨⟨hop, hform⟩, hrest⟩ := List.forall_mem_cons.mp htext
      rw [delivers_iff_deliveredFrom, forall_deliveredFrom_cons]
      intro key junk
      obtain ⟨state, out, rest, hparse, hopcode, hpayload⟩ :=
        ClientFrame.parse_tail_alone hform hread (withHead (.new key) frame.head) rfl
      have htextFrame : out.opcode = .textFrame := by
        rw [hopcode, withHead, frame.head_eq.2, hop]
        rfl
      rw [ClientFrame.bytes, parse_finOpcode, hparse, deliveredAfter, htextFrame, List.map_cons,
        ← ih hrest junk, ← hpayload]
      rfl
  | @afterHead frame frames reads hread _ ih =>
      obtain ⟨⟨hop, hform⟩, hrest⟩ := List.forall_mem_cons.mp htext
      rw [delivers_iff_deliveredFrom, forall_deliveredFrom_cons]
      intro key
      rw [← List.append_nil [frame.head], List.singleton_append]
      simp only [parse_finOpcode, parse_nil, deliveredAfter]
      rw [forall_deliveredFrom_cons]
      intro key' junk
      obtain ⟨state, out, rest, hparse, hopcode, hpayload⟩ :=
        ClientFrame.parse_tail_alone hform hread (.new key') rfl
      rw [hparse, deliveredAfter, hopcode, List.map_cons, ← ih hrest junk, ← hpayload]
      rfl

/-- A frame delivered from its own length byte on has been read to its last byte. -/
theorem eq_tail_of_body {frame : ClientFrame} {body : FrameBody host} {rest past : List UInt8}
    (hmask : topBit body.len = true) (hdata : body.data ≠ [])
    (hlen : body.data.length = frame.payload.length)
    (h : body.bytes ++ rest = frame.tail ++ past) :
    frame.Readable host ∧ body.bytes = frame.tail ∧ rest = past := by
  have hext : frame.ext.length = extLength frame.len := by
    rw [ClientFrame.extLength_len, ClientFrame.ext, LengthForm.length_extended]
  have htail : body.bytes ++ rest =
      frame.len :: frame.ext ++ (frame.maskingKey.toList ++ frame.masked ++ past) := by
    rw [h, ClientFrame.tail]
    simp
  obtain ⟨hleneq, hexteq, -⟩ := body.eq_of_bytes_append hext htail
  have hsize : body.bytes.length = frame.tail.length := by
    rw [body.length_bytes, ← body.length_key, body.length_key_of_topBit hmask hdata, hlen, hleneq,
      frame.length_tail, ClientFrame.extLength_len]
    omega
  obtain ⟨hbytes, hpast⟩ := List.append_inj h hsize
  exact ⟨by rw [ClientFrame.Readable, ← hleneq, ← hexteq, ← body.length_data, hlen], hbytes, hpast⟩

/-- A read that delivers a frame from its length byte on ends where the frame ends. -/
theorem eq_tail_of_delivered {frame : ClientFrame} {frames : List ClientFrame}
    {tail : List UInt8} {reads : List (List UInt8)} {into : MaskingKey → DataFrame}
    (hpayload : ∀ key, (into key).payload = []) (hkey : ∀ key, (into key).maskingKey = key)
    (hopcode : ∀ key, (into key).opcode = .textFrame)
    (hmsgs : ∀ f ∈ frame :: frames, f.payload ≠ []) (htail : tail ≠ [])
    (hreads : ∀ incoming ∈ reads, incoming ≠ [])
    (hbytes : tail ++ reads.flatten = frame.tail ++ frames.flatMap ClientFrame.bytes)
    (h : ∀ key junk, deliveredAfter host junk reads
      (parse host .maskPayloadLen (into key) tail) =
        (frame :: frames).map ClientFrame.payload) :
    frame.Readable host ∧ tail = frame.tail ∧
      reads.flatten = frames.flatMap ClientFrame.bytes ∧ Delivers host frames reads := by
  obtain ⟨hmsg, hmsgs⟩ := List.forall_mem_cons.mp hmsgs
  obtain ⟨body, rest, rfl, ⟨-, hmask, hdata, hlen, hrest⟩ | ⟨hother, -⟩⟩ :=
    exists_body_of_delivered hpayload hkey hopcode htail hmsg h
  · rw [List.append_assoc] at hbytes
    obtain ⟨hread, hbody, hgap⟩ := eq_tail_of_body hmask hdata hlen hbytes
    have hnil : rest = [] := by
      by_contra hrestne
      have hnone := (eq_nil_of_behind hreads hmsgs hrestne).1 hgap.symm hrest
      rw [hnone] at hgap
      exact hrestne (List.append_eq_nil_iff.mp hgap).1
    rw [hnil, List.nil_append] at hgap
    exact ⟨hread, by rw [hnil, hbody, List.append_nil], hgap, hrest⟩
  · exact absurd rfl hother

/-- **Which arrivals are delivered**: for text frames with a payload, and any way of
cutting their bytes into reads, `on_read` gets the payloads of the frames in order,
each once, exactly if every frame has arrived in a read of its own or in two cut
behind its first byte (and has a size that the host reads right). -/
theorem delivers_iff_arrives (host : Endian) (frames : List ClientFrame)
    (reads : List (List UInt8))
    (htext : ∀ frame ∈ frames, frame.opcode = 1 ∧ frame.payload ≠ [])
    (hreads : ∀ incoming ∈ reads, incoming ≠ [])
    (hcut : reads.flatten = frames.flatMap ClientFrame.bytes) :
    Delivers host frames reads ↔ Arrives host frames reads := by
  refine ⟨?_, delivers_of_arrives fun frame hmem =>
    ⟨(htext frame hmem).1, fun hnil => absurd hnil (htext frame hmem).2⟩⟩
  induction frames generalizing reads with
  | nil =>
      intro _
      cases reads with
      | nil => exact .nil
      | cons incoming reads =>
          have hnil : incoming ++ reads.flatten = [] := hcut
          exact absurd (List.append_eq_nil_iff.mp hnil).1 (hreads incoming (by simp))
  | cons frame frames ih =>
      intro hdeliver
      obtain ⟨⟨hop, -⟩, hlater⟩ := List.forall_mem_cons.mp htext
      have hmsgs : ∀ f ∈ frame :: frames, f.payload ≠ [] := fun f hf => (htext f hf).2
      rw [delivers_iff_deliveredFrom] at hdeliver
      cases reads with
      | nil => exact absurd (hdeliver fun _ => #v[0, 0, 0, 0]) (by simp)
      | cons incoming reads =>
          obtain ⟨hne, hnes⟩ := List.forall_mem_cons.mp hreads
          obtain ⟨b, tail, rfl⟩ := List.exists_cons_of_ne_nil hne
          rw [List.flatten_cons, List.flatMap_cons, ClientFrame.bytes, List.cons_append,
            List.cons_append, List.cons.injEq] at hcut
          obtain ⟨rfl, hcut⟩ := hcut
          rw [forall_deliveredFrom_cons] at hdeliver
          simp only [parse_finOpcode] at hdeliver
          by_cases htail : tail = []
          · subst htail
            have hwait := hdeliver #v[0, 0, 0, 0]
            simp only [parse_nil, deliveredAfter] at hwait
            cases reads with
            | nil => exact absurd (hwait fun _ => #v[0, 0, 0, 0]) (by simp)
            | cons incoming reads =>
                obtain ⟨hne', hnes'⟩ := List.forall_mem_cons.mp hnes
                rw [forall_deliveredFrom_cons] at hwait
                obtain ⟨hread, rfl, hflat, hrest⟩ := eq_tail_of_delivered (fun _ => rfl)
                  (fun _ => rfl) (fun _ => rfl) hmsgs hne' hnes' (by simpa using hcut) hwait
                exact .afterHead hread (ih reads hlater hnes' hflat hrest)
          · obtain ⟨-, hnibble⟩ := frame.head_eq
            obtain ⟨hread, rfl, hflat, hrest⟩ := eq_tail_of_delivered (fun _ => rfl)
              (fun _ => rfl) (fun _ => by rw [withHead, hnibble, hop]; rfl) hmsgs htail hnes
              hcut hdeliver
            exact .whole hread (ih reads hlater hnes hflat hrest)

/-- A text frame in two reads, cut behind its first byte. -/
theorem delivers_iff_arrives_hi :
    Delivers .little [⟨true, 1, .len7, #v[0, 0, 0, 0], [0x48, 0x69], by decide⟩]
        [[0x81], [0x82, 0, 0, 0, 0, 0x48, 0x69]] ↔
      Arrives .little [⟨true, 1, .len7, #v[0, 0, 0, 0], [0x48, 0x69], by decide⟩]
        [[0x81], [0x82, 0, 0, 0, 0, 0x48, 0x69]] :=
  delivers_iff_arrives .little _ _ (by decide) (by decide) (by decide)

/-- Of two frames in one read only the first is delivered. -/
theorem delivers_two_frames_counterexample :
    ¬ Delivers .little
      [⟨true, 1, .len7, #v[0, 0, 0, 0], [0x41], by decide⟩,
        ⟨true, 1, .len7, #v[0, 0, 0, 0], [0x42], by decide⟩]
      [[0x81, 0x81, 0, 0, 0, 0, 0x41, 0x81, 0x81, 0, 0, 0, 0, 0x42]] := by
  intro h
  exact absurd (h fun _ => #v[0, 0, 0, 0]) (by decide)

end WsSession

end Splice
