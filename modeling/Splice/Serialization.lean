import Splice.Lib.HexStream
import Splice.CommonTypes

/-!
# Splice.Serialization

`serialization_session` and `serialization_engine`: messages as archives behind an
8-byte header with the size of the archive in hexadecimal.  The two classes have the
same bodies and differ in the name of the function a message is handed to, so the
bodies are here once, over that function, and each class has its own definitions
under them.

The archive library is not part of the repository: `archive` is what
`text_oarchive` writes for a message, and `unarchive` what `text_iarchive` reads from
a string, `none` where it throws.

A read is one `async_read_some`: it may return less than the buffer holds, and the
handlers take what is in the buffer all the same.  What follows is that messages get
through exactly if no read is short (`exchanges_iff_fullReads`).
-/

namespace Splice

open HexStream

namespace Serialization

def headerLength : Nat := 8

/-- `boost::asio::error::invalid_argument` (`EINVAL`). -/
def invalidArgument : ErrorCode := 22

/-- `std::vector<char>::max_size()`. -/
def maxSize : Nat := 2 ^ 63 - 1

/-- The handler of a read. -/
inductive Handler where
  | onReadHeader
  | onReadData
  deriving DecidableEq, Repr

/-- What a handler calls, in order; `asyncReadSome` offers a buffer of `size` bytes, and
`lengthError` is the `std::length_error` that a vector's constructor throws out of the
handler. -/
inductive Call (μ : Type) where
  | onRead (msg : μ)
  | onReadStruct (msg : μ)
  | onErrorCode (error : ErrorCode)
  | onErrorExEc (error : ErrorCode)
  | assertFailed (condition : String)
  | lengthError
  | asyncReadSome (size : Nat) (handler : Handler)
  deriving DecidableEq, Repr

variable {μ : Type}

/-- `BOOST_ASSERT`: a failed assertion is recorded, and the function goes on. -/
def assert (condition : Bool) (text : String) : List (Call μ) :=
  if condition then [] else [.assertFailed text]

/-- A buffer of `size` zero bytes, a read of `bytes` from its front on. -/
def filled (size : Nat) (bytes : List UInt8) : List UInt8 :=
  bytes ++ List.replicate (size - bytes.length) 0

/-! ## The bodies -/

/-- The buffers of the gather-write of a message, or the error that is reported
instead. -/
def writeBuffers (archive : μ → List UInt8) (msg : μ) : Except ErrorCode (List (List UInt8)) :=
  let outboundData := archive msg
  let outboundHeader := setw headerLength (format outboundData.length)
  if outboundHeader.length ≠ headerLength then .error invalidArgument
  else .ok [outboundHeader, outboundData]

/-- Read exactly the number of bytes in a header. -/
def readHeader : List (Call μ) := [.asyncReadSome headerLength .onReadHeader]

/-- The header has been read into `inboundHeader`. -/
def headerRead (inboundHeader : List UInt8) (ec : ErrorCode)
    (bytesTransferred : Nat) : List (Call μ) :=
  if ec ≠ 0 then [.onErrorCode ec]
  else
    assert (bytesTransferred == headerLength) "bytes_transferred == header_length_" ++
    match extract 64 inboundHeader with
    | none => [.onErrorCode invalidArgument]
    | some inboundDataSize =>
        if maxSize < inboundDataSize then [.lengthError]
        else [.asyncReadSome inboundDataSize .onReadData]

/-- The archive has been read into `inboundData`. -/
def dataRead (deliver : μ → Call μ) (unarchive : List UInt8 → Option μ)
    (inboundData : List UInt8) (ec : ErrorCode) (bytesTransferred : Nat) : List (Call μ) :=
  if ec ≠ 0 then [.onErrorCode ec]
  else
    assert (inboundData.length == bytesTransferred) "inbound_data->size()==bytes_transferred" ++
    match unarchive inboundData with
    | none => [.onErrorExEc invalidArgument]
    | some msg => [deliver msg]

end Serialization

open Serialization (Call)

variable {μ : Type}

namespace SerializationSession

def asyncWrite (archive : μ → List UInt8) (msg : μ) : Except ErrorCode (List (List UInt8)) :=
  Serialization.writeBuffers archive msg

def asyncRead : List (Call μ) := Serialization.readHeader

def onReadHeader (inboundHeader : List UInt8) (ec : ErrorCode)
    (bytesTransferred : Nat) : List (Call μ) :=
  Serialization.headerRead inboundHeader ec bytesTransferred

def onReadData (unarchive : List UInt8 → Option μ) (inboundData : List UInt8)
    (ec : ErrorCode) (bytesTransferred : Nat) : List (Call μ) :=
  Serialization.dataRead .onRead unarchive inboundData ec bytesTransferred

end SerializationSession

namespace SerializationEngine

def asyncWriteStruct (archive : μ → List UInt8) (msg : μ) : Except ErrorCode (List (List UInt8)) :=
  Serialization.writeBuffers archive msg

def asyncRead : List (Call μ) := Serialization.readHeader

def onReadHeader (inboundHeader : List UInt8) (ec : ErrorCode)
    (bytesTransferred : Nat) : List (Call μ) :=
  Serialization.headerRead inboundHeader ec bytesTransferred

def onReadData (unarchive : List UInt8 → Option μ) (inboundData : List UInt8)
    (ec : ErrorCode) (bytesTransferred : Nat) : List (Call μ) :=
  Serialization.dataRead .onReadStruct unarchive inboundData ec bytesTransferred

end SerializationEngine

namespace Serialization

/-! ## A receiver at work -/

/-- The two classes. -/
inductive Receiver where
  | session
  | engine
  deriving DecidableEq, Repr

namespace Receiver

/-- The class's `async_read`. -/
def asyncRead : Receiver → List (Call μ)
  | .session => SerializationSession.asyncRead
  | .engine => SerializationEngine.asyncRead

/-- The class's handlers. -/
def handle (unarchive : List UInt8 → Option μ) :
    Receiver → Handler → List UInt8 → Nat → Nat → List (Call μ)
  | .session, .onReadHeader => SerializationSession.onReadHeader
  | .session, .onReadData => SerializationSession.onReadData unarchive
  | .engine, .onReadHeader => SerializationEngine.onReadHeader
  | .engine, .onReadData => SerializationEngine.onReadData unarchive

end Receiver

/-- The messages handed over. -/
def delivered (calls : List (Call μ)) : List μ :=
  calls.filterMap fun
    | .onRead msg => some msg
    | .onReadStruct msg => some msg
    | _ => none

/-- The read outstanding after some calls. -/
def outstanding : List (Call μ) → Option (Nat × Handler)
  | [] => none
  | .asyncReadSome size handler :: _ => some (size, handler)
  | _ :: calls => outstanding calls

/-- The calls of a handler, and of a derived class that reads again once it has got a
message. -/
def handleAndRead (unarchive : List UInt8 → Option μ) (receiver : Receiver) (handler : Handler)
    (buffer : List UInt8) (count : Nat) : List (Call μ) :=
  let calls := receiver.handle unarchive handler buffer 0 count
  if delivered calls = [] then calls else calls ++ receiver.asyncRead

/-- The calls made while `stream` is handed out, `counts` bytes at a time. -/
def runReads (unarchive : List UInt8 → Option μ) (receiver : Receiver) :
    Option (Nat × Handler) → List UInt8 → List Nat → List (Call μ)
  | some (size, handler), stream, count :: counts =>
      let calls := handleAndRead unarchive receiver handler (filled size (stream.take count)) count
      calls ++ runReads unarchive receiver (outstanding calls) (stream.drop count) counts
  | _, _, _ => []

/-- `counts` is a way to hand out the whole of `stream`: a read returns between one
byte and the size of its buffer (an empty buffer is filled at once). -/
def HandsOut (unarchive : List UInt8 → Option μ) (receiver : Receiver) :
    Option (Nat × Handler) → List UInt8 → List Nat → Prop
  | some (size, handler), stream, count :: counts =>
      (0 < count ∨ size = 0) ∧ count ≤ size ∧ count ≤ stream.length ∧
        HandsOut unarchive receiver
          (outstanding (handleAndRead unarchive receiver handler
            (filled size (stream.take count)) count))
          (stream.drop count) counts
  | some (size, _), stream, [] => stream = [] ∧ size ≠ 0
  | none, _, counts => counts = []

instance decidableHandsOut (unarchive : List UInt8 → Option μ) (receiver : Receiver) :
    ∀ read stream counts, Decidable (HandsOut unarchive receiver read stream counts)
  | some (size, handler), stream, count :: counts =>
      have := decidableHandsOut unarchive receiver
        (outstanding (handleAndRead unarchive receiver handler
          (filled size (stream.take count)) count)) (stream.drop count) counts
      inferInstanceAs (Decidable ((0 < count ∨ size = 0) ∧ count ≤ size ∧
        count ≤ stream.length ∧ _))
  | some (size, _), stream, [] => inferInstanceAs (Decidable (stream = [] ∧ size ≠ 0))
  | none, _, [] => isTrue rfl
  | none, _, _ :: _ => isFalse (List.cons_ne_nil _ _)

/-- The read that `async_read` starts. -/
abbrev waiting : Option (Nat × Handler) := some (headerLength, .onReadHeader)

/-- What a receiver does with a stream, from its first `async_read` on. -/
def receive (unarchive : List UInt8 → Option μ) (receiver : Receiver) (stream : List UInt8)
    (counts : List Nat) : List (Call μ) :=
  let calls : List (Call μ) := receiver.asyncRead
  calls ++ runReads unarchive receiver (outstanding calls) stream counts

/-- The bytes of messages written one after the other. -/
def wire (archive : μ → List UInt8) (msgs : List μ) : List UInt8 :=
  msgs.flatMap fun msg =>
    match writeBuffers archive msg with
    | .ok buffers => buffers.flatten
    | .error _ => []

/-- No assertion has failed. -/
def AssertFree (calls : List (Call μ)) : Prop := ∀ text, Call.assertFailed text ∉ calls

/-- The receiver gets exactly the messages written, in order, and every assertion
holds. -/
def Exchanges (archive : μ → List UInt8) (unarchive : List UInt8 → Option μ)
    (receiver : Receiver) (msgs : List μ) (counts : List Nat) : Prop :=
  let calls := receive unarchive receiver (wire archive msgs) counts
  delivered calls = msgs ∧ AssertFree calls

/-- The reads that fill their buffers. -/
def fullReads (archive : μ → List UInt8) (msgs : List μ) : List Nat :=
  msgs.flatMap fun msg => [headerLength, (archive msg).length]

/-! ## One read -/

variable {archive : μ → List UInt8} {unarchive : List UInt8 → Option μ} {receiver : Receiver}

theorem filled_of_length {size : Nat} {bytes : List UInt8} (h : bytes.length = size) :
    filled size bytes = bytes := by
  rw [filled, h, Nat.sub_self, List.replicate_zero, List.append_nil]

/-- The header of a message that `async_write` accepts, and its archive. -/
theorem wire_cons {msg : μ} (h : (archive msg).length < 2 ^ 32) (msgs : List μ) :
    ∃ header : List UInt8, header.length = headerLength ∧
      extract 64 header = some (archive msg).length ∧
      wire archive (msg :: msgs) = header ++ (archive msg ++ wire archive msgs) := by
  have hlen : (setw headerLength (format (archive msg).length)).length = headerLength :=
    (length_setw_format (by decide)).mpr (by simpa [headerLength] using h)
  refine ⟨_, hlen, extract_setw_format (by omega) headerLength, ?_⟩
  simp [wire, writeBuffers, hlen]

/-- The function that gets the messages. -/
def Receiver.deliver : Receiver → μ → Call μ
  | .session => .onRead
  | .engine => .onReadStruct

/- The two classes do the same: from here on there is one receiver. -/

theorem handle_onReadHeader : receiver.handle unarchive .onReadHeader = headerRead := by
  cases receiver <;> rfl

theorem handle_onReadData :
    receiver.handle unarchive .onReadData = dataRead receiver.deliver unarchive := by
  cases receiver <;> rfl

theorem asyncRead_eq : (receiver.asyncRead : List (Call μ)) = readHeader := by
  cases receiver <;> rfl

theorem delivered_deliver (msg : μ) : delivered [receiver.deliver msg] = [msg] := by
  cases receiver <;> rfl

/-- A handler that has delivered is followed by the next header. -/
theorem handleAndRead_eq (handler : Handler) (buffer : List UInt8) (count : Nat) :
    handleAndRead unarchive receiver handler buffer count =
      receiver.handle unarchive handler buffer 0 count ++
        if delivered (receiver.handle unarchive handler buffer 0 count) = [] then []
        else readHeader := by
  simp only [handleAndRead, asyncRead_eq]
  split <;> simp

/-- What `async_write` accepts is far from `max_size`. -/
theorem not_maxSize_lt {size : Nat} (h : size < 2 ^ 32) : ¬ maxSize < size := by
  rw [maxSize]
  omega

/-- A whole header starts the read of the archive. -/
theorem handleAndRead_header {header : List UInt8} {size : Nat}
    (hlen : header.length = headerLength) (h : extract 64 header = some size)
    (hsize : size < 2 ^ 32) :
    handleAndRead unarchive receiver .onReadHeader (filled headerLength header) headerLength =
      [.asyncReadSome size .onReadData] := by
  rw [handleAndRead_eq, handle_onReadHeader, filled_of_length hlen]
  simp [headerRead, assert, h, not_maxSize_lt hsize, delivered]

/-- A whole archive hands the message over and starts the next read. -/
theorem handleAndRead_data (hround : ∀ msg, unarchive (archive msg) = some msg) (msg : μ) :
    handleAndRead unarchive receiver .onReadData (filled (archive msg).length (archive msg))
        (archive msg).length =
      [receiver.deliver msg, .asyncReadSome headerLength .onReadHeader] := by
  have hcalls : dataRead receiver.deliver unarchive (archive msg) 0 (archive msg).length =
      [receiver.deliver msg] := by
    simp [dataRead, assert, hround]
  rw [handleAndRead_eq, handle_onReadData, filled_of_length rfl, hcalls, delivered_deliver]
  rfl

/-- A short read fails the assertion of its handler. -/
theorem not_assertFree_of_short {handler : Handler} {size count : Nat} {bytes : List UInt8}
    (hsize : handler = .onReadHeader → size = headerLength) (hlen : bytes.length = count)
    (hle : count ≤ size) (hshort : count ≠ size) :
    ¬ AssertFree (handleAndRead unarchive receiver handler (filled size bytes) count) := by
  intro hfree
  rw [handleAndRead_eq] at hfree
  cases handler with
  | onReadHeader =>
      have hne : (count == headerLength) = false := by simpa [← hsize rfl] using hshort
      refine hfree "bytes_transferred == header_length_" (List.mem_append_left _ ?_)
      rw [handle_onReadHeader]
      simp [headerRead, assert, hne]
  | onReadData =>
      have hfilled : (filled size bytes).length = size := by
        rw [filled, List.length_append, List.length_replicate, hlen]
        omega
      have hne : ((filled size bytes).length == count) = false := by
        simpa [hfilled] using fun h => hshort h.symm
      refine hfree "inbound_data->size()==bytes_transferred" (List.mem_append_left _ ?_)
      rw [handle_onReadData]
      simp [dataRead, assert, hne]

theorem assertFree_append {calls calls' : List (Call μ)} :
    AssertFree (calls ++ calls') ↔ AssertFree calls ∧ AssertFree calls' := by
  simp only [AssertFree, List.mem_append, not_or, forall_and]

theorem delivered_append (calls calls' : List (Call μ)) :
    delivered (calls ++ calls') = delivered calls ++ delivered calls' :=
  List.filterMap_append

/-! ## Whole streams -/

/-- A read that fills its buffer, with what it leaves to later reads. -/
theorem runReads_of_full {handler : Handler} {bytes rest : List UInt8} {size : Nat}
    (hlen : bytes.length = size) {calls : List (Call μ)}
    (hcalls : handleAndRead unarchive receiver handler (filled size bytes) size = calls)
    (counts : List Nat) :
    runReads unarchive receiver (some (size, handler)) (bytes ++ rest) (size :: counts) =
      calls ++ runReads unarchive receiver (outstanding calls) rest counts := by
  rw [runReads, List.take_left' hlen, List.drop_left' hlen, hcalls]

/-- A read that does not fail an assertion has filled its buffer. -/
theorem exists_counts_of_assertFree {handler : Handler} {bytes rest : List UInt8} {size : Nat}
    (hlen : bytes.length = size) (hsize : handler = .onReadHeader → size = headerLength)
    {calls : List (Call μ)}
    (hcalls : handleAndRead unarchive receiver handler (filled size bytes) size = calls)
    {counts : List Nat}
    (hout : HandsOut unarchive receiver (some (size, handler)) (bytes ++ rest) counts)
    (hfree : AssertFree
      (runReads unarchive receiver (some (size, handler)) (bytes ++ rest) counts)) :
    ∃ counts', counts = size :: counts' ∧
      HandsOut unarchive receiver (outstanding calls) rest counts' ∧
      AssertFree (runReads unarchive receiver (outstanding calls) rest counts') := by
  cases counts with
  | nil =>
      obtain ⟨hnil, hne⟩ := hout
      rw [(List.append_eq_nil_iff.mp hnil).1] at hlen
      exact absurd hlen.symm hne
  | cons count counts =>
      obtain ⟨-, hle, hstream, hlater⟩ := hout
      obtain ⟨hfirst, hrest⟩ := assertFree_append.mp hfree
      have hfull : count = size := by
        by_contra hshort
        have htake : ((bytes ++ rest).take count).length = count := by
          rw [List.length_take]
          omega
        exact not_assertFree_of_short hsize htake hle hshort hfirst
      subst hfull
      rw [List.take_left' hlen, List.drop_left' hlen, hcalls] at hlater
      rw [List.take_left' hlen, List.drop_left' hlen, hcalls] at hrest
      exact ⟨counts, rfl, hlater, hrest⟩

/-- Reads that fill their buffers get the messages through. -/
theorem runReads_fullReads (receiver : Receiver)
    (hround : ∀ msg, unarchive (archive msg) = some msg) {msgs : List μ}
    (hsize : ∀ msg ∈ msgs, (archive msg).length < 2 ^ 32) :
    delivered (runReads unarchive receiver waiting (wire archive msgs) (fullReads archive msgs)) =
        msgs ∧
      AssertFree (runReads unarchive receiver waiting (wire archive msgs)
        (fullReads archive msgs)) := by
  induction msgs with
  | nil => exact ⟨rfl, fun _ => by simp [fullReads, runReads]⟩
  | cons msg msgs ih =>
      obtain ⟨hmsg, hmsgs⟩ := List.forall_mem_cons.mp hsize
      obtain ⟨header, hlen, hext, hwire⟩ := wire_cons hmsg msgs
      have hcounts : fullReads archive (msg :: msgs) =
          headerLength :: (archive msg).length :: fullReads archive msgs := rfl
      obtain ⟨hdelivered, hfree⟩ := ih hmsgs
      rw [hwire, hcounts, runReads_of_full hlen (handleAndRead_header hlen hext hmsg), outstanding,
        runReads_of_full rfl (handleAndRead_data hround msg)]
      refine ⟨?_, ?_⟩
      · rw [delivered_append, delivered_append]
        cases receiver <;> simp [delivered, Receiver.deliver, outstanding] at hdelivered ⊢ <;>
          exact hdelivered
      · rw [assertFree_append, assertFree_append]
        refine ⟨by simp [AssertFree], ?_, ?_⟩
        · cases receiver <;> simp [AssertFree, Receiver.deliver]
        · cases receiver <;> exact hfree

/-- **Messages get through, without a failed assertion, exactly if every read fills its
buffer**: eight bytes for a header, and the whole archive at once. -/
theorem exchanges_iff_fullReads (archive : μ → List UInt8) (unarchive : List UInt8 → Option μ)
    (hround : ∀ msg, unarchive (archive msg) = some msg) (receiver : Receiver) (msgs : List μ)
    (hsize : ∀ msg ∈ msgs, (archive msg).length < 2 ^ 32) (counts : List Nat)
    (hout : HandsOut unarchive receiver waiting (wire archive msgs) counts) :
    Exchanges archive unarchive receiver msgs counts ↔ counts = fullReads archive msgs := by
  have hstart : receive unarchive receiver (wire archive msgs) counts =
      readHeader ++ runReads unarchive receiver waiting (wire archive msgs) counts := by
    rw [receive, asyncRead_eq]
    rfl
  rw [Exchanges, hstart, delivered_append, assertFree_append]
  constructor
  · rintro ⟨-, -, hfree⟩
    clear hstart
    induction msgs generalizing counts with
    | nil =>
        cases counts with
        | nil => rfl
        | cons count counts =>
            obtain ⟨hpos, -, hle, -⟩ := hout
            rcases hpos with hpos | hzero
            · exact absurd (Nat.lt_of_lt_of_le hpos hle) (by simp [wire])
            · exact absurd hzero (by decide)
    | cons msg msgs ih =>
        obtain ⟨hmsg, hmsgs⟩ := List.forall_mem_cons.mp hsize
        obtain ⟨header, hlen, hext, hwire⟩ := wire_cons hmsg msgs
        rw [hwire] at hout hfree
        obtain ⟨counts, rfl, hout, hfree⟩ := exists_counts_of_assertFree hlen (fun _ => rfl)
          (handleAndRead_header hlen hext hmsg) hout hfree
        obtain ⟨counts, rfl, hout, hfree⟩ := exists_counts_of_assertFree rfl
          (fun h => absurd h (by decide)) (handleAndRead_data hround msg) hout hfree
        have hread : outstanding
            [receiver.deliver msg, .asyncReadSome headerLength .onReadHeader] = waiting := by
          cases receiver <;> rfl
        rw [hread] at hout hfree
        rw [ih hmsgs counts hout hfree]
        rfl
  · rintro rfl
    obtain ⟨hdelivered, hfree⟩ := runReads_fullReads receiver hround hsize
    exact ⟨by rw [hdelivered]; rfl, by simp [AssertFree, readHeader], hfree⟩

/-- Text behind the signature of a text archive, in one read for the header and one for
the archive. -/
theorem exchanges_iff_fullReads_hello :
    Exchanges (fun msg => chars "22 serialization::archive 12 " ++ msg)
        (fun bytes => some (bytes.drop 29)) .session [chars "hello"] [8, 34] ↔
      [8, 34] = fullReads (fun msg => chars "22 serialization::archive 12 " ++ msg)
        [chars "hello"] :=
  exchanges_iff_fullReads (fun msg => chars "22 serialization::archive 12 " ++ msg)
    (fun bytes => some (bytes.drop 29)) (fun _ => rfl) .session [chars "hello"] (by decide)
    [8, 34] (by decide)

/-- An archive that arrives in two parts fails the assertion of `on_read_data`. -/
theorem exchanges_short_read_counterexample :
    HandsOut (fun bytes => some (bytes.drop 29)) .session waiting
        (wire (fun msg => chars "22 serialization::archive 12 " ++ msg) [chars "hello"])
        [8, 33, 1] ∧
      ¬ Exchanges (fun msg => chars "22 serialization::archive 12 " ++ msg)
        (fun bytes => some (bytes.drop 29)) .session [chars "hello"] [8, 33, 1] := by
  refine ⟨by decide, fun h => ?_⟩
  exact h.2 "inbound_data->size()==bytes_transferred" (by decide)

end Serialization

end Splice
