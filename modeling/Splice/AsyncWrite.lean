import Splice.DataFrame
import Splice.Serialization
import Splice.Lib.ComposedWrite
import Splice.Lib.Transition

/-!
# Splice.AsyncWrite

The `async_write` functions of the sessions.  Each makes its buffers and hands them to
`boost::asio::async_write` at once: no session waits for the write before, or keeps a
queue.  Asio then sends each write's bytes in as many `write_some` steps as the socket
makes of it, and steps of two writes outstanding may alternate.

The messages stay whole as long as the socket serves the oldest write that is not
finished (`asyncWrite_inOrder`), which is the case for a caller who waits for the
completion of each write (`servesOldest_of_awaitsCompletion`).
-/

namespace Splice

open ComposedWrite
open Transition

variable {μ : Type}

/-! ## The buffers of a message -/

namespace WsSession

/-- `ws_session::async_write`; `junk` is what the new frame's `masking_key_` holds. -/
def asyncWrite (host : Endian) (junk : MaskingKey) (msg : List UInt8) : List (List UInt8) :=
  ((DataFrame.ofString junk msg).toBuffers host).1

end WsSession

namespace MyLogSession

/-- `my_log_session::send`. -/
def send (host : Endian) (junk : MaskingKey) (msg : List UInt8) : List (List UInt8) :=
  ((DataFrame.ofString junk (msg ++ chars "<br>")).toBuffers host).1

end MyLogSession

namespace TcpSession

/-- `tcp_session::async_write`. -/
def asyncWrite (msg : List UInt8) : List (List UInt8) := [msg]

end TcpSession

/-! ## Writes on one socket -/

/-- A call of one of the functions, with its message. -/
inductive WriteCall (μ : Type) where
  | wsSession (msg : List UInt8)
  | myLogSession (msg : List UInt8)
  | tcpSession (msg : List UInt8)
  | serializationSession (msg : μ)

/-- The buffers that a call hands to Asio; none when it reports an error instead. -/
def WriteCall.buffers (host : Endian) (junk : MaskingKey) (archive : μ → List UInt8) :
    WriteCall μ → Except ErrorCode (List (List UInt8))
  | wsSession msg => .ok (WsSession.asyncWrite host junk msg)
  | myLogSession msg => .ok (MyLogSession.send host junk msg)
  | tcpSession msg => .ok (TcpSession.asyncWrite msg)
  | serializationSession msg => SerializationSession.asyncWrite archive msg

/-- The complete encoding of a message; empty where nothing is to be written. -/
def WriteCall.encoding (host : Endian) (junk : MaskingKey) (archive : μ → List UInt8)
    (call : WriteCall μ) : List UInt8 :=
  match call.buffers host junk archive with
  | .ok buffers => buffers.flatten
  | .error _ => []

/-- What can happen on the socket: a call, or a `write_some` in which the socket takes
`count` bytes of the composed write number `op`. -/
inductive WriteAction (μ : Type) where
  | asyncWrite (junk : MaskingKey) (call : WriteCall μ)
  | writeSome (op count : Nat)

/-- One step. -/
def writeStep (host : Endian) (archive : μ → List UInt8) (s : Sink UInt8) :
    WriteAction μ → Option (Sink UInt8)
  | .asyncWrite junk call =>
      match call.buffers host junk archive with
      | .ok buffers => some (s.start buffers.flatten)
      | .error _ => some s
  | .writeSome op count => s.writeSome op count

/-- The steps, as a relation. -/
def WriteStep (host : Endian) (archive : μ → List UInt8) (s : Sink UInt8)
    (action : WriteAction μ) (s' : Sink UInt8) : Prop :=
  writeStep host archive s action = some s'

/-- The encodings of the messages of a trace, in the order of the calls. -/
def encodings (host : Endian) (archive : μ → List UInt8) (trace : List (WriteAction μ)) :
    List UInt8 :=
  trace.flatMap fun
    | .asyncWrite junk call => call.encoding host junk archive
    | .writeSome _ _ => []

/-- The bytes on the socket are the first of the encodings in call order, and all of
them once the writes are finished. -/
def WrittenInOrder (host : Endian) (archive : μ → List UInt8) (trace : List (WriteAction μ))
    (s : Sink UInt8) : Prop :=
  s.wire <+: encodings host archive trace ∧ (s.Finished → s.wire = encodings host archive trace)

/-- A step in which the socket takes bytes takes them from the oldest write that is not
finished. -/
def ServesOldest (s : Sink UInt8) : WriteAction μ → Prop
  | .asyncWrite _ _ => True
  | .writeSome op _ => s.Oldest op

instance (s : Sink UInt8) : (action : WriteAction μ) → Decidable (ServesOldest s action)
  | .asyncWrite _ _ => isTrue trivial
  | .writeSome op _ => inferInstanceAs (Decidable (s.Oldest op))

/-- A call is made only when the writes before are finished. -/
def AwaitsCompletion (s : Sink UInt8) : WriteAction μ → Prop
  | .asyncWrite _ _ => s.Finished
  | .writeSome _ _ => True

/-! ## What a step does -/

variable {host : Endian} {archive : μ → List UInt8}

/-- A call starts a write of its encoding, or none. -/
theorem writeStep_asyncWrite {s s' : Sink UInt8} {junk : MaskingKey} {call : WriteCall μ}
    (h : WriteStep host archive s (.asyncWrite junk call) s') :
    (s' = s.start (call.encoding host junk archive)) ∨
      (s' = s ∧ call.encoding host junk archive = []) := by
  simp only [WriteStep, writeStep] at h
  cases hb : call.buffers host junk archive with
  | ok buffers =>
      rw [hb] at h
      refine .inl ?_
      rw [← Option.some.inj h, WriteCall.encoding, hb]
  | error error =>
      rw [hb] at h
      exact .inr ⟨(Option.some.inj h).symm, by rw [WriteCall.encoding, hb]⟩

/-- What is expected on the socket are the encodings of the calls. -/
theorem expected_of_step {s s' : Sink UInt8} {trace : List (WriteAction μ)}
    {action : WriteAction μ} (hs : s.expected = encodings host archive trace)
    (h : WriteStep host archive s action s') :
    s'.expected = encodings host archive (trace ++ [action]) := by
  have htrace : encodings host archive (trace ++ [action]) =
      s.expected ++ encodings host archive [action] := by
    rw [hs, encodings, encodings, List.flatMap_append]
    rfl
  rw [htrace]
  cases action with
  | asyncWrite junk call =>
      have hone : encodings host archive [.asyncWrite junk call] =
          call.encoding host junk archive := by simp [encodings]
      rw [hone]
      rcases writeStep_asyncWrite h with rfl | ⟨rfl, hnil⟩
      · rw [Sink.expected_start]
      · rw [hnil, List.append_nil]
  | writeSome op count =>
      rw [Sink.expected_writeSome h]
      exact (List.append_nil _).symm

theorem inOrder_of_step {s s' : Sink UInt8} {action : WriteAction μ} (hs : s.InOrder)
    (hguard : ServesOldest s action) (h : WriteStep host archive s action s') : s'.InOrder := by
  cases action with
  | asyncWrite junk call =>
      rcases writeStep_asyncWrite h with rfl | ⟨rfl, -⟩
      · exact Sink.inOrder_start hs _
      · exact hs
  | writeSome op count => exact Sink.inOrder_writeSome hs hguard h

/-! ## Runs -/

/-- **Messages stay whole and in order** in every run in which the socket serves the
oldest unfinished write. -/
theorem asyncWrite_inOrder (host : Endian) (archive : μ → List UInt8)
    {trace : List (WriteAction μ)} {s : Sink UInt8}
    (h : Reaches (WriteStep host archive) ServesOldest Sink.empty trace s) :
    WrittenInOrder host archive trace s := by
  have hinv : s.InOrder ∧ s.expected = encodings host archive trace := by
    refine Reaches.invariant (I := fun trace s => s.InOrder ∧
      s.expected = encodings host archive trace) ⟨Sink.inOrder_empty, rfl⟩ ?_ h
    rintro trace s action s' ⟨hs, hexp⟩ hguard hstep
    exact ⟨inOrder_of_step hs hguard hstep, expected_of_step hexp hstep⟩
  obtain ⟨hs, hexp⟩ := hinv
  rw [WrittenInOrder, ← hexp]
  exact ⟨hs.wire_first, hs.eq_of_finished⟩

/-- Two log lines, the second one sent after the first has been taken. -/
theorem asyncWrite_inOrder_log :
    WrittenInOrder .little (fun _ : Unit => [])
      [.asyncWrite #v[0, 0, 0, 0] (.myLogSession (chars "a")), .writeSome 0 7,
        .asyncWrite #v[0, 0, 0, 0] (.myLogSession (chars "b"))]
      { wire := [0x81, 5, 0x61, 0x3C, 0x62, 0x72, 0x3E],
        writes := [⟨[0x81, 5, 0x61, 0x3C, 0x62, 0x72, 0x3E], 7, by decide⟩,
          .start [0x81, 5, 0x62, 0x3C, 0x62, 0x72, 0x3E]] } :=
  asyncWrite_inOrder .little (fun _ => []) (Reaches.of_runFrom rfl)

/-- **Overlapping writes mix.** Of two log lines under way at once the socket takes one
byte of the first, all of the second, and then the rest of the first. -/
theorem writtenInOrder_counterexample :
    ¬ ∀ (trace : List (WriteAction Unit)) (s : Sink UInt8),
      Reaches (WriteStep .little fun _ => []) AnyStep Sink.empty trace s →
        WrittenInOrder .little (fun _ => []) trace s := by
  intro h
  have hrun : runFrom (writeStep .little fun _ : Unit => []) AnyStep Sink.empty
      [.asyncWrite #v[0, 0, 0, 0] (.myLogSession (chars "a")),
        .asyncWrite #v[0, 0, 0, 0] (.myLogSession (chars "b")),
        .writeSome 0 1, .writeSome 1 7, .writeSome 0 6] = some _ := rfl
  have hwire := (h _ _ (Reaches.of_runFrom hrun)).1
  exact absurd hwire (by decide)

/-- All writes but the last are finished. -/
def OneOutstanding (s : Sink UInt8) : Prop := ∀ write ∈ s.writes.dropLast, write.unsent = []

/-- With one write outstanding a step can only serve that one. -/
theorem oldest_of_oneOutstanding {s s' : Sink UInt8} {op count : Nat} (hone : OneOutstanding s)
    (h : s.writeSome op count = some s') : s.Oldest op ∧ OneOutstanding s' := by
  obtain ⟨before, after, write, hle, hwrites, hlen, hpos, -, hwrites'⟩ := Sink.writeSome_cases h
  have hlast : after = [] := by
    by_contra hne
    have hmem : write ∈ s.writes.dropLast := by
      rw [hwrites, List.dropLast_append_of_ne_nil (by simp), List.dropLast_cons_of_ne_nil hne]
      simp
    rw [hone write hmem, List.length_nil] at hle
    omega
  subst hlast
  have hbefore : ∀ write ∈ before, write.unsent = [] := by
    intro w hw
    refine hone w ?_
    rw [hwrites, List.dropLast_concat]
    exact hw
  refine ⟨?_, ?_⟩
  · rw [Sink.Oldest, hwrites, List.take_left' hlen]
    exact hbefore
  · rw [OneOutstanding, hwrites', List.dropLast_concat]
    exact hbefore

/-- A write outstanding is sent at one go. -/
theorem exists_writeSome {sink : Sink UInt8} (hone : OneOutstanding sink) (h : ¬ sink.Finished) :
    ∃ op count sink', sink.writeSome op count = some sink' ∧ sink'.Finished := by
  rcases List.eq_nil_or_concat sink.writes with hnil | ⟨before, last, hwrites⟩
  · exact absurd (by simp [Sink.Finished, hnil]) h
  · rw [List.concat_eq_append] at hwrites
    rw [OneOutstanding, hwrites, List.dropLast_concat] at hone
    have hunsent : 0 < last.unsent.length := by
      refine List.length_pos_of_ne_nil fun hsent => h ?_
      rw [Sink.Finished, hwrites]
      simpa [or_imp, forall_and] using ⟨hone, hsent⟩
    have hget : sink.writes[before.length]? = some last := by
      rw [hwrites, List.getElem?_concat_length]
    refine ⟨before.length, last.unsent.length,
      ⟨sink.wire ++ last.unsent.take last.unsent.length,
        sink.writes.set before.length (last.advance last.unsent.length le_rfl)⟩, ?_, ?_⟩
    · rw [Sink.writeSome, hget]
      exact dif_pos ⟨hunsent, le_rfl⟩
    · rw [Sink.Finished]
      simpa [or_imp, forall_and, hwrites, Write.unsent_advance] using hone

/-- A caller who waits for each completion leaves the socket no choice. -/
theorem servesOldest_of_awaitsCompletion {trace : List (WriteAction μ)} {s : Sink UInt8}
    (h : Reaches (WriteStep host archive) AwaitsCompletion Sink.empty trace s) :
    Reaches (WriteStep host archive) ServesOldest Sink.empty trace s := by
  have hinv : Reaches (WriteStep host archive) ServesOldest Sink.empty trace s ∧
      OneOutstanding s := by
    refine Reaches.invariant (I := fun trace s =>
      Reaches (WriteStep host archive) ServesOldest Sink.empty trace s ∧ OneOutstanding s)
      ⟨.init, by simp [OneOutstanding, Sink.empty]⟩ ?_ h
    rintro trace s action s' ⟨hreach, hone⟩ hguard hstep
    cases action with
    | asyncWrite junk call =>
        refine ⟨.step hreach trivial hstep, ?_⟩
        rcases writeStep_asyncWrite hstep with rfl | ⟨rfl, -⟩
        · rw [OneOutstanding, Sink.start, List.dropLast_concat]
          exact hguard
        · exact hone
    | writeSome op count =>
        obtain ⟨hold, hone'⟩ := oldest_of_oneOutstanding hone hstep
        exact ⟨.step hreach hold hstep, hone'⟩
  exact hinv.1

end Splice
