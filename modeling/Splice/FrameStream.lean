import Splice.FrameOverlap

/-!
# Splice.FrameStream

A client's frames one after the other, decoded by calling `parse` with a fresh
parser and a fresh frame from wherever the previous call stopped.

A masked frame without payload is where this goes wrong: the parser answers *true*
at the zero length byte and leaves the masking key in front of the next frame.
From then on the decoder is behind (`body_ends_before`), and does not reach the end
of the bytes in as many calls as there are frames.
-/

namespace Splice

open Incremental
open DataFrameParser

/-- At most `calls` calls of `parse`, each with a fresh parser and a fresh frame (whose
`masking_key_` holds `junk` at that call), each from the position that the one before
returned; the frames that were completed and the position at the end. -/
def decodeFrames (host : Endian) (junk : Nat → MaskingKey) :
    Nat → List UInt8 → List DataFrame × List UInt8
  | 0, bs => ([], bs)
  | calls + 1, bs =>
      match parse host .finOpcode (.new (junk calls)) bs with
      | (.true, (_, frame), rest) =>
          let (frames, stop) := decodeFrames host junk calls rest
          (frame :: frames, stop)
      | (_, _, rest) => ([], rest)

/-- One call gives each frame, and the last one stops at the end of the bytes. -/
def Resumes (host : Endian) (junk : Nat → MaskingKey) (frames : List ClientFrame) : Prop :=
  let decoded := decodeFrames host junk frames.length (frames.flatMap ClientFrame.bytes)
  List.Forall₂ ClientFrame.Received frames decoded.1 ∧ decoded.2 = []

variable {host : Endian} {junk : Nat → MaskingKey}

/-- A call that completes a frame goes on with the rest of the bytes. -/
theorem decodeFrames_of_parse {calls : Nat} {bs rest : List UInt8} {state : State}
    {out : DataFrame} (h : parse host .finOpcode (.new (junk calls)) bs =
      (.true, (state, out), rest)) :
    decodeFrames host junk (calls + 1) bs =
      (out :: (decodeFrames host junk calls rest).1, (decodeFrames host junk calls rest).2) := by
  rw [decodeFrames, h]

/-- A sequence of calls that has given a frame has had one call complete it. -/
theorem exists_parse_of_received {calls : Nat} {bs : List UInt8} {frame : ClientFrame}
    {frames : List ClientFrame}
    (h : List.Forall₂ ClientFrame.Received (frame :: frames)
      (decodeFrames host junk (calls + 1) bs).1) :
    ∃ state out rest, parse host .finOpcode (.new (junk calls)) bs = (.true, (state, out), rest) ∧
      frame.Received out ∧
      List.Forall₂ ClientFrame.Received frames (decodeFrames host junk calls rest).1 := by
  cases hparse : parse host .finOpcode (.new (junk calls)) bs with
  | mk r p =>
      obtain ⟨⟨state, out⟩, rest⟩ := p
      cases r with
      | true =>
          rw [decodeFrames_of_parse hparse] at h
          obtain ⟨hout, hrest⟩ := List.forall₂_cons.mp h
          exact ⟨state, out, rest, rfl, hout, hrest⟩
      | false | indeterminate =>
          simp only [decodeFrames, hparse] at h
          exact absurd h (by simp)

/-- A decoder that is behind stays behind. -/
theorem decodeFrames_behind {frames : List ClientFrame} {gap : List UInt8} (hgap : gap ≠ [])
    (h : List.Forall₂ ClientFrame.Received frames (decodeFrames host junk frames.length
      (gap ++ frames.flatMap ClientFrame.bytes)).1) :
    (decodeFrames host junk frames.length (gap ++ frames.flatMap ClientFrame.bytes)).2 ≠ [] := by
  induction frames generalizing gap with
  | nil => simpa [decodeFrames] using hgap
  | cons frame frames ih =>
      rw [List.length_cons] at h ⊢
      obtain ⟨state, out, rest, hparse, hout, hframes⟩ := exists_parse_of_received h
      obtain ⟨b, body, hbytes, hread⟩ := exists_read_of_parse_finOpcode rfl hparse
      have hdata : body.data.length = frame.payload.length := by
        rw [← hread.length_payload, hout.payload]
      rw [List.flatMap_cons, ← List.append_assoc] at hbytes
      obtain ⟨gap', hgap', hrest⟩ := body.body_ends_before hgap hdata hbytes.symm
      rw [decodeFrames_of_parse hparse, hrest]
      rw [hrest] at hframes
      exact ih hgap' hframes

/-- Decoding a sequence of non-empty frames, one call after the other. -/
theorem resumes_of_ne_nil {frames : List ClientFrame}
    (h : ∀ frame ∈ frames, frame.payload ≠ [] ∧ frame.Readable host) :
    Resumes host junk frames := by
  induction frames with
  | nil => exact ⟨.nil, rfl⟩
  | cons frame frames ih =>
      obtain ⟨⟨hne, hread⟩, hrest⟩ := List.forall_mem_cons.mp h
      obtain ⟨state, out, hparse, hout⟩ := ClientFrame.parse_bytes hne hread
        (.new (junk frames.length)) rfl (frames.flatMap ClientFrame.bytes)
      obtain ⟨hframes, hstop⟩ := ih hrest
      rw [Resumes, List.length_cons, List.flatMap_cons, decodeFrames_of_parse hparse]
      exact ⟨.cons hout hframes, hstop⟩

/-- A decoded frame has told the host its size, and was not empty unless the masking
key was left unread. -/
theorem readable_of_received {frame : ClientFrame} {into out : DataFrame} {state : State}
    {rest tail : List UInt8} (hp : into.payload = [])
    (h : parse host .finOpcode into (frame.bytes ++ tail) = (.true, (state, out), rest))
    (hout : frame.Received out) :
    frame.Readable host ∧ (frame.payload = [] → rest = frame.maskingKey.toList ++ tail) := by
  obtain ⟨b, body, hbytes, hread⟩ := exists_read_of_parse_finOpcode hp h
  have hdata : body.data.length = frame.payload.length := by
    rw [← hread.length_payload, hout.payload]
  have hext : frame.ext.length = extLength frame.len := by
    rw [ClientFrame.extLength_len, ClientFrame.ext, LengthForm.length_extended]
  have htail : body.bytes ++ rest =
      frame.len :: frame.ext ++ (frame.maskingKey.toList ++ frame.masked ++ tail) := by
    simp only [ClientFrame.bytes, ClientFrame.tail, List.cons_append, List.cons.injEq] at hbytes
    rw [← hbytes.2]
    simp
  obtain ⟨hlen, hexteq, hkey⟩ := body.eq_of_bytes_append hext htail
  refine ⟨?_, ?_⟩
  · rw [ClientFrame.Readable, ← hlen, ← hexteq, ← body.length_data, hdata]
  · intro hnil
    have hnodata : body.data = [] := List.length_eq_zero_iff.mp (by rw [hdata, hnil]; rfl)
    have hzero : low7 body.len = 0 := by
      by_contra hz
      exact body.data_ne_nil hz hnodata
    have hnokey : body.key = [] := by
      apply List.length_eq_zero_iff.mp
      rw [body.length_key, keyLength, if_neg (by simp [hzero])]
    have hmasked : frame.masked = [] := List.length_eq_zero_iff.mp (by simp [hnil])
    simpa [hnodata, hnokey, hmasked] using hkey

/-- **Resuming where `parse` stopped works exactly as long as no frame is empty** (and
the host reads every size off the length fields, which a little-endian one does:
`ClientFrame.readable_little`). -/
theorem resumes_iff (host : Endian) (junk : Nat → MaskingKey) (frames : List ClientFrame) :
    Resumes host junk frames ↔
      ∀ frame ∈ frames, frame.payload ≠ [] ∧ frame.Readable host := by
  refine ⟨?_, resumes_of_ne_nil⟩
  intro h
  induction frames with
  | nil => simp
  | cons frame frames ih =>
      obtain ⟨hall, hstop⟩ := h
      rw [List.length_cons] at hall hstop
      obtain ⟨state, out, rest, hparse, hout, hframes⟩ := exists_parse_of_received hall
      rw [decodeFrames_of_parse hparse] at hstop
      rw [List.flatMap_cons] at hparse
      obtain ⟨hread, hkey⟩ := readable_of_received rfl hparse hout
      have hne : frame.payload ≠ [] := by
        intro hnil
        rw [hkey hnil] at hframes hstop
        exact decodeFrames_behind (by simp) hframes hstop
      obtain ⟨state', out', hparse', -⟩ := ClientFrame.parse_bytes hne hread
        (.new (junk frames.length)) rfl (frames.flatMap ClientFrame.bytes)
      have hrest : rest = frames.flatMap ClientFrame.bytes :=
        congrArg (fun p => p.2.2) (hparse.symm.trans hparse')
      rw [hrest] at hframes hstop
      exact List.forall_mem_cons.mpr ⟨⟨hne, hread⟩, ih ⟨hframes, hstop⟩⟩

/-- An empty ping leaves its masking key behind. -/
theorem resumes_empty_ping_counterexample :
    ¬ Resumes .little (fun _ => #v[0, 0, 0, 0])
      [⟨true, 9, .len7, #v[1, 2, 3, 4], [], by decide⟩] := by
  intro h
  exact absurd h.2 (by decide)

end Splice
