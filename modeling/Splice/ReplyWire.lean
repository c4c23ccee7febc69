import Splice.Rfc6455Engine
import Splice.RequestGrammar
import Splice.Lib.CrlfLines

/-!
# Splice.ReplyWire

The bytes of a handshake reply.  `Reply.text` is the response that `to_buffers` is for,
and `readResponse` a reader of responses; it gets back the status and the headers of every
such text (`readResponse_text`).  The buffer of the status line is made of a string literal,
so what goes on the wire has a null character behind that line (`wire_eq`).
-/

namespace Splice

open CrlfLines (IsLine)

/-! ## Status lines -/

/-- The status of a status line, behind the version and a blank: three digits. -/
def readStatusLine (version line : List UInt8) : Option Nat :=
  if version.isPrefixOf line then
    match line.drop version.length with
    | a :: b :: c :: space :: _ =>
        if ([a, b, c].all isDecimal) && space == ' '.toUInt8 then some (decimalValue [a, b, c])
        else none
    | _ => none
  else none

/-- A status line that says this status. -/
structure IsStatusLine (version line : List UInt8) (code : Nat) : Prop where
  isLine : IsLine line
  reads : readStatusLine version line = some code

/-- No status line is empty. -/
theorem IsStatusLine.ne_nil {version line : List UInt8} {code : Nat}
    (h : IsStatusLine version line code) : line ≠ [] := by
  rintro rfl
  have hreads := h.reads
  simp [readStatusLine] at hreads

namespace Rfc6455Engine

namespace StatusType

/-- The number of a status. -/
def code : StatusType → Nat
  | .switchingProtocols => 101
  | .badRequest => 400
  | .internalServerError => 500

/-- The status line, without its end. -/
def line : StatusType → List UInt8
  | .switchingProtocols => chars "HTTP/1.1 101 Switching Protocols"
  | .badRequest => chars "HTTP/1.1 400 Bad Request"
  | .internalServerError => chars "HTTP/1.1 500 Internal Server Error"

end StatusType

namespace Reply

/-- The line of a header. -/
def headerLine (h : Header) : List UInt8 := h.name ++ chars ": " ++ h.value

/-- The lines of a response. -/
def lines (reply : Reply) : List (List UInt8) :=
  reply.status.line :: (reply.headers.map headerLine ++ [[]])

/-- The headers and the empty line behind them. -/
def fields (reply : Reply) : List UInt8 :=
  reply.headers.flatMap (fun h => h.name ++ chars ": " ++ h.value ++ crlf) ++ crlf

/-- The response that is meant. -/
def text (reply : Reply) : List UInt8 := reply.status.line ++ crlf ++ reply.fields

/-- What goes on the wire. -/
def wire (reply : Reply) : List UInt8 := reply.toBuffers.flatten

end Reply

/-! ## A strict reader -/

/-- A header: a token, a colon and a blank in front of its value. -/
def readHeader (line : List UInt8) : Option Header :=
  let name := line.takeWhile isToken
  match line.drop name.length with
  | colon :: space :: value =>
      if name ≠ [] ∧ colon = ':'.toUInt8 ∧ space = ' '.toUInt8 then some ⟨name, value⟩ else none
  | _ => none

/-- Headers, up to the empty line at the end of the text. -/
def readHeaders : List (List UInt8) → Option (List Header)
  | [] => none
  | [[]] => some []
  | line :: lines => do
      let header ← readHeader line
      return header :: (← readHeaders lines)

/-- A response: its status and its headers. -/
def readResponse (text : List UInt8) : Option (Nat × List Header) := do
  match ← CrlfLines.split text with
  | [] => none
  | statusLine :: lines =>
      return (← readStatusLine (chars "HTTP/1.1 ") statusLine, ← readHeaders lines)

/-- Headers that can be written: their names are tokens and their values stay in a line. -/
def Writable (h : Header) : Prop :=
  (h.name ≠ [] ∧ ∀ b ∈ h.name, isToken b) ∧ IsLine h.value

/-! ## What is meant is read back -/

/-- A token stays in a line. -/
theorem isLine_of_token {name : List UInt8} (h : ∀ b ∈ name, isToken b) : IsLine name := by
  have htoken : ∀ b, isToken b → b ≠ 13 ∧ b ≠ 10 := forall_uInt8 (by decide +kernel)
  exact fun b hb => htoken b (h b hb)

/-- So does the line of a header. -/
theorem isLine_headerLine {h : Header} (hwritable : Writable h) :
    IsLine (Reply.headerLine h) := by
  obtain ⟨⟨-, htoken⟩, hvalue⟩ := hwritable
  have hseparator : IsLine (chars ": ") := by decide
  rw [Reply.headerLine, CrlfLines.isLine_append, CrlfLines.isLine_append]
  exact ⟨⟨isLine_of_token htoken, hseparator⟩, hvalue⟩

/-- The line of a status says that status. -/
theorem isStatusLine_line (status : StatusType) :
    IsStatusLine (chars "HTTP/1.1 ") status.line status.code := by
  cases status <;> exact ⟨by decide, by decide⟩

theorem chars_colon : chars ": " = [':'.toUInt8, ' '.toUInt8] := by decide

/-- The line of a header is read back, -/
theorem readHeader_headerLine {h : Header} (hwritable : Writable h) :
    readHeader (Reply.headerLine h) = some h := by
  obtain ⟨⟨hne, htoken⟩, -⟩ := hwritable
  have hcolon : isToken ':'.toUInt8 = false := by decide
  have hname : (Reply.headerLine h).takeWhile isToken = h.name := by
    rw [Reply.headerLine, chars_colon, List.append_assoc, List.takeWhile_append_of_pos htoken,
      List.cons_append, List.takeWhile_cons_of_neg (by simp [hcolon]), List.append_nil]
  have hdrop : (Reply.headerLine h).drop h.name.length =
      ':'.toUInt8 :: ' '.toUInt8 :: h.value := by
    rw [Reply.headerLine, chars_colon, List.append_assoc, List.drop_left]
    rfl
  simp [readHeader, hname, hdrop, hne]

/-- and so are the lines of all. -/
theorem readHeaders_lines {headers : List Header} (h : ∀ header ∈ headers, Writable header) :
    readHeaders (headers.map Reply.headerLine ++ [[]]) = some headers := by
  induction headers with
  | nil => rfl
  | cons header headers ih =>
      obtain ⟨hheader, hheaders⟩ := List.forall_mem_cons.mp h
      have hread := readHeader_headerLine hheader
      rw [List.map_cons, List.cons_append, readHeaders]
      · simp [hread, ih hheaders]
      · simp

/-- The text is that of the lines. -/
theorem join_lines (reply : Reply) : CrlfLines.join reply.lines = reply.text := by
  have hcrlf : crlf = [13, 10] := rfl
  simp [CrlfLines.join, Reply.lines, Reply.text, Reply.fields, Reply.headerLine, List.flatMap_map,
    hcrlf]

/-- **The response that is meant is read back.** -/
theorem readResponse_text {reply : Reply} (h : ∀ header ∈ reply.headers, Writable header) :
    readResponse reply.text = some (reply.status.code, reply.headers) := by
  have hlines : ∀ line ∈ reply.lines, IsLine line := by
    intro line hline
    rcases List.mem_cons.mp hline with rfl | hline
    · exact (isStatusLine_line reply.status).isLine
    · rcases List.mem_append.mp hline with hheader | hempty
      · obtain ⟨header, hmem, rfl⟩ := List.mem_map.mp hheader
        exact isLine_headerLine (h header hmem)
      · rw [List.mem_singleton.mp hempty]
        exact List.forall_mem_nil _
  rw [readResponse, ← join_lines, CrlfLines.split_join hlines]
  simp [Reply.lines, (isStatusLine_line _).reads, readHeaders_lines h]

/-! ## What is written -/

/-- The buffer of a status line is its literal, null character and all. -/
theorem toBuffer_eq (status : StatusType) :
    Reply.toBuffer status = status.line ++ crlf ++ [0] := by
  cases status <;> decide

theorem flatten_headerBuffers (headers : List Header) :
    (headers.flatMap fun h => [h.name, chars ": ", h.value, chars "\r\n"]).flatten =
      headers.flatMap fun h => h.name ++ chars ": " ++ h.value ++ crlf := by
  have hcrlf : chars "\r\n" = crlf := by decide
  induction headers with
  | nil => rfl
  | cons h headers ih =>
      rw [List.flatMap_cons, List.flatten_append, ih]
      simp [hcrlf]

/-- The wire has a null character behind the status line. -/
theorem wire_eq (reply : Reply) :
    reply.wire = reply.status.line ++ crlf ++ 0 :: reply.fields := by
  have hcrlf : chars "\r\n" = crlf := by decide
  rw [Reply.wire, Reply.toBuffers, List.flatten_append, List.flatten_cons, flatten_headerBuffers,
    toBuffer_eq, hcrlf]
  simp [Reply.fields]

/-- No header line begins with a null character. -/
theorem readHeaders_null (line : List UInt8) (lines : List (List UInt8)) :
    readHeaders ((0 :: line) :: lines) = none := by
  have hnull : isToken 0 = false := by decide
  have hread : readHeader (0 :: line) = none := by
    cases line <;> simp [readHeader, hnull]
  rw [readHeaders]
  · simp [hread]
  · simp

/-- **No reply is a response on the wire**: it differs from the one that is meant, and the
reader does not take it. -/
theorem not_wellFormed (reply : Reply) :
    reply.wire ≠ reply.text ∧ readResponse reply.wire = none := by
  constructor
  · intro heq
    have hlen := congrArg List.length ((wire_eq reply).symm.trans heq)
    simp only [Reply.text, List.length_append, List.length_cons] at hlen
    omega
  · have hsplit : CrlfLines.split reply.wire =
        (CrlfLines.split (0 :: reply.fields)).map (reply.status.line :: ·) := by
      rw [wire_eq, List.append_assoc]
      exact CrlfLines.split_line (isStatusLine_line reply.status).isLine _
    rw [readResponse, hsplit]
    cases hlines : CrlfLines.split (0 :: reply.fields) with
    | none => rfl
    | some lines =>
        obtain ⟨line, more, rfl⟩ := CrlfLines.exists_line_of_split (by decide) hlines
        simp [(isStatusLine_line _).reads, readHeaders_null]

/-- The reply of a handshake, with one of its headers. -/
theorem wellFormed_counterexample :
    let reply : Reply := ⟨.switchingProtocols, [⟨chars "Upgrade", chars "websocket"⟩]⟩
    (reply.headers ≠ [] ∧ ∀ header ∈ reply.headers, IsLine header.name ∧ IsLine header.value) ∧
      ¬ (reply.wire = reply.text ∧
        readResponse reply.wire = some (reply.status.code, reply.headers)) := by
  refine ⟨by decide, fun h => ?_⟩
  have hread : readResponse (Reply.wire ⟨.switchingProtocols,
      [⟨chars "Upgrade", chars "websocket"⟩]⟩) = none := by decide
  simp [hread] at h

end Rfc6455Engine

end Splice
