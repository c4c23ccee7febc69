import Splice.HttpServer
import Splice.ReplyWire
import Splice.MultiProtocol

/-!
# Splice.HttpReply

The bytes of an `http::server::reply`.  Its status line is a `std::string` and its headers say
how long the content is, so a reply delimits itself: `readReply` is a strict reader of streams
that takes off its status, its headers and its content, and nothing behind them, and takes no
part of it for a reply (`Reply.WellFormed.delimits`).  So are all replies of `handleRequest`
(`wellFormed_handleRequest`).
-/

namespace Splice

open CrlfLines (IsLine readHead reads_head stable_readHead)
open StreamReader

/-! ## Decimal numerals -/

/-- An ASCII character is encoded by one byte. -/
theorem utf8EncodeChar_of_le {c : Char} (h : c.val ≤ 127) :
    String.utf8EncodeChar c = [c.toUInt8] := by
  rw [String.utf8EncodeChar_eq_utf8EncodeCharFast, String.utf8EncodeCharFast, if_pos h]
  rfl

/-- A text of ASCII characters has one byte for each. -/
theorem chars_ofList {cs : List Char} (h : ∀ c ∈ cs, c.val ≤ 127) :
    chars (String.ofList cs) = cs.map Char.toUInt8 := by
  have hflat : cs.flatMap String.utf8EncodeChar = cs.map Char.toUInt8 := by
    induction cs with
    | nil => rfl
    | cons c cs ih =>
        obtain ⟨hc, hcs⟩ := List.forall_mem_cons.mp h
        rw [List.flatMap_cons, utf8EncodeChar_of_le hc, ih hcs]
        rfl
  simp [chars, String.toUTF8, List.utf8Encode, hflat]

/-- The byte of a digit, and its value. -/
theorem digitChar_spec : ∀ d < 10, (Nat.digitChar d).val ≤ 127 ∧
    isDecimal (Nat.digitChar d).toUInt8 ∧ (Nat.digitChar d).toUInt8.toNat - '0'.toNat = d := by
  decide

/-- The digits of a number are decimal. -/
theorem mem_toDigits {n : Nat} {c : Char} (h : c ∈ Nat.toDigits 10 n) :
    ∃ d < 10, c = Nat.digitChar d := by
  induction n using Nat.strongRecOn with
  | ind n ih =>
      rw [Nat.toDigits_eq_if (by decide)] at h
      split at h
      · next hlt => exact ⟨n, hlt, List.mem_singleton.mp h⟩
      · next hle =>
          rcases List.mem_append.mp h with hrest | hlast
          · exact ih (n / 10) (by omega) hrest
          · exact ⟨n % 10, Nat.mod_lt _ (by decide), List.mem_singleton.mp hlast⟩

/-- A number is written with its digits. -/
theorem chars_toString (n : Nat) : chars (toString n) = (Nat.toDigits 10 n).map Char.toUInt8 := by
  rw [Nat.toString_eq_ofList_toDigits]
  refine chars_ofList fun c hc => ?_
  obtain ⟨d, hd, rfl⟩ := mem_toDigits hc
  exact (digitChar_spec d hd).1

/-- What is written of a number is digits. -/
theorem isDecimal_toString {n : Nat} {b : UInt8} (h : b ∈ chars (toString n)) : isDecimal b := by
  rw [chars_toString] at h
  obtain ⟨c, hc, rfl⟩ := List.mem_map.mp h
  obtain ⟨d, hd, rfl⟩ := mem_toDigits hc
  exact (digitChar_spec d hd).2.1

theorem toString_ne_nil (n : Nat) : chars (toString n) ≠ [] := by
  rw [chars_toString]
  simp

/-- **A decimal numeral is read back.** -/
theorem decimalValue_toString (n : Nat) : decimalValue (chars (toString n)) = n := by
  rw [chars_toString]
  induction n using Nat.strongRecOn with
  | ind n ih =>
      rw [Nat.toDigits_eq_if (by decide)]
      split
      · next hlt => simpa [decimalValue] using (digitChar_spec n hlt).2.2
      · next hle =>
          have hrest := ih (n / 10) (by omega)
          have hlast := (digitChar_spec (n % 10) (Nat.mod_lt _ (by decide))).2.2
          rw [decimalValue] at hrest ⊢
          rw [List.map_append, List.map_append, List.reverse_append, List.map_singleton,
            List.map_singleton, List.reverse_singleton, List.singleton_append, Nat.ofDigits_cons,
            hrest, hlast]
          omega

namespace HttpServer

/-- The value of a status. -/
def StatusType.code : StatusType → Nat
  | .ok => 200
  | .created => 201
  | .accepted => 202
  | .noContent => 204
  | .multipleChoices => 300
  | .movedPermanently => 301
  | .movedTemporarily => 302
  | .notModified => 304
  | .badRequest => 400
  | .unauthorized => 401
  | .forbidden => 403
  | .notFound => 404
  | .internalServerError => 500
  | .notImplemented => 501
  | .badGateway => 502
  | .serviceUnavailable => 503

/-! ## A strict reader -/

/-- The length that the headers give: the value of the one header of that name, all digits. -/
def contentLength (headers : List Header) : Option Nat :=
  match headers.filter fun h => h.name = chars "Content-Length" with
  | [h] => if h.value ≠ [] ∧ h.value.all isDecimal then some (decimalValue h.value) else none
  | _ => none

/-- What the lines of a head say: the status, the headers and the length of the content. -/
def readHeadLines : List (List UInt8) → Option (Nat × List Header × Nat)
  | [] => none
  | statusLine :: lines => do
      let status ← readStatusLine (chars "HTTP/1.0 ") statusLine
      let headers ← lines.mapM Rfc6455Engine.readHeader
      let length ← contentLength headers
      return (status, headers, length)

/-- A reply: its status, its headers and its content. -/
def readReply : Reader UInt8 (Nat × List Header × List UInt8) := do
  let lines ← readHead
  let (status, headers, length) ← liftM (readHeadLines lines)
  let content ← StreamReader.take length
  return (status, headers, content)

namespace Reply

/-- What goes on the wire. -/
def wire (reply : Reply) : List UInt8 := reply.toBuffers.flatten

/-- The status line, without its end. -/
def statusLine (status : StatusType) : List UInt8 := (chars (statusString status)).dropLast.dropLast

/-- The lines before the content. -/
def head (reply : Reply) : List (List UInt8) :=
  statusLine reply.status :: reply.headers.map Rfc6455Engine.Reply.headerLine

/-- A reply that says how long it is. -/
structure WellFormed (reply : Reply) : Prop where
  writable : ∀ h ∈ reply.headers, Rfc6455Engine.Writable h
  contentLength_eq : contentLength reply.headers = some reply.content.length

end Reply

/-! ## What is written is read back -/

/-- The status string ends its line. -/
theorem chars_statusString (status : StatusType) :
    chars (Reply.statusString status) = Reply.statusLine status ++ crlf := by
  cases status <;> decide

/-- The line of a status says that status. -/
theorem isStatusLine_statusLine (status : StatusType) :
    IsStatusLine (chars "HTTP/1.0 ") (Reply.statusLine status) status.code := by
  cases status <;> exact ⟨by decide, by decide⟩

/-- The wire holds the lines of the head, an empty one and the content. -/
theorem wire_eq (reply : Reply) :
    reply.wire = CrlfLines.join (reply.head ++ [[]]) ++ reply.content := by
  have hcrlf : chars "\r\n" = [13, 10] := by decide
  have hend : crlf = [13, 10] := rfl
  rw [Reply.wire, Reply.toBuffers, List.flatten_append, List.flatten_cons,
    Rfc6455Engine.flatten_headerBuffers, chars_statusString, hcrlf, hend]
  simp [CrlfLines.join, Reply.head, Rfc6455Engine.Reply.headerLine, List.flatMap_map]

/-- Headers that can be written are read back. -/
theorem mapM_readHeader {headers : List Header}
    (h : ∀ header ∈ headers, Rfc6455Engine.Writable header) :
    (headers.map Rfc6455Engine.Reply.headerLine).mapM Rfc6455Engine.readHeader = some headers := by
  induction headers with
  | nil => rfl
  | cons header headers ih =>
      obtain ⟨hheader, hheaders⟩ := List.forall_mem_cons.mp h
      simp [Rfc6455Engine.readHeader_headerLine hheader, ih hheaders]

/-- The head says the status, the headers and the length of the content. -/
theorem readHeadLines_head {reply : Reply} (h : reply.WellFormed) :
    readHeadLines reply.head = some (reply.status.code, reply.headers, reply.content.length) := by
  simp [Reply.head, readHeadLines, (isStatusLine_statusLine _).reads, mapM_readHeader h.writable,
    h.contentLength_eq]

/-- Its lines end where they should. -/
theorem isLine_head {reply : Reply} (h : reply.WellFormed) :
    ∀ line ∈ reply.head, line ≠ [] ∧ IsLine line := by
  intro line hline
  rcases List.mem_cons.mp hline with rfl | hheader
  · exact ⟨(isStatusLine_statusLine reply.status).ne_nil,
      (isStatusLine_statusLine reply.status).isLine⟩
  · obtain ⟨header, hmem, rfl⟩ := List.mem_map.mp hheader
    have hwritable := h.writable header hmem
    refine ⟨?_, Rfc6455Engine.isLine_headerLine hwritable⟩
    simp [Rfc6455Engine.Reply.headerLine, hwritable.1.1]

/-- **A reply is read back**, and no more than it. -/
theorem reads_wire {reply : Reply} (h : reply.WellFormed) :
    Reads readReply (reply.status.code, reply.headers, reply.content) reply.wire := by
  rw [wire_eq]
  refine (reads_head (isLine_head h)).bind (.lift_bind (readHeadLines_head h) ?_)
  have hcontent : Reads
      (StreamReader.take reply.content.length >>= fun content =>
        pure (reply.status.code, reply.headers, content))
      (reply.status.code, reply.headers, reply.content) (reply.content ++ []) :=
    (reads_take reply.content).bind (reads_pure _)
  rwa [List.append_nil] at hcontent

/-- More bytes behind a reply do not change what is read of it. -/
theorem stable_readReply : Stable readReply :=
  stable_readHead.bind fun _ => (stable_lift _).bind fun _ =>
    (stable_take _).bind fun _ => stable_pure _

/-- A reply that is read off the wire, whatever follows, and no part of which is. -/
def Delimits (reply : Reply) : Prop :=
  Reads readReply (reply.status.code, reply.headers, reply.content) reply.wire ∧
    ∀ part, part <+: reply.wire → part ≠ reply.wire → readReply part = none

/-- A well-formed reply delimits itself. -/
theorem Reply.WellFormed.delimits {reply : Reply} (h : reply.WellFormed) : Delimits reply :=
  ⟨reads_wire h, fun _ hpart hne => (reads_wire h).unfinished stable_readReply hpart hne⟩

/-! ## The replies of the server -/

theorem isLine_toString (n : Nat) : IsLine (chars (toString n)) := by
  have hdecimal : ∀ b, isDecimal b → b ≠ 13 ∧ b ≠ 10 := forall_uInt8 (by decide +kernel)
  exact fun b hb => hdecimal b (isDecimal_toString hb)

/-- A content type stays in a line. -/
theorem isLine_extensionToType (extension : List UInt8) :
    IsLine (chars (extensionToType extension)) := by
  have hmappings : ∀ m ∈ [("gif", "image/gif"), ("htm", "text/html"), ("html", "text/html"),
      ("jpg", "image/jpeg"), ("png", "image/png")], IsLine (chars m.2) := by decide
  have hplain : IsLine (chars "text/plain") := by decide
  simp only [extensionToType]
  split
  · next m hm => exact hmappings m (List.mem_of_find?_eq_some hm)
  · exact hplain

/-- The two headers that all replies have. -/
theorem wellFormed_contentHeaders {status : StatusType} {content : List UInt8} {mimeType : String}
    (h : IsLine (chars mimeType)) :
    Reply.WellFormed ⟨status, Reply.contentHeaders content mimeType, content⟩ where
  writable := by
    have hnames : ∀ name ∈ [chars "Content-Length", chars "Content-Type"],
        name ≠ [] ∧ name.all isToken := by decide
    intro header hheader
    rcases List.mem_cons.mp hheader with rfl | hheader
    · obtain ⟨hne, htoken⟩ := hnames _ (List.mem_cons_self ..)
      exact ⟨⟨hne, fun b hb => List.all_eq_true.mp htoken b hb⟩, isLine_toString _⟩
    · obtain rfl := List.mem_singleton.mp hheader
      obtain ⟨hne, htoken⟩ := hnames _ (List.mem_cons_of_mem _ (List.mem_cons_self ..))
      exact ⟨⟨hne, fun b hb => List.all_eq_true.mp htoken b hb⟩, h⟩
  contentLength_eq := by
    have hother : chars "Content-Type" ≠ chars "Content-Length" := by decide
    have hdigits : (chars (toString content.length)).all isDecimal :=
      List.all_eq_true.mpr fun b hb => isDecimal_toString hb
    have hfilter : (Reply.contentHeaders content mimeType).filter
        (fun h => h.name = chars "Content-Length") =
        [⟨chars "Content-Length", chars (toString content.length)⟩] := by
      simp [Reply.contentHeaders, hother]
    rw [contentLength, hfilter]
    dsimp only
    rw [if_pos ⟨toString_ne_nil _, hdigits⟩, decimalValue_toString]

/-- Stock replies say how long they are. -/
theorem wellFormed_stockReply (status : StatusType) : (Reply.stockReply status).WellFormed :=
  wellFormed_contentHeaders (by decide)

/-- **So does the reply to every request.** -/
theorem wellFormed_handleRequest (site : Site) (req : Request) :
    (handleRequest site req).WellFormed := by
  unfold handleRequest
  split
  · exact wellFormed_stockReply .badRequest
  · split
    · exact wellFormed_stockReply .badRequest
    · dsimp only
      split
      · exact wellFormed_stockReply .notFound
      · exact wellFormed_contentHeaders (isLine_extensionToType _)

end HttpServer

end Splice
