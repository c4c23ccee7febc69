import Splice.HttpReply
import Splice.Lib.WhileLoop

/-!
# Splice.RequestHandler

`request_handler::handle_request` with the loop that reads the file, in pieces of 512 bytes
through a buffer on the stack.  The loop ends for every file, after as many iterations as the
file has pieces, and leaves all of it in the content (`run_readLoop`); so the function comes to
`handleRequest`, and what it sends delimits itself (`handleRequest_delimits`).
-/

namespace Splice

namespace HttpServer

/-- A `std::ifstream`: what has not been extracted, whether it is good, and the characters
that the last `read` extracted. -/
structure IfStream where
  unread : List UInt8
  good : Bool
  gcount : Nat
  deriving DecidableEq, Repr

namespace IfStream

/-- A stream on a file that could be opened. -/
def opened (file : List UInt8) : IfStream := ⟨file, true, 0⟩

/-- `read(buf, size)`: the stream and the buffer after it.  A stream that is not good extracts
nothing, and one that comes to its end is not good any more. -/
def read (is : IfStream) (buf : List UInt8) (size : Nat) : IfStream × List UInt8 :=
  if is.good then
    (⟨is.unread.drop size, size ≤ is.unread.length, min size is.unread.length⟩,
      is.unread.take size ++ buf.drop (min size is.unread.length))
  else (⟨is.unread, false, 0⟩, buf)

end IfStream

/-- The loop: the stream, the buffer and the content, after the `read` in its condition. -/
structure ReadLoop where
  is : IfStream
  buf : List UInt8
  content : List UInt8
  deriving DecidableEq, Repr

namespace ReadLoop

/-- The `read` of the condition. -/
def readBuf (s : ReadLoop) : ReadLoop :=
  let (is, buf) := s.is.read s.buf 512
  ⟨is, buf, s.content⟩

/-- `is.gcount() > 0`. -/
def cond (s : ReadLoop) : Bool := 0 < s.is.gcount

/-- `content.append(buf, is.gcount())`, and the condition again. -/
def body (s : ReadLoop) : ReadLoop :=
  readBuf ⟨s.is, s.buf, s.content ++ s.buf.take s.is.gcount⟩

/-- The characters that the last `read` extracted. -/
def piece (s : ReadLoop) : List UInt8 := s.buf.take s.is.gcount

end ReadLoop

/-- The content of a file; `buf` is what the buffer happens to hold.  None if the iterations
do not suffice. -/
def readContent (bound : Nat) (buf file : List UInt8) : Option (List UInt8) :=
  (WhileLoop.run ReadLoop.cond ReadLoop.body bound
    (ReadLoop.readBuf ⟨.opened file, buf, []⟩)).map ReadLoop.content

/-- `handle_request`, with its loop. -/
def RequestHandler.handleRequest (bound : Nat) (buf : List UInt8) (site : Site) (req : Request) :
    Option Reply :=
  match urlDecode req.uri with
  | none => some (.stockReply .badRequest)
  | some requestPath =>
      if requestPath.head? ≠ some '/'.toUInt8 ∨ contains (chars "..") requestPath then
        some (.stockReply .badRequest)
      else
        let requestPath :=
          if requestPath.getLast? = some '/'.toUInt8 then requestPath ++ chars "index.html"
          else requestPath
        match site.openFile (cString (site.docRoot ++ requestPath)) with
        | none => some (.stockReply .notFound)
        | some file => do
            let content ← readContent bound buf file
            return { status := .ok
                     headers := Reply.contentHeaders content
                       (extensionToType (extensionOf requestPath))
                     content := content }

/-! ## The loop -/

namespace ReadLoop

variable {file : List UInt8} {s : ReadLoop}

/-- The invariant, with the number of pieces that are not in the content yet. -/
structure Reading (file : List UInt8) (left : Nat) (s : ReadLoop) : Prop where
  file_eq : s.content ++ (s.piece ++ s.is.unread) = file
  gcount_eq : s.is.gcount = s.piece.length
  gcount_le : s.is.gcount ≤ 512
  full : s.is.unread ≠ [] → s.is.good ∧ s.is.gcount = 512
  left_eq : left = (s.is.gcount + s.is.unread.length + 511) / 512

/-- After a `read` of a good stream. -/
theorem readBuf_of_good (h : s.is.good) :
    s.readBuf.content = s.content ∧ s.readBuf.piece = s.is.unread.take 512 ∧
      s.readBuf.is = ⟨s.is.unread.drop 512, 512 ≤ s.is.unread.length,
        min 512 s.is.unread.length⟩ := by
  have htake : s.is.unread.take 512 = s.is.unread.take (min 512 s.is.unread.length) := by
    rw [List.take_eq_take_iff]
    omega
  have hlen : (s.is.unread.take 512).length = min 512 s.is.unread.length := List.length_take
  refine ⟨by simp [readBuf, IfStream.read, h], ?_, by simp [readBuf, IfStream.read, h]⟩
  simp only [piece, readBuf, IfStream.read, h, if_true]
  rw [← hlen, List.take_left]

/-- A `read` of a good stream begins on what is unread. -/
theorem reading_readBuf (hgood : s.is.good) (h : s.content ++ s.is.unread = file) :
    Reading file ((s.is.unread.length + 511) / 512) s.readBuf := by
  obtain ⟨hcontent, hpiece, his⟩ := readBuf_of_good hgood
  refine ⟨?_, ?_, ?_, ?_, ?_⟩
  · rw [hcontent, hpiece, his, List.take_append_drop, h]
  · rw [hpiece, his, List.length_take]
  · rw [his]
    exact Nat.min_le_left _ _
  · intro hne
    rw [his] at hne ⊢
    have hlt : 512 < s.is.unread.length := by simpa using hne
    exact ⟨by simp; omega, by simp; omega⟩
  · rw [his]
    simp only [List.length_drop]
    omega

theorem not_cond_of_reading (h : Reading file 0 s) : ¬ s.cond := by
  have hleft := h.left_eq
  simp only [cond, decide_eq_true_eq]
  omega

/-- One iteration takes one piece. -/
theorem reading_body {left : Nat} (h : Reading file (left + 1) s) :
    s.cond ∧ Reading file left s.body := by
  have hleft := h.left_eq
  have hle := h.gcount_le
  have hpos : 0 < s.is.gcount := by
    by_cases hunread : s.is.unread = []
    · rw [hunread] at hleft
      simp only [List.length_nil] at hleft
      omega
    · have hfull := (h.full hunread).2
      omega
  have hfile : (s.content ++ s.piece) ++ s.is.unread = file := by
    rw [List.append_assoc, h.file_eq]
  refine ⟨by simpa [cond] using hpos, ?_⟩
  by_cases hgood : s.is.good
  · have hreading := reading_readBuf (s := ⟨s.is, s.buf, s.content ++ s.piece⟩) hgood hfile
    have hcount : (s.is.unread.length + 511) / 512 = left := by
      by_cases hunread : s.is.unread = []
      · rw [hunread] at hleft ⊢
        simp only [List.length_nil] at hleft ⊢
        omega
      · have hfull := (h.full hunread).2
        omega
    exact hcount ▸ hreading
  · have hunread : s.is.unread = [] := by
      by_contra hne
      exact hgood (h.full hne).1
    have hbody : s.body = ⟨⟨[], false, 0⟩, s.buf, s.content ++ s.piece⟩ := by
      simp [body, readBuf, IfStream.read, hgood, hunread, piece]
    rw [hunread, List.append_nil] at hfile
    rw [hunread] at hleft
    simp only [List.length_nil] at hleft
    rw [hbody]
    refine ⟨by simpa [piece] using hfile, rfl, Nat.zero_le _, fun hne => absurd rfl hne, ?_⟩
    simp only [List.length_nil]
    omega

/-- **The loop reads the whole file**, one piece in an iteration. -/
theorem run_readLoop (buf file : List UInt8) {bound : Nat}
    (hbound : (file.length + 511) / 512 ≤ bound) :
    readContent bound buf file = some file := by
  have hstart : Reading file ((file.length + 511) / 512)
      (readBuf ⟨.opened file, buf, []⟩) :=
    reading_readBuf (s := ⟨.opened file, buf, []⟩) rfl rfl
  obtain ⟨s, hend, hrun⟩ := WhileLoop.run_countdown (fun _ => not_cond_of_reading)
    (fun _ _ => reading_body) hstart
  have hleft := hend.left_eq
  have hunread : s.is.unread = [] := List.eq_nil_of_length_eq_zero (by omega)
  have hpiece : s.piece = [] := List.eq_nil_of_length_eq_zero (by have := hend.gcount_eq; omega)
  have hfile := hend.file_eq
  rw [hpiece, hunread, List.append_nil, List.append_nil] at hfile
  rw [readContent, hrun bound hbound, Option.map_some, hfile]

end ReadLoop

/-! ## The whole function -/

/-- Iterations that suffice for a request: the pieces of the file that it opens. -/
def pieces (site : Site) (req : Request) : Nat :=
  ((handleRequest site req).content.length + 511) / 512

theorem run_handleRequest (site : Site) (buf : List UInt8) (req : Request) {bound : Nat}
    (hbound : pieces site req ≤ bound) :
    RequestHandler.handleRequest bound buf site req = some (handleRequest site req) := by
  unfold pieces handleRequest at hbound
  unfold RequestHandler.handleRequest handleRequest
  cases hpath : urlDecode req.uri with
  | none => rfl
  | some requestPath =>
      by_cases hrefused : requestPath.head? ≠ some '/'.toUInt8 ∨ contains (chars "..") requestPath
      · simp only [hrefused, if_true]
      · simp only [hpath, hrefused, if_false] at hbound ⊢
        generalize (if requestPath.getLast? = some '/'.toUInt8 then
          requestPath ++ chars "index.html" else requestPath) = path at hbound ⊢
        cases hopen : site.openFile (cString (site.docRoot ++ path)) with
        | none => rfl
        | some file =>
            simp only [hopen] at hbound
            simp [ReadLoop.run_readLoop buf file hbound]

/-- **What the server sends for a request** delimits itself, and the loop that fills it
ends. -/
theorem handleRequest_delimits (site : Site) (buf : List UInt8) (req : Request) :
    (∀ bound, pieces site req ≤ bound →
      RequestHandler.handleRequest bound buf site req = some (handleRequest site req)) ∧
    Delimits (handleRequest site req) :=
  ⟨fun _ hbound => run_handleRequest site buf req hbound,
    (wellFormed_handleRequest site req).delimits⟩

end HttpServer

end Splice
