import Splice.RequestParser

/-!
# Splice.Rfc6455Engine

The HTTP side of `rfc6455_engine`: the reply to an upgrade request.

SHA-1 and the base64 iterators come from Boost and are parameters here.
-/

namespace Splice

open Incremental (Tribool)

namespace Rfc6455Engine

/-- What the engine uses of Boost: the digest of some bytes, and the characters that the
base64 iterator gives for the first `size` bytes of a buffer. -/
structure Boost where
  sha1 : List UInt8 → Vector UInt32 5
  base64 : List UInt8 → Nat → List UInt8

/-- `reply::status_type`. -/
inductive StatusType where
  | switchingProtocols
  | badRequest
  | internalServerError
  deriving DecidableEq, Repr

/-- `rfc6455_engine::reply`. -/
structure Reply where
  status : StatusType
  headers : List Header
  deriving DecidableEq, Repr

namespace Reply

/-- `to_buffer`.  The buffers are made of string literals, character arrays that end
with a null character. -/
def toBuffer : StatusType → List UInt8
  | .switchingProtocols => chars "HTTP/1.1 101 Switching Protocols\r\n" ++ [0]
  | .badRequest => chars "HTTP/1.1 400 Bad Request\r\n" ++ [0]
  | .internalServerError => chars "HTTP/1.1 500 Internal Server Error\r\n" ++ [0]

def toBuffers (reply : Reply) : List (List UInt8) :=
  toBuffer reply.status ::
    reply.headers.flatMap (fun h => [h.name, chars ": ", h.value, chars "\r\n"]) ++
      [chars "\r\n"]

def stockReply (status : StatusType) : Reply := ⟨status, []⟩

end Reply

/-- Byte `i` of a digest. -/
def hashByte (digest : Vector UInt32 5) (i : Nat) : UInt8 :=
  (digest.toList.getD (i / 4) 0 >>> UInt32.ofNat (8 * (3 - i % 4))).toUInt8

/-- `to_sha1`: encode data using the SHA1 algorithm. -/
def toSha1 (boost : Boost) (s : List UInt8) : List UInt8 :=
  (List.range 20).map (hashByte (boost.sha1 s))

/-- `to_base64`: encode data using the Base64 algorithm. -/
def toBase64 (boost : Boost) (data : List UInt8) : List UInt8 :=
  let numberOfPaddChars := if data.length % 3 ≠ 0 then 3 - data.length % 3 else 0
  boost.base64 (data ++ List.replicate numberOfPaddChars 0) data.length ++
    List.replicate numberOfPaddChars '='.toUInt8

/-- `request_handler::handle_request`: handle a request and produce a reply. -/
def handleRequest (boost : Boost) (req : Request) : Reply :=
  match req.headers.find? fun i => i.name = chars "Sec-WebSocket-Key" with
  | none => .stockReply .badRequest
  | some header =>
      let magicGuid := chars "258EAFA5-E914-47DA-95CA-C5AB0DC85B11"
      { status := .switchingProtocols
        headers :=
          [⟨chars "Upgrade", chars "websocket"⟩,
            ⟨chars "Connection", chars "Upgrade"⟩,
            ⟨chars "Sec-WebSocket-Accept",
              toBase64 boost (toSha1 boost (header.value ++ magicGuid))⟩] }

/-- `request_parser().parse`, on a fresh request. -/
def parseRequest (input : List UInt8) :
    Tribool × (RequestParser.State × Request) × List UInt8 :=
  RequestParser.parse .methodStart .new input

/-- A request is answered with an upgrade exactly if it has a key. -/
theorem handleRequest_status (boost : Boost) (req : Request) :
    (handleRequest boost req).status = .switchingProtocols ↔
      ∃ header ∈ req.headers, header.name = chars "Sec-WebSocket-Key" := by
  unfold handleRequest
  cases h : req.headers.find? fun i => i.name = chars "Sec-WebSocket-Key" with
  | none =>
      have hnone := List.find?_eq_none.mp h
      simpa [Reply.stockReply] using hnone
  | some header =>
      have hname := List.find?_some h
      have hmem := List.mem_of_find?_eq_some h
      simp only [true_iff]
      exact ⟨header, hmem, by simpa using hname⟩

end Rfc6455Engine

end Splice
