import Splice.MultiProtocol

/-!
# Splice.EchoServer

`multi_protocol_echo/server`: the server with five protocols, and the handshakes of its
sessions.
-/

namespace Splice

namespace EchoServer

/-- The `try_handshake` of its sessions: the same GUID must be sent from client. -/
def tryGuid (guid : String) : TryHandshake := fun _ incoming =>
  chars guid == incoming

def myWsSession : Session :=
  .ws ⟨tryGuid "\x7bFB3D4012-F196-4299-9531-0AEACBB3ED89\x7d", WsSession.onHandshakeSuccess⟩

def myHttpSession (site : HttpServer.Site) : Session := .http site

/-- Its `on_handshake_success` only tells the server: a log session never reads. -/
def myLogSession : Session :=
  .ws ⟨tryGuid "\x7b82F0D331-F6C1-4227-8015-C89276E1931B\x7d", []⟩

def mySerializationSession : Session :=
  .serialization (tryGuid "\x7b40CBD5AC-856A-4EA5-AE00-DFB199ABED64\x7d")

def myTcpSession : Session := .tcp (tryGuid "\x7b21BB758F-BC6A-42C4-92B1-6B5332CEAEBF\x7d")

/-- `my_server`, serving a directory. -/
def myServer (site : HttpServer.Site) : Server where
  protocolCount := 5
  one_le_protocolCount := by decide
  constructSession := myWsSession
  doNextHandshake protocolIndex :=
    if protocolIndex = 0 then some myTcpSession
    else if protocolIndex = 1 then some mySerializationSession
    else if protocolIndex = 2 then some myLogSession
    else if protocolIndex = 3 then some (myHttpSession site)
    else none

/-! ## A client of it -/

/-- An upgrade request. -/
def upgradeRequest : List UInt8 := chars
  "GET / HTTP/1.1\r\nUpgrade: websocket\r\nSec-WebSocket-Key: dGhlIHNhbXBsZSBub25jZQ==\r\n\r\n"

/-- It is one request, to its last byte. -/
theorem parse_upgradeRequest : Rfc6455Engine.parseRequest upgradeRequest =
    (.true, ((Rfc6455Engine.parseRequest upgradeRequest).2.1.1,
      (Rfc6455Engine.parseRequest upgradeRequest).2.1.2), []) := by
  decide

/-- A text frame with a GUID, masked with zeros. -/
def guidFrame (guid : String) : List UInt8 := [0x81, 0xA6, 0, 0, 0, 0] ++ chars guid

/-- A host for a run in which that request is answered: the digest and the characters
are those of its key. -/
def answering : Env where
  host := .little
  boost :=
    { sha1 := fun _ => #v[0xb37a4f2c, 0xc0624f16, 0x90f64606, 0xcf385945, 0xb2bec4ea]
      base64 := fun _ _ => chars "s3pPLMBiTxaQ9kYGzzhZRbK+xOo" }
  operationAborted := 125

/-- The reply to that request. -/
def upgradeReply : Rfc6455Engine.Reply where
  status := .switchingProtocols
  headers :=
    [⟨chars "Upgrade", chars "websocket"⟩, ⟨chars "Connection", chars "Upgrade"⟩,
      ⟨chars "Sec-WebSocket-Accept", chars "s3pPLMBiTxaQ9kYGzzhZRbK+xOo="⟩]

/-- A site without files. -/
def noFiles : HttpServer.Site := ⟨[], fun _ => none⟩

/-- What the client of a GUID does: it upgrades and sends the GUID. -/
def upgradeWith (guid : String) : List Label :=
  [.readCompletes #v[0, 0, 0, 0] 0 upgradeRequest, .writeCompletes 0,
    .readCompletes #v[0, 0, 0, 0] 0 (guidFrame guid)]

end EchoServer

end Splice
