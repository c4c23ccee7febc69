import Splice.RawClient
import Splice.SerializationHeader

/-!
# Splice.SerializeClient

`serialize_client` at the echo server, both ends and the bytes in flight between them.  The
client sends the GUID of `my_serialization_session`, then a message, and reads once; the
session reads once and sends the message back with its own time.  Where assertions are
compiled in, a failed one ends a program; with `NDEBUG` the handlers go on.

Each end goes through a few phases, and a read that fills its buffer brings what the other
end has said.  Any other read fails an assertion (`Checked`).
-/

namespace Splice

open ComposedWrite
open EchoServer
open Serialization (Handler Receiver filled headerLength sizeField)
open Transition

namespace SerializeClient

/-! ## The messages -/

/-- `client_server_protocol`: `client_echo_timed_t` and `server_echo_timed_t`. -/
inductive Message where
  | clientEchoTimed (msg : List UInt8) (sent : Int64)
  | serverEchoTimed (msg : List UInt8) (clientSent serverSent : Int64)
  deriving DecidableEq, Repr

/-- The archives of the messages, the line that is typed in, and whether assertions are
compiled in. -/
structure Setup where
  archive : Message → List UInt8
  unarchive : List UInt8 → Option Message
  request : List UInt8
  isDebug : Bool

/-- The two ends. -/
inductive Side where
  | client
  | server
  deriving DecidableEq, Repr

/-- The GUID that `on_socket_connected` sends. -/
def guid : List UInt8 := chars "\x7b40CBD5AC-856A-4EA5-AE00-DFB199ABED64\x7d"

/-! ## One end -/

/-- The handler that is outstanding. -/
inductive Pending where
  | onWriteGuid
  | onWrite
  | onRead (size : Nat) (handler : Handler)
  deriving DecidableEq, Repr

/-- A session: what is outstanding, what it writes, how many bytes it has read, and the
messages that it has passed to `async_write` and that have reached its `on_read`. -/
structure Party where
  pending : Option Pending
  out : Sink UInt8
  taken : Nat
  said : List Message
  heard : List Message

namespace Party

/-- Nothing has happened. -/
def idle : Party := ⟨none, .empty, 0, [], []⟩

/-- `serialization_session::async_write`. -/
def asyncWrite (setup : Setup) (p : Party) (msg : Message) : Party :=
  match SerializationSession.asyncWrite setup.archive msg with
  | .ok buffers =>
      { p with
        pending := some .onWrite
        out := p.out.start buffers.flatten
        said := p.said ++ [msg] }
  | .error _ => { p with pending := none }

/-- The two `on_read`s.  Both assert that the message is one for them, and do nothing with
another one. -/
def onRead (setup : Setup) (now : Int64) (p : Party) : Side → Message → Party
  | .server, .clientEchoTimed msg sent => p.asyncWrite setup (.serverEchoTimed msg sent now)
  | .client, .serverEchoTimed _ _ _ => p
  | .server, .serverEchoTimed _ _ _ | .client, .clientEchoTimed _ _ => p

/-- Make a call. -/
def perform (setup : Setup) (side : Side) (now : Int64) (p : Party) :
    Serialization.Call Message → Party
  | .onRead msg => { p with heard := p.heard ++ [msg] }.onRead setup now side msg
  | .asyncReadSome size handler => { p with pending := some (.onRead size handler) }
  | .onReadStruct _ | .onErrorCode _ | .onErrorExEc _ | .assertFailed _ | .lengthError => p

/-- Make the calls of a handler, up to the assertion that ends the program. -/
def performAll (setup : Setup) (side : Side) (now : Int64) (p : Party) :
    List (Serialization.Call Message) → Party
  | [] => p
  | .assertFailed text :: calls =>
      if setup.isDebug then p
      else performAll setup side now (p.perform setup side now (.assertFailed text)) calls
  | call :: calls => performAll setup side now (p.perform setup side now call) calls

/-- A read has completed. -/
def completeRead (setup : Setup) (side : Side) (now : Int64) (p : Party) (size : Nat)
    (handler : Handler) (bytes : List UInt8) : Party :=
  { p with pending := none, taken := p.taken + bytes.length }.performAll setup side now
    (Receiver.session.handle setup.unarchive handler (filled size bytes) 0 bytes.length)

/-- `on_write_guid` and `type_in`. -/
def onWriteGuid (setup : Setup) (now : Int64) (p : Party) : Party :=
  p.asyncWrite setup (.clientEchoTimed setup.request now)

/-- `on_write_msg` of the two. -/
def onWriteMsg (p : Party) : Side → Party
  | .client => { p with pending := some (.onRead headerLength .onReadHeader) }
  | .server => { p with pending := none }

def onHandshakeSuccess (p : Party) : Party :=
  { p with pending := some (.onRead headerLength .onReadHeader) }

/-- `on_socket_connected` of the client. -/
def onSocketConnected : Party :=
  { idle with
    pending := some .onWriteGuid
    out := Sink.empty.start (TcpSession.asyncWrite guid).flatten }

end Party

/-! ## The two of them -/

end SerializeClient

open SerializeClient

/-- The client, the server's connection up to its handshake, and the session it is handed
to. -/
structure SerializeClient where
  client : Party
  conn : Conn
  begun : Bool
  server : Party

namespace SerializeClient

/-- The client has connected. -/
def start (site : HttpServer.Site) : SerializeClient where
  client := .onSocketConnected
  conn := Conn.onAccept (myServer site)
  begun := false
  server := .idle

/-- One of the ends. -/
def party (s : SerializeClient) : Side → Party
  | .client => s.client
  | .server => s.server

def update (s : SerializeClient) (p : Party) : Side → SerializeClient
  | .client => { s with client := p }
  | .server => { s with server := p }

/-- The bytes on their way to an end. -/
def incoming (s : SerializeClient) : Side → List UInt8
  | .client => s.server.out.wire.drop s.client.taken
  | .server => s.client.out.wire.drop s.server.taken

/-- What happens: a read of the server's connection and a call during the handshake, the
handover, then at either end: the socket takes bytes, a write completes, a read completes,
or what is outstanding fails.  `now` is the time where it is asked for. -/
inductive Label where
  | handshakeRead (junk : MaskingKey) (error : ErrorCode) (count : Nat)
  | handshakeCall
  | onHandshakeSuccess
  | writeSome (side : Side) (op count : Nat)
  | writeCompletes (side : Side) (now : Int64)
  | readCompletes (side : Side) (count : Nat) (now : Int64)
  | fails (side : Side)

/-- One step. -/
def step (setup : Setup) (site : HttpServer.Site) (env : Env) (s : SerializeClient) :
    Label → Option SerializeClient
  | .handshakeRead junk error count =>
      if error = 0 → 0 < count ∧ count ≤ (s.incoming .server).length then do
        let bytes := if error = 0 then (s.incoming .server).take count else []
        let conn ← s.conn.step (myServer site) env (.readCompletes junk error bytes)
        return { s with
          conn := conn
          server := { s.server with taken := s.server.taken + bytes.length } }
      else none
  | .handshakeCall => do
      let conn ← s.conn.step (myServer site) env .call
      return { s with conn := conn }
  | .onHandshakeSuccess =>
      match s.conn.next with
      | .onHandshakeSuccess .serialization _ =>
          if s.begun then none
          else some { s with begun := true, server := s.server.onHandshakeSuccess }
      | _ => none
  | .writeSome side op count =>
      match (s.party side).pending with
      | some .onWriteGuid | some .onWrite => do
          let out ← (s.party side).out.writeSome op count
          return s.update { s.party side with out := out } side
      | _ => none
  | .writeCompletes side now =>
      if (s.party side).out.Finished then
        match (s.party side).pending with
        | some .onWriteGuid => some (s.update ((s.party side).onWriteGuid setup now) side)
        | some .onWrite => some (s.update ((s.party side).onWriteMsg side) side)
        | _ => none
      else none
  | .readCompletes side count now =>
      match (s.party side).pending with
      | some (.onRead size handler) =>
          if (0 < count ∨ size = 0) ∧ count ≤ size ∧ count ≤ (s.incoming side).length then
            some (s.update ((s.party side).completeRead setup side now size handler
              ((s.incoming side).take count)) side)
          else none
      | _ => none
  | .fails side =>
      match (s.party side).pending with
      | some _ => some (s.update { s.party side with pending := none } side)
      | none => none

/-- The runs whose steps all satisfy `guard`. -/
abbrev Run (setup : Setup) (site : HttpServer.Site) (env : Env)
    (guard : SerializeClient → Label → Prop) : List Label → SerializeClient → Prop :=
  Reaches (fun s label s' => s.step setup site env label = some s') guard (start site)

/-- A read of a header or of data fills its buffer. -/
def FillsBuffer (s : SerializeClient) : Label → Prop
  | .readCompletes side count _ =>
      ∀ size handler, (s.party side).pending = some (.onRead size handler) → count = size
  | .handshakeRead _ _ _ | .handshakeCall | .onHandshakeSuccess | .writeSome _ _ _
  | .writeCompletes _ _ | .fails _ => True

/-- Where assertions are not compiled in, reads fill their buffers. -/
def Checked (setup : Setup) (s : SerializeClient) (label : Label) : Prop :=
  setup.isDebug = true ∨ FillsBuffer s label

/-- What a step can be. -/
inductive Steps (setup : Setup) (site : HttpServer.Site) (env : Env) (s : SerializeClient) :
    Label → SerializeClient → Prop
  | handshakeRead {junk error count bytes conn} : (error = 0 → bytes ≠ []) →
      bytes <+: s.incoming .server →
      bytes = (if error = 0 then (s.incoming .server).take count else []) →
      s.conn.step (myServer site) env (.readCompletes junk error bytes) = some conn →
      Steps setup site env s (.handshakeRead junk error count)
        { s with
          conn := conn
          server := { s.server with taken := s.server.taken + bytes.length } }
  | handshakeCall {conn} : s.conn.step (myServer site) env .call = some conn →
      Steps setup site env s .handshakeCall { s with conn := conn }
  | onHandshakeSuccess {calls} : s.begun = false →
      s.conn.next = .onHandshakeSuccess .serialization calls →
      Steps setup site env s .onHandshakeSuccess
        { s with begun := true, server := s.server.onHandshakeSuccess }
  | writeSome {side op count out} :
      (s.party side).pending = some .onWriteGuid ∨ (s.party side).pending = some .onWrite →
      (s.party side).out.writeSome op count = some out →
      Steps setup site env s (.writeSome side op count)
        (s.update { s.party side with out := out } side)
  | writeGuid {side now} : (s.party side).pending = some .onWriteGuid →
      (s.party side).out.Finished →
      Steps setup site env s (.writeCompletes side now)
        (s.update ((s.party side).onWriteGuid setup now) side)
  | writeMsg {side now} : (s.party side).pending = some .onWrite →
      (s.party side).out.Finished →
      Steps setup site env s (.writeCompletes side now)
        (s.update ((s.party side).onWriteMsg side) side)
  | readCompletes {side count now size handler} :
      (s.party side).pending = some (.onRead size handler) → 0 < count ∨ size = 0 →
      count ≤ size → count ≤ (s.incoming side).length →
      Steps setup site env s (.readCompletes side count now)
        (s.update ((s.party side).completeRead setup side now size handler
          ((s.incoming side).take count)) side)
  | fails {side pending} : (s.party side).pending = some pending →
      Steps setup site env s (.fails side) (s.update { s.party side with pending := none } side)

/-- There are no steps but these. -/
theorem steps_of_step {setup : Setup} {site : HttpServer.Site} {env : Env}
    {s s' : SerializeClient} {label : Label} (h : s.step setup site env label = some s') :
    Steps setup site env s label s' := by
  cases label with
  | handshakeRead junk error count =>
      obtain ⟨hcount, h⟩ := Option.ite_none_right_eq_some.mp h
      obtain ⟨conn, hconn, h⟩ := Option.bind_eq_some_iff.mp h
      obtain rfl := Option.some.inj h
      refine .handshakeRead ?_ ?_ rfl hconn
      · intro herror
        obtain ⟨hpos, hle⟩ := hcount herror
        rw [if_pos herror]
        refine List.ne_nil_of_length_pos ?_
        rwa [List.length_take_of_le hle]
      · split
        · exact List.take_prefix _ _
        · exact List.nil_prefix
  | handshakeCall =>
      obtain ⟨conn, hconn, h⟩ := Option.bind_eq_some_iff.mp h
      obtain rfl := Option.some.inj h
      exact .handshakeCall hconn
  | onHandshakeSuccess =>
      simp only [step] at h
      split at h
      · next calls hnext =>
          obtain ⟨hbegun, h⟩ := Option.ite_none_left_eq_some.mp h
          obtain rfl := Option.some.inj h
          exact .onHandshakeSuccess (by simpa using hbegun) hnext
      · cases h
  | writeSome side op count =>
      simp only [step] at h
      split at h
      · next hpending =>
          obtain ⟨out, hwrite, h⟩ := Option.bind_eq_some_iff.mp h
          obtain rfl := Option.some.inj h
          exact .writeSome (.inl hpending) hwrite
      · next hpending =>
          obtain ⟨out, hwrite, h⟩ := Option.bind_eq_some_iff.mp h
          obtain rfl := Option.some.inj h
          exact .writeSome (.inr hpending) hwrite
      · cases h
  | writeCompletes side now =>
      obtain ⟨hdone, h⟩ := Option.ite_none_right_eq_some.mp h
      split at h
      · next hpending =>
          obtain rfl := Option.some.inj h
          exact .writeGuid hpending hdone
      · next hpending =>
          obtain rfl := Option.some.inj h
          exact .writeMsg hpending hdone
      · cases h
  | readCompletes side count now =>
      simp only [step] at h
      split at h
      · next size handler hpending =>
          obtain ⟨⟨hcount, hle, hthere⟩, h⟩ := Option.ite_none_right_eq_some.mp h
          obtain rfl := Option.some.inj h
          exact .readCompletes hpending hcount hle hthere
      · cases h
  | fails side =>
      simp only [step] at h
      split at h
      · next pending hpending =>
          obtain rfl := Option.some.inj h
          exact .fails hpending
      · cases h

variable {setup : Setup} {site : HttpServer.Site} {env : Env} {side : Side} {now : Int64}
  {opening : List (List UInt8)} {p p' : Party}

/-! ## What an end sends -/

/-- A message on the wire. -/
def frame (setup : Setup) (msg : Message) : List UInt8 :=
  sizeField (setup.archive msg).length ++ setup.archive msg

/-- The writes of an end: something in front, then its messages.  Each begins when the one
before has been sent. -/
structure Sends (setup : Setup) (opening : List (List UInt8)) (p : Party) : Prop where
  writes : p.out.writes.map Write.bytes = opening ++ p.said.map (frame setup)
  inOrder : p.out.InOrder
  one : OneOutstanding p.out
  small : ∀ msg ∈ p.said, (setup.archive msg).length < 2 ^ 32

/-- What a party sends depends on its wire and on what it has said. -/
theorem Sends.congr (h : Sends setup opening p) (hout : p'.out = p.out) (hsaid : p'.said = p.said) :
    Sends setup opening p' :=
  ⟨by rw [hout, hsaid]; exact h.writes, by rw [hout]; exact h.inOrder,
    by rw [hout]; exact h.one, by rw [hsaid]; exact h.small⟩

/-- The wire holds a part of what is to be sent. -/
theorem Sends.wire_first (h : Sends setup opening p) :
    p.out.wire <+: opening.flatten ++ p.said.flatMap (frame setup) := by
  have hexpected : p.out.expected = opening.flatten ++ p.said.flatMap (frame setup) := by
    rw [Sink.expected, List.flatMap_def, h.writes, List.flatten_append, List.flatMap_def]
  exact hexpected ▸ h.inOrder.wire_first

/-- With all writes finished it holds all of it. -/
theorem Sends.wire_of_finished (h : Sends setup opening p) (hdone : p.out.Finished) :
    p.out.wire = opening.flatten ++ p.said.flatMap (frame setup) := by
  rw [h.inOrder.eq_of_finished hdone, Sink.expected, List.flatMap_def, h.writes,
    List.flatten_append, List.flatMap_def]

/-- A step of a write sends no more than was said. -/
theorem sends_writeSome {op count : Nat} {out : Sink UInt8} (h : Sends setup opening p)
    (hwrite : p.out.writeSome op count = some out) : Sends setup opening { p with out := out } := by
  obtain ⟨holdest, hone⟩ := oldest_of_oneOutstanding h.one hwrite
  exact ⟨(Sink.map_bytes_writeSome hwrite).trans h.writes,
    Sink.inOrder_writeSome h.inOrder holdest hwrite, hone, h.small⟩

/-- A message is written, or is too long for the header. -/
theorem asyncWrite_cases (setup : Setup) (p : Party) (msg : Message) :
    ((setup.archive msg).length < 2 ^ 32 ∧ p.asyncWrite setup msg =
        { p with
          pending := some .onWrite
          out := p.out.start (frame setup msg)
          said := p.said ++ [msg] }) ∨
      (2 ^ 32 ≤ (setup.archive msg).length ∧
        p.asyncWrite setup msg = { p with pending := none }) := by
  rcases Nat.lt_or_ge (setup.archive msg).length (2 ^ 32) with hsmall | hbig
  · refine Or.inl ⟨hsmall, ?_⟩
    rw [Party.asyncWrite, SerializationSession.asyncWrite, Serialization.writeBuffers_of_lt hsmall]
    simp [frame]
  · refine Or.inr ⟨hbig, ?_⟩
    rw [Party.asyncWrite, SerializationSession.asyncWrite, Serialization.writeBuffers_of_ge hbig]

/-- Beginning a write sends nothing. -/
theorem wire_asyncWrite (setup : Setup) (p : Party) (msg : Message) :
    (p.asyncWrite setup msg).out.wire = p.out.wire := by
  rcases asyncWrite_cases setup p msg with ⟨-, heq⟩ | ⟨-, heq⟩
  · rw [heq]
    rfl
  · rw [heq]

theorem heard_asyncWrite (setup : Setup) (p : Party) (msg : Message) :
    (p.asyncWrite setup msg).heard = p.heard := by
  rcases asyncWrite_cases setup p msg with ⟨-, heq⟩ | ⟨-, heq⟩ <;> rw [heq]

/-- A message said behind finished writes is sent behind them. -/
theorem sends_asyncWrite (h : Sends setup opening p) (hdone : p.out.Finished) (msg : Message) :
    Sends setup opening (p.asyncWrite setup msg) := by
  rcases asyncWrite_cases setup p msg with ⟨hsmall, heq⟩ | ⟨-, heq⟩
  · rw [heq]
    refine ⟨?_, Sink.inOrder_start h.inOrder _, ?_, ?_⟩
    · simp [Sink.start, h.writes]
    · rw [OneOutstanding, Sink.start, List.dropLast_concat]
      exact hdone
    · intro m hm
      rcases List.mem_append.mp hm with hm | hm
      · exact h.small m hm
      · obtain rfl := List.mem_singleton.mp hm
        exact hsmall
  · rw [heq]
    exact h.congr rfl rfl

/-! ## What an end reads -/

/-- What is read is the same part of what was sent. -/
theorem take_drop_of_first {sent all : List UInt8} {n count : Nat} (hfirst : sent <+: all)
    (hle : count ≤ (sent.drop n).length) : (sent.drop n).take count = (all.drop n).take count := by
  obtain ⟨more, rfl⟩ := hfirst
  rw [List.drop_append, List.take_append_of_le_length hle]

/-- A whole header, of a size that is written. -/
theorem completeRead_header (setup : Setup) (side : Side) (now : Int64) (p : Party) {size : Nat}
    {bytes : List UInt8} (hlen : bytes.length = headerLength)
    (hextract : HexStream.extract 64 bytes = some size) (hsize : size < 2 ^ 32) :
    p.completeRead setup side now headerLength .onReadHeader bytes =
      { p with
        pending := some (.onRead size .onReadData)
        taken := p.taken + bytes.length } := by
  rw [Party.completeRead, Serialization.handle_onReadHeader, Serialization.filled_of_length hlen]
  simp [Serialization.headerRead, Serialization.assert, hlen, hextract,
    Serialization.not_maxSize_lt hsize, Party.performAll, Party.perform]

/-- A whole archive. -/
theorem completeRead_data (setup : Setup) (side : Side) (now : Int64) (p : Party)
    {bytes : List UInt8} {msg : Message} (hmsg : setup.unarchive bytes = some msg) :
    p.completeRead setup side now bytes.length .onReadData bytes =
      { p with
        pending := none
        taken := p.taken + bytes.length
        heard := p.heard ++ [msg] }.onRead setup now side msg := by
  rw [Party.completeRead, Serialization.handle_onReadData, Serialization.filled_of_length rfl]
  simp [Serialization.dataRead, Serialization.assert, hmsg, Party.performAll, Party.perform,
    Receiver.deliver]

/-- A read that does not fill its buffer, where assertions are compiled in. -/
theorem completeRead_short (hdebug : setup.isDebug = true) (side : Side) (now : Int64) (p : Party)
    {size : Nat} {handler : Handler} (hsize : handler = .onReadHeader → size = headerLength)
    {bytes : List UInt8} (hle : bytes.length ≤ size) (hshort : bytes.length ≠ size) :
    p.completeRead setup side now size handler bytes =
      { p with pending := none, taken := p.taken + bytes.length } := by
  have hfails : ∃ text calls, Receiver.session.handle setup.unarchive handler (filled size bytes) 0
      bytes.length = .assertFailed text :: calls := by
    cases handler with
    | onReadHeader =>
        have hne : (bytes.length == headerLength) = false := by simpa [← hsize rfl] using hshort
        rw [Serialization.handle_onReadHeader]
        simp [Serialization.headerRead, Serialization.assert, hne]
    | onReadData =>
        have hfilled : (filled size bytes).length = size := by
          rw [filled, List.length_append, List.length_replicate]
          omega
        have hne : ((filled size bytes).length == bytes.length) = false := by
          simpa [hfilled] using fun h => hshort h.symm
        rw [Serialization.handle_onReadData]
        simp [Serialization.dataRead, Serialization.assert, hne]
  obtain ⟨text, calls, hcalls⟩ := hfails
  rw [Party.completeRead, hcalls, Party.performAll, if_pos hdebug]

section Wire

variable {front sent : List UInt8} {msgs : List Message} {msg : Message}

/-- Where a header has come in one read, it is the one of the message. -/
theorem header_read (hwire : sent <+: front ++ msgs.flatMap (frame setup)) (hone : msgs.length ≤ 1)
    (hsmall : ∀ msg ∈ msgs, (setup.archive msg).length < 2 ^ 32)
    (hthere : headerLength ≤ (sent.drop front.length).length) :
    ∃ msg, msgs = [msg] ∧ (setup.archive msg).length < 2 ^ 32 ∧
      HexStream.extract 64 ((sent.drop front.length).take headerLength) =
        some (setup.archive msg).length := by
  match msgs with
  | [] =>
      have hshort := hwire.length_le
      simp only [List.flatMap_nil, List.append_nil, List.length_drop, headerLength] at hshort hthere
      omega
  | [msg] =>
      have hlt := hsmall msg (by simp)
      have hfield := (Serialization.length_sizeField_iff (setup.archive msg).length).mpr hlt
      have hheader : (sent.drop front.length).take headerLength =
          sizeField (setup.archive msg).length := by
        rw [take_drop_of_first hwire hthere, List.drop_left' rfl]
        simp [frame, List.take_left' hfield]
      refine ⟨msg, rfl, hlt, ?_⟩
      rw [hheader, sizeField, HexStream.extract_setw_format (by omega)]
  | _ :: _ :: _ => simp at hone

/-- And so is its archive. -/
theorem data_read (hwire : sent <+: front ++ [msg].flatMap (frame setup))
    (hsmall : (setup.archive msg).length < 2 ^ 32)
    (hthere : (setup.archive msg).length ≤ (sent.drop (front.length + headerLength)).length) :
    (sent.drop (front.length + headerLength)).take (setup.archive msg).length =
      setup.archive msg := by
  have hfield := (Serialization.length_sizeField_iff (setup.archive msg).length).mpr hsmall
  rw [take_drop_of_first hwire hthere, ← List.drop_drop, List.drop_left' rfl]
  simp [frame, List.drop_left' hfield]

/-- What an end that has read `front` reads next: a header, or the archive behind it. -/
inductive Reading (setup : Setup) (front : List UInt8) (msgs : List Message) (p : Party) :
    Nat → Handler → Prop
  | header : p.taken = front.length → Reading setup front msgs p headerLength .onReadHeader
  | data {got} : p.taken = front.length + headerLength → msgs = [got] →
      Reading setup front msgs p (setup.archive got).length .onReadData

/-- What comes of a read: too little, the size of the message, or the message. -/
inductive ReadResult (setup : Setup) (side : Side) (now : Int64) (msgs : List Message) (p : Party)
    (size count : Nat) : Handler → Party → Prop
  | short {handler} : count ≠ size → setup.isDebug = true →
      ReadResult setup side now msgs p size count handler
      { p with pending := none, taken := p.taken + count }
  | header {got} : count = size → msgs = [got] →
      ReadResult setup side now msgs p size count .onReadHeader
        { p with
          pending := some (.onRead (setup.archive got).length .onReadData)
          taken := p.taken + count }
  | data {got} : count = size → msgs = [got] →
      ReadResult setup side now msgs p size count .onReadData
        ({ p with
          pending := none
          taken := p.taken + count
          heard := p.heard ++ [got] }.onRead setup now side got)

/-- The read of a header is of the length of a header. -/
theorem Reading.size_of_header {size : Nat} {handler : Handler}
    (h : Reading setup front msgs p size handler) (hheader : handler = .onReadHeader) :
    size = headerLength := by
  cases h with
  | header => rfl
  | data => cases hheader

/-- The reads of an end, where none goes on after a failed assertion. -/
theorem readResult {size count : Nat} {handler : Handler}
    (hreading : Reading setup front msgs p size handler)
    (hchecked : setup.isDebug = true ∨ count = size)
    (hround : ∀ msg, setup.unarchive (setup.archive msg) = some msg)
    (hwire : sent <+: front ++ msgs.flatMap (frame setup)) (hone : msgs.length ≤ 1)
    (hsmall : ∀ msg ∈ msgs, (setup.archive msg).length < 2 ^ 32)
    (hle : count ≤ size) (hthere : count ≤ (sent.drop p.taken).length) (side : Side) (now : Int64) :
    ReadResult setup side now msgs p size count handler
      (p.completeRead setup side now size handler ((sent.drop p.taken).take count)) := by
  have hlen : ((sent.drop p.taken).take count).length = count := List.length_take_of_le hthere
  by_cases hfull : count = size
  · subst hfull
    cases hreading with
    | header htaken =>
        rw [htaken] at hthere hlen
        obtain ⟨msg, rfl, hlt, hextract⟩ := header_read hwire hone hsmall hthere
        rw [htaken, completeRead_header setup side now p hlen hextract hlt, hlen]
        exact .header rfl rfl
    | @data msg htaken hmsg =>
        rw [hmsg] at hwire
        rw [htaken] at hthere
        have hdata := data_read hwire (hsmall msg (by simp [hmsg])) hthere
        rw [htaken, hdata, completeRead_data setup side now p (hround msg)]
        exact .data rfl hmsg
  · rw [completeRead_short (hchecked.resolve_right hfull) side now p hreading.size_of_header
      (by rwa [hlen]) (by rwa [hlen]), hlen]
    exact .short hfull (hchecked.resolve_right hfull)

end Wire

/-! ## How far they are -/

/-- The client: it sends the GUID, then its message, and reads the reply. -/
inductive ClientPhase (setup : Setup) (replies : List Message) (p : Party) : Prop
  | guid : p.pending = some .onWriteGuid → p.said = [] → p.heard = [] → p.taken = 0 →
      ClientPhase setup replies p
  | question {sent} : p.pending = some .onWrite →
      p.said = [.clientEchoTimed setup.request sent] → p.heard = [] → p.taken = 0 →
      ClientPhase setup replies p
  | header {sent} : p.pending = some (.onRead headerLength .onReadHeader) →
      p.said = [.clientEchoTimed setup.request sent] → p.heard = [] → p.taken = 0 →
      p.out.Finished → ClientPhase setup replies p
  | data {sent reply} : p.pending = some (.onRead (setup.archive reply).length .onReadData) →
      p.said = [.clientEchoTimed setup.request sent] → p.heard = [] → p.taken = headerLength →
      p.out.Finished → replies = [reply] → ClientPhase setup replies p
  | ended : p.pending = none →
      p.said = [] ∨ (∃ sent, p.said = [.clientEchoTimed setup.request sent]) →
      p.heard = [] ∨ p.heard = replies → ClientPhase setup replies p

/-- What an end says is the reply to what it has heard. -/
def Answers (heard said : List Message) : Prop :=
  said = [] ∨ ∃ msg sent now, heard = [.clientEchoTimed msg sent] ∧
    said = [.serverEchoTimed msg sent now]

/-- The session of the server: it reads the message and sends the reply. -/
inductive ServerPhase (setup : Setup) (questions : List Message) (p : Party) : Prop
  | header : p.pending = some (.onRead headerLength .onReadHeader) → p.heard = [] → p.said = [] →
      p.taken = guid.length → ServerPhase setup questions p
  | data {question} : p.pending = some (.onRead (setup.archive question).length .onReadData) →
      p.heard = [] → p.said = [] → p.taken = guid.length + headerLength → questions = [question] →
      ServerPhase setup questions p
  | reply : p.pending = some .onWrite → p.heard = questions → p.said ≠ [] →
      Answers p.heard p.said → ServerPhase setup questions p
  | ended : p.pending = none → p.heard = [] ∨ p.heard = questions → Answers p.heard p.said →
      ServerPhase setup questions p

/-- The connection before the handover; `first` is what the first read has brought. -/
inductive HandshakePhase (site : HttpServer.Site) (env : Env) (conn : Conn) (first : List UInt8) :
    Prop
  | fresh : conn = Conn.onAccept (myServer site) → first = [] → HandshakePhase site env conn first
  | offering {later} : Conn.Offering (myServer site) env first later conn → first ≠ [] →
      HandshakePhase site env conn first
  | dispatched : Conn.Dispatched (myServer site) env first conn → first ≠ [] →
      HandshakePhase site env conn first
  | stopped {ending} : conn.next = .stop ending → HandshakePhase site env conn first

/-- The server, before the handover or behind it. -/
inductive ServerState (setup : Setup) (site : HttpServer.Site) (env : Env) (s : SerializeClient) :
    Prop
  | handshake {first} : s.begun = false → s.conn.Settled → HandshakePhase site env s.conn first →
      s.server = { Party.idle with taken := first.length } → first <+: s.client.out.wire →
      ServerState setup site env s
  | session {calls} : s.begun = true → s.conn.next = .onHandshakeSuccess .serialization calls →
      ServerPhase setup s.client.said s.server → ServerState setup site env s

/-- All of it. -/
structure Inv (setup : Setup) (site : HttpServer.Site) (env : Env) (s : SerializeClient) :
    Prop where
  clientSends : Sends setup [guid] s.client
  serverSends : Sends setup [] s.server
  client : ClientPhase setup s.server.said s.client
  server : ServerState setup site env s

variable {questions replies : List Message}

/-- The client has said nothing or its line. -/
theorem ClientPhase.said_cases (h : ClientPhase setup replies p) :
    p.said = [] ∨ ∃ sent, p.said = [.clientEchoTimed setup.request sent] := by
  cases h with
  | guid _ hsaid => exact .inl hsaid
  | question _ hsaid | header _ hsaid | data _ hsaid => exact .inr ⟨_, hsaid⟩
  | ended _ hsaid => exact hsaid

/-- An end that is heard of for the first time changes nothing for the other one. -/
theorem ClientPhase.of_nil (h : ClientPhase setup [] p) (replies : List Message) :
    ClientPhase setup replies p := by
  cases h with
  | guid hpending hsaid hheard htaken => exact .guid hpending hsaid hheard htaken
  | question hpending hsaid hheard htaken => exact .question hpending hsaid hheard htaken
  | header hpending hsaid hheard htaken hdone => exact .header hpending hsaid hheard htaken hdone
  | data _ _ _ _ _ hreplies => cases hreplies
  | ended hpending hsaid hheard => exact .ended hpending hsaid (.inl (hheard.elim id id))

/-- Who has heard nothing has said nothing. -/
theorem Answers.eq_nil (h : Answers [] p.said) : p.said = [] := by
  rcases h with h | ⟨_, _, _, hheard, -⟩
  · exact h
  · cases hheard

/-- A session that was asked nothing is in its phase whatever is asked later. -/
theorem ServerPhase.of_nil (h : ServerPhase setup [] p) (questions : List Message) :
    ServerPhase setup questions p := by
  cases h with
  | header hpending hheard hsaid htaken => exact .header hpending hheard hsaid htaken
  | data _ _ _ _ hquestions => cases hquestions
  | reply hpending hheard hsaid hanswers =>
      rw [hheard] at hanswers
      exact absurd hanswers.eq_nil hsaid
  | ended hpending hheard hanswers => exact .ended hpending (.inl (hheard.elim id id)) hanswers

/-! ## The client's steps -/

/-- A failed operation ends the client where it is. -/
theorem ClientPhase.fails (h : ClientPhase setup replies p) {pending : Pending}
    (hpending : p.pending = some pending) :
    ClientPhase setup replies { p with pending := none } := by
  have hsaid := h.said_cases
  cases h with
  | guid _ _ hheard | question _ _ hheard | header _ _ hheard | data _ _ hheard =>
      exact .ended rfl hsaid (.inl hheard)
  | ended hnone => rw [hnone] at hpending; cases hpending

/-- With the GUID written the client says its line. -/
theorem ClientPhase.onWriteGuid (h : ClientPhase setup replies p)
    (hpending : p.pending = some .onWriteGuid) (now : Int64) :
    ClientPhase setup replies (p.onWriteGuid setup now) := by
  cases h with
  | guid _ hsaid hheard htaken =>
      rcases asyncWrite_cases setup p (.clientEchoTimed setup.request now) with ⟨-, heq⟩ | ⟨-, heq⟩
      · rw [Party.onWriteGuid, heq]
        exact .question rfl (by rw [hsaid]; rfl) hheard htaken
      · rw [Party.onWriteGuid, heq]
        exact .ended rfl (.inl hsaid) (.inl hheard)
  | question hother | header hother | data hother | ended hother => simp [hother] at hpending

/-- With the line written the client reads the reply. -/
theorem ClientPhase.onWriteMsg (h : ClientPhase setup replies p)
    (hpending : p.pending = some .onWrite) (hdone : p.out.Finished) :
    ClientPhase setup replies (p.onWriteMsg .client) := by
  cases h with
  | question _ hsaid hheard htaken => exact .header rfl hsaid hheard htaken hdone
  | guid hother | header hother | data hother | ended hother => simp [hother] at hpending

/-- A client that reads has said its line and heard nothing. -/
theorem ClientPhase.reading (h : ClientPhase setup replies p) {size : Nat} {handler : Handler}
    (hpending : p.pending = some (.onRead size handler)) :
    Reading setup [] replies p size handler ∧ p.heard = [] ∧ p.out.Finished ∧
      ∃ sent, p.said = [.clientEchoTimed setup.request sent] := by
  cases h with
  | header hother hsaid hheard htaken hdone =>
      obtain ⟨rfl, rfl⟩ : headerLength = size ∧ Handler.onReadHeader = handler := by
        simpa [hother] using hpending
      exact ⟨.header htaken, hheard, hdone, _, hsaid⟩
  | @data _ reply hother hsaid hheard htaken hdone hreply =>
      obtain ⟨rfl, rfl⟩ : (setup.archive reply).length = size ∧ Handler.onReadData = handler := by
        simpa [hother] using hpending
      exact ⟨.data (htaken.trans (Nat.zero_add _).symm) hreply, hheard, hdone, _, hsaid⟩
  | guid hother | question hother | ended hother => simp [hother] at hpending

/-- What the client reads is the reply, or it has read too little. -/
theorem ClientPhase.readResult (h : ClientPhase setup replies p) {size count : Nat}
    {handler : Handler} (hpending : p.pending = some (.onRead size handler))
    (hreplies : ∀ msg ∈ replies, ∃ text sent now, msg = .serverEchoTimed text sent now)
    (hresult : ReadResult setup .client now replies p size count handler p') :
    ClientPhase setup replies p' := by
  obtain ⟨hreading, hheard, hdone, sent, hsaid⟩ := h.reading hpending
  cases hresult with
  | short => exact .ended rfl (.inr ⟨sent, hsaid⟩) (.inl hheard)
  | header hfull hreply =>
      cases hreading with
      | header htaken => exact .data rfl hsaid hheard (by simp [htaken, hfull]) hdone hreply
  | data hfull hreply =>
      obtain ⟨text, asked, answered, rfl⟩ :=
        hreplies _ (by rw [hreply]; exact List.mem_singleton_self _)
      exact .ended rfl (.inr ⟨sent, hsaid⟩) (.inr (by simp [Party.onRead, hheard, hreply]))

/-! ## The server's steps -/

/-- A failed operation ends the session where it is. -/
theorem ServerPhase.fails (h : ServerPhase setup questions p) {pending : Pending}
    (hpending : p.pending = some pending) :
    ServerPhase setup questions { p with pending := none } := by
  cases h with
  | header _ hheard hsaid | data _ hheard hsaid => exact .ended rfl (.inl hheard) (.inl hsaid)
  | reply _ hheard _ hanswers => exact .ended rfl (.inr hheard) hanswers
  | ended hnone => rw [hnone] at hpending; cases hpending

theorem ServerPhase.onWriteMsg (h : ServerPhase setup questions p)
    (hpending : p.pending = some .onWrite) : ServerPhase setup questions (p.onWriteMsg .server) :=
  h.fails hpending

/-- The session answers what it has heard. -/
theorem ServerPhase.onRead {msg : List UInt8} {sent : Int64}
    (hheard : p.heard = [.clientEchoTimed msg sent]) (hquestions : questions = p.heard)
    (hsaid : p.said = []) (now : Int64) :
    ServerPhase setup questions (p.onRead setup now .server (.clientEchoTimed msg sent)) := by
  rcases asyncWrite_cases setup p (.serverEchoTimed msg sent now) with ⟨-, heq⟩ | ⟨-, heq⟩
  · rw [Party.onRead, heq]
    refine .reply rfl hquestions.symm (by simp) (.inr ⟨msg, sent, now, hheard, ?_⟩)
    simp [hsaid]
  · rw [Party.onRead, heq]
    exact .ended rfl (.inr hquestions.symm) (.inl hsaid)

/-- A session that reads its first message has heard and said nothing. -/
theorem ServerPhase.reading (h : ServerPhase setup questions p) {size : Nat} {handler : Handler}
    (hpending : p.pending = some (.onRead size handler)) :
    Reading setup guid questions p size handler ∧ p.heard = [] ∧ p.said = [] := by
  cases h with
  | header hother hheard hsaid htaken =>
      obtain ⟨rfl, rfl⟩ : headerLength = size ∧ Handler.onReadHeader = handler := by
        simpa [hother] using hpending
      exact ⟨.header htaken, hheard, hsaid⟩
  | @data question hother hheard hsaid htaken hquestion =>
      obtain ⟨rfl, rfl⟩ :
          (setup.archive question).length = size ∧ Handler.onReadData = handler := by
        simpa [hother] using hpending
      exact ⟨.data htaken hquestion, hheard, hsaid⟩
  | reply hother | ended hother => simp [hother] at hpending

/-- What the server reads is the message, or it has read too little. -/
theorem ServerPhase.readResult (h : ServerPhase setup questions p) {size count : Nat}
    {handler : Handler} (hpending : p.pending = some (.onRead size handler))
    (hquestions : ∀ msg ∈ questions, ∃ text sent, msg = .clientEchoTimed text sent)
    (hresult : ReadResult setup .server now questions p size count handler p') :
    ServerPhase setup questions p' := by
  obtain ⟨hreading, hheard, hsaid⟩ := h.reading hpending
  cases hresult with
  | short => exact .ended rfl (.inl hheard) (.inl hsaid)
  | header hfull hquestion =>
      cases hreading with
      | header htaken => exact .data rfl hheard hsaid (by simp [htaken, hfull]) hquestion
  | data hfull hquestion =>
      obtain ⟨text, asked, rfl⟩ :=
        hquestions _ (by rw [hquestion]; exact List.mem_singleton_self _)
      refine .onRead ?_ ?_ ?_ now
      · simp [hheard]
      · simp [hheard, hquestion]
      · exact hsaid

end SerializeClient

end Splice
