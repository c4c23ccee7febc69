import Splice.Lib.Base64
import Splice.Lib.Radix
import Splice.Segmentation

/-!
# Splice.AcceptKey

What a 101 Switching Protocols says: the accept value is the base64 text of the SHA-1
digest of the request's key and the magic GUID.  `first_write` is the only handler that
writes a 101, and the request is the one that was read first.
-/

namespace Splice

open Transition

namespace Rfc6455Engine

/-! ## The two encoders -/

/-- What the iterators give for a line of at most 72 characters: 6 bit integers are
retrieved from the bytes and converted to base64 characters.  The zeros behind the bytes
are those that `to_base64` inserts. -/
def Boost.ReadsSextets (boost : Boost) : Prop :=
  ∀ data : List UInt8, data.length ≤ 54 →
    boost.base64 (data ++ List.replicate (Base64.padding data.length) 0) data.length =
      (Base64.windows data).map Base64.char

/-- **`to_base64` writes base64 text.** -/
theorem toBase64_eq {boost : Boost} (hboost : boost.ReadsSextets) {data : List UInt8}
    (hlength : data.length ≤ 54) : toBase64 boost data = Base64.encode data := by
  have hpadding : (if data.length % 3 ≠ 0 then 3 - data.length % 3 else 0) =
      Base64.padding data.length := by
    unfold Base64.padding
    split <;> omega
  rw [toBase64, hpadding, hboost data hlength, ← Base64.map_char_windows_append]
  rfl

/-- The words of a digest, most significant byte first. -/
def digestBytes (digest : Vector UInt32 5) : List UInt8 :=
  digest.toList.flatMap fun word => Radix.toBE 4 word.toNat

@[simp] theorem length_digestBytes (digest : Vector UInt32 5) :
    (digestBytes digest).length = 20 := by
  simp [digestBytes, List.length_flatMap]

/-- The shift by whole bytes. -/
theorem toUInt8_shiftRight (word : UInt32) {k : Nat} (hk : k < 4) :
    (word >>> UInt32.ofNat (8 * k)).toUInt8 = UInt8.ofNat (word.toNat / 256 ^ k) := by
  have hshift : (UInt32.ofNat (8 * k)).toNat % 32 = 8 * k := by
    rw [UInt32.toNat_ofNat']
    omega
  apply UInt8.toNat_inj.mp
  rw [UInt32.toNat_toUInt8, UInt32.toNat_shiftRight, hshift, Nat.shiftRight_eq_div_pow,
    UInt8.toNat_ofNat', Nat.pow_mul]

/-- The four bytes of a word of the digest. -/
theorem toBE_four (n : Nat) :
    Radix.toBE 4 n = [UInt8.ofNat (n / 256 ^ 3), UInt8.ofNat (n / 256 ^ 2),
      UInt8.ofNat (n / 256 ^ 1), UInt8.ofNat (n / 256 ^ 0)] := by
  simp [Radix.toBE, Radix.toLE, Nat.div_div_eq_div_mul]

/-- Four bytes of the digest are a word of it. -/
theorem map_hashByte (digest : Vector UInt32 5) (j : Nat) :
    (List.range 4).map (fun r => hashByte digest (4 * j + r)) =
      Radix.toBE 4 (digest.toList.getD j 0).toNat := by
  have hbyte : ∀ r < 4, hashByte digest (4 * j + r) =
      UInt8.ofNat ((digest.toList.getD j 0).toNat / 256 ^ (3 - r)) := by
    intro r hr
    have hword : (4 * j + r) / 4 = j := by omega
    have hplace : (4 * j + r) % 4 = r := by omega
    rw [hashByte, hword, hplace, toUInt8_shiftRight _ (by omega)]
  have hrange : List.range 4 = [0, 1, 2, 3] := rfl
  rw [hrange, toBE_four]
  simp only [List.map_cons, List.map_nil, hbyte 0 (by decide), hbyte 1 (by decide),
    hbyte 2 (by decide), hbyte 3 (by decide)]

/-- **`to_sha1` writes the digest in network byte order.** -/
theorem toSha1_eq (boost : Boost) (s : List UInt8) :
    toSha1 boost s = digestBytes (boost.sha1 s) := by
  have hrange : List.range 20 = (List.range 5).flatMap fun j => (List.range 4).map (4 * j + ·) := by
    decide
  have hwords : (boost.sha1 s).toList =
      (List.range 5).map fun j => (boost.sha1 s).toList.getD j 0 := by
    apply List.ext_getElem (by simp)
    intro i hi _
    have hword : i < 5 := by simpa using hi
    simp [hword]
  rw [toSha1, hrange, List.map_flatMap, digestBytes, hwords, List.flatMap_map]
  simp only [List.map_map, Function.comp_def, map_hashByte]

/-! ## The reply -/

/-- The value of the first header of that name. -/
def keyOf (req : Request) : Option (List UInt8) :=
  (req.headers.find? fun i => i.name = chars "Sec-WebSocket-Key").map Header.value

/-- The digest of a key, to which the magic GUID has been appended. -/
def keyDigest (boost : Boost) (key : List UInt8) : List UInt8 :=
  digestBytes (boost.sha1 (key ++ chars "258EAFA5-E914-47DA-95CA-C5AB0DC85B11"))

/-- The value of `Sec-WebSocket-Accept` that a client computes for its key. -/
def acceptOf (boost : Boost) (key : List UInt8) : List UInt8 := Base64.encode (keyDigest boost key)

theorem length_acceptOf (boost : Boost) (key : List UInt8) : (acceptOf boost key).length = 28 := by
  simp [acceptOf, keyDigest]

/-- A 101 on the wire.  Its status line has a null character behind it. -/
def switchingProtocolsText (accept : List UInt8) : List UInt8 :=
  chars "HTTP/1.1 101 Switching Protocols\r\n" ++ [0] ++
    chars "Upgrade: websocket\r\nConnection: Upgrade\r\nSec-WebSocket-Accept: " ++ accept ++
      crlf ++ crlf

/-- A request has a key exactly if one is found in it. -/
theorem hasKey_iff (req : Request) : HasKey req ↔ ∃ key, keyOf req = some key := by
  cases h : req.headers.find? fun i => i.name = chars "Sec-WebSocket-Key" with
  | none =>
      have hnone := List.find?_eq_none.mp h
      simpa [HasKey, keyOf, h] using hnone
  | some header =>
      have hname := List.find?_some h
      have hkey : HasKey req := ⟨header, List.mem_of_find?_eq_some h, by simpa using hname⟩
      simp [hkey, keyOf, h]

/-- The text of the reply to a request with a key. -/
theorem flatten_handleRequest {boost : Boost} (hboost : boost.ReadsSextets) {req : Request}
    {key : List UInt8} (hkey : keyOf req = some key) :
    (handleRequest boost req).toBuffers.flatten = switchingProtocolsText (acceptOf boost key) := by
  obtain ⟨header, hheader, rfl⟩ := Option.map_eq_some_iff.mp hkey
  have haccept : toBase64 boost (toSha1 boost (header.value ++
      chars "258EAFA5-E914-47DA-95CA-C5AB0DC85B11")) = acceptOf boost header.value := by
    rw [toSha1_eq, toBase64_eq hboost (by simp), acceptOf, keyDigest]
  have htext : chars "Upgrade: websocket\r\nConnection: Upgrade\r\nSec-WebSocket-Accept: " =
      chars "Upgrade" ++ chars ": " ++ chars "websocket" ++ chars "\r\n" ++ chars "Connection" ++
        chars ": " ++ chars "Upgrade" ++ chars "\r\n" ++ chars "Sec-WebSocket-Accept" ++
          chars ": " := by
    decide
  have hcrlf : chars "\r\n" = crlf := by decide
  simp only [handleRequest, hheader, haccept, Reply.toBuffers, Reply.toBuffer, List.flatMap_cons,
    List.flatMap_nil, List.flatten_cons, List.flatten_nil, List.append_nil, List.nil_append,
    List.cons_append, List.append_assoc, switchingProtocolsText, htext, hcrlf]

/-- The answer to the key of a request: the request is the front of what was read, the
text of the reply has the accept value of its first key, and from the 28 characters of that
value the digest is read back. -/
def AnswersKey (boost : Boost) (incoming : List UInt8) (reply : Reply) : Prop :=
  ∃ (m : RequestText) (rest key : List UInt8), incoming = m.bytes ++ rest ∧
    keyOf m.request = some key ∧
      reply.toBuffers.flatten = switchingProtocolsText (acceptOf boost key) ∧
        (acceptOf boost key).length = 28 ∧
          Base64.decode (acceptOf boost key) = some (keyDigest boost key)

/-- The 101 of a first read answers its key. -/
theorem answersKey_of_upgradeOf {boost : Boost} (hboost : boost.ReadsSextets)
    {incoming : List UInt8} {reply : Reply} (h : upgradeOf boost incoming = some reply) :
    AnswersKey boost incoming reply := by
  unfold upgradeOf at h
  split at h
  · next state req rest hparse =>
      obtain ⟨hkey, hreply⟩ := Option.ite_none_right_eq_some.mp h
      obtain rfl := Option.some.inj hreply
      obtain ⟨m, rfl, rfl⟩ := RequestParser.parse_true_iff.mp ⟨state, hparse⟩
      obtain ⟨key, hkey⟩ := (hasKey_iff _).mp hkey
      exact ⟨m, rest, key, rfl, hkey, flatten_handleRequest hboost hkey, length_acceptOf boost key,
        Base64.decode_encode _⟩
  · cases h
  · cases h

end Rfc6455Engine

/-! ## On a connection -/

open Rfc6455Engine

/-- **A 101 answers the key of the request that was read first**, in every run of a
server, whether it has several protocols or one. -/
theorem answers_key (env : Env) (hboost : env.boost.ReadsSextets) :
    (∀ (server : Server) (labels : List Label) (c : Conn),
      Conn.Run server env AnyStep labels c → ∀ reply, .upgrade reply ∈ responses c.log →
        ∃ first, firstRead c.log = some first ∧ AnswersKey env.boost first reply) ∧
    ∀ (calls : List WsSession.Call) (labels : List Label) (c : MonoProtocol.Conn),
      MonoProtocol.Conn.Run env calls AnyStep labels c →
        ∀ reply, .upgrade reply ∈ responses c.log →
          ∃ first, firstRead c.log = some first ∧ AnswersKey env.boost first reply := by
  constructor
  · intro server labels c hrun reply hreply
    obtain ⟨first, hfirst, hupgrade⟩ := Conn.upgrade_of_firstRead hrun reply hreply
    exact ⟨first, hfirst, answersKey_of_upgradeOf hboost hupgrade⟩
  · intro calls labels c hrun reply hreply
    obtain ⟨first, hfirst, hupgrade⟩ := MonoProtocol.Conn.upgrade_of_firstRead hrun reply hreply
    exact ⟨first, hfirst, answersKey_of_upgradeOf hboost hupgrade⟩

section Echo

open EchoServer

/-- The iterators of `answering` as they are, and the digest of its client's key. -/
def encoding : Env where
  host := .little
  boost :=
    { sha1 := answering.boost.sha1
      base64 := fun buffer size => (Base64.windows (buffer.take size)).map Base64.char }
  operationAborted := 125

/-- An encoder that reads sextets, as Boost's do. -/
theorem encoding_readsSextets : encoding.boost.ReadsSextets := by
  intro data _
  simp [encoding]

/-- The client of the echo server gets its accept value. -/
theorem answers_key_echo :
    ∃ c, Conn.Run (myServer noFiles) encoding AnyStep
        [.readCompletes (.replicate 4 0) 0 upgradeRequest] c ∧
      responses c.log = [.upgrade upgradeReply] ∧
        ∃ first, firstRead c.log = some first ∧
          AnswersKey encoding.boost first upgradeReply := by
  have hclient : ∃ c, Conn.Run (myServer noFiles) encoding AnyStep
      [.readCompletes (.replicate 4 0) 0 upgradeRequest] c ∧
        responses c.log = [.upgrade upgradeReply] :=
    Reaches.exists_of_runFrom (fun c : Conn => responses c.log) (by decide +kernel)
  obtain ⟨c, hrun, hresponses⟩ := hclient
  exact ⟨c, hrun, hresponses,
    (answers_key encoding encoding_readsSextets).1 _ _ c hrun upgradeReply (by simp [hresponses])⟩

end Echo

end Splice
