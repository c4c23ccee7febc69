import Splice.EchoServer
import Splice.MonoProtocol
import Splice.RequestLanguage

/-!
# Splice.UpgradeRequest

Which first reads are answered with 101 Switching Protocols.  `upgradeOf` is that reply;
both `first_write`s write exactly it.  In front of it a multi protocol server searches the
raw bytes for the name of the key's header, and `contains_key` says that a request with
such a header has the name in its bytes.
-/

namespace Splice

open Incremental (Tribool)

namespace Rfc6455Engine

/-- The request has a key. -/
def HasKey (req : Request) : Prop := ∃ header ∈ req.headers, header.name = chars "Sec-WebSocket-Key"

instance (req : Request) : Decidable (HasKey req) :=
  inferInstanceAs (Decidable (∃ header ∈ req.headers, header.name = chars "Sec-WebSocket-Key"))

/-- The 101 that a first read is answered with. -/
def upgradeOf (boost : Boost) (input : List UInt8) : Option Reply :=
  match parseRequest input with
  | (.true, (_, req), _) => if HasKey req then some (handleRequest boost req) else none
  | (.false, _, _) | (.indeterminate, _, _) => none

/-- A request is answered with a 101 if it has a key. -/
theorem upgradeOf_of_parse {boost : Boost} {input rest : List UInt8} {state : RequestParser.State}
    {req : Request} (h : parseRequest input = (.true, (state, req), rest)) :
    upgradeOf boost input = if HasKey req then some (handleRequest boost req) else none := by
  simp [upgradeOf, h]

/-- What is no request is not answered with one. -/
theorem upgradeOf_of_not_true {boost : Boost} {input : List UInt8}
    (h : (parseRequest input).1 ≠ .true) : upgradeOf boost input = none := by
  unfold upgradeOf
  split <;> simp_all

/-- **The name of a header is in the bytes of its request**, with a colon behind it. -/
theorem contains_key {input rest : List UInt8} {state : RequestParser.State} {req : Request}
    (hparse : parseRequest input = (.true, (state, req), rest)) (hkey : HasKey req) :
    contains (chars "Sec-WebSocket-Key:") input := by
  obtain ⟨m, rfl, rfl⟩ := RequestParser.parse_true_iff.mp ⟨state, hparse⟩
  obtain ⟨header, hheader, hname⟩ := hkey
  obtain ⟨h, hmem, rfl⟩ := List.mem_map.mp hheader
  have hcolon : chars "Sec-WebSocket-Key:" <+: h.bytes := by
    refine ⟨[' '.toUInt8] ++ h.value ++ crlf ++ h.continuations.flatMap Continuation.bytes, ?_⟩
    have hline : h.name = chars "Sec-WebSocket-Key" := hname
    have htext : chars "Sec-WebSocket-Key:" = chars "Sec-WebSocket-Key" ++ [':'.toUInt8] := by
      decide
    simp [HeaderLines.bytes, hline, htext, RequestParser.chars_separator]
  have hlines : h.bytes <:+: m.headers.flatMap HeaderLines.bytes := by
    rw [List.flatMap_def]
    exact List.infix_of_mem_flatten (List.mem_map_of_mem hmem)
  have hbytes : m.headers.flatMap HeaderLines.bytes <:+: m.bytes ++ rest := by
    refine ⟨m.method ++ chars " " ++ m.uri ++ chars " HTTP/" ++ m.major ++ chars "." ++ m.minor ++
      crlf, crlf ++ rest, ?_⟩
    simp [RequestText.bytes]
  rw [contains_iff (by decide)]
  exact hcolon.isInfix.trans (hlines.trans hbytes)

/-- What is answered with a 101 has the name of the key's header in its bytes. -/
theorem contains_of_upgradeOf {boost : Boost} {input : List UInt8} {reply : Reply}
    (h : upgradeOf boost input = some reply) :
    contains (chars "Sec-WebSocket-Key:") input := by
  unfold upgradeOf at h
  split at h
  · next hparse =>
      obtain ⟨hkey, -⟩ := Option.ite_none_right_eq_some.mp h
      exact contains_key hparse hkey
  · cases h
  · cases h

end Rfc6455Engine

/-! ## The two first writes -/

variable {η : Type}

/-- The 101 that a handler writes. -/
def Next.upgrade : Next η → Option Rfc6455Engine.Reply
  | .asyncWrite (.upgrade reply) _ => some reply
  | .asyncWrite (.http _) _ | .handshakeFail _ _ | .asyncReadSome _ _ | .onHandshakeSuccess _ _
  | .stop _ => none

/-- The 101 that a handler writes. -/
def MonoProtocol.Next.upgrade : MonoProtocol.Next → Option Rfc6455Engine.Reply
  | .asyncWrite reply => some reply
  | .asyncReadSome _ _ | .onHandshakeSuccess | .stop _ => none

open Rfc6455Engine

/-- A request is answered with a 101 exactly if it has a key. -/
theorem status_iff (boost : Boost) (req : Request) :
    (handleRequest boost req).status = .switchingProtocols ↔ HasKey req :=
  handleRequest_status boost req

/-- The shape of both: one thing is done with a 101, and another where there is none. -/
theorem match_upgradeOf {β : Type} (boost : Boost) (input : List UInt8) (switching : Reply → β)
    (other : β) :
    (match parseRequest input with
      | (.true, (_, hsReq), _) =>
          match (handleRequest boost hsReq).status with
          | .badRequest | .internalServerError => other
          | .switchingProtocols => switching (handleRequest boost hsReq)
      | (.false, _, _) | (.indeterminate, _, _) => other) =
      match upgradeOf boost input with
      | some reply => switching reply
      | none => other := by
  split
  · next hsReq rest hparse =>
      rw [upgradeOf_of_parse hparse]
      by_cases hkey : HasKey hsReq
      · simp [hkey, (status_iff boost hsReq).mpr hkey]
      · have hstatus := mt (status_iff boost hsReq).mp hkey
        cases h : (handleRequest boost hsReq).status <;> simp_all
  · next hparse => simp [upgradeOf_of_not_true, hparse]
  · next hparse => simp [upgradeOf_of_not_true, hparse]

/-- `first_write` of a multi protocol server writes the 101, or hands on. -/
theorem WsHandshake.firstWrite_eq (boost : Boost) (up : WsClass) (handshakeFail : η)
    (store : Store) (incoming : HandShakeData) :
    WsHandshake.firstWrite boost up handshakeFail store incoming =
      match upgradeOf boost (incoming.string store) with
      | some reply => .asyncWrite (.upgrade reply) (.onSecondRead up handshakeFail reply)
      | none => .handshakeFail handshakeFail incoming :=
  match_upgradeOf boost (incoming.string store)
    (fun reply => Next.asyncWrite (.upgrade reply) (.onSecondRead up handshakeFail reply))
    (Next.handshakeFail handshakeFail incoming)

/-- That of a mono protocol server writes it, or reports an error. -/
theorem MonoProtocol.firstWrite_eq (boost : Boost) (store : Store) (incoming : HandShakeData) :
    MonoProtocol.firstWrite boost store incoming =
      match upgradeOf boost (incoming.string store) with
      | some reply => .asyncWrite reply
      | none => .stop (.onError "") :=
  match_upgradeOf boost (incoming.string store) MonoProtocol.Next.asyncWrite
    (MonoProtocol.Next.stop (.onError ""))

section FirstRead

variable (boost : Boost) (up : WsClass) (handshakeFail : η) (site : HttpServer.Site)
  (operationAborted : ErrorCode) (store : Store) (incomingData bytesTransferred : Nat)
  (error : ErrorCode)

/-- The reply to a first read that comes without an error. -/
theorem WsHandshake.upgrade_onFirstRead :
    (WsHandshake.onFirstRead boost up handshakeFail store incomingData bytesTransferred
        error).upgrade =
      if error = 0 then upgradeOf boost (store.front incomingData bytesTransferred) else none := by
  unfold WsHandshake.onFirstRead
  by_cases herror : error = 0
  · rw [if_neg (by simp [herror]), if_pos herror]
    split
    · rw [WsHandshake.firstWrite_eq, HandShakeData.string]
      split <;> simp_all [Next.upgrade]
    · next hkey =>
        cases h : upgradeOf boost (store.front incomingData bytesTransferred) with
        | none => rfl
        | some reply => exact absurd (contains_of_upgradeOf h) hkey
  · simp [herror, Next.upgrade]

/-- The reply to a first read that comes without an error, by a mono protocol server. -/
theorem MonoProtocol.upgrade_onFirstRead :
    (MonoProtocol.onFirstRead boost store incomingData bytesTransferred error).upgrade =
      if error = 0 then upgradeOf boost (store.front incomingData bytesTransferred) else none := by
  unfold MonoProtocol.onFirstRead
  by_cases herror : error = 0
  · rw [if_neg (by simp [herror]), if_pos herror, MonoProtocol.firstWrite_eq, HandShakeData.string]
    split <;> simp_all [MonoProtocol.Next.upgrade]
  · simp [herror, MonoProtocol.Next.upgrade]

/-- **The quick test loses no upgrade.** Both paths of `ws_handshake` answer a first read
with the same 101 or with none; `http_session` hands on what they answer; and the name of
the key's header is in the bytes of every request that is answered. -/
theorem upgrade_agrees :
    (WsHandshake.onFirstRead boost up handshakeFail store incomingData bytesTransferred
        error).upgrade =
      (MonoProtocol.onFirstRead boost store incomingData bytesTransferred error).upgrade ∧
    ((MonoProtocol.onFirstRead boost store incomingData bytesTransferred error).upgrade ≠ none →
      HttpSession.onFirstRead operationAborted site handshakeFail store incomingData
          bytesTransferred error =
        .handshakeFail handshakeFail ⟨.http, incomingData, bytesTransferred⟩) ∧
    ∀ state req rest,
      parseRequest (store.front incomingData bytesTransferred) = (.true, (state, req), rest) →
      (handleRequest boost req).status = .switchingProtocols →
      contains (chars "Sec-WebSocket-Key:") (store.front incomingData bytesTransferred) := by
  rw [WsHandshake.upgrade_onFirstRead, MonoProtocol.upgrade_onFirstRead]
  refine ⟨rfl, fun hupgrade => ?_, fun state req rest hparse hstatus => ?_⟩
  · obtain ⟨herror, hupgrade⟩ : error = 0 ∧
        upgradeOf boost (store.front incomingData bytesTransferred) ≠ none := by
      simpa using hupgrade
    obtain ⟨reply, hreply⟩ := Option.ne_none_iff_exists'.mp hupgrade
    simp [HttpSession.onFirstRead, herror, contains_of_upgradeOf hreply]
  · exact contains_key hparse ((status_iff boost req).mp hstatus)

end FirstRead

section Echo

open EchoServer

/-- An upgrade request as the first read of a server with files as well. -/
theorem upgrade_agrees_echo :
    HttpSession.onFirstRead 125 noFiles 0 (Store.fill [.zero] 0 upgradeRequest) 0
        upgradeRequest.length 0 = .handshakeFail 0 ⟨.http, 0, upgradeRequest.length⟩ ∧
      contains (chars "Sec-WebSocket-Key:") upgradeRequest := by
  have hfront : Store.front (Store.fill [.zero] 0 upgradeRequest) 0 upgradeRequest.length =
      upgradeRequest := Store.front_fill _ (by decide) (by decide)
  have hwrites : (MonoProtocol.onFirstRead answering.boost (Store.fill [.zero] 0 upgradeRequest) 0
      upgradeRequest.length 0).upgrade = some upgradeReply := by
    rw [MonoProtocol.upgrade_onFirstRead, hfront]
    decide
  have hparse : (parseRequest upgradeRequest).1 = .true ∧
      (handleRequest answering.boost (parseRequest upgradeRequest).2.1.2).status =
        .switchingProtocols := by decide
  obtain ⟨-, hfail, hcontains⟩ := upgrade_agrees answering.boost ⟨fun _ _ => false, []⟩ 0 noFiles
    125 (Store.fill [.zero] 0 upgradeRequest) 0 upgradeRequest.length 0
  rw [hfront] at hcontains
  exact ⟨hfail (by simp [hwrites]), hcontains _ _ _ (Prod.ext hparse.1 rfl) hparse.2⟩

end Echo

end Splice
