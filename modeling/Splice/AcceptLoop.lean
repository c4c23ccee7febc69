import Splice.Dispatch
import Splice.Lib.Spawning

/-!
# Splice.AcceptLoop

`ez_server` with either protocol: the acceptor, and the sessions of all connections at once.

There is one accept outstanding as long as the server is alive, and each connection runs as if
it were the only one (`serves`).  What ends the loop is an assertion of `multi_protocol`, which
looks at the socket of the new session before it looks at the error.  The constructor has a
similar flaw: it takes the first endpoint before it looks at what `resolve` has said.
-/

namespace Splice

open Spawning (labelsOf)
open Transition

/-- The class an `ez_server` is derived from. -/
inductive Protocol where
  | mono
  | multi
  deriving DecidableEq, Repr

/-- What the server is built on: its protocol, whether assertions are compiled in, and the
sessions, with the one that `construct_session` makes and `on_socket_connected` starts. -/
structure ServerClass (σ α : Type) where
  protocol : Protocol
  isDebug : Bool
  process : σ → α → Option σ
  onSocketConnected : σ

/-- The error codes of the constructor's calls, in their order. -/
structure Setup where
  resolve : ErrorCode
  openAcceptor : ErrorCode
  setOption : ErrorCode
  bind : ErrorCode
  listen : ErrorCode

/-- A server: whether the acceptor is open, the accepts outstanding, the errors reported, the
connected sessions, and whether the constructor or the accept loop has ended the program.
Assertions of the sessions' own are none of it. -/
structure EzServer (σ : Type) where
  isOpen : Bool
  accepting : Nat
  errors : List ErrorCode
  sessions : List σ
  aborted : Bool

namespace EzServer

variable {σ α : Type}

def onError (s : EzServer σ) (ec : ErrorCode) : EzServer σ := { s with errors := s.errors ++ [ec] }

/-- The constructor: the first call that fails is reported, and those behind it are not made. -/
def construct (setup : Setup) : EzServer σ :=
  let closed : EzServer σ := ⟨false, 0, [], [], false⟩
  if setup.resolve ≠ 0 then
    -- *resolver.resolve(query,ec) before the error is looked at: an assertion of the iterator's
    -- null pointer, or undefined behaviour where assertions are not compiled in
    { closed with aborted := true }
  else if setup.openAcceptor ≠ 0 then closed.onError setup.openAcceptor
  else
    let opened := { closed with isOpen := true }
    if setup.setOption ≠ 0 then opened.onError setup.setOption
    else if setup.bind ≠ 0 then opened.onError setup.bind
    else if setup.listen ≠ 0 then opened.onError setup.listen
    else opened

def startAccept (s : EzServer σ) : EzServer σ :=
  if !s.isOpen then s else { s with accepting := s.accepting + 1 }

/-- `on_accept`.  The socket of the session is open if there was no error. -/
def onAccept (up : ServerClass σ α) (s : EzServer σ) (error : ErrorCode) : EzServer σ :=
  if !s.isOpen then s
  else if up.protocol = .multi ∧ up.isDebug ∧ error ≠ 0 then
    -- BOOST_ASSERT(session->get_socket().is_open())
    { s with aborted := true }
  else
    let s := if error = 0 then { s with sessions := s.sessions ++ [up.onSocketConnected] }
      else s.onError error
    s.startAccept

/-- What happens to a server. -/
inductive Label (α : Type) where
  | acceptCompletes (error : ErrorCode)
  | session (i : Nat) (a : α)

/-- One step. -/
def step (up : ServerClass σ α) (s : EzServer σ) : Label α → Option (EzServer σ)
  | .acceptCompletes error =>
      if s.aborted ∨ s.accepting = 0 then none
      else some ({ s with accepting := s.accepting - 1 }.onAccept up error)
  | .session i a =>
      if s.aborted then none
      else do
        let p ← s.sessions[i]?
        let p' ← up.process p a
        return { s with sessions := s.sessions.set i p' }

/-- The runs of a server whose derived class starts to accept in its constructor. -/
abbrev Run (up : ServerClass σ α) (setup : Setup) : List (Label α) → EzServer σ → Prop :=
  Reaches (fun s label s' => s.step up label = some s') AnyStep (construct setup).startAccept

/-- The sessions that are created and their steps. -/
def actionsOf (labels : List (Label α)) : List (Spawning.Action α) :=
  labels.filterMap fun
    | .acceptCompletes error => if error = 0 then some .spawn else none
    | .session i a => some (.act i a)

/-- The errors of accepts. -/
def errorsOf (labels : List (Label α)) : List ErrorCode :=
  labels.filterMap fun
    | .acceptCompletes error => if error ≠ 0 then some error else none
    | .session _ _ => none

/-- The connections that have been accepted. -/
def accepted (labels : List (Label α)) : Nat :=
  labels.countP fun
    | .acceptCompletes error => error = 0
    | .session _ _ => false

/-! ## What a step does -/

variable {up : ServerClass σ α} {setup : Setup} {s s' : EzServer σ} {label : Label α}
  {labels : List (Label α)}

/-- What a step can be, on a server with an acceptor. -/
inductive Steps (up : ServerClass σ α) (s : EzServer σ) : Label α → EzServer σ → Prop
  | accepts : s.accepting ≠ 0 →
      Steps up s (.acceptCompletes 0)
        { s with
          accepting := s.accepting - 1 + 1
          sessions := s.sessions ++ [up.onSocketConnected] }
  | reports {error} : s.accepting ≠ 0 → error ≠ 0 → ¬ (up.protocol = .multi ∧ up.isDebug) →
      Steps up s (.acceptCompletes error)
        { s with accepting := s.accepting - 1 + 1, errors := s.errors ++ [error] }
  | aborts {error} : s.accepting ≠ 0 → error ≠ 0 → up.protocol = .multi → up.isDebug →
      Steps up s (.acceptCompletes error) { s with accepting := s.accepting - 1, aborted := true }
  | session {i a p p'} : s.sessions[i]? = some p → up.process p a = some p' →
      Steps up s (.session i a) { s with sessions := s.sessions.set i p' }

/-- There are no steps but these, and only of a program that has not been aborted. -/
theorem steps_of_step (hopen : s.accepting ≠ 0 → s.isOpen)
    (h : s.step up label = some s') : s.aborted = false ∧ Steps up s label s' := by
  cases label with
  | acceptCompletes error =>
      obtain ⟨hgoes, h⟩ := Option.ite_none_left_eq_some.mp h
      obtain ⟨haborted, haccepting⟩ := not_or.mp hgoes
      have hisOpen := hopen haccepting
      refine ⟨by simpa using haborted, ?_⟩
      rw [← Option.some.inj h]
      by_cases herror : error = 0
      · subst herror
        have haccepts := @Steps.accepts σ α up s haccepting
        simpa [onAccept, startAccept, hisOpen] using haccepts
      · by_cases hassert : up.protocol = .multi ∧ up.isDebug
        · have haborts := @Steps.aborts σ α up s _ haccepting herror hassert.1 hassert.2
          simpa [onAccept, hisOpen, hassert.1, hassert.2, herror] using haborts
        · have hreports := @Steps.reports σ α up s _ haccepting herror hassert
          have hgoesOn : ¬ (up.protocol = .multi ∧ up.isDebug ∧ error ≠ 0) :=
            fun ⟨hmulti, hdebug, _⟩ => hassert ⟨hmulti, hdebug⟩
          simpa only [onAccept, hisOpen, Bool.not_true, Bool.false_eq_true, if_false, hgoesOn,
            herror, onError, startAccept] using hreports
  | session i a =>
      obtain ⟨haborted, h⟩ := Option.ite_none_left_eq_some.mp h
      obtain ⟨p, hp, h⟩ := Option.bind_eq_some_iff.mp h
      obtain ⟨p', hp', h⟩ := Option.bind_eq_some_iff.mp h
      rw [← Option.some.inj h]
      exact ⟨by simpa using haborted, .session hp hp'⟩

/-! ## All connections -/

/-- The connections have made runs of their own, and the accept loop is what its labels say. -/
structure Inv (up : ServerClass σ α) (setup : Setup) (labels : List (Label α)) (s : EzServer σ) :
    Prop where
  runs : Spawning.Runs up.process up.onSocketConnected (actionsOf labels) s.sessions
  length : s.sessions.length = accepted labels
  isOpen : s.isOpen = (construct setup : EzServer σ).isOpen
  accepting : s.accepting = if s.isOpen ∧ s.aborted = false then 1 else 0
  errors : s.aborted = false → s.errors = (construct setup : EzServer σ).errors ++ errorsOf labels
  aborted : s.aborted ↔
    setup.resolve ≠ 0 ∨ up.protocol = .multi ∧ up.isDebug ∧ errorsOf labels ≠ []

/-- What the constructor leaves: nothing has been accepted, and the program goes on if the name
was resolved. -/
theorem construct_fields (setup : Setup) : (construct setup : EzServer σ).accepting = 0 ∧
    (construct setup : EzServer σ).sessions = [] ∧
    ((construct setup : EzServer σ).aborted ↔ setup.resolve ≠ 0) ∧
    ((construct setup : EzServer σ).isOpen ↔ setup.resolve = 0 ∧ setup.openAcceptor = 0) := by
  unfold construct
  split_ifs <;> simp_all [onError]

/-- The invariant holds once the server has started to accept. -/
theorem inv_start : Inv up setup [] (construct setup).startAccept := by
  obtain ⟨haccepting, hsessions, haborted, hisOpen⟩ := construct_fields (σ := σ) setup
  unfold startAccept
  split
  · next hclosed =>
      refine ⟨by rw [hsessions]; exact Spawning.runs_nil, by rw [hsessions]; rfl, rfl, ?_,
        fun _ => (List.append_nil _).symm, by simp [haborted, errorsOf]⟩
      rw [haccepting, if_neg]
      simpa using fun hopen => absurd hopen (by simpa using hclosed)
  · next hopened =>
      have hopen : (construct setup : EzServer σ).isOpen := by simpa using hopened
      have hgoesOn : (construct setup : EzServer σ).aborted = false := by
        simpa [(hisOpen.mp hopen).1] using haborted
      refine ⟨by rw [hsessions]; exact Spawning.runs_nil, by rw [hsessions]; rfl, rfl, ?_,
        fun _ => (List.append_nil _).symm, by simp [haborted, errorsOf]⟩
      rw [if_pos ⟨hopen, hgoesOn⟩, haccepting]

@[simp] theorem actionsOf_concat (labels : List (Label α)) (label : Label α) :
    actionsOf (labels ++ [label]) = actionsOf labels ++ actionsOf [label] :=
  List.filterMap_append

@[simp] theorem errorsOf_concat (labels : List (Label α)) (label : Label α) :
    errorsOf (labels ++ [label]) = errorsOf labels ++ errorsOf [label] :=
  List.filterMap_append

@[simp] theorem accepted_concat (labels : List (Label α)) (label : Label α) :
    accepted (labels ++ [label]) = accepted labels + accepted [label] :=
  List.countP_append

/-- Every step keeps the invariant. -/
theorem inv_step (h : Inv up setup labels s) (hstep : s.step up label = some s') :
    Inv up setup (labels ++ [label]) s' := by
  have hopen : s.accepting ≠ 0 → s.isOpen ∧ s.aborted = false ∧ s.accepting - 1 = 0 := by
    intro hne
    have haccepting := h.accepting
    split at haccepting
    · next hboth => exact ⟨hboth.1, hboth.2, by rw [haccepting]⟩
    · exact absurd haccepting hne
  obtain ⟨haborted, hsteps⟩ := steps_of_step (fun hne => (hopen hne).1) hstep
  cases hsteps with
  | accepts hne =>
      obtain ⟨hisOpen, -, hnone⟩ := hopen hne
      refine ⟨?_, ?_, h.isOpen, ?_, fun _ => ?_, ?_⟩
      · rw [actionsOf_concat]
        exact Spawning.runs_step h.runs rfl
      · simp [h.length, accepted]
      · simp [hnone, hisOpen, haborted]
      · simp [h.errors haborted, errorsOf]
      · simpa [errorsOf] using h.aborted
  | @reports error hne herror hassert =>
      obtain ⟨hisOpen, -, hnone⟩ := hopen hne
      refine ⟨?_, ?_, h.isOpen, ?_, fun _ => ?_, ?_⟩
      · simpa [actionsOf, herror] using h.runs
      · simp [h.length, accepted, herror]
      · simp [hnone, hisOpen, haborted]
      · simp [h.errors haborted, errorsOf, herror]
      · have hresolved : ¬ setup.resolve ≠ 0 := fun hfailed =>
          absurd (h.aborted.mpr (.inl hfailed)) (by simp [haborted])
        rw [haborted]
        refine ⟨nofun, fun hends => ?_⟩
        obtain ⟨hmulti, hdebug, -⟩ := hends.resolve_left hresolved
        exact absurd ⟨hmulti, hdebug⟩ hassert
  | @aborts error hne herror hmulti hdebug =>
      obtain ⟨-, -, hnone⟩ := hopen hne
      refine ⟨?_, ?_, h.isOpen, by simp [hnone], nofun, ?_⟩
      · simpa [actionsOf, herror] using h.runs
      · simp [h.length, accepted, herror]
      · simp [hmulti, hdebug, errorsOf, herror]
  | @session i a p p' hp hp' =>
      refine ⟨?_, ?_, h.isOpen, h.accepting, fun _ => ?_, ?_⟩
      · rw [actionsOf_concat]
        have hact : Spawning.step up.process up.onSocketConnected s.sessions (.act i a) =
            some (s.sessions.set i p') := by
          rw [Spawning.step, hp]
          show (up.process p a).bind _ = _
          rw [hp']
          rfl
        exact Spawning.runs_step h.runs hact
      · simp [h.length, accepted]
      · simp [h.errors haborted, errorsOf]
      · simpa [errorsOf] using h.aborted

/-- It holds at the end of every run. -/
theorem inv_of_run (hrun : Run up setup labels s) : Inv up setup labels s :=
  hrun.invariant (I := fun labels s => Inv up setup labels s) inv_start
    fun _ _ _ _ h _ hstep => inv_step h hstep

/-- **The accept loop goes on, and each connection runs as if it were the only one.**  Where the
name is resolved and the acceptor is open, there is one accept outstanding until an assertion of
the loop ends the program, which is when an accept fails under `multi_protocol` with assertions
compiled in; otherwise every error is reported.  Each connection that was accepted has one
session, and what that is like is reached by its own steps alone. -/
theorem serves (up : ServerClass σ α) (setup : Setup) (hresolve : setup.resolve = 0)
    (labels : List (Label α)) (s : EzServer σ) (hrun : Run up setup labels s) :
    s.accepting = (if s.isOpen ∧ s.aborted = false then 1 else 0) ∧
      (s.isOpen ↔ setup.openAcceptor = 0) ∧
      (s.aborted ↔ up.protocol = .multi ∧ up.isDebug ∧ errorsOf labels ≠ []) ∧
      (s.aborted = false →
        s.errors = (construct setup : EzServer σ).errors ++ errorsOf labels) ∧
      s.sessions.length = accepted labels ∧
      ∀ i p, s.sessions[i]? = some p → Reaches (fun p a p' => up.process p a = some p') AnyStep
        up.onSocketConnected (labelsOf i (actionsOf labels)) p := by
  have h := inv_of_run hrun
  obtain ⟨-, -, -, hisOpen⟩ := construct_fields (σ := σ) setup
  refine ⟨h.accepting, ?_, ?_, h.errors, h.length, h.runs.reaches⟩
  · rw [h.isOpen, hisOpen, hresolve]
    exact and_iff_right rfl
  · simpa [hresolve] using h.aborted

end EzServer

namespace EchoServer

/-- `my_server` with the connections of `multi_protocol`. -/
def serverClass (site : HttpServer.Site) (env : Env) (isDebug : Bool) :
    ServerClass Conn Label where
  protocol := .multi
  isDebug := isDebug
  process c label := c.step (myServer site) env label
  onSocketConnected := Conn.onAccept (myServer site)

/-- **Whoever else is connected, a client gets what its first read calls for**: the upgrade
reply, an HTTP reply, the session that knows its GUID, or nothing. -/
theorem serves_each (site : HttpServer.Site) (env : Env) (isDebug : Bool)
    (setup : Setup) (labels : List (EzServer.Label Label)) (s : EzServer Conn) (i : Nat)
    (c : Conn) (junk : MaskingKey) (first : List UInt8) (rest : List Label)
    (hrun : EzServer.Run (serverClass site env isDebug) setup labels s)
    (hc : s.sessions[i]? = some c)
    (hfirst : labelsOf i (EzServer.actionsOf labels) = .readCompletes junk 0 first :: rest) :
    c.log <+: .read first :: outcome site env first ∨
      .read first :: outcome site env first <+: c.log := by
  have hreaches := (EzServer.inv_of_run hrun).runs.reaches i c hc
  rw [hfirst] at hreaches
  rw [← dispatch_myServer]
  exact Conn.log_of_first hreaches

/-- Two clients, of whom the second one knows a GUID; then an accept fails. -/
def twoClients : List (EzServer.Label Label) :=
  [.acceptCompletes 0, .acceptCompletes 0,
    .session 0 (.readCompletes (.replicate 4 0) 0 (chars "\x7b\x7d")),
    .session 1 (.readCompletes (.replicate 4 0) 0
      (chars "\x7b40CBD5AC-856A-4EA5-AE00-DFB199ABED64\x7d")),
    .session 1 .call, .session 0 .call, .session 1 .call, .session 1 .call, .acceptCompletes 24]

/-- The echo server with two clients, whose second accept fails. -/
theorem serves_echo :
    ∃ s, EzServer.Run (serverClass noFiles answering true) ⟨0, 0, 0, 0, 0⟩ twoClients s ∧
      s.aborted ∧ s.accepting = 0 ∧ s.sessions.length = 2 := by
  have hrun : ∃ s, EzServer.Run (serverClass noFiles answering true) ⟨0, 0, 0, 0, 0⟩ twoClients s ∧
      s.isOpen = true :=
    Reaches.exists_of_runFrom (fun s : EzServer Conn => s.isOpen) (by decide)
  obtain ⟨s, hrun, -⟩ := hrun
  obtain ⟨haccepting, -, haborted, -, hlength, -⟩ := EzServer.serves _ _ rfl _ _ hrun
  have habort : s.aborted = true := haborted.mpr ⟨rfl, rfl, by decide⟩
  rw [habort] at haccepting
  exact ⟨s, hrun, habort, by simpa using haccepting, hlength⟩

/-- What it does for the second of two clients. -/
theorem serves_each_echo :
    ∃ s c, EzServer.Run (serverClass noFiles answering true) ⟨0, 0, 0, 0, 0⟩ twoClients s ∧
      s.sessions[1]? = some c ∧
      c.log = .read (chars "\x7b40CBD5AC-856A-4EA5-AE00-DFB199ABED64\x7d") ::
        outcome noFiles answering (chars "\x7b40CBD5AC-856A-4EA5-AE00-DFB199ABED64\x7d") := by
  have hrun : ∃ s, EzServer.Run (serverClass noFiles answering true) ⟨0, 0, 0, 0, 0⟩ twoClients s ∧
      (s.sessions[1]?).map (fun c => c.log.length) = some 5 :=
    Reaches.exists_of_runFrom
      (fun s : EzServer Conn => (s.sessions[1]?).map fun c => c.log.length) (by decide)
  obtain ⟨s, hrun, hview⟩ := hrun
  obtain ⟨c, hc, hlen⟩ := Option.map_eq_some_iff.mp hview
  have hsize : (outcome noFiles answering
      (chars "\x7b40CBD5AC-856A-4EA5-AE00-DFB199ABED64\x7d")).length = 4 := by decide
  refine ⟨s, c, hrun, hc, ?_⟩
  obtain hlog | hlog := serves_each noFiles answering true ⟨0, 0, 0, 0, 0⟩ twoClients s 1 c _ _ _
    hrun hc rfl
  · exact hlog.eq_of_length (by rw [hlen, List.length_cons, hsize])
  · exact (hlog.eq_of_length (by rw [hlen, List.length_cons, hsize])).symm

end EchoServer

end Splice
