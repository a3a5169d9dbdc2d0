import SomeIpGateway.ResourceOwnership
import SomeIpGateway.StepMachine

/-!
# Connections, from `accept` to `removeSession`

The accept loop of `TcpServer`, the map of `SessionManager`, and the life of a
`TlsTransport`, with the client sockets and SSL objects that are open. A step is what one
thread does between two points at which others can see the difference; the manager's
functions run under its mutex. The kernel and the SSL library may give a number again once
it is free, never one that is in use.
-/
namespace SomeIpGateway.Connections
open StepMachine ResourceOwnership

/-- Where `acceptLoop` is, with the connection it is working on. -/
inductive AcceptPc where
  | accepting
  /-- The connection is accepted, and `isBanned` is next. -/
  | accepted (clientFd : ℕ)
  /-- The SSL object is made, and `SSL_accept` is next. -/
  | handshake (clientFd ssl : ℕ)
  /-- In `receivedCidTls`. -/
  | registering (clientFd ssl : ℕ)
  deriving Repr, DecidableEq

namespace AcceptPc

def clientFd? : AcceptPc → Option ℕ
  | .accepting => none
  | .accepted clientFd | .handshake clientFd _ | .registering clientFd _ => some clientFd

def ssl? : AcceptPc → Option ℕ
  | .accepting | .accepted _ => none
  | .handshake _ ssl | .registering _ ssl => some ssl

end AcceptPc

/-- `TlsTransport`. The `id` tells one object from another. -/
structure TlsTransport where
  id : ℕ
  ssl : ℕ
  clientFd : ℕ
  cid : UInt16
  running : Bool := false
  deriving Repr, DecidableEq

/-- Where the thread of `rxLoop` is; it has copied the CID at its start. -/
inductive RxPc where
  | notStarted
  | running (cid : UInt16)
  /-- The loop has ended, and `removeSession` is yet to be called. -/
  | ended (cid : UInt16)
  | removed
  deriving Repr, DecidableEq

/-- The CID that a loop will yet remove. -/
def RxPc.cid? : RxPc → Option UInt16
  | .running cid | .ended cid => some cid
  | .notStarted | .removed => none

structure State where
  accept : AcceptPc := .accepting
  clientFds : Finset ℕ := ∅
  sslObjects : Finset ℕ := ∅
  /-- The transports of the sessions, by CID. -/
  sessions : UInt16 → Option TlsTransport := fun _ => none
  /-- The receive threads, by the transport they belong to. -/
  rxThreads : ℕ → RxPc := fun _ => .notStarted
  /-- How many transports have been made. -/
  made : ℕ := 0

inductive Action where
  | accept (clientFd : ℕ)
  | banned
  | sslNew (ssl : ℕ)
  | sslAcceptFails
  | sslAccept
  | noCid
  | registerCid (cid : UInt16)
  | rxEnds (id : ℕ)
  | removeSession (id : ℕ)
  deriving Repr, DecidableEq

namespace State

/-- `TlsTransport::stop`, up to the threads. -/
def stop (s : State) (t : TlsTransport) : State :=
  { s with sslObjects := s.sslObjects.erase t.ssl, clientFds := s.clientFds.erase t.clientFd }

/-- `~TlsTransport`. -/
def destroy (s : State) (t : TlsTransport) : State := if t.running then s.stop t else s

/-- `SessionManager::addSession`. The transport that is not moved into a session is
destroyed when the call returns. -/
def addSession (s : State) (cid : UInt16) (transport : TlsTransport) : State :=
  match s.sessions cid with
  | none =>
    { s with
      sessions := Function.update s.sessions cid (some { transport with running := true })
      rxThreads := Function.update s.rxThreads transport.id (.running transport.cid) }
  | some _ => s.destroy transport

/-- `SessionManager::removeSession`: the session is destroyed, and its transport with it. -/
def removeSession (s : State) (cid : UInt16) : State :=
  match s.sessions cid with
  | none => s
  | some t => { s with sessions := Function.update s.sessions cid none }.destroy t

/-- Free the SSL object and close the socket, as the failing paths of `acceptLoop` do. -/
def dropConnection (s : State) (clientFd ssl : ℕ) : State :=
  { s with
    accept := .accepting
    sslObjects := s.sslObjects.erase ssl
    clientFds := s.clientFds.erase clientFd }

def step (s : State) : Action → Option State
  | .accept clientFd =>
    if s.accept = .accepting ∧ clientFd ∉ s.clientFds then
      some { s with accept := .accepted clientFd, clientFds := insert clientFd s.clientFds }
    else none
  | .banned =>
    match s.accept with
    | .accepted clientFd =>
      some { s with accept := .accepting, clientFds := s.clientFds.erase clientFd }
    | _ => none
  | .sslNew ssl =>
    match s.accept with
    | .accepted clientFd =>
      if ssl ∉ s.sslObjects then
        some { s with accept := .handshake clientFd ssl, sslObjects := insert ssl s.sslObjects }
      else none
    | _ => none
  | .sslAcceptFails =>
    match s.accept with
    | .handshake clientFd ssl => some (s.dropConnection clientFd ssl)
    | _ => none
  | .sslAccept =>
    match s.accept with
    | .handshake clientFd ssl => some { s with accept := .registering clientFd ssl }
    | _ => none
  | .noCid =>
    match s.accept with
    | .registering clientFd ssl => some (s.dropConnection clientFd ssl)
    | _ => none
  | .registerCid cid =>
    match s.accept with
    | .registering clientFd ssl =>
      some ({ s with accept := .accepting, made := s.made + 1 }.addSession cid
        { id := s.made, ssl, clientFd, cid })
    | _ => none
  | .rxEnds id =>
    match s.rxThreads id with
    | .running cid => some { s with rxThreads := Function.update s.rxThreads id (.ended cid) }
    | _ => none
  | .removeSession id =>
    match s.rxThreads id with
    | .ended cid =>
      some { s.removeSession cid with rxThreads := Function.update s.rxThreads id .removed }
    | _ => none

end State

/-- The gateway's server after `start`. -/
def connections : Machine State Action := ⟨{}, State.step⟩

namespace State
variable (s : State)

@[simp] theorem destroy_sessions (t : TlsTransport) : (s.destroy t).sessions = s.sessions := by
  unfold destroy
  split_ifs <;> rfl

@[simp] theorem destroy_rxThreads (t : TlsTransport) : (s.destroy t).rxThreads = s.rxThreads := by
  unfold destroy
  split_ifs <;> rfl

@[simp] theorem destroy_made (t : TlsTransport) : (s.destroy t).made = s.made := by
  unfold destroy
  split_ifs <;> rfl

@[simp] theorem destroy_accept (t : TlsTransport) : (s.destroy t).accept = s.accept := by
  unfold destroy
  split_ifs <;> rfl

variable {s}

theorem addSession_of_none {cid : UInt16} (h : s.sessions cid = none) (t : TlsTransport) :
    s.addSession cid t =
      { s with
        sessions := Function.update s.sessions cid (some { t with running := true })
        rxThreads := Function.update s.rxThreads t.id (.running t.cid) } := by
  simp [addSession, h]

/-- A transport that was refused was never started, so its destructor does nothing. -/
theorem addSession_of_some {cid : UInt16} {old : TlsTransport} (h : s.sessions cid = some old)
    {t : TlsTransport} (ht : t.running = false) : s.addSession cid t = s := by
  simp [addSession, h, destroy, ht]

theorem removeSession_sessions (cid : UInt16) :
    (s.removeSession cid).sessions = Function.update s.sessions cid none := by
  rw [removeSession]
  split
  · next h => rw [← h, Function.update_eq_self]
  · rw [destroy_sessions]

@[simp] theorem removeSession_made (cid : UInt16) : (s.removeSession cid).made = s.made := by
  rw [removeSession]
  split
  · rfl
  · rw [destroy_made]

end State

/-- What each step does, and where it is enabled. -/
inductive Step (s : State) : Action → State → Prop where
  | accept {clientFd : ℕ} (hpc : s.accept = .accepting) (hfree : clientFd ∉ s.clientFds) :
      Step s (.accept clientFd)
        { s with accept := .accepted clientFd, clientFds := insert clientFd s.clientFds }
  | banned {clientFd : ℕ} (hpc : s.accept = .accepted clientFd) :
      Step s .banned { s with accept := .accepting, clientFds := s.clientFds.erase clientFd }
  | sslNew {clientFd ssl : ℕ} (hpc : s.accept = .accepted clientFd)
      (hfree : ssl ∉ s.sslObjects) :
      Step s (.sslNew ssl)
        { s with accept := .handshake clientFd ssl, sslObjects := insert ssl s.sslObjects }
  | sslAcceptFails {clientFd ssl : ℕ} (hpc : s.accept = .handshake clientFd ssl) :
      Step s .sslAcceptFails (s.dropConnection clientFd ssl)
  | sslAccept {clientFd ssl : ℕ} (hpc : s.accept = .handshake clientFd ssl) :
      Step s .sslAccept { s with accept := .registering clientFd ssl }
  | noCid {clientFd ssl : ℕ} (hpc : s.accept = .registering clientFd ssl) :
      Step s .noCid (s.dropConnection clientFd ssl)
  | registerCid {clientFd ssl : ℕ} {cid : UInt16} (hpc : s.accept = .registering clientFd ssl) :
      Step s (.registerCid cid)
        ({ s with accept := .accepting, made := s.made + 1 }.addSession cid
          { id := s.made, ssl, clientFd, cid })
  | rxEnds {id : ℕ} {cid : UInt16} (hpc : s.rxThreads id = .running cid) :
      Step s (.rxEnds id) { s with rxThreads := Function.update s.rxThreads id (.ended cid) }
  | removeSession {id : ℕ} {cid : UInt16} (hpc : s.rxThreads id = .ended cid) :
      Step s (.removeSession id)
        { s.removeSession cid with rxThreads := Function.update s.rxThreads id .removed }

theorem State.step_cases {s t : State} {a : Action} (hstep : s.step a = some t) : Step s a t := by
  cases a with
  | accept clientFd =>
    simp only [State.step] at hstep
    split_ifs at hstep with hok
    obtain rfl := Option.some.inj hstep
    exact Step.accept hok.1 hok.2
  | sslNew ssl =>
    simp only [State.step] at hstep
    split at hstep
    · next clientFd hpc =>
      split_ifs at hstep with hfree
      obtain rfl := Option.some.inj hstep
      exact Step.sslNew hpc hfree
    · cases hstep
  | banned | sslAcceptFails | sslAccept | noCid | registerCid cid | rxEnds id | removeSession id =>
    simp only [State.step] at hstep
    split at hstep
    · next hpc =>
      obtain rfl := Option.some.inj hstep
      constructor
      exact hpc
    · cases hstep

/-! ### Sessions and their receive loops -/

/-- Receive loops that are yet to remove their session, and sessions, correspond. -/
structure LoopsMatch (s : State) : Prop where
  session_of_loop : ∀ {id cid}, (s.rxThreads id).cid? = some cid →
    ∃ t, s.sessions cid = some t ∧ t.id = id
  loop_of_session : ∀ {cid t}, s.sessions cid = some t → (s.rxThreads t.id).cid? = some cid
  unmade : ∀ {id}, s.made ≤ id → s.rxThreads id = .notStarted

namespace LoopsMatch
variable {s t : State}

/-- Steps that leave the sessions and the loops alone. -/
theorem of_eq (h : LoopsMatch s) (hsessions : t.sessions = s.sessions)
    (hthreads : t.rxThreads = s.rxThreads) (hmade : t.made = s.made) : LoopsMatch t where
  session_of_loop := by
    rw [hsessions, hthreads]
    exact h.session_of_loop
  loop_of_session := by
    rw [hsessions, hthreads]
    exact h.loop_of_session
  unmade := by
    rw [hthreads, hmade]
    exact h.unmade

theorem lt_made (h : LoopsMatch s) {id : ℕ} {cid : UInt16}
    (hcid : (s.rxThreads id).cid? = some cid) : id < s.made := by
  by_contra hle
  rw [h.unmade (not_lt.mp hle)] at hcid
  cases hcid

/-- A new session has a new loop; a refused registration changes neither. -/
theorem addSession (h : LoopsMatch s) (cid : UInt16) (ssl clientFd : ℕ) (accept : AcceptPc) :
    LoopsMatch ({ s with accept, made := s.made + 1 }.addSession cid
      { id := s.made, ssl, clientFd, cid }) := by
  cases hcid : s.sessions cid with
  | none =>
    rw [State.addSession_of_none (by exact hcid)]
    refine ⟨fun {i c} hi => ?_, fun {c tr} hc => ?_, fun {i} hi => ?_⟩
    · dsimp only at hi ⊢
      by_cases him : i = s.made
      · rw [him, Function.update_self] at hi
        obtain rfl := Option.some.inj hi
        exact ⟨_, Function.update_self .., him.symm⟩
      · rw [Function.update_of_ne him] at hi
        obtain ⟨tr, htr, hid⟩ := h.session_of_loop hi
        have hne : c ≠ cid := by
          rintro rfl
          simp [hcid] at htr
        exact ⟨tr, by rwa [Function.update_of_ne hne], hid⟩
    · dsimp only at hc ⊢
      by_cases hcc : c = cid
      · rw [hcc, Function.update_self] at hc
        obtain rfl := Option.some.inj hc
        rw [Function.update_self, hcc]
        rfl
      · rw [Function.update_of_ne hcc] at hc
        have hloop := h.loop_of_session hc
        rwa [Function.update_of_ne (h.lt_made hloop).ne]
    · dsimp only at hi ⊢
      rw [Function.update_of_ne (by omega)]
      exact h.unmade (by omega)
  | some old =>
    rw [State.addSession_of_some (by exact hcid) rfl]
    exact ⟨h.session_of_loop, h.loop_of_session, fun hi => h.unmade (by dsimp only at hi; omega)⟩

/-- A loop that ends is still to remove its session. -/
theorem rxEnds (h : LoopsMatch s) {id : ℕ} {cid : UInt16} (hpc : s.rxThreads id = .running cid) :
    LoopsMatch { s with rxThreads := Function.update s.rxThreads id (.ended cid) } := by
  have hsame (i : ℕ) :
      (Function.update s.rxThreads id (.ended cid) i).cid? = (s.rxThreads i).cid? := by
    by_cases hi : i = id
    · rw [hi, Function.update_self, hpc]
      rfl
    · rw [Function.update_of_ne hi]
  have hmade : id < s.made := h.lt_made (by rw [hpc]; rfl)
  refine ⟨fun {i c} hi => ?_, fun {c tr} hc => ?_, fun {i} hi => ?_⟩
  · exact h.session_of_loop ((hsame i).symm.trans hi)
  · exact (hsame tr.id).trans (h.loop_of_session hc)
  · dsimp only at hi ⊢
    rw [Function.update_of_ne (by omega)]
    exact h.unmade hi

/-- A loop removes its own session. -/
theorem removeSession (h : LoopsMatch s) {id : ℕ} {cid : UInt16}
    (hpc : s.rxThreads id = .ended cid) :
    LoopsMatch { s.removeSession cid with
      rxThreads := Function.update s.rxThreads id .removed } := by
  have hown : (s.rxThreads id).cid? = some cid := by rw [hpc]; rfl
  obtain ⟨own, hsession, hid⟩ := h.session_of_loop hown
  have hmade := h.lt_made hown
  refine ⟨fun {i c} hi => ?_, fun {c tr} hc => ?_, fun {i} hi => ?_⟩
  · dsimp only at hi ⊢
    have hne : i ≠ id := by
      rintro rfl
      rw [Function.update_self] at hi
      cases hi
    rw [Function.update_of_ne hne] at hi
    obtain ⟨tr, htr, htrid⟩ := h.session_of_loop hi
    have hcc : c ≠ cid := by
      rintro rfl
      obtain rfl := Option.some.inj (hsession.symm.trans htr)
      exact hne (htrid.symm.trans hid)
    exact ⟨tr, by rwa [State.removeSession_sessions, Function.update_of_ne hcc], htrid⟩
  · dsimp only at hc ⊢
    rw [State.removeSession_sessions] at hc
    have hcc : c ≠ cid := by
      rintro rfl
      simp at hc
    rw [Function.update_of_ne hcc] at hc
    have hloop := h.loop_of_session hc
    have hne : tr.id ≠ id := by
      intro heq
      rw [heq, hown] at hloop
      exact hcc (Option.some.inj hloop).symm
    rwa [Function.update_of_ne hne]
  · dsimp only at hi ⊢
    rw [State.removeSession_made] at hi
    rw [Function.update_of_ne (by omega)]
    exact h.unmade hi

theorem step (h : LoopsMatch s) {a : Action} (hstep : s.step a = some t) : LoopsMatch t := by
  cases State.step_cases hstep with
  | accept | banned | sslNew | sslAcceptFails | sslAccept | noCid => exact h.of_eq rfl rfl rfl
  | registerCid => exact h.addSession _ _ _ .accepting
  | rxEnds hpc => exact h.rxEnds hpc
  | removeSession hpc => exact h.removeSession hpc

end LoopsMatch

theorem loopsMatch_of_reachable {s : State} (h : connections.Reachable s) : LoopsMatch s :=
  h.invariant ⟨by simp [connections, RxPc.cid?], by simp [connections], by simp [connections]⟩
    fun _ _ _ hI hstep => hI.step hstep

/-- Until a receive loop has removed its session, exactly one session is the one whose
transport it runs, and that is the one under the CID it will remove; every session has
exactly one such loop; and the removal takes that session and no other. -/
def RemoveOwn (s : State) : Prop :=
  (∀ id cid, (s.rxThreads id).cid? = some cid →
    ∃ t, s.sessions cid = some t ∧ t.id = id ∧
      ∀ cid' t', s.sessions cid' = some t' → t'.id = id → cid' = cid) ∧
  (∀ cid t, s.sessions cid = some t →
    (s.rxThreads t.id).cid? = some cid ∧
      ∀ id, (s.rxThreads id).cid? = some cid → id = t.id) ∧
  ∀ id s', s.step (.removeSession id) = some s' →
    ∃ cid t, s.rxThreads id = .ended cid ∧ s.sessions cid = some t ∧ t.id = id ∧
      s'.sessions = Function.update s.sessions cid none

/-- No interleaving lets a receive loop remove the session of another connection. -/
theorem loops_remove_own {s : State} (h : connections.Reachable s) : RemoveOwn s := by
  have hmatch := loopsMatch_of_reachable h
  refine ⟨fun id cid hloop => ?_, fun cid t hsession => ?_, fun id s' hstep => ?_⟩
  · obtain ⟨t, ht, hid⟩ := hmatch.session_of_loop hloop
    refine ⟨t, ht, hid, fun cid' t' ht' hid' => ?_⟩
    have hloop' := hmatch.loop_of_session ht'
    rw [hid', hloop] at hloop'
    exact (Option.some.inj hloop').symm
  · refine ⟨hmatch.loop_of_session hsession, fun id hloop => ?_⟩
    obtain ⟨t', ht', hid⟩ := hmatch.session_of_loop hloop
    obtain rfl := Option.some.inj (hsession.symm.trans ht')
    exact hid.symm
  · cases State.step_cases hstep with
    | @removeSession _ cid hpc =>
      have hloop : (s.rxThreads id).cid? = some cid := by rw [hpc]; rfl
      obtain ⟨t, ht, hid⟩ := hmatch.session_of_loop hloop
      exact ⟨cid, t, hpc, ht, hid, State.removeSession_sessions cid⟩

/-- A client whose loop has ended is still in the map when another asks for its CID and is
refused; a third gets the CID after the removal. -/
theorem loops_remove_own_reuse :
    ∃ s, s.rxThreads 0 = .removed ∧ s.rxThreads 1 = .notStarted ∧ s.rxThreads 2 = .running 7 ∧
      RemoveOwn s := by
  have hrun : (connections.run connections.init
      [.accept 3, .sslNew 0, .sslAccept, .registerCid 7, .rxEnds 0, .accept 4, .sslNew 1,
        .sslAccept, .registerCid 7, .removeSession 0, .accept 3, .sslNew 0, .sslAccept,
        .registerCid 7]).map (fun s => (s.rxThreads 0, s.rxThreads 1, s.rxThreads 2)) =
      some (.removed, .notStarted, .running 7) := by decide +kernel
  obtain ⟨s, hs, heq⟩ := Option.map_eq_some_iff.mp hrun
  obtain ⟨h0, hrest⟩ := Prod.mk.inj heq
  obtain ⟨h1, h2⟩ := Prod.mk.inj hrest
  exact ⟨s, h0, h1, h2, loops_remove_own (Machine.reachable_of_run hs)⟩

/-! ### What is open, and whose it is -/

/-- The owners of one kind of resource: the accept loop (`none`), and the sessions by CID. -/
def State.owner (atAccept : AcceptPc → Option ℕ) (ofTransport : TlsTransport → ℕ) (s : State) :
    Option UInt16 → Option ℕ
  | none => atAccept s.accept
  | some cid => (s.sessions cid).map ofTransport

def State.fdOwner : State → Option UInt16 → Option ℕ :=
  State.owner AcceptPc.clientFd? TlsTransport.clientFd

def State.sslOwner : State → Option UInt16 → Option ℕ :=
  State.owner AcceptPc.ssl? TlsTransport.ssl

theorem State.fdOwner_none {s : State} {pc : AcceptPc} (hpc : s.accept = pc) :
    s.fdOwner none = pc.clientFd? := congrArg AcceptPc.clientFd? hpc

theorem State.sslOwner_none {s : State} {pc : AcceptPc} (hpc : s.accept = pc) :
    s.sslOwner none = pc.ssl? := congrArg AcceptPc.ssl? hpc

theorem State.fdOwner_some {s : State} {cid : UInt16} {o : Option TlsTransport}
    (hcid : s.sessions cid = o) : s.fdOwner (some cid) = o.map TlsTransport.clientFd :=
  congrArg (Option.map TlsTransport.clientFd) hcid

theorem State.sslOwner_some {s : State} {cid : UInt16} {o : Option TlsTransport}
    (hcid : s.sessions cid = o) : s.sslOwner (some cid) = o.map TlsTransport.ssl :=
  congrArg (Option.map TlsTransport.ssl) hcid

/-- The open sockets and SSL objects are those of the sessions in the map and of the one
connection the accept loop is working on. -/
def NoLeak (s : State) : Prop :=
  Owned s.clientFds s.fdOwner ∧ Owned s.sslObjects s.sslOwner

/-- No registration with a CID that is in use. -/
def FreshCid (s : State) : Action → Prop
  | .registerCid cid => s.sessions cid = none
  | _ => True

instance (s : State) (a : Action) : Decidable (FreshCid s a) := by
  cases a with
  | registerCid cid => exact decidable_of_iff ((s.sessions cid).isNone) (by simp [FreshCid])
  | _ => exact inferInstanceAs (Decidable True)

section Owner
variable (atAccept : AcceptPc → Option ℕ) (ofTransport : TlsTransport → ℕ) (s : State) {t : State}

/-- The owners when the accept loop takes up or drops something. -/
theorem owner_accept (hsessions : t.sessions = s.sessions) :
    t.owner atAccept ofTransport =
      Function.update (s.owner atAccept ofTransport) none (atAccept t.accept) := by
  funext k
  cases k with
  | none => rw [Function.update_self, State.owner]
  | some cid => rw [Function.update_of_ne (by simp), State.owner, State.owner, hsessions]

/-- The owners when a session is put in the map or taken out of it. -/
theorem owner_session {cid : UInt16} {tr : Option TlsTransport} (haccept : t.accept = s.accept)
    (hsessions : t.sessions = Function.update s.sessions cid tr) :
    t.owner atAccept ofTransport =
      Function.update (s.owner atAccept ofTransport) (some cid) (tr.map ofTransport) := by
  funext k
  cases k with
  | none => rw [Function.update_of_ne (by simp), State.owner, State.owner, haccept]
  | some c =>
    by_cases hc : c = cid
    · rw [hc, Function.update_self, State.owner, hsessions, Function.update_self]
    · rw [Function.update_of_ne (by simpa using hc), State.owner, State.owner, hsessions,
        Function.update_of_ne hc]

/-- The owners when a connection passes from the accept loop to a new session. -/
theorem owner_register {cid : UInt16} {tr : TlsTransport} (haccept : atAccept t.accept = none)
    (hsessions : t.sessions = Function.update s.sessions cid (some tr)) :
    t.owner atAccept ofTransport =
      Function.update (Function.update (s.owner atAccept ofTransport) none none) (some cid)
        (some (ofTransport tr)) := by
  let stage : State := { s with accept := t.accept }
  have hstage : stage.owner atAccept ofTransport =
      Function.update (s.owner atAccept ofTransport) none none := by
    rw [← haccept]
    exact owner_accept atAccept ofTransport s rfl
  have hsession : t.sessions = Function.update stage.sessions cid (some tr) := hsessions
  rw [← hstage]
  exact owner_session (t := t) atAccept ofTransport stage rfl hsession

end Owner

/-- What holds along a run without a repeated CID. -/
structure Clean (s : State) : Prop where
  noLeak : NoLeak s
  started : ∀ {cid t}, s.sessions cid = some t → t.running = true

namespace Clean
variable {s t : State}

/-- The accept loop turns to another stage, and what it owns turns with it. -/
theorem accept_turn (h : Clean s) (hsessions : t.sessions = s.sessions)
    (hfds : Owned t.clientFds (Function.update s.fdOwner none t.accept.clientFd?))
    (hssls : Owned t.sslObjects (Function.update s.sslOwner none t.accept.ssl?)) : Clean t := by
  refine ⟨⟨?_, ?_⟩, ?_⟩
  · rw [State.fdOwner, owner_accept _ _ s hsessions]
    exact hfds
  · rw [State.sslOwner, owner_accept _ _ s hsessions]
    exact hssls
  · rw [hsessions]
    exact h.started

theorem dropConnection (h : Clean s) {clientFd ssl : ℕ} (hfd : s.accept.clientFd? = some clientFd)
    (hssl : s.accept.ssl? = some ssl) : Clean (s.dropConnection clientFd ssl) :=
  h.accept_turn rfl (h.noLeak.1.release hfd) (h.noLeak.2.release hssl)

/-- The connection passes from the accept loop to the new session. -/
theorem registerCid (h : Clean s) {cid : UInt16} {clientFd ssl : ℕ}
    (hpc : s.accept = .registering clientFd ssl) (hfresh : s.sessions cid = none) :
    Clean ({ s with accept := .accepting, made := s.made + 1 }.addSession cid
      { id := s.made, ssl, clientFd, cid }) := by
  rw [State.addSession_of_none (by exact hfresh)]
  refine ⟨⟨?_, ?_⟩, ?_⟩
  · rw [State.fdOwner, owner_register _ _ s (by rfl) (by rfl)]
    apply h.noLeak.1.transfer
    · exact State.fdOwner_none hpc
    · exact State.fdOwner_some hfresh
  · rw [State.sslOwner, owner_register _ _ s (by rfl) (by rfl)]
    apply h.noLeak.2.transfer
    · exact State.sslOwner_none hpc
    · exact State.sslOwner_some hfresh
  · intro c tr hc
    dsimp only at hc
    by_cases hcc : c = cid
    · rw [hcc, Function.update_self] at hc
      obtain rfl := Option.some.inj hc
      rfl
    · rw [Function.update_of_ne hcc] at hc
      exact h.started hc

/-- A session that is removed takes its connection with it. -/
theorem removeSession (h : Clean s) (cid : UInt16) (rxThreads : ℕ → RxPc) :
    Clean { s.removeSession cid with rxThreads } := by
  have hstarted {c : UInt16} {tr : TlsTransport}
      (hc : (s.removeSession cid).sessions c = some tr) : tr.running = true := by
    rw [State.removeSession_sessions] at hc
    by_cases hcc : c = cid
    · simp [hcc] at hc
    · rw [Function.update_of_ne hcc] at hc
      exact h.started hc
  refine ⟨?_, hstarted⟩
  cases hcid : s.sessions cid with
  | none =>
    have hsame : s.removeSession cid = s := by simp [State.removeSession, hcid]
    rw [hsame]
    exact h.noLeak
  | some tr =>
    have hstop : s.removeSession cid =
        { s with sessions := Function.update s.sessions cid none }.stop tr := by
      simp [State.removeSession, hcid, State.destroy, h.started hcid]
    rw [hstop]
    constructor
    · rw [State.fdOwner, owner_session _ _ s (by rfl) (by rfl)]
      exact h.noLeak.1.release (State.fdOwner_some hcid)
    · rw [State.sslOwner, owner_session _ _ s (by rfl) (by rfl)]
      exact h.noLeak.2.release (State.sslOwner_some hcid)

theorem step (h : Clean s) {a : Action} (hfresh : FreshCid s a) (hstep : s.step a = some t) :
    Clean t := by
  cases State.step_cases hstep with
  | accept hpc hfree =>
    have hfd := State.fdOwner_none hpc
    have hssl := State.sslOwner_none hpc
    exact h.accept_turn (by rfl) (h.noLeak.1.acquire hfd hfree) (h.noLeak.2.keep hssl)
  | banned hpc =>
    have hfd := State.fdOwner_none hpc
    have hssl := State.sslOwner_none hpc
    exact h.accept_turn (by rfl) (h.noLeak.1.release hfd) (h.noLeak.2.keep hssl)
  | sslNew hpc hfree =>
    have hfd := State.fdOwner_none hpc
    have hssl := State.sslOwner_none hpc
    exact h.accept_turn (by rfl) (h.noLeak.1.keep hfd) (h.noLeak.2.acquire hssl hfree)
  | sslAccept hpc =>
    have hfd := State.fdOwner_none hpc
    have hssl := State.sslOwner_none hpc
    exact h.accept_turn (by rfl) (h.noLeak.1.keep hfd) (h.noLeak.2.keep hssl)
  | sslAcceptFails hpc | noCid hpc =>
    exact h.dropConnection (congrArg AcceptPc.clientFd? hpc) (congrArg AcceptPc.ssl? hpc)
  | registerCid hpc => exact h.registerCid hpc hfresh
  | rxEnds => exact ⟨h.noLeak, h.started⟩
  | removeSession => exact h.removeSession _ _

end Clean

theorem clean_of_reachable {s : State} (h : (connections.restrict FreshCid).Reachable s) :
    Clean s := by
  apply h.restrict_invariant (I := Clean)
  · have hfd : connections.init.fdOwner = fun _ => none := by
      funext k
      cases k <;> rfl
    have hssl : connections.init.sslOwner = fun _ => none := by
      funext k
      cases k <;> rfl
    refine ⟨⟨?_, ?_⟩, by simp [connections]⟩
    · rw [hfd]
      exact Owned.empty
    · rw [hssl]
      exact Owned.empty
  · exact fun s a t hI hfresh hstep => hI.step hfresh hstep

/-- In every run that never registers a CID that is in use, nothing is leaked. -/
theorem no_leak {s : State} (h : (connections.restrict FreshCid).Reachable s) : NoLeak s :=
  (clean_of_reachable h).noLeak

/-- A client is refused in the handshake, its numbers are used again by one that registers
and disconnects, and a third is banned. -/
theorem no_leak_three :
    ∃ s, s.made = 1 ∧ s.accept = .accepting ∧ (s.sessions 7).isNone ∧ NoLeak s := by
  have hrun : (((connections.restrict FreshCid).run connections.init
      [.accept 3, .sslNew 0, .sslAcceptFails, .accept 3, .sslNew 0, .sslAccept, .registerCid 7,
        .accept 4, .rxEnds 0, .banned, .removeSession 0]).map
        fun s => (s.made, s.accept, (s.sessions 7).isNone)) =
      some (1, .accepting, true) := by decide +kernel
  obtain ⟨s, hs, heq⟩ := Option.map_eq_some_iff.mp hrun
  obtain ⟨hmade, hrest⟩ := Prod.mk.inj heq
  obtain ⟨haccept, hnone⟩ := Prod.mk.inj hrest
  exact ⟨s, hmade, haccept, hnone, no_leak (Machine.reachable_of_run hs)⟩

/-- The condition is exact: a registration with a CID that is in use leaves the refused
connection open, with no owner. -/
theorem leak_of_used_cid {s t : State} (hclean : NoLeak s) {cid : UInt16}
    (hused : s.sessions cid ≠ none) (hstep : s.step (.registerCid cid) = some t) :
    ¬ NoLeak t := by
  obtain ⟨old, hold⟩ := Option.ne_none_iff_exists'.mp hused
  cases State.step_cases hstep with
  | @registerCid clientFd ssl _ hpc =>
    rw [State.addSession_of_some (by exact hold) rfl]
    intro hleak
    have howned : s.fdOwner none = some clientFd := State.fdOwner_none hpc
    obtain ⟨k, hk⟩ := (hleak.1.exact_owned clientFd).mp (hclean.1.mem howned)
    cases k with
    | none => cases hk
    | some c =>
      have hother : s.fdOwner (some c) = some clientFd := hk
      cases hclean.1.unshared howned hother

/-- Two clients register with one CID: the second is refused, and its socket and SSL object
stay open although no session owns them. -/
theorem used_cid_leaks : ∃ s, connections.Reachable s ∧ ¬ NoLeak s := by
  have hrun : (((connections.restrict FreshCid).run connections.init
      [.accept 3, .sslNew 0, .sslAccept, .registerCid 7, .accept 4, .sslNew 1, .sslAccept]).map
        fun s => (s.accept, (s.sessions 7).isSome)) =
      some (.registering 4 1, true) := by decide +kernel
  obtain ⟨s, hs, heq⟩ := Option.map_eq_some_iff.mp hrun
  obtain ⟨haccept, hsome⟩ := Prod.mk.inj heq
  have hreach := Machine.reachable_of_run hs
  have hclean := (clean_of_reachable hreach).noLeak
  obtain ⟨t, hstep⟩ : ∃ t, connections.step s (.registerCid 7) = some t := by
    simp [connections, State.step, haccept]
  exact ⟨t, hreach.of_restrict.step hstep,
    leak_of_used_cid hclean (Option.isSome_iff_ne_none.mp hsome) hstep⟩

end SomeIpGateway.Connections
