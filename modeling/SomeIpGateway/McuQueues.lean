import SomeIpGateway.KeyedQueues
import SomeIpGateway.Sessions
import SomeIpGateway.StepMachine

/-!
# Requests waiting for the MCU

The queues `toMcuQueue_` of all sessions under the functions of `SessionManager`, each
under the manager's mutex, called by any threads in any order. They are queues that come
and go under the CIDs.
-/
namespace SomeIpGateway.Sessions
open FrameFormat KeyedQueues StepMachine

namespace Session

/-- `Session::popMcuFrame` with its reference parameter. -/
def popMcuFrameInto (s : Session) (out : BkelFrame) : Bool × BkelFrame × Session :=
  match s.toMcuQueue with
  | [] => (false, out, s)
  | frame :: rest => (true, frame, { s with toMcuQueue := rest })

end Session

namespace SessionManager
variable (m : SessionManager)

/-- The loop of `popNextMcuFrame` over the sessions. -/
def popFirst : List (UInt16 × Session) → BkelFrame → Bool × BkelFrame × SessionManager
  | [], out => (false, out, m)
  | (cid, s) :: entries, out =>
    let popped := s.popMcuFrameInto out
    if popped.1 then (true, popped.2.1, m.update cid popped.2.2) else popFirst entries popped.2.1

/-- `popNextMcuFrame` with its reference parameter: what it returns, the frame it leaves in
`out`, and the sessions. -/
def popNextMcuFrameInto (out : BkelFrame) : Bool × BkelFrame × SessionManager :=
  m.popFirst m.sessions.toList out

theorem popFirst_eq (entries : List (UInt16 × Session)) (out : BkelFrame) :
    m.popFirst entries out =
      match entries.findSome? (fun entry => entry.2.popMcuFrame.map fun popped =>
        (entry.1, popped.1, m.update entry.1 popped.2)) with
      | none => (false, out, m)
      | some (_, frame, m') => (true, frame, m') := by
  induction entries generalizing out with
  | nil => rfl
  | cons entry entries ih =>
    cases hq : entry.2.toMcuQueue with
    | nil =>
      rw [popFirst, List.findSome?_cons]
      simp [Session.popMcuFrameInto, Session.popMcuFrame, hq, ih]
    | cons frame rest =>
      rw [popFirst, List.findSome?_cons]
      simp [Session.popMcuFrameInto, Session.popMcuFrame, hq]

theorem popNextMcuFrameInto_eq (out : BkelFrame) :
    m.popNextMcuFrameInto out =
      match m.popNextMcuFrame with
      | none => (false, out, m)
      | some (_, frame, m') => (true, frame, m') := m.popFirst_eq _ out

/-- There is no frame to pop exactly if every queue is empty. -/
theorem popNextMcuFrame_eq_none :
    m.popNextMcuFrame = none ↔ ∀ cid s, m.findSession cid = some s → s.toMcuQueue = [] := by
  rw [popNextMcuFrame, List.findSome?_eq_none_iff]
  constructor
  · intro h cid s hs
    have hmem : (cid, s) ∈ m.sessions.toList :=
      Std.ExtTreeMap.mem_toList_iff_getElem?_eq_some.mpr hs
    have hpop := h (cid, s) hmem
    cases hq : s.toMcuQueue with
    | nil => rfl
    | cons frame rest => simp [Session.popMcuFrame, hq] at hpop
  · rintro h ⟨cid, s⟩ hmem
    have hs := h cid s (Std.ExtTreeMap.mem_toList_iff_getElem?_eq_some.mp hmem)
    simp [Session.popMcuFrame, hs]

end SessionManager

/-- The queues towards the MCU, by CID. -/
def toMcuQueues (m : SessionManager) : Queues UInt16 BkelFrame :=
  fun cid => (m.findSession cid).map Session.toMcuQueue

/-! ### Each function is an event of the queues -/

section Follows
variable (m : SessionManager)

theorem follows_addSession (cid : UInt16) (ip : String) (transport : Transport) :
    Follows (toMcuQueues m) (toMcuQueues (m.addSession cid ip transport)) (.add cid) := by
  rw [Follows]
  funext c
  rw [SessionManager.addSession]
  cases hcid : m.findSession cid with
  | none =>
    by_cases hc : cid = c
    · subst hc
      simp [toMcuQueues, SessionManager.findSession_update, hcid, Session.startTransport]
    · simp [toMcuQueues, SessionManager.findSession_update, hc, Ne.symm hc]
  | some s =>
    by_cases hc : cid = c
    · subst hc
      simp [toMcuQueues, hcid]
    · simp [toMcuQueues, Ne.symm hc]

theorem follows_removeSession (cid : UInt16) :
    Follows (toMcuQueues m) (toMcuQueues (m.removeSession cid)) (.remove cid) := by
  rw [Follows]
  funext c
  by_cases hc : cid = c
  · subst hc
    simp [toMcuQueues, SessionManager.findSession_removeSession]
  · simp [toMcuQueues, SessionManager.findSession_removeSession, hc, Ne.symm hc]

theorem follows_forwardToMcu (cid : UInt16) (reqFrame : BkelFrame) :
    Follows (toMcuQueues m) (toMcuQueues (m.forwardToMcu cid reqFrame)) (.put cid reqFrame) := by
  rw [Follows]
  funext c
  by_cases hc : cid = c
  · subst hc
    simp only [toMcuQueues, SessionManager.findSession_forwardToMcu, if_true,
      Function.update_self, Option.map_map]
    congr 1
    funext s
    simp only [Function.comp_apply, Session.enqueueToMcu]
    split_ifs <;> rfl
  · simp [toMcuQueues, SessionManager.findSession_forwardToMcu, hc, Ne.symm hc]

theorem follows_popNextMcuFrame {m m' : SessionManager} {cid : UInt16} {frame : BkelFrame}
    (h : m.popNextMcuFrame = some (cid, frame, m')) :
    Follows (toMcuQueues m) (toMcuQueues m') (.take cid frame) := by
  obtain ⟨s, rest, hs, hq, rfl⟩ := SessionManager.popNextMcuFrame_some h
  refine ⟨rest, by simp [toMcuQueues, hs, hq], ?_⟩
  funext c
  by_cases hc : cid = c
  · subst hc
    simp [toMcuQueues, SessionManager.findSession_update]
  · simp [toMcuQueues, SessionManager.findSession_update, hc, Ne.symm hc]

/-- A frame from the UART leaves the queues towards the MCU alone. -/
theorem toMcuQueues_onFrame (frame : BkelFrame) :
    toMcuQueues (onFrame m frame) = toMcuQueues m := by
  have hforEach (f : Session → Session) (hf : ∀ s, (f s).toMcuQueue = s.toMcuQueue) :
      toMcuQueues (m.forEach f) = toMcuQueues m := by
    funext c
    simp only [toMcuQueues, SessionManager.findSession_forEach, Option.map_map]
    exact congrArg (Option.map · _) (funext hf)
  rw [onFrame]
  split_ifs
  · exact hforEach _ fun s => rfl
  · apply hforEach
    intro s
    unfold Session.routeUartRx
    dsimp only
    split_ifs <;> rfl

end Follows

/-! ### Runs -/

/-- The manager, and the history of what its functions did. -/
structure QueueState where
  manager : SessionManager := {}
  history : List (Event UInt16 BkelFrame) := []

inductive QueueAction where
  | addSession (cid : UInt16) (ip : String) (transport : Transport)
  | removeSession (cid : UInt16)
  | forwardToMcu (cid : UInt16) (reqFrame : BkelFrame)
  | popNextMcuFrame (out : BkelFrame)
  | onFrame (frame : BkelFrame)
  deriving Repr, DecidableEq

namespace QueueState

def step (s : QueueState) : QueueAction → Option QueueState
  | .addSession cid ip transport =>
    some ⟨s.manager.addSession cid ip transport, s.history ++ [.add cid]⟩
  | .removeSession cid => some ⟨s.manager.removeSession cid, s.history ++ [.remove cid]⟩
  | .forwardToMcu cid reqFrame =>
    some ⟨s.manager.forwardToMcu cid reqFrame, s.history ++ [.put cid reqFrame]⟩
  | .popNextMcuFrame out =>
    some ⟨(s.manager.popNextMcuFrameInto out).2.2,
      s.history ++ (s.manager.popNextMcuFrame.map fun p => .take p.1 p.2.1).toList⟩
  | .onFrame frame => some { s with manager := Sessions.onFrame s.manager frame }

end QueueState

/-- The sessions of the gateway, with any number of threads at work on them. -/
def mcuQueues : Machine QueueState QueueAction := ⟨{}, QueueState.step⟩

theorem accounts_step {s t : QueueState} {a : QueueAction}
    (h : Accounts s.history (toMcuQueues s.manager)) (hstep : s.step a = some t) :
    Accounts t.history (toMcuQueues t.manager) := by
  cases a with
  | addSession cid ip transport =>
    obtain rfl := Option.some.inj hstep
    exact h.follow (follows_addSession s.manager cid ip transport)
  | removeSession cid =>
    obtain rfl := Option.some.inj hstep
    exact h.follow (follows_removeSession s.manager cid)
  | forwardToMcu cid reqFrame =>
    obtain rfl := Option.some.inj hstep
    exact h.follow (follows_forwardToMcu s.manager cid reqFrame)
  | popNextMcuFrame out =>
    obtain rfl := Option.some.inj hstep
    dsimp only
    rw [SessionManager.popNextMcuFrameInto_eq]
    cases hpop : s.manager.popNextMcuFrame with
    | none => simpa [hpop] using h
    | some p => exact h.follow (follows_popNextMcuFrame hpop)
  | onFrame frame =>
    obtain rfl := Option.some.inj hstep
    dsimp only
    rw [toMcuQueues_onFrame]
    exact h

/-- Without sessions there is nothing to account for. -/
theorem accounts_init : Accounts [] (toMcuQueues {}) := by
  have hempty : toMcuQueues {} = fun _ => none := by
    funext cid
    simp [toMcuQueues, SessionManager.findSession]
  rw [hempty]
  exact accounts_nil

/-- Popping takes nothing exactly if every queue is empty, and otherwise the first frame of
one session; nothing else changes. -/
def PopsOne (m : SessionManager) (out : BkelFrame) : Prop :=
  ((m.popNextMcuFrameInto out).1 = false ↔
    ∀ cid s, m.findSession cid = some s → s.toMcuQueue = []) ∧
  ((m.popNextMcuFrameInto out).1 = false → m.popNextMcuFrameInto out = (false, out, m)) ∧
  ((m.popNextMcuFrameInto out).1 = true →
    ∃ cid s rest, m.findSession cid = some s ∧
      s.toMcuQueue = (m.popNextMcuFrameInto out).2.1 :: rest ∧
      (m.popNextMcuFrameInto out).2.2 = m.update cid { s with toMcuQueue := rest })

theorem popsOne (m : SessionManager) (out : BkelFrame) : PopsOne m out := by
  rw [PopsOne, m.popNextMcuFrameInto_eq, ← m.popNextMcuFrame_eq_none]
  cases hpop : m.popNextMcuFrame with
  | none => simp
  | some p =>
    obtain ⟨s, rest, hs, hq, hm⟩ := SessionManager.popNextMcuFrame_some hpop
    exact ⟨by simp, by simp, fun _ => ⟨p.1, s, rest, hs, hq, hm⟩⟩

/-- For each session, what was popped since it was added, followed by its queue, is what was
forwarded to it; a forward without a session changes nothing; popping takes one frame
from one session, if there is any; and no function changes the queue of another session. -/
def RequestsConserved (s : QueueState) : Prop :=
  (∀ cid, Matches (lifeOf cid s.history) (toMcuQueues s.manager cid)) ∧
  (∀ cid reqFrame, s.manager.findSession cid = none →
    s.manager.forwardToMcu cid reqFrame = s.manager) ∧
  (∀ out, PopsOne s.manager out) ∧
  ∀ cid c, c ≠ cid →
    (∀ ip transport,
      toMcuQueues (s.manager.addSession cid ip transport) c = toMcuQueues s.manager c) ∧
    toMcuQueues (s.manager.removeSession cid) c = toMcuQueues s.manager c ∧
    (∀ reqFrame, toMcuQueues (s.manager.forwardToMcu cid reqFrame) c = toMcuQueues s.manager c)

/-- No interleaving loses, duplicates or reorders a request. -/
theorem requests_conserved {s : QueueState} (h : mcuQueues.Reachable s) :
    RequestsConserved s := by
  refine ⟨?_, fun cid reqFrame hnone => ?_, popsOne s.manager, fun cid c hc => ⟨?_, ?_, ?_⟩⟩
  · have hinit : Accounts mcuQueues.init.history (toMcuQueues mcuQueues.init.manager) := by
      have hempty : toMcuQueues mcuQueues.init.manager = fun _ => none := by
        funext cid
        simp [toMcuQueues, mcuQueues, SessionManager.findSession]
      rw [hempty]
      exact accounts_nil
    exact h.invariant (I := fun s => Accounts s.history (toMcuQueues s.manager)) hinit
      fun _ _ _ hI hstep => accounts_step hI hstep
  · rw [SessionManager.forwardToMcu, hnone]
  · exact fun ip transport => (follows_addSession s.manager cid ip transport).other hc
  · exact (follows_removeSession s.manager cid).other hc
  · exact fun reqFrame => (follows_forwardToMcu s.manager cid reqFrame).other hc

/-- A session is removed with a request in its queue, and its CID is used again. -/
theorem requests_conserved_reuse :
    ∃ s, lifeOf 7 s.history = some ⟨[⟨0x21, 1, 0, 0x70, []⟩], []⟩ ∧
      lifeOf 9 s.history = some ⟨[⟨0x20, 1, 0, 0x90, []⟩], [⟨0x20, 1, 0, 0x90, []⟩]⟩ ∧
      RequestsConserved s := by
  have hrun : (mcuQueues.run mcuQueues.init
      [.addSession 9 "10.0.0.9" {}, .forwardToMcu 7 ⟨0x20, 1, 0, 0x70, []⟩,
        .forwardToMcu 9 ⟨0x20, 1, 0, 0x90, []⟩, .popNextMcuFrame ⟨0, 0, 0, 0, []⟩,
        .addSession 7 "10.0.0.7" {}, .forwardToMcu 7 ⟨0x10, 1, 0, 0x70, []⟩, .removeSession 7,
        .addSession 7 "10.0.0.8" {}, .forwardToMcu 7 ⟨0x21, 1, 0, 0x70, []⟩]).map
        (fun s => (lifeOf 7 s.history, lifeOf 9 s.history)) =
      some (some ⟨[⟨0x21, 1, 0, 0x70, []⟩], []⟩,
        some ⟨[⟨0x20, 1, 0, 0x90, []⟩], [⟨0x20, 1, 0, 0x90, []⟩]⟩) := by decide +kernel
  obtain ⟨s, hs, heq⟩ := Option.map_eq_some_iff.mp hrun
  obtain ⟨h7, h9⟩ := Prod.mk.inj heq
  exact ⟨s, h7, h9, requests_conserved (Machine.reachable_of_run hs)⟩

end SomeIpGateway.Sessions
