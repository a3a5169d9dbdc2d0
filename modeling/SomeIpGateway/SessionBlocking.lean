import SomeIpGateway.Sessions

/-!
# Blocked sessions

`setBlocked` marks a session. Only `routeUartRxBySid` looks at the mark; `broadcast` and
`sendToSession` hand over their frame regardless. What an operation of the manager does is
stated session by session, so that runs with and without the marks can be compared.
-/
namespace SomeIpGateway.SessionBlocking
open FrameFormat Sessions

/-- An operation on the manager, or `setBlocked` on one of its sessions. -/
inductive Op where
  | addSession (cid : UInt16) (ip : String) (transport : Transport)
  | removeSession (cid : UInt16)
  | forwardToMcu (cid : UInt16) (reqFrame : BkelFrame)
  | popNextMcuFrame
  | routeUartRxBySid (uartFrame : BkelFrame)
  | broadcast (frame : BkelFrame)
  | sendToSession (cid : UInt16) (frame : BkelFrame)
  | setBlocked (cid : UInt16) (blocked : Bool)
  deriving Repr, DecidableEq

/-- Do something to the session with the given CID, if there is one. -/
def modify (m : SessionManager) (cid : UInt16) (f : Session → Session) : SessionManager :=
  match m.findSession cid with
  | none => m
  | some s => m.update cid (f s)

/-- `SessionManager::sendToSession`. -/
def sendToSession (m : SessionManager) (cid : UInt16) (frame : BkelFrame) : SessionManager :=
  modify m cid (·.sendFrame frame)

/-- `setBlocked` of the session with the given CID. -/
def setBlocked (m : SessionManager) (cid : UInt16) (blocked : Bool) : SessionManager :=
  modify m cid (·.setBlocked blocked)

def perform (m : SessionManager) : Op → SessionManager
  | .addSession cid ip transport => m.addSession cid ip transport
  | .removeSession cid => m.removeSession cid
  | .forwardToMcu cid reqFrame => m.forwardToMcu cid reqFrame
  | .popNextMcuFrame => (m.popNextMcuFrame.map (·.2.2)).getD m
  | .routeUartRxBySid uartFrame => m.routeUartRxBySid uartFrame
  | .broadcast frame => m.broadcast frame
  | .sendToSession cid frame => sendToSession m cid frame
  | .setBlocked cid blocked => setBlocked m cid blocked

/-- The manager after the operations. -/
def performAll (ops : List Op) : SessionManager := ops.foldl perform {}

theorem performAll_concat (ops : List Op) (op : Op) :
    performAll (ops ++ [op]) = perform (performAll ops) op := by
  simp [performAll]

/-! ### What an operation does to a session -/

/-- The CID of the session whose frame is popped next. -/
def popTarget (m : SessionManager) : Option UInt16 := m.popNextMcuFrame.map (·.1)

/-- What an operation makes of the session with CID `c`, given whose frame is next. -/
def Op.effect (target : Option UInt16) (c : UInt16) (o : Option Session) : Op → Option Session
  | .addSession cid ip transport =>
    if cid = c then
      o.or (some (Session.startTransport { cid := cid, ipAddress := ip, transport }))
    else o
  | .removeSession cid => if cid = c then none else o
  | .forwardToMcu cid reqFrame =>
    if cid = c then o.map fun s =>
      (if isDiagSid reqFrame.sid then s.updateLastRequestedSid reqFrame.sid else s).enqueueToMcu
        reqFrame
    else o
  | .popNextMcuFrame =>
    if target = some c then o.map fun s => { s with toMcuQueue := s.toMcuQueue.tail } else o
  | .routeUartRxBySid uartFrame => o.map (·.routeUartRx uartFrame)
  | .broadcast frame => o.map (·.sendFrame frame)
  | .sendToSession cid frame => if cid = c then o.map (·.sendFrame frame) else o
  | .setBlocked cid blocked => if cid = c then o.map (·.setBlocked blocked) else o

theorem findSession_modify (m : SessionManager) (cid : UInt16) (f : Session → Session)
    (c : UInt16) : (modify m cid f).findSession c =
      if cid = c then (m.findSession c).map f else m.findSession c := by
  by_cases hc : cid = c
  · subst hc
    rw [modify, if_pos rfl]
    cases hfind : m.findSession cid with
    | none => exact hfind
    | some s => simp [SessionManager.findSession_update]
  · rw [modify, if_neg hc]
    cases m.findSession cid with
    | none => rfl
    | some s => rw [SessionManager.findSession_update, if_neg hc]

/-- An operation acts on each session by itself, up to whose frame is popped. -/
theorem findSession_perform (m : SessionManager) (op : Op) (c : UInt16) :
    (perform m op).findSession c = op.effect (popTarget m) c (m.findSession c) := by
  cases op with
  | addSession cid ip transport =>
    by_cases hc : cid = c
    · subst hc
      rw [perform, SessionManager.addSession, Op.effect, if_pos rfl]
      cases hfind : m.findSession cid with
      | none => simp [SessionManager.findSession_update]
      | some s => simp [hfind]
    · rw [perform, SessionManager.addSession, Op.effect, if_neg hc]
      cases m.findSession cid with
      | none => rw [SessionManager.findSession_update, if_neg hc]
      | some s => rfl
  | removeSession cid => exact m.findSession_removeSession cid c
  | forwardToMcu cid reqFrame => exact m.findSession_forwardToMcu cid reqFrame c
  | popNextMcuFrame =>
    rw [perform, Op.effect, popTarget]
    cases hpop : m.popNextMcuFrame with
    | none => simp
    | some popped =>
      obtain ⟨cid, frame, m'⟩ := popped
      obtain ⟨s, rest, hfind, hqueue, rfl⟩ := SessionManager.popNextMcuFrame_some hpop
      simp only [Option.map_some, Option.getD_some, SessionManager.findSession_update,
        Option.some.injEq]
      by_cases hc : cid = c
      · subst hc
        simp [hfind, hqueue]
      · simp [hc]
  | routeUartRxBySid uartFrame => exact m.findSession_forEach _ c
  | broadcast frame => exact m.findSession_forEach _ c
  | sendToSession cid frame => exact findSession_modify m cid _ c
  | setBlocked cid blocked => exact findSession_modify m cid _ c

/-- Whose frame is popped depends on the queues alone. -/
theorem popTarget_congr {m m' : SessionManager}
    (h : ∀ c,
      (m.findSession c).map Session.toMcuQueue = (m'.findSession c).map Session.toMcuQueue) :
    popTarget m = popTarget m' := by
  let next (entry : UInt16 × List BkelFrame) : Option UInt16 := entry.2.head?.map fun _ => entry.1
  have hqueues : m.sessions.map (fun _ s => s.toMcuQueue) =
      m'.sessions.map (fun _ s => s.toMcuQueue) := by
    apply Std.ExtTreeMap.ext_getElem?
    intro c
    simpa [SessionManager.findSession] using h c
  have hnext (m : SessionManager) :
      popTarget m = (m.sessions.map fun _ s => s.toMcuQueue).toList.findSome? next := by
    rw [popTarget, SessionManager.popNextMcuFrame, List.map_findSome?, Std.ExtTreeMap.toList_map,
      List.findSome?_map]
    congr 1
    funext entry
    cases hqueue : entry.2.toMcuQueue with
    | nil => simp [Session.popMcuFrame, next, hqueue]
    | cons frame rest => simp [Session.popMcuFrame, next, hqueue]
  rw [hnext, hnext, hqueues]

/-! ### What a blocked session hears -/

/-- The operation hands no frame to a session that is blocked. -/
def Silent (m : SessionManager) (op : Op) : Prop :=
  ∀ c s s', m.findSession c = some s → s.isBlocked = true →
    (perform m op).findSession c = some s' → s'.transport.txQueue = s.transport.txQueue

/-- The operation is no broadcast while a session is blocked, and does not send to a blocked
session. -/
def Considerate (m : SessionManager) : Op → Prop
  | .broadcast _ => ∀ c s, m.findSession c = some s → s.isBlocked = false
  | .sendToSession cid _ => ∀ s, m.findSession cid = some s → s.isBlocked = false
  | _ => True

theorem txQueue_sendFrame_ne (s : Session) (frame : BkelFrame) :
    (s.sendFrame frame).transport.txQueue ≠ s.transport.txQueue := by
  simp [Session.sendFrame, Transport.sendData]

/-- A frame that is sent to a blocked session is heard. -/
theorem not_silent_of_sent {m : SessionManager} {op : Op} {c : UInt16} {s : Session}
    (frame : BkelFrame) (hfind : m.findSession c = some s) (hblocked : s.isBlocked = true)
    (hsent : (perform m op).findSession c = some (s.sendFrame frame)) : ¬ Silent m op :=
  fun h => txQueue_sendFrame_ne s frame (h c s _ hfind hblocked hsent)

theorem considerate_of_silent {m : SessionManager} {op : Op} (h : Silent m op) :
    Considerate m op := by
  cases op with
  | broadcast frame =>
    intro c s hfind
    by_contra hblocked
    refine not_silent_of_sent frame hfind (by simpa using hblocked) ?_ h
    rw [findSession_perform, Op.effect, hfind, Option.map_some]
  | sendToSession cid frame =>
    intro s hfind
    by_contra hblocked
    refine not_silent_of_sent frame hfind (by simpa using hblocked) ?_ h
    rw [findSession_perform, Op.effect, if_pos rfl, hfind, Option.map_some]
  | _ => trivial

/-- What an operation that does not send to a blocked session makes of it. -/
theorem effect_txQueue {target : Option UInt16} {c : UInt16} {s s' : Session} {op : Op}
    (hblocked : s.isBlocked = true) (hbroadcast : ∀ frame, op ≠ .broadcast frame)
    (hsend : ∀ frame, op ≠ .sendToSession c frame) (h : op.effect target c (some s) = some s') :
    s'.transport.txQueue = s.transport.txQueue := by
  cases op with
  | addSession cid ip transport =>
    simp only [Op.effect, Option.some_or, ite_self, Option.some.injEq] at h
    rw [h]
  | removeSession cid =>
    simp only [Op.effect] at h
    split_ifs at h
    rw [Option.some.inj h]
  | routeUartRxBySid uartFrame =>
    have hkept : s.routeUartRx uartFrame = s := if_pos hblocked
    rw [Op.effect, Option.map_some, hkept] at h
    rw [Option.some.inj h]
  | broadcast frame => exact absurd rfl (hbroadcast frame)
  | sendToSession cid frame =>
    have hc : cid ≠ c := fun hc => hsend frame (by rw [hc])
    rw [Op.effect, if_neg hc] at h
    rw [Option.some.inj h]
  | forwardToMcu | popNextMcuFrame | setBlocked =>
    simp only [Op.effect, Option.map_some] at h
    split_ifs at h <;> obtain rfl := Option.some.inj h <;> rfl

theorem silent_of_considerate {m : SessionManager} {op : Op} (h : Considerate m op) :
    Silent m op := by
  intro c s s' hfind hblocked hafter
  rw [findSession_perform, hfind] at hafter
  refine effect_txQueue hblocked ?_ ?_ hafter
  · rintro frame rfl
    exact absurd (h c s hfind) (by simp [hblocked])
  · rintro frame rfl
    exact absurd (h s hfind) (by simp [hblocked])

/-- An operation is silent towards blocked sessions exactly if it is considerate. -/
theorem silent_iff (m : SessionManager) (op : Op) : Silent m op ↔ Considerate m op :=
  ⟨considerate_of_silent, silent_of_considerate⟩

/-! ### What an unblocked session hears -/

/-- The session with CID `c` at the end of the operations has been blocked in its life. -/
def BlockedInLife (ops : List Op) (c : UInt16) : Prop :=
  ∃ before after, ops = before ++ .setBlocked c true :: after ∧
    (performAll before).findSession c ≠ none ∧ .removeSession c ∉ after

theorem BlockedInLife.concat {ops : List Op} {c : UInt16} (h : BlockedInLife ops c) {op : Op}
    (hop : op ≠ .removeSession c) : BlockedInLife (ops ++ [op]) c := by
  obtain ⟨before, after, rfl, hfind, hkept⟩ := h
  refine ⟨before, after ++ [op], by simp, hfind, ?_⟩
  simp [hkept, hop.symm]

theorem blockedInLife_setBlocked {ops : List Op} {c : UInt16}
    (h : (performAll ops).findSession c ≠ none) :
    BlockedInLife (ops ++ [.setBlocked c true]) c := ⟨ops, [], rfl, h, by simp⟩

/-- The operations without the calls of `setBlocked`. -/
def unmarked (ops : List Op) : List Op :=
  ops.filter fun op => match op with
    | .setBlocked _ _ => false
    | _ => true

/-- How the sessions of a CID compare between a run and the one without marks: they have the
same frames for the MCU, and are the same if there was no mark in their life. -/
structure Twins (blocked : Prop) (o o' : Option Session) : Prop where
  queues : o.map Session.toMcuQueue = o'.map Session.toMcuQueue
  unmarked : ∀ s', o' = some s' → s'.isBlocked = false
  same : ¬ blocked → o = o'

namespace Twins
variable {blocked : Prop} {o o' : Option Session}

theorem mono (h : Twins blocked o o') {blocked' : Prop} (hle : blocked → blocked') :
    Twins blocked' o o' where
  queues := h.queues
  unmarked := h.unmarked
  same hnot := h.same fun hb => hnot (hle hb)

theorem of_none (blocked : Prop) : Twins blocked none none := ⟨rfl, by simp, fun _ => rfl⟩

/-- Doing the same to both keeps twins, if it treats the frames for the MCU alike and blocks
nobody. -/
theorem map (h : Twins blocked o o') {f : Session → Session} {g : List BkelFrame → List BkelFrame}
    (hqueue : ∀ s, (f s).toMcuQueue = g s.toMcuQueue)
    (hmark : ∀ s, s.isBlocked = false → (f s).isBlocked = false) :
    Twins blocked (o.map f) (o'.map f) where
  queues := by
    have hf : Session.toMcuQueue ∘ f = g ∘ Session.toMcuQueue := funext hqueue
    rw [Option.map_map, Option.map_map, hf, ← Option.map_map, ← Option.map_map, h.queues]
  unmarked s' hs' := by
    obtain ⟨s, hs, rfl⟩ := Option.map_eq_some_iff.mp hs'
    exact hmark s (h.unmarked s hs)
  same hnot := by rw [h.same hnot]

theorem ite (h : Twins blocked o o') {c : Prop} [Decidable c] {u u' : Option Session}
    (hu : Twins blocked u u') : Twins blocked (if c then u else o) (if c then u' else o') := by
  split_ifs
  · exact hu
  · exact h

theorem routeUartRx_queue (s : Session) (frame : BkelFrame) :
    (s.routeUartRx frame).toMcuQueue = s.toMcuQueue := by
  unfold Session.routeUartRx
  split_ifs
  · rfl
  · dsimp only
    split_ifs <;> rfl

theorem routeUartRx_mark (s : Session) (frame : BkelFrame) :
    (s.routeUartRx frame).isBlocked = s.isBlocked := by
  unfold Session.routeUartRx
  split_ifs
  · rfl
  · dsimp only
    split_ifs <;> rfl

/-- An operation that is no `setBlocked` keeps twins. -/
theorem effect (h : Twins blocked o o') (target : Option UInt16) (c : UInt16) {op : Op}
    (hop : ∀ cid b, op ≠ .setBlocked cid b) :
    Twins blocked (op.effect target c o) (op.effect target c o') := by
  cases op with
  | addSession cid ip transport =>
    refine h.ite ?_
    cases o with
    | none =>
      obtain rfl : o' = none := by simpa using h.queues.symm
      exact ⟨rfl, by simp [Session.startTransport], fun _ => rfl⟩
    | some s =>
      cases o' with
      | none => exact absurd h.queues (by simp)
      | some s' => exact h
  | removeSession cid => exact h.ite (of_none blocked)
  | forwardToMcu cid reqFrame =>
    refine h.ite (h.map (g := (· ++ [reqFrame])) ?_ ?_)
    · intro s
      split_ifs <;> rfl
    · intro s hs
      split_ifs <;> exact hs
  | popNextMcuFrame => exact h.ite (h.map (g := List.tail) (fun _ => rfl) (fun _ hs => hs))
  | routeUartRxBySid uartFrame =>
    exact h.map (g := id) (fun s => routeUartRx_queue s uartFrame)
      (fun s hs => (routeUartRx_mark s uartFrame).trans hs)
  | broadcast frame => exact h.map (g := id) (fun _ => rfl) (fun _ hs => hs)
  | sendToSession cid frame =>
    exact h.ite (h.map (g := id) (fun _ => rfl) (fun _ hs => hs))
  | setBlocked cid b => exact absurd rfl (hop cid b)

end Twins

theorem unmarked_concat {op : Op} (ops : List Op) (hop : ∀ cid b, op ≠ .setBlocked cid b) :
    unmarked (ops ++ [op]) = unmarked ops ++ [op] := by
  cases op with
  | setBlocked cid b => exact absurd rfl (hop cid b)
  | _ => simp [unmarked]

theorem unmarked_concat_setBlocked (ops : List Op) (cid : UInt16) (b : Bool) :
    unmarked (ops ++ [.setBlocked cid b]) = unmarked ops := by simp [unmarked]

/-- The sessions of the two runs are twins. -/
theorem twins (ops : List Op) (c : UInt16) :
    Twins (BlockedInLife ops c) ((performAll ops).findSession c)
      ((performAll (unmarked ops)).findSession c) := by
  induction ops using List.reverseRecOn generalizing c with
  | nil => exact Twins.of_none _
  | append_singleton ops op ih =>
    by_cases hop : ∀ cid b, op ≠ .setBlocked cid b
    · -- both runs take the step, and pop the frame of the same session
      have htarget := popTarget_congr fun c => (ih c).queues
      rw [unmarked_concat ops hop, performAll_concat, performAll_concat, findSession_perform,
        findSession_perform, ← htarget]
      by_cases hremove : op = .removeSession c
      · subst hremove
        simpa [Op.effect] using Twins.of_none _
      · exact ((ih c).effect _ c hop).mono fun hb => hb.concat hremove
    · -- only the run with marks takes the step
      push Not at hop
      obtain ⟨cid, b, rfl⟩ := hop
      have h : Twins (BlockedInLife (ops ++ [.setBlocked cid b]) c) _ _ :=
        (ih c).mono fun hb => hb.concat (by simp)
      rw [unmarked_concat_setBlocked, performAll_concat, findSession_perform, Op.effect]
      split_ifs with hc
      · subst hc
        have hqueues := (ih cid).queues
        have hunmarked := (ih cid).unmarked
        refine ⟨by simpa [Function.comp_def, Session.setBlocked] using hqueues, hunmarked, ?_⟩
        intro hnot
        have hsame := h.same hnot
        cases hfind : (performAll ops).findSession cid with
        | none => rw [← hsame, hfind, Option.map_none]
        | some s =>
          cases b with
          | true => exact absurd (blockedInLife_setBlocked (by simp [hfind])) hnot
          | false =>
            have hmark := hunmarked s (hsame ▸ hfind)
            rw [← hsame, hfind, Option.map_some, Session.setBlocked, ← hmark]
      · exact h

/-! ### The law of the mark -/

/-- No operation hands a frame to a session that is blocked. -/
def NothingHeard (ops : List Op) : Prop :=
  ∀ before op after, ops = before ++ op :: after → Silent (performAll before) op

/-- At every moment of the run, a session that was never blocked is as it is in the run
without marks: it has been handed the same frames in the same order. -/
def OthersUndisturbed (ops : List Op) : Prop :=
  ∀ before, before <+: ops → ∀ c, ¬ BlockedInLife before c →
    (performAll before).findSession c = (performAll (unmarked before)).findSession c

theorem othersUndisturbed (ops : List Op) : OthersUndisturbed ops :=
  fun before _ c hnot => (twins before c).same hnot

/-- The marks silence exactly the sessions that carry them, exactly in the runs without a
broadcast while a session is blocked and without a frame sent to a blocked session. -/
theorem blocked_law_iff (ops : List Op) :
    NothingHeard ops ∧ OthersUndisturbed ops ↔
      ∀ before op after, ops = before ++ op :: after → Considerate (performAll before) op := by
  constructor
  · intro h before op after hops
    exact (silent_iff _ op).mp (h.1 before op after hops)
  · intro h
    refine ⟨?_, othersUndisturbed ops⟩
    intro before op after hops
    exact (silent_iff _ op).mpr (h before op after hops)

/-- An advertisement reaches a session that is blocked. -/
theorem blocked_session_hears :
    ¬ NothingHeard
        [.addSession 1 "10.0.0.2" {}, .setBlocked 1 true,
          .broadcast { sid := 0x01, type := 0, dlc := 0, payload := [], cid := 0 }] := by
  intro h
  have hsilent := (silent_iff _ _).mp (h [_, _] _ [] rfl) 1
    (Session.setBlocked (Session.startTransport ⟨1, "10.0.0.2", {}, [], [], false⟩) true)
  simp only [performAll, List.foldl_cons, List.foldl_nil, findSession_perform, Op.effect,
    if_pos] at hsilent
  exact absurd (hsilent rfl) (by decide)

end SomeIpGateway.SessionBlocking
