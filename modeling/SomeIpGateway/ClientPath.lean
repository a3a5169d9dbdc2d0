import SomeIpGateway.Registration
import SomeIpGateway.TlsReceive
import SomeIpGateway.UartWriters

/-!
# From the clients to the UART

`acceptLoop` makes a session of a connection that registers with a CID that is free. The
session's receive loop forwards what the client sends, frame by frame, and removes the session
when it breaks; what waits in the session's queue then is lost. `txWorker`, the menu and the
MCU's answers take their turns meanwhile.
-/
namespace SomeIpGateway.ClientPath
open ByteAccess StreamScanning StreamReading FrameFormat PacketCodec CandidateScan TlsReceive
open Registration Sessions KeyedQueues StepMachine UartWriters

/-- The receive loop of a session: where it began in the client's stream, and where it is. -/
structure RxLoop (σ : Type*) where
  start : σ
  conn : σ

/-- A session that was removed: what `txWorker` had popped from it, and what was lost. -/
structure Ended (σ : Type*) where
  cid : UInt16
  start : σ
  taken : List BkelFrame
  lost : List BkelFrame

structure State (σ : Type*) where
  writers : UartWriters.State := {}
  /-- The receive loops, by the CID of their session. -/
  loops : UInt16 → Option (RxLoop σ) := fun _ => none
  ended : List (Ended σ) := []

inductive Action (σ : Type*) where
  | accept (ip : String) (conn : σ)
  | rx (cid : UInt16)
  /-- A frame from the UART, or a step of the threads that write to it. -/
  | inner (a : UartWriters.Action)

/-- The steps that are no client's. -/
def Inner : UartWriters.Action → Prop
  | .sessions (.onFrame _) | .pop | .write _ | .choose _ | .call _ => True
  | .sessions _ => False

instance : DecidablePred Inner
  | .sessions (.onFrame _) | .pop | .write _ | .choose _ | .call _ => isTrue trivial
  | .sessions (.addSession ..) | .sessions (.removeSession _)
  | .sessions (.forwardToMcu ..) | .sessions (.popNextMcuFrame _) => isFalse id

namespace State
variable {σ : Type*} (s : State σ)

abbrev manager : SessionManager := s.writers.queues.manager

abbrev history : List (Event UInt16 BkelFrame) := s.writers.queues.history

/-- What `txWorker` has popped from the sessions that a CID had before. -/
def takenBefore (cid : UInt16) : List BkelFrame :=
  (s.ended.filter (·.cid = cid)).flatMap Ended.taken

def endOf (cid : UInt16) (loop : RxLoop σ) : Ended σ where
  cid
  start := loop.start
  taken := takenOf cid s.history
  lost := (toMcuQueues s.manager cid).getD []

variable (R : Reader σ UInt8)

/-- One step. A registration with a CID that is in use leaves the session as it is, and the
connection without a receive loop. -/
def step (s : State σ) : Action σ → Option (State σ)
  | .accept ip conn =>
    match receiveCid R conn with
    | none => some s
    | some (cid, conn) =>
      (s.writers.step (.sessions (.addSession cid ip {}))).map fun writers =>
        { s with
          writers
          loops := if (s.manager.findSession cid).isNone then
            Function.update s.loops cid (some ⟨conn, conn⟩) else s.loops }
  | .rx cid =>
    match s.loops cid with
    | none => none
    | some loop =>
      match rxFrame R cid loop.conn with
      | some (x, conn) =>
        (s.writers.step (.sessions (.forwardToMcu cid x.frame))).map fun writers =>
          { s with writers, loops := Function.update s.loops cid (some { loop with conn }) }
      | none =>
        (s.writers.step (.sessions (.removeSession cid))).map fun writers =>
          { s with
            writers
            loops := Function.update s.loops cid none
            ended := s.ended ++ [s.endOf cid loop] }
  | .inner a =>
    if Inner a then (s.writers.step a).map fun writers => { s with writers } else none

end State

section Path
variable {σ : Type*} (R : Reader σ UInt8)

def gateway : Machine (State σ) (Action σ) := ⟨{}, State.step R⟩

/-- A write to the UART takes all of its bytes. -/
def Whole (s : State σ) : Action σ → Prop
  | .inner a => UartWriters.Whole s.writers a
  | _ => True

instance (s : State σ) : DecidablePred (Whole s) := fun a => by
  unfold Whole
  split <;> infer_instance

def ahead (cid : UInt16) (conn : σ) : List BkelFrame := (rxLoop R cid conn).map Forwarded.frame

variable {R}

theorem ahead_of_break {cid : UInt16} {conn : σ} (h : rxFrame R cid conn = none) :
    ahead R cid conn = [] := by
  rw [ahead, rxLoop]
  split
  · rfl
  · next hx => rw [h] at hx; cases hx

theorem ahead_of_turn {cid : UInt16} {conn rest : σ} {x : Forwarded}
    (h : rxFrame R cid conn = some (x, rest)) :
    ahead R cid conn = x.frame :: ahead R cid rest := by
  rw [ahead, rxLoop]
  split
  · next hnone => rw [h] at hnone; cases hnone
  · next y t hy =>
    obtain ⟨rfl, rfl⟩ := Prod.mk.inj (Option.some.inj (h.symm.trans hy))
    rfl

inductive Step (R : Reader σ UInt8) (s : State σ) : Action σ → State σ → Prop where
  | refuse {ip : String} {conn : σ} (hcid : receiveCid R conn = none) :
      Step R s (.accept ip conn) s
  | register {ip : String} {conn rest : σ} {cid : UInt16} {writers : UartWriters.State}
      (hcid : receiveCid R conn = some (cid, rest))
      (hwriters : s.writers.step (.sessions (.addSession cid ip {})) = some writers) :
      Step R s (.accept ip conn)
        { s with
          writers
          loops := if (s.manager.findSession cid).isNone then
            Function.update s.loops cid (some ⟨rest, rest⟩) else s.loops }
  | forward {cid : UInt16} {loop : RxLoop σ} {x : Forwarded} {conn : σ}
      {writers : UartWriters.State} (hloop : s.loops cid = some loop)
      (hframe : rxFrame R cid loop.conn = some (x, conn))
      (hwriters : s.writers.step (.sessions (.forwardToMcu cid x.frame)) = some writers) :
      Step R s (.rx cid)
        { s with writers, loops := Function.update s.loops cid (some { loop with conn }) }
  | remove {cid : UInt16} {loop : RxLoop σ} {writers : UartWriters.State}
      (hloop : s.loops cid = some loop) (hframe : rxFrame R cid loop.conn = none)
      (hwriters : s.writers.step (.sessions (.removeSession cid)) = some writers) :
      Step R s (.rx cid)
        { s with
          writers
          loops := Function.update s.loops cid none
          ended := s.ended ++ [s.endOf cid loop] }
  | inner {a : UartWriters.Action} {writers : UartWriters.State} (hinner : Inner a)
      (hwriters : s.writers.step a = some writers) : Step R s (.inner a) { s with writers }

theorem State.step_cases {s t : State σ} {a : Action σ} (hstep : s.step R a = some t) :
    Step R s a t := by
  cases a with
  | accept ip conn =>
    simp only [State.step] at hstep
    cases hcid : receiveCid R conn with
    | none =>
      simp only [hcid] at hstep
      obtain rfl := Option.some.inj hstep
      exact .refuse hcid
    | some p =>
      simp only [hcid, Option.map_eq_some_iff] at hstep
      obtain ⟨writers, hwriters, rfl⟩ := hstep
      exact .register hcid hwriters
  | rx cid =>
    simp only [State.step] at hstep
    cases hloop : s.loops cid with
    | none => simp [hloop] at hstep
    | some loop =>
      cases hframe : rxFrame R cid loop.conn with
      | none =>
        simp only [hloop, hframe, Option.map_eq_some_iff] at hstep
        obtain ⟨writers, hwriters, rfl⟩ := hstep
        exact .remove hloop hframe hwriters
      | some p =>
        simp only [hloop, hframe, Option.map_eq_some_iff] at hstep
        obtain ⟨writers, hwriters, rfl⟩ := hstep
        exact .forward hloop hframe hwriters
  | inner a =>
    simp only [State.step] at hstep
    split_ifs at hstep with hinner
    obtain ⟨writers, hwriters, rfl⟩ := Option.map_eq_some_iff.mp hstep
    exact .inner hinner hwriters

def fromCid (cid : UInt16) (frames : List (UInt16 × BkelFrame)) : List BkelFrame :=
  (frames.filter (·.1 = cid)).map Prod.snd

theorem fromCid_append (cid : UInt16) (frames more : List (UInt16 × BkelFrame)) :
    fromCid cid (frames ++ more) = fromCid cid frames ++ fromCid cid more := by
  rw [fromCid, List.filter_append, List.map_append, fromCid, fromCid]

variable (R) in
structure Inv (s : State σ) : Prop where
  accounts : Accounts s.history (toMcuQueues s.manager)
  loops : ∀ cid, (s.loops cid).isSome = (toMcuQueues s.manager cid).isSome
  live : ∀ cid loop, s.loops cid = some loop →
    ahead R cid loop.start = putOf cid s.history ++ ahead R cid loop.conn
  ended : ∀ e ∈ s.ended, ahead R e.cid e.start = e.taken ++ e.lost
  taken : ∀ cid, fromCid cid (takes s.history) = s.takenBefore cid ++ takenOf cid s.history

theorem Inv.init : Inv R {} where
  accounts := accounts_init
  loops cid := by simp [toMcuQueues, SessionManager.findSession]
  live cid loop h := by cases h
  ended e h := by cases h
  taken cid := rfl

/-- A step of the other threads gives the front of one queue away, or none. -/
theorem inner_queues {w v : UartWriters.State} {a : UartWriters.Action} (hinner : Inner a)
    (hstep : w.step a = some v) :
    v.queues.history = w.queues.history ∧
        toMcuQueues v.queues.manager = toMcuQueues w.queues.manager ∨
      ∃ cid frame, v.queues.history = w.queues.history ++ [.take cid frame] ∧
        Follows (toMcuQueues w.queues.manager) (toMcuQueues v.queues.manager)
          (.take cid frame) := by
  cases a with
  | sessions a =>
    cases a with
    | onFrame frame =>
      obtain rfl := Option.some.inj hstep
      exact .inl ⟨rfl, toMcuQueues_onFrame _ frame⟩
    | _ => exact hinner.elim
  | pop =>
    simp only [UartWriters.State.step] at hstep
    split_ifs at hstep
    obtain rfl := Option.some.inj hstep
    dsimp only
    rw [SessionManager.popNextMcuFrameInto_eq]
    cases hnext : w.queues.manager.popNextMcuFrame with
    | none => exact .inl ⟨by simp, rfl⟩
    | some p => exact .inr ⟨p.1, p.2.1, by simp, follows_popNextMcuFrame hnext⟩
  | write taken =>
    simp only [UartWriters.State.step] at hstep
    split at hstep
    · cases hstep
    · split_ifs at hstep
      all_goals
        obtain rfl := Option.some.inj hstep
        exact .inl ⟨rfl, rfl⟩
  | choose choice =>
    simp only [UartWriters.State.step] at hstep
    split_ifs at hstep
    obtain rfl := Option.some.inj hstep
    exact .inl ⟨rfl, rfl⟩
  | call taken =>
    simp only [UartWriters.State.step] at hstep
    split at hstep
    · cases hstep
    · split_ifs at hstep
      obtain rfl := Option.some.inj hstep
      exact .inl ⟨rfl, rfl⟩

namespace Inv
variable {s : State σ} {writers : UartWriters.State}

/-- A new session has an empty queue and its receive loop at the start. -/
theorem register (h : Inv R s) {ip : String} {cid : UInt16} {rest : σ}
    (hwriters : s.writers.step (.sessions (.addSession cid ip {})) = some writers) :
    Inv R { s with
      writers
      loops := if (s.manager.findSession cid).isNone then
        Function.update s.loops cid (some ⟨rest, rest⟩) else s.loops } := by
  obtain rfl := Option.some.inj hwriters
  have hfollows := follows_addSession s.manager cid ip {}
  have hqueues : toMcuQueues (s.manager.addSession cid ip {}) =
      Function.update (toMcuQueues s.manager) cid
        (some ((toMcuQueues s.manager cid).getD [])) := hfollows
  have hsession : (toMcuQueues s.manager cid).isSome = (s.manager.findSession cid).isSome := by
    simp [toMcuQueues]
  refine ⟨h.accounts.follow hfollows, fun c => ?loops, fun c loop hc => ?live, h.ended,
    fun c => ?taken⟩
  case loops =>
    have hc := h.loops c
    dsimp only [State.manager]
    rw [hqueues]
    rcases eq_or_ne c cid with rfl | hne
    · rw [Function.update_self, Option.isSome_some]
      split_ifs with hnone
      · rw [Function.update_self, Option.isSome_some]
      · rw [hc, hsession]
        simpa [Option.isSome_iff_ne_none] using hnone
    · rw [Function.update_of_ne hne, ← hc]
      split_ifs
      · rw [Function.update_of_ne hne]
      · rfl
  case live =>
    dsimp only [State.history] at hc ⊢
    rw [putOf_add]
    split_ifs at hc with hnone
    · rcases eq_or_ne c cid with rfl | hne
      · rw [Function.update_self] at hc
        obtain rfl := Option.some.inj hc
        have hqueue : toMcuQueues s.manager c = none := by
          simpa [toMcuQueues] using hnone
        have hput : putOf c s.history = [] := by
          rw [putOf, h.accounts.life_eq_none hqueue]
          rfl
        rw [hput, List.nil_append]
      · rw [Function.update_of_ne hne] at hc
        exact h.live c loop hc
    · exact h.live c loop hc
  case taken =>
    dsimp only [State.history]
    rw [takenOf_add]
    simpa [takes, State.takenBefore] using h.taken c

/-- What a turn forwards is no longer ahead. -/
theorem forward (h : Inv R s) {cid : UInt16} {loop : RxLoop σ} {x : Forwarded} {conn : σ}
    (hloop : s.loops cid = some loop) (hframe : rxFrame R cid loop.conn = some (x, conn))
    (hwriters : s.writers.step (.sessions (.forwardToMcu cid x.frame)) = some writers) :
    Inv R { s with writers, loops := Function.update s.loops cid (some { loop with conn }) } := by
  obtain rfl := Option.some.inj hwriters
  have hfollows := follows_forwardToMcu s.manager cid x.frame
  have hqueues : toMcuQueues (s.manager.forwardToMcu cid x.frame) =
      Function.update (toMcuQueues s.manager) cid
        ((toMcuQueues s.manager cid).map (· ++ [x.frame])) := hfollows
  have hsome : (toMcuQueues s.manager cid).isSome := by rw [← h.loops, hloop, Option.isSome_some]
  refine ⟨h.accounts.follow hfollows, fun c => ?loops, fun c l hc => ?live, h.ended,
    fun c => ?taken⟩
  case loops =>
    dsimp only [State.manager]
    rw [hqueues]
    rcases eq_or_ne c cid with rfl | hne
    · rw [Function.update_self, Function.update_self, Option.isSome_map, hsome, Option.isSome_some]
    · rw [Function.update_of_ne hne, Function.update_of_ne hne, h.loops]
  case live =>
    dsimp only [State.history] at hc ⊢
    rcases eq_or_ne c cid with rfl | hne
    · rw [Function.update_self] at hc
      obtain rfl := Option.some.inj hc
      rw [h.accounts.putOf_put hsome, h.live c loop hloop, ahead_of_turn hframe,
        List.append_assoc, List.singleton_append]
    · rw [Function.update_of_ne hne] at hc
      rw [putOf_of_ne _ hne]
      exact h.live c l hc
  case taken =>
    dsimp only [State.history]
    rw [takenOf_put]
    simpa [takes, State.takenBefore] using h.taken c

/-- When the loop breaks, all that it forwarded was popped or is lost. -/
theorem remove (h : Inv R s) {cid : UInt16} {loop : RxLoop σ} (hloop : s.loops cid = some loop)
    (hframe : rxFrame R cid loop.conn = none)
    (hwriters : s.writers.step (.sessions (.removeSession cid)) = some writers) :
    Inv R { s with
      writers
      loops := Function.update s.loops cid none
      ended := s.ended ++ [s.endOf cid loop] } := by
  obtain rfl := Option.some.inj hwriters
  have hfollows := follows_removeSession s.manager cid
  have hqueues : toMcuQueues (s.manager.removeSession cid) =
      Function.update (toMcuQueues s.manager) cid none := hfollows
  have hsome : (toMcuQueues s.manager cid).isSome := by rw [← h.loops, hloop, Option.isSome_some]
  refine ⟨h.accounts.follow hfollows, fun c => ?loops, fun c l hc => ?live, fun e he => ?ended,
    fun c => ?taken⟩
  case loops =>
    dsimp only [State.manager]
    rw [hqueues]
    rcases eq_or_ne c cid with rfl | hne
    · rw [Function.update_self, Function.update_self]
      rfl
    · rw [Function.update_of_ne hne, Function.update_of_ne hne, h.loops]
  case live =>
    dsimp only [State.history] at hc ⊢
    have hne : c ≠ cid := by
      rintro rfl
      rw [Function.update_self] at hc
      cases hc
    rw [Function.update_of_ne hne] at hc
    rw [putOf_of_ne _ hne]
    exact h.live c l hc
  case ended =>
    rcases List.mem_append.mp he with hold | hnew
    · exact h.ended e hold
    · obtain rfl := List.mem_singleton.mp hnew
      obtain ⟨queue, hqueue⟩ := Option.isSome_iff_exists.mp hsome
      dsimp only [State.endOf]
      rw [h.live cid loop hloop, ahead_of_break hframe, List.append_nil, hqueue,
        Option.getD_some, h.accounts.takenOf_append hqueue]
  case taken =>
    have htaken := h.taken c
    dsimp only [State.history, State.takenBefore] at htaken ⊢
    rw [List.filter_append, List.flatMap_append]
    rcases eq_or_ne c cid with rfl | hne
    · rw [takenOf_remove_self]
      simpa [takes, State.endOf] using htaken
    · rw [takenOf_of_ne _ hne]
      simpa [takes, State.endOf, hne.symm] using htaken

/-- A frame that is popped goes from a queue to what was taken. -/
theorem inner (h : Inv R s) {a : UartWriters.Action} (hinner : Inner a)
    (hwriters : s.writers.step a = some writers) : Inv R { s with writers } := by
  rcases inner_queues hinner hwriters with ⟨hhistory, hqueues⟩ | ⟨cid, frame, hhistory, hfollows⟩
  · refine ⟨?_, ?_, ?_, h.ended, ?_⟩
    · dsimp only [State.history, State.manager]
      rw [hhistory, hqueues]
      exact h.accounts
    · dsimp only [State.manager]
      rw [hqueues]
      exact h.loops
    · dsimp only [State.history]
      rw [hhistory]
      exact h.live
    · dsimp only [State.history, State.takenBefore]
      rw [hhistory]
      exact h.taken
  · have haccounts := h.accounts.follow hfollows
    obtain ⟨rest, hqueue, hqueues⟩ := hfollows
    refine ⟨?accounts, fun c => ?loops, fun c loop hc => ?live, h.ended, fun c => ?taken⟩
    case accounts =>
      dsimp only [State.history, State.manager]
      rwa [hhistory]
    case loops =>
      dsimp only [State.manager]
      rw [hqueues]
      rcases eq_or_ne c cid with rfl | hne
      · rw [Function.update_self, h.loops, hqueue]
        rfl
      · rw [Function.update_of_ne hne, h.loops]
    case live =>
      dsimp only [State.history]
      rw [hhistory, putOf_take]
      exact h.live c loop hc
    case taken =>
      have htaken := h.taken c
      dsimp only [State.history, State.takenBefore] at htaken ⊢
      rw [hhistory, takes, List.filterMap_append, fromCid_append, ← takes, htaken,
        List.append_assoc]
      rcases eq_or_ne c cid with rfl | hne
      · rw [h.accounts.takenOf_take (hqueue ▸ rfl)]
        simp [fromCid]
      · rw [takenOf_of_ne _ hne]
        simp [fromCid, hne.symm]

theorem step (h : Inv R s) {t : State σ} {a : Action σ} (hstep : s.step R a = some t) :
    Inv R t := by
  cases State.step_cases hstep with
  | refuse => exact h
  | register hcid hwriters => exact h.register hwriters
  | forward hloop hframe hwriters => exact h.forward hloop hframe hwriters
  | remove hloop hframe hwriters => exact h.remove hloop hframe hwriters
  | inner hinner hwriters => exact h.inner hinner hwriters

end Inv

theorem inv_of_reachable {s : State σ} (h : (gateway R).Reachable s) : Inv R s :=
  h.invariant Inv.init fun _ _ _ hI hstep => hI.step hstep

/-! ### What becomes of the requests -/

end Path

end SomeIpGateway.ClientPath
