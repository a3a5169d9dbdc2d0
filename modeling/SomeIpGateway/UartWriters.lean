import SomeIpGateway.McuChunking
import SomeIpGateway.McuHandlers
import SomeIpGateway.McuQueues

/-!
# Writing to the UART

`UART::txWorker` pops the sessions' frames and `CommandService` sends those of its menu, each
with one `write` to the same descriptor. The bytes of one call stay together; which of the
two threads calls next is open, and so is what the sessions do meanwhile.
-/
namespace SomeIpGateway.UartWriters
open ByteAccess StreamScanning FrameFormat PacketCodec McuHandlers Sessions KeyedQueues StepMachine

/-! ### The commands of the menu -/

/-- The calls that send one frame. `RequestSpiWrite` reads four bytes of its argument. -/
inductive Call where
  | controlLed (mode : UInt8)
  | resetMcu (mode : UInt8)
  | requestSpiRead
  | requestSpiWrite (d0 d1 d2 d3 : UInt8)
  | requestDiagnostic (sid : UInt8)
  deriving Repr, DecidableEq

namespace Call

/-- SID, type and payload, as each call hands them to `build_frame`. -/
def request : Call → UInt8 × UInt8 × List UInt8
  | controlLed mode => (0x10, 0x01, [mode])
  | resetMcu mode => (0x11, 0x01, [mode])
  | requestSpiRead => (0x12, 0x01, [0x00, 0x00, 0x00, 0x00, 0x00])
  | requestSpiWrite d0 d1 d2 d3 => (0x12, 0x01, [0x01, d0, d1, d2, d3])
  | requestDiagnostic sid => (sid, 0x01, [0x00])

def frame (call : Call) (cid : UInt16) : BkelFrame :=
  ⟨call.request.1, call.request.2.1, UInt16.ofNat call.request.2.2.length, cid, call.request.2.2⟩

def handler : Call → Handler
  | controlLed _ => .ld2Control
  | resetMcu _ => .mcuReset
  | requestSpiRead | requestSpiWrite .. => .spiRead
  | requestDiagnostic sid => (commands.lookup sid).getD .diagPwmOut

end Call

def requestSpiLoopback (d0 d1 d2 d3 : UInt8) : List Call :=
  [.requestSpiWrite d0 d1 d2 d3, .requestSpiRead]

def runDiagnosticTest : List Call :=
  [0x20, 0x21, 0x22, 0x23, 0x24, 0x25, 0x26].map .requestDiagnostic

/-- The switch of `ShowMenu`. -/
def menu (choice : ℤ) : List Call :=
  if choice = 1 then [.controlLed 0x01]
  else if choice = 2 then [.controlLed 0x00]
  else if choice = 3 then [.controlLed 0x02]
  else if choice = 4 then [.resetMcu 0x01]
  else if choice = 5 then [.requestSpiRead]
  else if choice = 6 then [.requestSpiWrite 0xAA 0xBB 0xCC 0xDD]
  else if choice = 7 then requestSpiLoopback 0xDE 0xAD 0xBE 0xEF
  else if choice = 8 then runDiagnosticTest
  else []

/-! ### The threads -/

/-- The gateway's sessions, the two threads and the bytes that the UART has taken; and the
records of what was chosen, called and written. -/
structure State where
  queues : QueueState := {}
  /-- The frame that `txWorker` has popped and not written yet, with its session. -/
  popped : Option (UInt16 × BkelFrame) := none
  calls : List Call := []
  currentCid : UInt16 := 0
  uart : List UInt8 := []
  chosen : List ℤ := []
  called : List Call := []
  /-- The frames written, those of `txWorker` with the session they are from. -/
  written : List (Option UInt16 × BkelFrame) := []

inductive Action where
  /-- Any thread calls a function of `SessionManager`. -/
  | sessions (a : QueueAction)
  | pop
  /-- `txWorker` calls `write`, which takes some of the bytes. -/
  | write (taken : ℕ)
  | choose (choice : ℤ)
  /-- The next call of `CommandService`; its `write` takes some of the bytes. -/
  | call (taken : ℕ)

namespace State

def txData (frame : BkelFrame) : List UInt8 :=
  buildFrame frame.sid frame.type (some frame.payload) frame.dlc frame.cid

def callData (s : State) (call : Call) : List UInt8 :=
  buildFrame call.request.1 call.request.2.1 (some call.request.2.2)
    (UInt16.ofNat call.request.2.2.length) s.currentCid

/-- One step. Only `txWorker` pops, and a frame that is not encoded is not written. -/
def step (s : State) : Action → Option State
  | .sessions (.popNextMcuFrame _) => none
  | .sessions a => (s.queues.step a).map fun queues => { s with queues }
  | .pop =>
    if s.popped.isSome then none
    else
      (s.queues.step (.popNextMcuFrame ⟨0, 0, 0, 0, []⟩)).map fun queues =>
        { s with
          queues
          popped := s.queues.manager.popNextMcuFrame.map fun p => (p.1, p.2.1) }
  | .write taken =>
    match s.popped with
    | none => none
    | some (cid, frame) =>
      if (txData frame).length < taken then none
      else if txData frame = [] then some { s with popped := none }
      else some { s with
        popped := none
        uart := s.uart ++ (txData frame).take taken
        written := s.written ++ [(some cid, frame)] }
  | .choose choice =>
    if s.calls = [] then some { s with calls := menu choice, chosen := s.chosen ++ [choice] }
    else none
  | .call taken =>
    match s.calls with
    | [] => none
    | call :: calls =>
      if (s.callData call).length < taken then none
      else some { s with
        calls
        currentCid := s.currentCid + 1
        uart := s.uart ++ (s.callData call).take taken
        called := s.called ++ [call]
        written := s.written ++ [(none, call.frame s.currentCid)] }

end State

def gateway : Machine State Action := ⟨{}, State.step⟩

/-- A write takes all of its bytes, and what is forwarded is a frame as `rxLoop` makes it. -/
def Whole (s : State) : Action → Prop
  | .sessions (.forwardToMcu _ reqFrame) =>
    reqFrame.WellFormed ∧ reqFrame.dlc.toNat ≤ bkelMaxPayload
  | .write taken => ∀ p ∈ s.popped, taken = (State.txData p.2).length
  | .call taken => ∀ call ∈ s.calls.head?, taken = (s.callData call).length
  | _ => True

instance (s : State) : DecidablePred (Whole s) := fun a => by
  unfold Whole
  split <;> infer_instance

/-! ### What is written -/

def takes (history : List (Event UInt16 BkelFrame)) : List (UInt16 × BkelFrame) :=
  history.filterMap fun e =>
    match e with
    | .take cid frame => some (cid, frame)
    | _ => none

def fromSessions (written : List (Option UInt16 × BkelFrame)) : List (UInt16 × BkelFrame) :=
  written.filterMap fun w => w.1.map (·, w.2)

def fromMenu (written : List (Option UInt16 × BkelFrame)) : List BkelFrame :=
  written.filterMap fun w => if w.1 = none then some w.2 else none

/-- The payload is all there, and not too long for the encoder. -/
def Encodable (f : BkelFrame) : Prop := f.WellFormed ∧ f.dlc.toNat ≤ bkelMaxPayload

theorem txData_eq {f : BkelFrame} (hf : Encodable f) : State.txData f = frameBytes f :=
  buildFrame_eq_frameBytes hf.1 hf.2

theorem Call.encodable (call : Call) (cid : UInt16) : Encodable (call.frame cid) := by
  cases call <;> exact ⟨rfl, by simp [Call.frame, Call.request, bkelMaxPayload]⟩

theorem callData_eq (s : State) (call : Call) :
    s.callData call = frameBytes (call.frame s.currentCid) :=
  buildFrame_eq_frameBytes (call.encodable s.currentCid).1 (call.encodable s.currentCid).2

structure Inv (s : State) : Prop where
  queued : ∀ cid queue, toMcuQueues s.queues.manager cid = some queue → ∀ f ∈ queue, Encodable f
  popped : ∀ p ∈ s.popped, Encodable p.2
  written : ∀ w ∈ s.written, Encodable w.2
  uart : s.uart = s.written.flatMap (fun w => frameBytes w.2)
  taken : fromSessions s.written ++ s.popped.toList = takes s.queues.history
  accounts : Accounts s.queues.history (toMcuQueues s.queues.manager)
  currentCid : s.currentCid = UInt16.ofNat s.called.length
  menu : fromMenu s.written = s.called.mapIdx (fun i call => call.frame (UInt16.ofNat i))
  chosen : s.called ++ s.calls = s.chosen.flatMap UartWriters.menu

theorem Inv.init : Inv {} where
  queued cid queue h := by simp [toMcuQueues, SessionManager.findSession] at h
  popped p h := by cases h
  written w h := by cases h
  uart := rfl
  taken := rfl
  accounts := accounts_init
  currentCid := rfl
  menu := rfl
  chosen := rfl

/-- The sessions take frames in and give none out, except to `txWorker`. -/
theorem Inv.sessions {s : State} (h : Inv s) {a : QueueAction} {queues : QueueState}
    (hpop : ∀ out, a ≠ .popNextMcuFrame out)
    (hforward : ∀ cid reqFrame, a = .forwardToMcu cid reqFrame → Encodable reqFrame)
    (hstep : s.queues.step a = some queues) : Inv { s with queues } := by
  refine { h with queued := ?_, taken := ?_, accounts := accounts_step h.accounts hstep }
  · cases a with
    | addSession cid ip transport =>
      obtain rfl := Option.some.inj hstep
      exact (follows_addSession s.queues.manager cid ip transport).forall_mem h.queued
        (fun _ _ he => by cases he)
    | removeSession cid =>
      obtain rfl := Option.some.inj hstep
      exact (follows_removeSession s.queues.manager cid).forall_mem h.queued
        (fun _ _ he => by cases he)
    | forwardToMcu cid reqFrame =>
      obtain rfl := Option.some.inj hstep
      refine (follows_forwardToMcu s.queues.manager cid reqFrame).forall_mem h.queued ?_
      rintro _ _ he
      obtain ⟨rfl, rfl⟩ := Event.put.inj he
      exact hforward cid reqFrame rfl
    | popNextMcuFrame out => exact (hpop out rfl).elim
    | onFrame frame =>
      obtain rfl := Option.some.inj hstep
      dsimp only
      rw [toMcuQueues_onFrame]
      exact h.queued
  · refine h.taken.trans ?_
    cases a with
    | popNextMcuFrame out => exact (hpop out rfl).elim
    | addSession _ _ _ | removeSession _ | forwardToMcu _ _ =>
      obtain rfl := Option.some.inj hstep
      simp [takes]
    | onFrame frame =>
      obtain rfl := Option.some.inj hstep
      rfl

theorem Inv.pop {s t : State} (h : Inv s) (hstep : s.step .pop = some t) : Inv t := by
  simp only [State.step] at hstep
  split_ifs at hstep with hsome
  obtain ⟨queues, hqueues, rfl⟩ := Option.map_eq_some_iff.mp hstep
  have hnone : s.popped = none := by simpa using hsome
  have haccounts := accounts_step h.accounts hqueues
  have htaken := h.taken
  obtain rfl := Option.some.inj hqueues
  rw [hnone, Option.toList_none, List.append_nil] at htaken
  dsimp only at haccounts ⊢
  rw [SessionManager.popNextMcuFrameInto_eq] at haccounts
  cases hnext : s.queues.manager.popNextMcuFrame with
  | none =>
    refine { h with queued := ?_, popped := ?_, taken := ?_, accounts := ?_ }
    · rw [SessionManager.popNextMcuFrameInto_eq, hnext]
      exact h.queued
    · rintro _ ⟨⟩
    · simpa [hnext] using htaken
    · rw [SessionManager.popNextMcuFrameInto_eq, hnext]
      rw [hnext] at haccounts
      exact haccounts
  | some p =>
    obtain ⟨cid, frame, m⟩ := p
    have hfollows := follows_popNextMcuFrame hnext
    have hfront : Encodable frame := by
      obtain ⟨rest, hqueue, -⟩ := hfollows
      exact h.queued cid _ hqueue frame List.mem_cons_self
    refine { h with queued := ?_, popped := ?_, taken := ?_, accounts := ?_ }
    · rw [SessionManager.popNextMcuFrameInto_eq, hnext]
      exact hfollows.forall_mem h.queued (fun _ _ he => by cases he)
    · intro q hq
      obtain rfl := Option.some.inj hq
      exact hfront
    · simp [htaken, takes]
    · rw [SessionManager.popNextMcuFrameInto_eq, hnext]
      rw [hnext] at haccounts
      exact haccounts

theorem frameBytes_ne_nil {f : BkelFrame} (hf : f.WellFormed) : frameBytes f ≠ [] := by
  intro hnil
  have hlen := length_frameBytes hf
  rw [hnil, List.length_nil, BkelFrame.size] at hlen
  omega

theorem Inv.write {s t : State} {taken : ℕ} (h : Inv s) (hwhole : Whole s (.write taken))
    (hstep : s.step (.write taken) = some t) : Inv t := by
  simp only [State.step] at hstep
  cases hpopped : s.popped with
  | none => simp [hpopped] at hstep
  | some p =>
    obtain ⟨cid, frame⟩ := p
    have henc : Encodable frame := h.popped _ hpopped
    have htaken := h.taken
    obtain rfl := hwhole _ hpopped
    simp only [hpopped, txData_eq henc, lt_irrefl, frameBytes_ne_nil henc.1, if_false,
      List.take_length] at hstep
    obtain rfl := Option.some.inj hstep
    rw [hpopped] at htaken
    refine { h with popped := ?_, written := ?_, uart := ?_, taken := ?_, menu := ?_ }
    · rintro _ ⟨⟩
    · intro w hw
      rcases List.mem_append.mp hw with hold | hnew
      · exact h.written w hold
      · obtain rfl := List.mem_singleton.mp hnew
        exact henc
    · simp [h.uart]
    · simpa [fromSessions] using htaken
    · simpa [fromMenu] using h.menu

theorem Inv.choose {s t : State} {choice : ℤ} (h : Inv s)
    (hstep : s.step (.choose choice) = some t) : Inv t := by
  simp only [State.step] at hstep
  split_ifs at hstep with hnil
  obtain rfl := Option.some.inj hstep
  have hchosen := h.chosen
  rw [hnil, List.append_nil] at hchosen
  exact { h with chosen := by simp [hchosen] }

theorem Inv.call {s t : State} {taken : ℕ} (h : Inv s) (hwhole : Whole s (.call taken))
    (hstep : s.step (.call taken) = some t) : Inv t := by
  simp only [State.step] at hstep
  cases hcalls : s.calls with
  | nil => simp [hcalls] at hstep
  | cons call calls =>
    obtain rfl := hwhole call (by simp [hcalls])
    have hchosen := h.chosen
    simp only [hcalls, callData_eq, lt_irrefl, if_false, List.take_length] at hstep hchosen
    obtain rfl := Option.some.inj hstep
    refine { h with
      written := ?_, uart := ?_, taken := ?_, currentCid := ?_, menu := ?_, chosen := ?_ }
    · intro w hw
      rcases List.mem_append.mp hw with hold | hnew
      · exact h.written w hold
      · obtain rfl := List.mem_singleton.mp hnew
        exact call.encodable s.currentCid
    · simp [h.uart]
    · simpa [fromSessions] using h.taken
    · simp [h.currentCid]
    · have hmenu := h.menu
      simp only [fromMenu] at hmenu
      simp [fromMenu, hmenu, h.currentCid, List.mapIdx_append]
    · simpa using hchosen

theorem Inv.step {s t : State} {a : Action} (h : Inv s) (hwhole : Whole s a)
    (hstep : s.step a = some t) : Inv t := by
  cases a with
  | sessions a =>
    cases a with
    | popNextMcuFrame out => cases hstep
    | addSession _ _ _ | removeSession _ | onFrame _ =>
      simp only [State.step, Option.map_eq_some_iff] at hstep
      obtain ⟨queues, hqueues, rfl⟩ := hstep
      exact h.sessions (fun _ he => by cases he) (fun _ _ he => by cases he) hqueues
    | forwardToMcu cid reqFrame =>
      simp only [State.step, Option.map_eq_some_iff] at hstep
      obtain ⟨queues, hqueues, rfl⟩ := hstep
      refine h.sessions (fun _ he => by cases he) (fun _ _ he => ?_) hqueues
      obtain ⟨rfl, rfl⟩ := QueueAction.forwardToMcu.inj he
      exact hwhole
  | pop => exact h.pop hstep
  | write taken => exact h.write hwhole hstep
  | choose choice => exact h.choose hstep
  | call taken => exact h.call hwhole hstep

theorem inv_of_reachable {s : State} (h : (gateway.restrict Whole).Reachable s) : Inv s :=
  h.restrict_invariant Inv.init (fun _ _ _ hI hwhole hst => hI.step hwhole hst)

end SomeIpGateway.UartWriters
