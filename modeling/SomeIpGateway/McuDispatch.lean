import SomeIpGateway.McuHandlers
import SomeIpGateway.McuParser
import SomeIpGateway.McuTasks
import SomeIpGateway.StepMachine

/-!
# From `handle_frame` to the handlers

The command task passes each received frame to `handle_frame`, which stores an admitted
one in `parsed_packet` and notifies the task that executes it. All commands share that
one packet, and a notification overwrites an earlier one. The scheduler may switch
tasks between any two steps; a notified task and a task that is not waiting are ready.
-/
namespace SomeIpGateway.McuDispatch
open ByteAccess FrameFormat McuHandlers McuTasks ReadPrograms StepMachine

/-- `BKEL_Common_Packet_t`. -/
structure CommonPacket where
  sid : UInt8
  type : UInt8
  dlc : UInt16
  payload : List UInt8
  cid : UInt16
  size : payload.length = 16
  deriving Repr, DecidableEq

namespace CommonPacket

/-- The stores to the four fields beside the payload. -/
def storeHeader (p : CommonPacket) (f : BkelFrame) : CommonPacket :=
  { p with sid := f.sid, type := f.type, dlc := f.dlc, cid := f.cid }

/-- `copy_len`. -/
def copyLen (dlc : UInt16) : ℕ := if 16 < dlc.toNat then 16 else dlc.toNat

theorem copyLen_le (dlc : UInt16) : copyLen dlc ≤ 16 := by
  unfold copyLen
  split_ifs <;> omega

theorem copy_fits (p : CommonPacket) (f : BkelFrame) :
    0 + (f.payload.take (copyLen f.dlc)).length ≤ p.payload.length := by
  have hlen := copyLen_le f.dlc
  rw [List.length_take, p.size]
  omega

/-- The `memcpy` to the payload. -/
def storePayload (p : CommonPacket) (f : BkelFrame) : CommonPacket :=
  if 0 < f.dlc.toNat then
    { p with
      payload := store p.payload 0 (f.payload.take (copyLen f.dlc))
      size := (length_store (p.copy_fits f)).trans p.size }
  else p

/-- What `handle_frame` leaves in `parsed_packet`. -/
def handleFrame (p : CommonPacket) (f : BkelFrame) : CommonPacket :=
  if isValidDlc f.sid f.dlc then (p.storeHeader f).storePayload f else p

@[simp] theorem storePayload_sid (p : CommonPacket) (f : BkelFrame) :
    (p.storePayload f).sid = p.sid := by
  unfold storePayload
  split_ifs <;> rfl

theorem storePayload_payload (p : CommonPacket) (f : BkelFrame) :
    (p.storePayload f).payload = store p.payload 0 (f.payload.take (copyLen f.dlc)) := by
  unfold storePayload
  split_ifs with hpos
  · rfl
  · have hzero : copyLen f.dlc = 0 := by unfold copyLen; split_ifs <;> omega
    simp [hzero, store]

/-- The first 16 bytes of a payload arrive in the packet. -/
theorem u8At_storePayload (p : CommonPacket) {f : BkelFrame}
    (hlen : f.payload.length = f.dlc.toNat) {i : ℕ} (hi : i < f.dlc.toNat) (h16 : i < 16) :
    u8At (p.storePayload f).payload i = u8At f.payload i := by
  have hcopy : i < copyLen f.dlc := by unfold copyLen; split_ifs <;> omega
  have hsrc : i < 0 + (f.payload.take (copyLen f.dlc)).length := by
    rw [List.length_take]
    omega
  rw [storePayload_payload, ← u8At_take hsrc, take_store (Nat.zero_le _), List.take_zero,
    List.nil_append, u8At_take hcopy]

end CommonPacket

/-- Where the command task stands in `handle_frame`, or that it waits for a frame. -/
inductive CommandPc where
  | idle
  | check (f : BkelFrame)
  | header (f : BkelFrame)
  | payload (f : BkelFrame)
  | notify (f : BkelFrame)
  deriving Repr, DecidableEq

/-- Where a worker stands in its loop: before and within `xTaskNotifyWait`, before its
switch, or within a handler, with the events so far and the program that is left. -/
inductive WorkerPc where
  | loop
  | waiting
  | switch
  | handling (h : Handler) (done : List (Event UInt8 Effect)) (todo : Body)

/-- A worker, and whether a notification is pending for it. The value notified is the
address of `parsed_packet` every time. -/
structure WorkerState where
  pc : WorkerPc := .loop
  notified : Bool := false

structure State where
  inbox : List BkelFrame := []
  command : CommandPc := .idle
  packet : CommonPacket
  worker : Worker → WorkerState := fun _ => {}
  /-- The frames passed to the command task so far. -/
  arrived : List BkelFrame := []
  /-- The frames for which `handle_frame` has returned. -/
  handled : List BkelFrame := []
  /-- The completed runs of handlers. -/
  log : List Run := []
  /-- What `handle_frame` has printed. -/
  printed : List Effect := []
  /-- How many notifications were overwritten before they were taken. -/
  overwritten : ℕ := 0

inductive Action where
  | arrive (f : BkelFrame)
  | run (t : Task)

/-- A frame as `parse_one_frame` passes it on. -/
def WellFormed (f : BkelFrame) : Prop :=
  f.payload.length = f.dlc.toNat ∧ f.dlc.toNat ≤ McuParser.bkelMaxDlc

instance (f : BkelFrame) : Decidable (WellFormed f) := inferInstanceAs (Decidable (_ ∧ _))

theorem parseOneFrame_wellFormed {buf : List UInt8} {bufLen : ℕ} (hlen : bufLen ≤ buf.length)
    {f : BkelFrame} (h : (McuParser.parseOneFrame buf bufLen).handled = some f) :
    WellFormed f := by
  unfold McuParser.parseOneFrame at h
  dsimp only at h
  split_ifs at h with hsof hhdr hdlc hcut hcrc
  obtain rfl := Option.some.inj h
  simp only [bkelSofSize, bkelHdrSize, bkelCidSize, bkelCrcSize, not_lt] at hdlc hcut
  simp only [WellFormed, List.length_take, List.length_drop, bkelSofSize, bkelHdrSize]
  omega

theorem parseLoop_wellFormed {buf : List UInt8} {len : ℕ} (hlen : len ≤ buf.length) (offset : ℕ) :
    ∀ f ∈ (McuParser.parseLoop buf len offset).1, WellFormed f := by
  induction offset using McuParser.parseLoop.induct buf len with
  | case1 offset hlt r hincomplete =>
    rw [McuParser.parseLoop, if_pos hlt]
    simp [r, hincomplete]
  | case2 offset hlt r hnot ih =>
    rw [McuParser.parseLoop, if_pos hlt]
    intro f hf
    simp only [r, hnot, dite_false, List.mem_append, Option.mem_toList] at hf
    rcases hf with hf | hf
    · exact parseOneFrame_wellFormed (by rw [List.length_drop]; omega) hf
    · exact ih f hf
  | case3 offset hge =>
    rw [McuParser.parseLoop, if_neg hge]
    simp

theorem receive_wellFormed (st : McuParser.CommandTask) (temp beyond : List UInt8) :
    ∀ f ∈ (McuParser.receive st temp beyond).1, WellFormed f := by
  unfold McuParser.receive
  split_ifs with hpos hfull
  · simp
  · have hstored : (store st.rxBuf st.rxLen temp).length = McuParser.rxBufSize :=
      (length_store (by rw [st.size]; omega)).trans st.size
    have hlen : st.rxLen + temp.length ≤ (store st.rxBuf st.rxLen temp ++ beyond).length := by
      rw [List.length_append]
      omega
    simp only [McuParser.parsePacket]
    split_ifs <;> exact parseLoop_wellFormed hlen 0
  · simp

/-- What the command task passes to `handle_frame` is well formed, whatever it has received. -/
theorem run_wellFormed (beyond : ℕ → List UInt8) (st : McuParser.CommandTask)
    (chunks : List (List UInt8)) : ∀ f ∈ (McuParser.run beyond st chunks).1, WellFormed f := by
  induction chunks generalizing beyond st with
  | nil => simp [McuParser.run]
  | cons temp chunks ih =>
    intro f hf
    rcases List.mem_append.mp hf with hf | hf
    · exact receive_wellFormed st temp (beyond 0) f hf
    · exact ih _ _ f hf

/-- The frame that `handle_frame` is working on. -/
def CommandPc.frame : CommandPc → Option BkelFrame
  | .idle => none
  | .check f | .header f | .payload f | .notify f => some f

def WorkerState.ready (x : WorkerState) : Bool :=
  match x.pc with
  | .waiting => x.notified
  | _ => true

namespace State

def ready (s : State) : Task → Bool
  | .advertise => true
  | .command => decide (s.command ≠ .idle) || !s.inbox.isEmpty
  | .sendData => (s.worker .sendData).ready
  | .rpc => (s.worker .rpc).ready

def setWorker (s : State) (w : Worker) (x : WorkerState) : State :=
  { s with worker := Function.update s.worker w x }

/-- `xTaskNotify` with `eSetValueWithOverwrite`. -/
def xTaskNotify (s : State) (w : Worker) : State :=
  { s.setWorker w { s.worker w with notified := true } with
    overwritten := if (s.worker w).notified then s.overwritten + 1 else s.overwritten }

/-- `handle_frame` returns. -/
def finish (s : State) (f : BkelFrame) : State :=
  { s with command := .idle, handled := s.handled ++ [f] }

/-- A step of `f_handleCommandTask`. -/
def commandStep (s : State) : State :=
  match s.command with
  | .idle =>
    match s.inbox with
    | [] => s
    | f :: rest => { s with inbox := rest, command := .check f }
  | .check f =>
    let (isValid, text) := checkDlc f.sid f.dlc
    let s := { s with printed := s.printed ++ text }
    if isValid then { s with command := .header f } else s.finish f
  | .header f => { s with packet := s.packet.storeHeader f, command := .payload f }
  | .payload f => { s with packet := s.packet.storePayload f, command := .notify f }
  | .notify f =>
    match McuHandlers.notified f.sid with
    | some w => (s.xTaskNotify w).finish f
    | none => s.finish f

/-- A step of `f_sendDataTask` or of `f_RPCTask`. -/
def workerStep (s : State) (w : Worker) : State :=
  match s.worker w with
  | ⟨.loop, false⟩ => s.setWorker w ⟨.waiting, false⟩
  | ⟨.loop, true⟩ | ⟨.waiting, _⟩ => s.setWorker w ⟨.switch, false⟩
  | ⟨.switch, pending⟩ =>
    match w.switch s.packet.sid with
    | some h => s.setWorker w ⟨.handling h [] h.body, pending⟩
    | none => s.setWorker w ⟨.loop, pending⟩
  | ⟨.handling h done todo, pending⟩ =>
    match todo.step? (u8At s.packet.payload) with
    | some (e, rest) => s.setWorker w ⟨.handling h (done ++ [e]) rest, pending⟩
    | none => { s.setWorker w ⟨.loop, pending⟩ with log := s.log ++ [⟨h, done⟩] }

def step (s : State) : Action → Option State
  | .arrive f =>
    if WellFormed f then some { s with inbox := s.inbox ++ [f], arrived := s.arrived ++ [f] }
    else none
  | .run t =>
    if MayRun s.ready t then
      match t with
      | .advertise => some s
      | .command => some s.commandStep
      | .sendData => some (s.workerStep .sendData)
      | .rpc => some (s.workerStep .rpc)
    else none

/-- Only the advertise task may run. -/
def Idle (s : State) : Prop := ∀ t, t ≠ .advertise → s.ready t = false

end State

/-- The MCU after `rtos_taskinit`, with whatever `parsed_packet` holds. -/
def mcu (p : CommonPacket) : Machine State Action := ⟨{ packet := p }, State.step⟩

/-! ### The packet and the run of its handler -/

/-- What is stored of a frame, ahead of `handle_frame`'s return. -/
def CommandPc.written (p : CommonPacket) : CommandPc → CommonPacket
  | .idle | .check _ | .header _ => p
  | .payload f => p.storeHeader f
  | .notify f => (p.storeHeader f).storePayload f

/-- Past the check there are only admitted frames. -/
def CommandPc.Admitted : CommandPc → Prop
  | .header f | .payload f | .notify f => isValidDlc f.sid f.dlc
  | .idle | .check _ => True

theorem handleFrame_of_not_valid {p : CommonPacket} {f : BkelFrame}
    (h : isValidDlc f.sid f.dlc = false) : p.handleFrame f = p := by
  simp [CommonPacket.handleFrame, h]

/-- The task that is notified finds a packet that gives the handler the frame's own run. -/
theorem run_of_handleFrame (p : CommonPacket) {f : BkelFrame} (hwf : WellFormed f)
    (hvalid : isValidDlc f.sid f.dlc) {w : Worker} (hw : notified f.sid = some w) :
    ∃ h, w.switch (p.handleFrame f).sid = some h ∧
      expectedRun f = some ⟨h, h.body.trace (u8At (p.handleFrame f).payload)⟩ := by
  obtain ⟨w', h, hw', hswitch, hhandler, hle⟩ := handlerOf_spec hvalid
  obtain rfl : w = w' := Option.some.inj (hw.symm.trans hw')
  have hpacket : p.handleFrame f = (p.storeHeader f).storePayload f := if_pos hvalid
  have hfive := payloadBytes_le h
  have htrace : h.body.trace (u8At f.payload) =
      h.body.trace (u8At (p.handleFrame f).payload) := by
    refine trace_body_congr h fun i hi => ?_
    rw [hpacket, CommonPacket.u8At_storePayload _ hwf.1 (by omega) (by omega)]
  refine ⟨h, ?_, ?_⟩
  · rw [hpacket, CommonPacket.storePayload_sid]
    exact hswitch
  · rw [expectedRun, hhandler, Option.map_some, htrace]

/-! ### The invariant -/

/-- No command is under way in a worker. -/
def WorkerState.Resting (x : WorkerState) : Prop :=
  x.notified = false ∧ (x.pc = .loop ∨ x.pc = .waiting)

theorem WorkerState.waiting_of_not_ready {x : WorkerState} (h : x.ready = false) :
    x = ⟨.waiting, false⟩ := by
  obtain ⟨pc, pending⟩ := x
  cases pc <;> simp_all [WorkerState.ready]

theorem WorkerState.Resting.eq_loop {x : WorkerState} (h : x.Resting) (hready : x.ready) :
    x = ⟨.loop, false⟩ := by
  obtain ⟨pc, pending⟩ := x
  obtain ⟨rfl, rfl | rfl⟩ := h
  · rfl
  · simp [WorkerState.ready] at hready

/-- Every command handled so far has been executed. -/
structure Settled (s : State) : Prop where
  resting : ∀ w, (s.worker w).Resting
  log : s.log = s.handled.filterMap expectedRun

/-- How far a worker has come with the run that a frame calls for. -/
def Progress (s : State) (w : Worker) (f : BkelFrame) : Prop :=
  match s.worker w with
  | ⟨.loop, pending⟩ | ⟨.waiting, pending⟩ => pending = true
  | ⟨.switch, pending⟩ => pending = false
  | ⟨.handling h done todo, pending⟩ => pending = false ∧
      expectedRun f = some ⟨h, done ++ todo.trace (u8At s.packet.payload)⟩

/-- A worker executes the command of the frame handled last. -/
structure Active (s : State) (w : Worker) (f : BkelFrame) (earlier : List BkelFrame) : Prop where
  command : s.command = .idle
  handled : s.handled = earlier ++ [f]
  log : s.log = earlier.filterMap expectedRun
  valid : isValidDlc f.sid f.dlc
  notified : McuHandlers.notified f.sid = some w
  others : ∀ w', w' ≠ w → (s.worker w').Resting
  progress : Progress s w f

structure Inv (p : CommonPacket) (s : State) : Prop where
  arrived : s.arrived = s.handled ++ s.command.frame.toList ++ s.inbox
  wellFormed : ∀ f ∈ s.arrived, WellFormed f
  overwritten : s.overwritten = 0
  packet : s.packet = s.command.written (s.handled.foldl CommonPacket.handleFrame p)
  admitted : s.command.Admitted
  work : Settled s ∨ ∃ w f earlier, Active s w f earlier

/-- The task that executes a command is ready. -/
theorem Active.ready {s : State} {w : Worker} {f : BkelFrame} {earlier : List BkelFrame}
    (h : Active s w f earlier) : (s.worker w).ready := by
  have hprogress := h.progress
  unfold Progress at hprogress
  rcases hx : s.worker w with ⟨_ | _ | _ | _, pending⟩ <;>
    simp_all [WorkerState.ready]

namespace State
variable {s : State} {w : Worker}

@[simp] theorem setWorker_self (x : WorkerState) : (s.setWorker w x).worker w = x :=
  Function.update_self _ _ _

theorem setWorker_of_ne {w' : Worker} (h : w' ≠ w) (x : WorkerState) :
    (s.setWorker w x).worker w' = s.worker w' := Function.update_of_ne h _ _

/-- A step of a worker touches nothing but its own state and the log. -/
theorem workerStep_frame (s : State) (w : Worker) :
    ∃ log x, s.workerStep w = { s.setWorker w x with log := log } := by
  unfold workerStep
  rcases s.worker w with ⟨_ | _ | _ | ⟨h, done, todo⟩, _ | _⟩ <;> dsimp only
  any_goals exact ⟨s.log, _, rfl⟩
  all_goals split <;> exact ⟨_, _, rfl⟩

end State

namespace Inv
variable {p : CommonPacket} {s : State}

theorem init : Inv p (mcu p).init where
  arrived := rfl
  wellFormed := by simp [mcu]
  overwritten := rfl
  packet := rfl
  admitted := trivial
  work := .inl ⟨fun _ => ⟨rfl, .inl rfl⟩, rfl⟩

theorem arrive (h : Inv p s) {f : BkelFrame} (hwf : WellFormed f) :
    Inv p { s with inbox := s.inbox ++ [f], arrived := s.arrived ++ [f] } where
  arrived := by simp [h.arrived]
  wellFormed := List.forall_mem_append.mpr ⟨h.wellFormed, List.forall_mem_singleton.mpr hwf⟩
  overwritten := h.overwritten
  packet := h.packet
  admitted := h.admitted
  work := by
    rcases h.work with hs | ⟨w, g, earlier, ha⟩
    · exact .inl ⟨hs.resting, hs.log⟩
    · exact .inr ⟨w, g, earlier, ha.command, ha.handled, ha.log, ha.valid, ha.notified,
        ha.others, ha.progress⟩

/-- While the command task runs, both workers wait, and all that was handled is done. -/
theorem settled (h : Inv p s) (hidle : ∀ w, (s.worker w).ready = false) : Settled s := by
  refine h.work.resolve_right ?_
  rintro ⟨w, f, earlier, ha⟩
  have hready := ha.ready
  simp [hidle w] at hready

/-- The notification of an admitted frame sets the task of its SID to work. -/
theorem notify (h : Inv p s) (hidle : ∀ w, (s.worker w).ready = false) {f : BkelFrame}
    (hpc : s.command = .notify f) {w : Worker} (hw : McuHandlers.notified f.sid = some w) :
    Inv p ((s.xTaskNotify w).finish f) := by
  have hsettled := h.settled hidle
  have harrived := h.arrived
  have hpacket := h.packet
  have hadmitted := h.admitted
  rw [hpc] at harrived hpacket hadmitted
  have hvalid : isValidDlc f.sid f.dlc := hadmitted
  have hwaiting := WorkerState.waiting_of_not_ready (hidle w)
  refine ⟨?_, h.wellFormed, ?_, ?_, trivial, .inr ⟨w, f, s.handled, ?_⟩⟩
  · simpa [State.finish, State.xTaskNotify, State.setWorker, CommandPc.frame] using harrived
  · simp [State.finish, State.xTaskNotify, hwaiting, h.overwritten]
  · have hstored : s.packet = (s.handled.foldl CommonPacket.handleFrame p).handleFrame f :=
      hpacket.trans (if_pos hvalid).symm
    simpa [State.finish, State.xTaskNotify, State.setWorker, CommandPc.written] using hstored
  · refine ⟨rfl, rfl, hsettled.log, hvalid, hw, fun w' hw' => ?_, ?_⟩
    · exact (State.setWorker_of_ne hw' _).symm ▸ hsettled.resting w'
    · have hworker : ((s.xTaskNotify w).finish f).worker w = ⟨.waiting, true⟩ := by
        rw [show ((s.xTaskNotify w).finish f).worker w = _ from State.setWorker_self _, hwaiting]
      simp [Progress, hworker]

theorem command (h : Inv p s) (hidle : ∀ w, (s.worker w).ready = false) :
    Inv p s.commandStep := by
  have hsettled := h.settled hidle
  have harrived := h.arrived
  have hpacket := h.packet
  have hadmitted := h.admitted
  unfold State.commandStep
  cases hpc : s.command with
  | idle =>
    cases hinbox : s.inbox with
    | nil => exact h
    | cons f rest =>
      rw [hpc] at harrived hpacket
      refine ⟨?_, h.wellFormed, h.overwritten, hpacket, trivial, .inl ⟨hsettled.1, hsettled.2⟩⟩
      simp [harrived, hinbox, CommandPc.frame]
  | check f =>
    rw [hpc] at harrived hpacket
    dsimp only
    split_ifs with hvalid
    · exact ⟨harrived, h.wellFormed, h.overwritten, hpacket, hvalid,
        .inl ⟨hsettled.1, hsettled.2⟩⟩
    · have hnot : isValidDlc f.sid f.dlc = false := by simpa [isValidDlc] using hvalid
      refine ⟨?_, h.wellFormed, h.overwritten, ?_, trivial, .inl ⟨hsettled.1, ?_⟩⟩
      · simpa [State.finish, CommandPc.frame] using harrived
      · simpa [State.finish, CommandPc.written, handleFrame_of_not_valid hnot] using hpacket
      · simpa [State.finish, expectedRun_of_not_valid hnot] using hsettled.log
  | header f =>
    rw [hpc] at harrived hpacket hadmitted
    exact ⟨harrived, h.wellFormed, h.overwritten, congrArg (·.storeHeader f) hpacket, hadmitted,
      .inl ⟨hsettled.1, hsettled.2⟩⟩
  | payload f =>
    rw [hpc] at harrived hpacket hadmitted
    exact ⟨harrived, h.wellFormed, h.overwritten, congrArg (·.storePayload f) hpacket, hadmitted,
      .inl ⟨hsettled.1, hsettled.2⟩⟩
  | notify f =>
    rw [hpc] at hadmitted
    obtain ⟨w, -, hw, -⟩ := handlerOf_spec hadmitted
    simp only [hw]
    exact h.notify hidle hpc hw

/-- A resting worker's step takes it into `xTaskNotifyWait`. -/
theorem resting_step {w : Worker} (hrest : (s.worker w).Resting) (hready : (s.worker w).ready) :
    s.workerStep w = s.setWorker w ⟨.waiting, false⟩ := by
  simp [State.workerStep, hrest.eq_loop hready]

theorem resting_setWorker {w w' : Worker} {x : WorkerState} (hx : w' = w → x.Resting)
    (h : w' ≠ w → (s.worker w').Resting) : ((s.setWorker w x).worker w').Resting := by
  by_cases heq : w' = w
  · rw [heq, State.setWorker_self]
    exact hx heq
  · rw [State.setWorker_of_ne heq]
    exact h heq

/-- A step of the task that executes a command takes it further, or completes the run. -/
theorem active_step (h : Inv p s) {w : Worker} {f : BkelFrame} {earlier : List BkelFrame}
    (ha : Active s w f earlier) :
    Settled (s.workerStep w) ∨ Active (s.workerStep w) w f earlier := by
  have hprogress := ha.progress
  -- what is unchanged, whatever the step stores
  have hactive (x : WorkerState) (hx : Progress (s.setWorker w x) w f) :
      Active (s.setWorker w x) w f earlier :=
    ⟨ha.command, ha.handled, ha.log, ha.valid, ha.notified,
      fun w' hw' => (State.setWorker_of_ne hw' x).symm ▸ ha.others w' hw', hx⟩
  unfold Progress at hprogress
  unfold State.workerStep
  rcases hx : s.worker w with ⟨_ | _ | _ | ⟨handler, done, todo⟩, pending⟩ <;>
    simp only [hx] at hprogress ⊢
  · subst hprogress
    exact .inr (hactive _ (by simp [Progress]))
  · exact .inr (hactive _ (by simp [Progress]))
  · have hpacket : s.packet = (earlier.foldl CommonPacket.handleFrame p).handleFrame f := by
      rw [h.packet, ha.command, ha.handled, List.foldl_append]
      rfl
    have hwf : WellFormed f := h.wellFormed f (by simp [h.arrived, ha.handled])
    obtain ⟨handler, hswitch, hrun⟩ := run_of_handleFrame
      (earlier.foldl CommonPacket.handleFrame p) hwf ha.valid ha.notified
    rw [← hpacket] at hswitch hrun
    simp only [hswitch]
    exact .inr (hactive _ (by simpa [Progress, hprogress, State.setWorker] using hrun))
  · obtain ⟨rfl, hrun⟩ := hprogress
    cases hstep : todo.step? (u8At s.packet.payload) with
    | none =>
      -- the handler returns
      rw [Program.trace_of_halted hstep, List.append_nil] at hrun
      refine .inl ⟨fun w' => ?_, ?_⟩
      · exact resting_setWorker (fun _ => ⟨rfl, .inl rfl⟩) (ha.others w')
      · simp [State.setWorker, ha.log, ha.handled, hrun]
    | some next =>
      obtain ⟨e, rest⟩ := next
      rw [Program.trace_of_step hstep] at hrun
      exact .inr (hactive _ (by simpa [Progress, State.setWorker] using hrun))

theorem worker (h : Inv p s) {w : Worker} (hready : (s.worker w).ready) :
    Inv p (s.workerStep w) := by
  have hwork : Settled (s.workerStep w) ∨ ∃ w' f earlier, Active (s.workerStep w) w' f earlier := by
    rcases h.work with hs | ⟨w', f, earlier, ha⟩
    · rw [resting_step (hs.resting w) hready]
      exact .inl ⟨fun w' => resting_setWorker (fun _ => ⟨rfl, .inr rfl⟩) fun _ => hs.resting w',
        hs.log⟩
    · by_cases hw : w = w'
      · subst hw
        exact (h.active_step ha).imp id fun ha' => ⟨w, f, earlier, ha'⟩
      · rw [resting_step (ha.others w hw) hready]
        refine .inr ⟨w', f, earlier, ha.command, ha.handled, ha.log, ha.valid, ha.notified,
          fun w'' hne => ?_, ?_⟩
        · exact resting_setWorker (fun _ => ⟨rfl, .inr rfl⟩) fun _ => ha.others w'' hne
        · have hprogress := ha.progress
          unfold Progress at hprogress ⊢
          rw [State.setWorker_of_ne (Ne.symm hw)]
          exact hprogress
  obtain ⟨log, x, heq⟩ := State.workerStep_frame s w
  rw [heq] at hwork ⊢
  exact ⟨h.arrived, h.wellFormed, h.overwritten, h.packet, h.admitted, hwork⟩

end Inv

/-! ### Every run comes to rest -/

/-- A bound on the steps that a worker has still to take. -/
def WorkerState.work (mem : ℕ → UInt8) (x : WorkerState) : ℕ :=
  (if x.notified then 22 else 0) +
    match x.pc with
    | .loop => 1
    | .waiting => 0
    | .switch => 20
    | .handling _ _ todo => 2 + (todo.trace mem).length

def CommandPc.work : CommandPc → ℕ
  | .idle => 0
  | .check _ => 26
  | .header _ => 25
  | .payload _ => 24
  | .notify _ => 23

namespace State
variable {s : State} {w : Worker}

/-- A bound on the steps that the tasks other than the advertise task have still to take. -/
def work (s : State) : ℕ :=
  27 * s.inbox.length + s.command.work +
    ((s.worker .sendData).work (u8At s.packet.payload) +
      (s.worker .rpc).work (u8At s.packet.payload))

theorem work_commandStep (hready : s.ready .command) (hidle : ∀ w, (s.worker w).ready = false) :
    s.commandStep.work < s.work := by
  have hwaiting w := WorkerState.waiting_of_not_ready (hidle w)
  have hzero : s.work = 27 * s.inbox.length + s.command.work := by
    simp [work, hwaiting, WorkerState.work]
  rw [hzero]
  unfold commandStep
  cases hpc : s.command with
  | idle =>
    cases hinbox : s.inbox with
    | nil => simp [ready, hpc, hinbox] at hready
    | cons f rest =>
      simp only [work, hwaiting, WorkerState.work, CommandPc.work, List.length_cons,
        Bool.false_eq_true, if_false]
      omega
  | check f =>
    dsimp only
    split_ifs <;> simp [work, finish, hwaiting, WorkerState.work, CommandPc.work]
  | header f => simp [work, hwaiting, WorkerState.work, CommandPc.work]
  | payload f => simp [work, hwaiting, WorkerState.work, CommandPc.work]
  | notify f =>
    dsimp only
    split
    · rename_i w _
      cases w <;>
        simp [work, finish, xTaskNotify, setWorker, hwaiting, WorkerState.work, CommandPc.work]
    · simp [work, finish, hwaiting, WorkerState.work, CommandPc.work]

/-- A step of a worker brings it forward by one, and leaves the rest of the work alone. -/
theorem work_workerStep (hready : (s.worker w).ready) : (s.workerStep w).work < s.work := by
  have hset (x : WorkerState) (log : List Run)
      (hlt : x.work (u8At s.packet.payload) < (s.worker w).work (u8At s.packet.payload)) :
      ({ s.setWorker w x with log := log } : State).work < s.work := by
    cases w
    · have hother : (s.setWorker .sendData x).worker .rpc = s.worker .rpc :=
        setWorker_of_ne (by decide) x
      simp only [work, hother, setWorker_self] at hlt ⊢
      exact Nat.add_lt_add_left (Nat.add_lt_add_right hlt _) _
    · have hother : (s.setWorker .rpc x).worker .sendData = s.worker .sendData :=
        setWorker_of_ne (by decide) x
      simp only [work, hother, setWorker_self] at hlt ⊢
      exact Nat.add_lt_add_left (Nat.add_lt_add_left hlt _) _
  unfold workerStep
  rcases hx : s.worker w with ⟨_ | _ | _ | ⟨h, done, todo⟩, pending⟩
  · cases pending <;> exact hset _ s.log (by simp [hx, WorkerState.work])
  · obtain rfl : pending = true := by simpa [hx, WorkerState.ready] using hready
    exact hset _ s.log (by simp [hx, WorkerState.work])
  · dsimp only
    split
    · rename_i h _
      have hbody := length_trace_body h (u8At s.packet.payload)
      refine hset _ s.log ?_
      simp only [hx, WorkerState.work]
      omega
    · exact hset _ s.log (by simp [hx, WorkerState.work])
  · dsimp only
    split
    · rename_i e rest hstep
      refine hset _ s.log ?_
      simp [hx, WorkerState.work, Program.trace_of_step hstep]
    · refine hset _ _ ?_
      simp only [hx, WorkerState.work]
      omega

end State

/-! ### Executed once, in order, on its own data -/

theorem workers_not_ready {s : State} (h : MayRun s.ready .command) (w : Worker) :
    (s.worker w).ready = false := by
  cases w with
  | sendData => exact h.command_alone.1
  | rpc => exact h.command_alone.2

theorem Inv.step {p : CommonPacket} {s s' : State} {a : Action} (h : Inv p s)
    (hstep : s.step a = some s') : Inv p s' := by
  cases a with
  | arrive f =>
    simp only [State.step] at hstep
    split_ifs at hstep with hwf
    exact Option.some.inj hstep ▸ h.arrive hwf
  | run t =>
    simp only [State.step] at hstep
    split_ifs at hstep with hmay
    cases t <;> obtain rfl := Option.some.inj hstep
    · exact h
    · exact h.command (workers_not_ready hmay)
    · exact h.worker hmay.1
    · exact h.worker hmay.1

/-- A step of a task other than the advertise task. -/
def Action.Working : Action → Prop
  | .arrive _ => False
  | .run t => t ≠ .advertise

theorem work_step {s s' : State} {a : Action} (ha : a.Working) (hstep : s.step a = some s') :
    s'.work < s.work := by
  cases a with
  | arrive f => exact ha.elim
  | run t =>
    simp only [State.step] at hstep
    split_ifs at hstep with hmay
    cases t <;> obtain rfl := Option.some.inj hstep
    · exact absurd rfl ha
    · exact State.work_commandStep hmay.1 (workers_not_ready hmay)
    · exact State.work_workerStep hmay.1
    · exact State.work_workerStep hmay.1

/-- While some task other than the advertise task is ready, one of them may run. -/
theorem exists_step_of_not_idle {s : State} (h : ¬ s.Idle) :
    ∃ a s', Action.Working a ∧ s.step a = some s' := by
  by_cases hworker : ∃ w, (s.worker w).ready
  · obtain ⟨w, hw⟩ := hworker
    cases w with
    | sendData =>
      have hmay : MayRun s.ready .sendData := ⟨hw, fun t _ => by cases t <;> decide⟩
      exact ⟨.run .sendData, _, by simp [Action.Working], if_pos hmay⟩
    | rpc =>
      have hmay : MayRun s.ready .rpc := ⟨hw, fun t _ => by cases t <;> decide⟩
      exact ⟨.run .rpc, _, by simp [Action.Working], if_pos hmay⟩
  · have hnone w : (s.worker w).ready = false := by
      by_contra hw
      exact hworker ⟨w, by simpa using hw⟩
    have hcommand : s.ready .command := by
      by_contra hnot
      refine h fun t ht => ?_
      cases t with
      | advertise => exact absurd rfl ht
      | command => simpa using hnot
      | sendData => exact hnone _
      | rpc => exact hnone _
    have hmay : MayRun s.ready .command := by
      refine ⟨hcommand, fun t ht => ?_⟩
      cases t with
      | advertise => decide
      | command => decide
      | sendData => simp [State.ready, hnone] at ht
      | rpc => simp [State.ready, hnone] at ht
    exact ⟨.run .command, _, by simp [Action.Working], if_pos hmay⟩

/-- What the execution of commands has come to: all that has arrived is handled in order;
the handler runs are those that the handled frames call for, all complete before the next
frame is handled and when the tasks come to rest, and otherwise all but the last; each is
on bytes of its own frame. -/
structure ExecutedOnce (p : CommonPacket) (s : State) : Prop where
  order : s.arrived = s.handled ++ s.command.frame.toList ++ s.inbox
  runs : ∃ current : Option Run, s.handled.filterMap expectedRun = s.log ++ current.toList
  complete : s.command ≠ .idle ∨ s.Idle → s.handled.filterMap expectedRun = s.log
  running : ∀ w h done todo, (s.worker w).pc = .handling h done todo →
    ∃ trace, s.handled.filterMap expectedRun = s.log ++ [⟨h, trace⟩] ∧ done <+: trace
  notOverwritten : s.overwritten = 0
  packet : s.packet = s.command.written (s.handled.foldl CommonPacket.handleFrame p)
  accepted : ∀ f ∈ s.arrived, isValidDlc f.sid f.dlc →
    ∃ r, expectedRun f = some r ∧ commands.lookup f.sid = some r.handler
  rejected : ∀ f ∈ s.arrived, isValidDlc f.sid f.dlc = false →
    expectedRun f = none ∧ ∀ q : CommonPacket, q.handleFrame f = q
  ownBytes : ∀ f ∈ s.arrived, ∀ r, expectedRun f = some r → ∀ i b, .read i b ∈ r.trace →
    i < r.handler.payloadBytes ∧ f.payload[i]? = some b
  rest : s.Idle → s.command = .idle ∧ s.inbox = []
  restReached : ∃ n, ∀ actions s', (∀ a ∈ actions, a.Working) →
    (mcu p).run s actions = some s' → actions.length ≤ n ∧
      (¬ s'.Idle → ∃ a s'', a.Working ∧ (mcu p).step s' a = some s'')

theorem State.Idle.workers {s : State} (h : s.Idle) (w : Worker) : (s.worker w).ready = false := by
  cases w with
  | sendData => exact h .sendData (by decide)
  | rpc => exact h .rpc (by decide)

namespace Active
variable {s : State} {w : Worker} {f : BkelFrame} {earlier : List BkelFrame}

theorem runs (h : Active s w f earlier) :
    s.handled.filterMap expectedRun = s.log ++ (expectedRun f).toList := by
  rw [h.handled, h.log, List.filterMap_append]
  cases hrun : expectedRun f <;> simp [hrun]

/-- A worker in a handler is the one that executes the command. -/
theorem handling (h : Active s w f earlier) {w' : Worker} {handler : Handler}
    {done : List (Event UInt8 Effect)} {todo : Body}
    (hpc : (s.worker w').pc = .handling handler done todo) :
    expectedRun f = some ⟨handler, done ++ todo.trace (u8At s.packet.payload)⟩ := by
  by_cases hw : w' = w
  · subst hw
    have hprogress := h.progress
    unfold Progress at hprogress
    rcases hx : s.worker w' with ⟨pc, pending⟩
    rw [hx] at hpc hprogress
    subst hpc
    exact hprogress.2
  · obtain ⟨-, hloop | hwaiting⟩ := h.others w' hw <;> simp_all

end Active

theorem expectedRun_of_valid {f : BkelFrame} (h : isValidDlc f.sid f.dlc) :
    ∃ r, expectedRun f = some r ∧ commands.lookup f.sid = some r.handler := by
  obtain ⟨-, handler, -, -, hhandler, -⟩ := handlerOf_spec h
  refine ⟨⟨handler, handler.body.trace (u8At f.payload)⟩, ?_, ?_⟩
  · rw [expectedRun, hhandler, Option.map_some]
  · rwa [handlerOf, if_pos h] at hhandler

/-- Whatever arrives and however the tasks are scheduled, every accepted command is executed
exactly once, in order, and on its own data. -/
theorem commands_executed_once {p : CommonPacket} {s : State} (h : (mcu p).Reachable s) :
    ExecutedOnce p s := by
  have hinv : Inv p s := h.invariant Inv.init fun _ _ _ hI hstep => hI.step hstep
  refine ⟨hinv.arrived, ?runs, ?complete, ?running, hinv.overwritten, hinv.packet,
    fun _ _ hvalid => expectedRun_of_valid hvalid, ?rejected, ?ownBytes, ?rest, ?restReached⟩
  case runs =>
    rcases hinv.work with hs | ⟨w, f, earlier, ha⟩
    · exact ⟨none, by simp [hs.log]⟩
    · exact ⟨expectedRun f, ha.runs⟩
  case complete =>
    intro hwhen
    rcases hinv.work with hs | ⟨w, f, earlier, ha⟩
    · exact hs.log.symm
    · rcases hwhen with hbusy | hidle
      · exact absurd ha.command hbusy
      · have hready := ha.ready
        simp [hidle.workers w] at hready
  case running =>
    intro w handler done todo hpc
    rcases hinv.work with hs | ⟨w', f, earlier, ha⟩
    · obtain ⟨-, hloop | hwaiting⟩ := hs.resting w <;> simp_all
    · exact ⟨done ++ todo.trace (u8At s.packet.payload), by rw [ha.runs, ha.handling hpc]; rfl,
        List.prefix_append _ _⟩
  case rejected =>
    exact fun f _ hnot => ⟨expectedRun_of_not_valid hnot, fun q => handleFrame_of_not_valid hnot⟩
  case ownBytes =>
    intro f hf r hr i b hread
    exact expectedRun_reads (hinv.wellFormed f hf).1 hr hread
  case rest =>
    intro hidle
    simpa [State.ready] using hidle .command (by decide)
  case restReached =>
    have hdown (t : State) (a : Action) (t' : State) (ha : a.Working)
        (hstep : (mcu p).step t a = some t') : t'.work < t.work := work_step ha hstep
    exact ⟨s.work, fun actions s' hall hrun =>
      ⟨Machine.length_le_of_run hdown hall hrun, exists_step_of_not_idle⟩⟩

/-- The packet as an earlier command may have left it. -/
def stalePacket : CommonPacket := ⟨0x12, 1, 5, List.replicate 16 0xFF, 3, List.length_replicate⟩

/-- A PWM command of the wrong length and a lamp command arrive together: only the lamp's
handler runs, and not on what is left from earlier. -/
theorem commands_executed_once_lamp :
    ∃ s, s.log = [⟨.ld2Control, [.read 0 1, .act (.print "LD2 ON\r\n" []), .act .ld2On]⟩] ∧
      s.handled.length = 2 ∧ ExecutedOnce stalePacket s := by
  have hrun : ((mcu stalePacket).run (mcu stalePacket).init ([.run .sendData, .run .rpc,
        .arrive ⟨0x13, 1, 1, 7, [0]⟩, .arrive ⟨0x10, 1, 1, 8, [1]⟩] ++
      (List.replicate 7 (.run .command) ++ List.replicate 7 (.run .rpc)))).map
        (fun s => (s.log, s.handled.length)) =
      some ([⟨.ld2Control, [.read 0 1, .act (.print "LD2 ON\r\n" []), .act .ld2On]⟩], 2) := by
    decide +kernel
  obtain ⟨s, hs, hstate⟩ := Option.map_eq_some_iff.mp hrun
  obtain ⟨hlog, hhandled⟩ := Prod.mk.inj hstate
  exact ⟨s, hlog, hhandled, commands_executed_once (Machine.reachable_of_run hs)⟩

end SomeIpGateway.McuDispatch
