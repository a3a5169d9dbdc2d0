import SomeIpGateway.McuReceive
import SomeIpGateway.McuTasks
import SomeIpGateway.StepMachine

/-!
# The MCU's start-up

The calls of `main` up to the last task are taken one after another, while bursts may end
on either UART between any two of them. An IDLE interrupt is delivered before the next
call as soon as it is enabled and not masked. FreeRTOS masks the interrupts of this priority
from `xTaskCreate` until the first task starts. Of the tasks only the reset on request is
modelled: it starts all over, with `rxStream` NULL again.
-/
namespace SomeIpGateway.McuBoot
open ByteAccess McuReceive McuTasks StepMachine

/-! ### The stream buffer and the handler -/

/-- `RX_STREAM_SIZE`. -/
def rxStreamSize : ℕ := 512

/-- A statically allocated stream buffer, of which one byte stays free. -/
structure StreamBuffer where
  bytes : List UInt8 := []
  fits : bytes.length < rxStreamSize := by decide

/-- `xStreamBufferSendFromISR` keeps what there is space for. -/
def StreamBuffer.send (stream : StreamBuffer) (data : List UInt8) : StreamBuffer where
  bytes := stream.bytes ++ data.take (rxStreamSize - stream.bytes.length - 1)
  fits := by
    have hfits := stream.fits
    rw [List.length_append, List.length_take]
    omega

/-- There is no result where the stream is NULL: the assertion fails. -/
def xStreamBufferSendFromISR (stream : Option StreamBuffer) (data : List UInt8) :
    Option StreamBuffer :=
  stream.map (·.send data)

/-- The IDLE flag is cleared and the DMA channel stopped. -/
def stopReceive (u : Uart) : Uart := { idle := false, dma := { u.dma with enabled := false } }

/-- The DMA channel is armed again. -/
def restartReceive (u : Uart) : Uart := { u with dma := { u.dma.rearm with enabled := true } }

/-- The body that the two IDLE handlers share: the UART and `rxStream` afterwards, and
whether `configASSERT` has failed. -/
def idleIrqHandler (u : Uart) (rxStream : Option StreamBuffer) :
    Uart × Option StreamBuffer × Bool :=
  if u.idle then
    let u := stopReceive u
    let receivedLen := uartRxBufSize - u.dma.cndtr
    if 0 < receivedLen then
      match xStreamBufferSendFromISR rxStream (u.dma.buf.take receivedLen) with
      | some stream => (restartReceive u, some stream, false)
      | none => (u, rxStream, true)
    else (restartReceive u, rxStream, false)
  else (u, rxStream, false)

/-! ### The calls of a boot -/

/-- The calls that a boot consists of. The initialisation of a UART is cut in two where
its receiver is on and its interrupt is not. -/
inductive Call where
  | halInit
  | bkelClkInit
  | bkelGpioInit
  | bkelUsartDmaInit (port : Port)
  | nvicEnableIRQ (port : Port)
  | bkelAdc1DmaInit
  | bkelPwmInit
  | bkelSpiInit
  | xTaskCreate
  | vTaskStartScheduler
  | xStreamBufferCreateStatic
  | configAssert
  | xTaskCreateStatic (task : Task)
  | vTaskDelete
  deriving Repr, DecidableEq

def systemInit : List Call :=
  [.halInit, .bkelClkInit, .bkelGpioInit, .bkelUsartDmaInit .usart1, .nvicEnableIRQ .usart1,
    .bkelUsartDmaInit .usart2, .nvicEnableIRQ .usart2, .bkelAdc1DmaInit, .bkelPwmInit, .bkelSpiInit]

def rtosTaskinit : List Call :=
  [.xStreamBufferCreateStatic, .configAssert, .xTaskCreateStatic .advertise,
    .xTaskCreateStatic .command, .xTaskCreateStatic .sendData, .xTaskCreateStatic .rpc]

/-- The task that `main` creates. -/
def fInittask : List Call := rtosTaskinit ++ [.vTaskDelete]

def main : List Call := systemInit ++ [.xTaskCreate, .vTaskStartScheduler] ++ fInittask

/-- The boot and the hardware. A UART that is not initialised yet takes nothing in. -/
structure State where
  todo : List Call := main
  masked : Bool := false
  /-- `configASSERT` has failed: interrupts are disabled and the loop goes on for ever. -/
  halted : Bool := false
  irqEnabled : Port → Bool := fun _ => false
  uart : Port → Option Uart := fun _ => none
  rxStream : Option StreamBuffer := none

namespace State

/-- What a call does to the state. -/
def exec (s : State) : Call → State
  | .bkelUsartDmaInit port => { s with uart := Function.update s.uart port (some Uart.dmaInit) }
  | .nvicEnableIRQ port => { s with irqEnabled := Function.update s.irqEnabled port true }
  | .xTaskCreate => { s with masked := true }
  | .vTaskStartScheduler => { s with masked := false }
  | .xStreamBufferCreateStatic => { s with rxStream := some {} }
  | .configAssert => { s with halted := s.rxStream.isNone }
  | .halInit | .bkelClkInit | .bkelGpioInit | .bkelAdc1DmaInit | .bkelPwmInit | .bkelSpiInit
  | .xTaskCreateStatic _ | .vTaskDelete => s

/-- The interrupt of a UART is pending, enabled and not masked. -/
def deliverable (s : State) (port : Port) : Bool :=
  !s.halted && !s.masked && s.irqEnabled port && (s.uart port).any (·.idle)

/-- The program goes on: it has not stopped, and no handler comes first. -/
def goesOn (s : State) : Bool :=
  !s.halted && !s.deliverable .usart1 && !s.deliverable .usart2

/-- The handler of a UART runs and calls `xStreamBufferSendFromISR`. -/
def Sends (s : State) (port : Port) : Prop :=
  s.deliverable port = true ∧ ∃ u, s.uart port = some u ∧ 0 < u.dma.index

end State

inductive Action where
  /-- The next call of the boot. -/
  | call
  | irqHandler (port : Port)
  /-- Bytes come in on a UART, and its line goes idle. -/
  | burst (port : Port) (bytes : List UInt8)
  /-- `BKEL_RPC_MCU_Reset`, in the RPC task. -/
  | reset

/-- One step. -/
def State.step (s : State) : Action → Option State
  | .call =>
    if s.goesOn then
      match s.todo with
      | call :: todo => some ({ s with todo }.exec call)
      | [] => none
    else none
  | .irqHandler port =>
    if s.deliverable port then
      match s.uart port with
      | some u =>
        let (u, rxStream, halted) := idleIrqHandler u s.rxStream
        some { s with uart := Function.update s.uart port (some u), rxStream, halted }
      | none => none
    else none
  | .burst port bytes =>
    if bytes = [] then none
    else some { s with uart := Function.update s.uart port ((s.uart port).map (·.burst bytes)) }
  | .reset => if s.goesOn ∧ .xTaskCreateStatic .rpc ∉ s.todo then some {} else none

/-- The MCU from power-on. -/
def boot : Machine State Action := ⟨{}, State.step⟩

/-- The MCU is not stopped, and no handler that is about to send finds `rxStream` NULL. -/
def Survives (s : State) : Prop :=
  s.halted = false ∧ ∀ port, s.Sends port → s.rxStream.isSome

/-- Before `rxStream` is created, a burst on a UART that is on leaves no bytes in the DMA
buffer: with those that came before, it makes a whole number of turns. -/
def QuietStart (s : State) : Action → Prop
  | .burst port bytes => s.rxStream.isSome ∨
      ∀ u ∈ s.uart port, (u.dma.index + bytes.length) % uartRxBufSize = 0
  | _ => True

instance (s : State) : DecidablePred (QuietStart s)
  | .burst _ _ => inferInstanceAs (Decidable (_ ∨ _))
  | .call | .irqHandler _ | .reset => inferInstanceAs (Decidable True)

/-! ### What the handler does -/

section
variable {u : Uart} (hidle : u.idle = true)
include hidle

/-- Nothing has come in since the channel was armed. -/
theorem idleIrqHandler_empty (hzero : u.dma.index = 0) (rxStream : Option StreamBuffer) :
    idleIrqHandler u rxStream = (restartReceive (stopReceive u), rxStream, false) := by
  have hlen : ¬ 0 < uartRxBufSize - (stopReceive u).dma.cndtr := hzero.not_gt
  simp only [idleIrqHandler, hidle, if_true, hlen, if_false]

/-- The assertion fails before the channel is armed again. -/
theorem idleIrqHandler_null (hpos : 0 < u.dma.index) :
    idleIrqHandler u none = (stopReceive u, none, true) := by
  have hlen : 0 < uartRxBufSize - (stopReceive u).dma.cndtr := hpos
  simp only [idleIrqHandler, hidle, if_true, hlen, xStreamBufferSendFromISR, Option.map_none]

theorem idleIrqHandler_send (hpos : 0 < u.dma.index) (stream : StreamBuffer) :
    idleIrqHandler u (some stream) = (restartReceive (stopReceive u),
      some (stream.send (u.dma.buf.take u.dma.index)), false) := by
  have hlen : 0 < uartRxBufSize - (stopReceive u).dma.cndtr := hpos
  simp only [idleIrqHandler, hidle, if_true, hlen, xStreamBufferSendFromISR, Option.map_some]
  rfl

/-- A handler that comes to its end leaves the channel armed. -/
theorem idleIrqHandler_armed {rxStream : Option StreamBuffer}
    (hends : (idleIrqHandler u rxStream).2.2 = false) :
    (idleIrqHandler u rxStream).1.dma.Armed ∧ (idleIrqHandler u rxStream).1.idle = false := by
  rcases Nat.eq_zero_or_pos u.dma.index with hzero | hpos
  · rw [idleIrqHandler_empty hidle hzero]
    exact ⟨⟨rfl, rfl⟩, rfl⟩
  · cases rxStream with
    | none =>
      rw [idleIrqHandler_null hidle hpos] at hends
      cases hends
    | some stream =>
      rw [idleIrqHandler_send hidle hpos]
      exact ⟨⟨rfl, rfl⟩, rfl⟩

/-- The handler neither creates the stream nor takes it away. -/
theorem idleIrqHandler_stream {rxStream : Option StreamBuffer} :
    (idleIrqHandler u rxStream).2.1 = none ↔ rxStream = none := by
  rcases Nat.eq_zero_or_pos u.dma.index with hzero | hpos
  · rw [idleIrqHandler_empty hidle hzero]
  · cases rxStream with
    | none => rw [idleIrqHandler_null hidle hpos]
    | some stream => simp [idleIrqHandler_send hidle hpos]

end

/-! ### The order of the calls -/

/-- A property of all that may be left of a boot. -/
theorem of_suffix {P : List Call → Prop} (h : ∀ todo ∈ main.tails, P todo) {todo : List Call}
    (hsuffix : todo <:+ main) : P todo :=
  h todo ((List.mem_tails todo main).mpr hsuffix)

theorem main_nodup : main.Nodup := by decide

theorem not_mem_rest {call : Call} {todo : List Call} (hsuffix : call :: todo <:+ main) :
    call ∉ todo :=
  (List.nodup_cons.mp (main_nodup.sublist hsuffix.sublist)).1

/-- The scheduler is started after the first task is created. -/
theorem vTaskStartScheduler_mem {todo : List Call} (hsuffix : .xTaskCreate :: todo <:+ main) :
    .vTaskStartScheduler ∈ todo :=
  of_suffix (P := fun l => l.head? = some .xTaskCreate → .vTaskStartScheduler ∈ l.tail)
    (by decide) hsuffix rfl

/-- Both interrupts are enabled, and the scheduler is started, before `rxStream` is created. -/
theorem create_after {todo : List Call} (hsuffix : .xStreamBufferCreateStatic :: todo <:+ main) :
    (∀ port, .nvicEnableIRQ port ∉ todo) ∧ .vTaskStartScheduler ∉ todo := by
  have h := of_suffix (P := fun l => l.head? = some .xStreamBufferCreateStatic →
    .nvicEnableIRQ .usart1 ∉ l.tail ∧ .nvicEnableIRQ .usart2 ∉ l.tail ∧
      .vTaskStartScheduler ∉ l.tail) (by decide) hsuffix rfl
  refine ⟨fun port => ?_, h.2.2⟩
  cases port
  · exact h.1
  · exact h.2.1

theorem create_not_mem {todo : List Call} (hsuffix : .configAssert :: todo <:+ main) :
    .xStreamBufferCreateStatic ∉ todo :=
  of_suffix (P := fun l => l.head? = some .configAssert → .xStreamBufferCreateStatic ∉ l.tail)
    (by decide) hsuffix rfl

/-! ### Steps -/

namespace State
variable {s t : State}

theorem step_call : s.step .call = some t ↔
    s.goesOn = true ∧ ∃ call todo, s.todo = call :: todo ∧ t = { s with todo }.exec call := by
  rw [step]
  split_ifs with hgoes
  · cases s.todo with
    | nil => simp
    | cons call todo =>
      simp only [Option.some.injEq, hgoes, true_and]
      constructor
      · rintro rfl
        exact ⟨call, todo, rfl, rfl⟩
      · rintro ⟨call', todo', heq, rfl⟩
        obtain ⟨rfl, rfl⟩ := List.cons.inj heq
        rfl
  · simp [hgoes]

theorem step_irqHandler {port : Port} : s.step (.irqHandler port) = some t ↔
    s.deliverable port = true ∧ ∃ u, s.uart port = some u ∧ t = { s with
      uart := Function.update s.uart port (some (idleIrqHandler u s.rxStream).1)
      rxStream := (idleIrqHandler u s.rxStream).2.1
      halted := (idleIrqHandler u s.rxStream).2.2 } := by
  rw [step]
  split_ifs with hdeliver
  · cases s.uart port <;> simp [hdeliver, eq_comm]
  · simp [hdeliver]

theorem step_burst {port : Port} {bytes : List UInt8} : s.step (.burst port bytes) = some t ↔
    bytes ≠ [] ∧
      t = { s with uart := Function.update s.uart port ((s.uart port).map (·.burst bytes)) } := by
  rw [step]
  split_ifs with hnil
  · simp [hnil]
  · simp [hnil, eq_comm]

theorem step_reset : s.step .reset = some t ↔
    (s.goesOn = true ∧ .xTaskCreateStatic .rpc ∉ s.todo) ∧ t = {} := by
  rw [step]
  split_ifs with hgoes
  · simp [hgoes, eq_comm]
  · simp [hgoes]

theorem deliverable_iff {port : Port} : s.deliverable port = true ↔
    s.halted = false ∧ s.masked = false ∧ s.irqEnabled port = true ∧
      ∃ u, s.uart port = some u ∧ u.idle = true := by
  simp [deliverable, Option.any_eq_true, and_assoc]

theorem idle_of_deliverable {port : Port} {u : Uart} (hdeliver : s.deliverable port = true)
    (hu : s.uart port = some u) : s.halted = false ∧ u.idle = true := by
  obtain ⟨hruns, -, -, v, hv, hidle⟩ := deliverable_iff.mp hdeliver
  obtain rfl := Option.some.inj (hu.symm.trans hv)
  exact ⟨hruns, hidle⟩

theorem goesOn_iff : s.goesOn = true ↔
    s.halted = false ∧ ∀ port, s.deliverable port = false := by
  have hports : (∀ port, s.deliverable port = false) ↔
      s.deliverable .usart1 = false ∧ s.deliverable .usart2 = false :=
    ⟨fun h => ⟨h _, h _⟩, fun h port => by cases port <;> simp [h]⟩
  rw [hports]
  simp [goesOn, and_assoc]

/-- An assertion that has failed stops the MCU for good. -/
theorem halted_of_step {a : Action} (hhalted : s.halted = true) (hstep : s.step a = some t) :
    t.halted = true := by
  cases a with
  | call => simp [step_call, goesOn, hhalted] at hstep
  | irqHandler port => simp [step_irqHandler, deliverable, hhalted] at hstep
  | burst port bytes =>
    obtain ⟨-, rfl⟩ := step_burst.mp hstep
    exact hhalted
  | reset => simp [step_reset, goesOn, hhalted] at hstep

/-- Calls other than the creation leave `rxStream` alone. -/
theorem exec_rxStream {call : Call} (hne : call ≠ .xStreamBufferCreateStatic) :
    (s.exec call).rxStream = s.rxStream := by
  cases call <;> first | rfl | exact absurd rfl hne

@[simp] theorem exec_todo (call : Call) : (s.exec call).todo = s.todo := by
  cases call <;> rfl

/-- A UART is as its initialisation leaves it, or as it was. -/
theorem exec_dmaInit_uart {s : State} {p port : Port} {u : Uart}
    (hu : (s.exec (.bkelUsartDmaInit p)).uart port = some u) :
    u = Uart.dmaInit ∨ s.uart port = some u := by
  simp only [State.exec, Function.update_apply] at hu
  split_ifs at hu with hp
  · exact Or.inl (Option.some.inj hu).symm
  · exact Or.inr hu

end State

/-! ### How far the boot has come -/

/-- What the calls that are still to come say about the state. -/
structure Consistent (s : State) : Prop where
  suffix : s.todo <:+ main
  uart : ∀ port, .bkelUsartDmaInit port ∈ s.todo → s.uart port = none
  irqEnabled : ∀ port, s.irqEnabled port = false → .nvicEnableIRQ port ∈ s.todo
  masked : s.masked = true → .vTaskStartScheduler ∈ s.todo
  rxStream : s.rxStream = none → .xStreamBufferCreateStatic ∈ s.todo
  running : s.halted = false → ∀ port u, s.uart port = some u → u.dma.enabled = true

namespace Consistent
variable {s t : State}

theorem init : Consistent {} where
  suffix := List.suffix_refl main
  uart _ _ := rfl
  irqEnabled port _ := by cases port <;> decide
  masked h := by cases h
  rxStream _ := by decide
  running _ _ _ h := by cases h

theorem suffix_rest (h : Consistent s) {call : Call} {todo : List Call}
    (htodo : s.todo = call :: todo) : call :: todo <:+ main := htodo ▸ h.suffix

theorem exec (h : Consistent s) (hruns : s.halted = false) {call : Call} {todo : List Call}
    (htodo : s.todo = call :: todo) : Consistent ({ s with todo }.exec call) where
  suffix := by
    rw [State.exec_todo]
    exact (List.suffix_cons call todo).trans (h.suffix_rest htodo)
  uart port hmem := by
    rw [State.exec_todo] at hmem
    have hnone := h.uart port (by rw [htodo]; exact List.mem_cons_of_mem call hmem)
    cases call with
    | bkelUsartDmaInit p =>
      have hne : port ≠ p := by
        rintro rfl
        exact not_mem_rest (h.suffix_rest htodo) hmem
      exact (Function.update_of_ne hne ..).trans hnone
    | _ => exact hnone
  irqEnabled port hoff := by
    have hmem (hoff : s.irqEnabled port = false) := htodo ▸ h.irqEnabled port hoff
    cases call with
    | nvicEnableIRQ p =>
      have hne : port ≠ p := by
        rintro rfl
        simp [State.exec] at hoff
      have hmem := hmem ((Function.update_of_ne hne ..).symm.trans hoff)
      exact List.mem_of_ne_of_mem (by simpa using hne) hmem
    | _ => exact List.mem_of_ne_of_mem (by simp) (hmem hoff)
  masked hmasked := by
    have hmem (hmasked : s.masked = true) := htodo ▸ h.masked hmasked
    cases call with
    | xTaskCreate => exact vTaskStartScheduler_mem (h.suffix_rest htodo)
    | vTaskStartScheduler => cases hmasked
    | _ => exact List.mem_of_ne_of_mem (by simp) (hmem hmasked)
  rxStream hnone := by
    have hmem (hnone : s.rxStream = none) := htodo ▸ h.rxStream hnone
    cases call with
    | xStreamBufferCreateStatic => cases hnone
    | _ => exact List.mem_of_ne_of_mem (by simp) (hmem hnone)
  running _ port u hu := by
    have hrunning := h.running hruns port u
    cases call with
    | bkelUsartDmaInit p =>
      rcases State.exec_dmaInit_uart hu with rfl | hu
      · rfl
      · exact hrunning hu
    | _ => exact hrunning hu

theorem irqHandler (h : Consistent s) {port : Port} {u : Uart} (hu : s.uart port = some u)
    (hruns : s.halted = false) (hidle : u.idle = true) : Consistent { s with
      uart := Function.update s.uart port (some (idleIrqHandler u s.rxStream).1)
      rxStream := (idleIrqHandler u s.rxStream).2.1
      halted := (idleIrqHandler u s.rxStream).2.2 } where
  suffix := h.suffix
  uart p hmem := by
    have hnone := h.uart p hmem
    have hne : p ≠ port := by
      rintro rfl
      rw [hu] at hnone
      cases hnone
    exact (Function.update_of_ne hne ..).trans hnone
  irqEnabled := h.irqEnabled
  masked := h.masked
  rxStream hnone := h.rxStream ((idleIrqHandler_stream hidle).mp hnone)
  running hends p v hv := by
    simp only [Function.update_apply] at hv
    split_ifs at hv with hp
    · obtain rfl := Option.some.inj hv
      exact (idleIrqHandler_armed hidle hends).1.1
    · exact h.running hruns p v hv

theorem burst (h : Consistent s) (port : Port) (bytes : List UInt8) : Consistent
    { s with uart := Function.update s.uart port ((s.uart port).map (·.burst bytes)) } where
  suffix := h.suffix
  uart p hmem := by
    have hnone := h.uart p hmem
    simp only [Function.update_apply]
    split_ifs with hp
    · rw [← hp, hnone]
      rfl
    · exact hnone
  irqEnabled := h.irqEnabled
  masked := h.masked
  rxStream := h.rxStream
  running hruns p v hv := by
    simp only [Function.update_apply] at hv
    split_ifs at hv with hp
    · obtain ⟨u, hu, rfl⟩ := Option.map_eq_some_iff.mp hv
      exact (u.dma.enabled_foldl bytes).trans (h.running hruns port u hu)
    · exact h.running hruns p v hv

theorem step (h : Consistent s) {a : Action} (hstep : s.step a = some t) : Consistent t := by
  cases a with
  | call =>
    obtain ⟨hgoes, call, todo, htodo, rfl⟩ := State.step_call.mp hstep
    exact h.exec (State.goesOn_iff.mp hgoes).1 htodo
  | irqHandler port =>
    obtain ⟨hdeliver, u, hu, rfl⟩ := State.step_irqHandler.mp hstep
    obtain ⟨hruns, hidle⟩ := State.idle_of_deliverable hdeliver hu
    exact h.irqHandler hu hruns hidle
  | burst port bytes =>
    obtain ⟨-, rfl⟩ := State.step_burst.mp hstep
    exact h.burst port bytes
  | reset =>
    obtain ⟨-, rfl⟩ := State.step_reset.mp hstep
    exact init

end Consistent

theorem consistent {s : State} (h : boot.Reachable s) : Consistent s :=
  h.invariant Consistent.init (fun _ _ _ hs hstep => hs.step hstep)

/-! ### A quiet start -/

/-- The MCU is not stopped, and as long as there is no stream, no bytes are left for a
handler to send to it. -/
structure Quiet (s : State) : Prop extends Consistent s where
  runs : s.halted = false
  empty : s.rxStream = none → ∀ port u, s.uart port = some u → u.dma.index = 0

namespace Quiet
variable {s t : State}

theorem init : Quiet {} where
  toConsistent := Consistent.init
  runs := rfl
  empty _ _ _ h := by cases h

theorem survives (h : Quiet s) : Survives s := by
  refine ⟨h.runs, ?_⟩
  rintro port ⟨-, u, hu, hpos⟩
  by_contra hnone
  rw [h.empty (Option.not_isSome_iff_eq_none.mp hnone) port u hu] at hpos
  cases hpos

theorem exec (h : Quiet s) {call : Call} {todo : List Call} (htodo : s.todo = call :: todo) :
    Quiet ({ s with todo }.exec call) where
  toConsistent := h.toConsistent.exec h.runs htodo
  runs := by
    cases call with
    | configAssert =>
      have hnot := create_not_mem (h.suffix_rest htodo)
      have hsome : s.rxStream ≠ none := by
        intro hnone
        have hmem := htodo ▸ h.rxStream hnone
        exact hnot (List.mem_of_ne_of_mem (by simp) hmem)
      simpa [State.exec, Option.isSome_iff_ne_none] using hsome
    | _ => exact h.runs
  empty := by
    have hempty := h.empty
    cases call with
    | bkelUsartDmaInit p =>
      intro hnone port u hu
      rcases State.exec_dmaInit_uart hu with rfl | hu
      · rfl
      · exact hempty hnone port u hu
    | xStreamBufferCreateStatic => exact fun hnone => by cases hnone
    | _ => exact hempty

/-- A handler finds a stream, or nothing to send. -/
theorem irqHandler (h : Quiet s) {port : Port} {u : Uart} (hu : s.uart port = some u)
    (hidle : u.idle = true) : Quiet { s with
      uart := Function.update s.uart port (some (idleIrqHandler u s.rxStream).1)
      rxStream := (idleIrqHandler u s.rxStream).2.1
      halted := (idleIrqHandler u s.rxStream).2.2 } := by
  have hends : (idleIrqHandler u s.rxStream).2.2 = false := by
    rcases Nat.eq_zero_or_pos u.dma.index with hzero | hpos
    · rw [idleIrqHandler_empty hidle hzero]
    · cases hstream : s.rxStream with
      | none => exact absurd (h.empty hstream port u hu) hpos.ne'
      | some stream => rw [idleIrqHandler_send hidle hpos]
  refine ⟨h.toConsistent.irqHandler hu h.runs hidle, hends, fun hnone p v hv => ?_⟩
  simp only [Function.update_apply] at hv
  split_ifs at hv with hp
  · obtain rfl := Option.some.inj hv
    have harmed := (idleIrqHandler_armed hidle hends).1.2
    rw [DmaChannel.index, harmed, Nat.sub_self]
  · exact h.empty ((idleIrqHandler_stream hidle).mp hnone) p v hv

theorem burst (h : Quiet s) {port : Port} {bytes : List UInt8}
    (hquiet : QuietStart s (.burst port bytes)) : Quiet
    { s with uart := Function.update s.uart port ((s.uart port).map (·.burst bytes)) } := by
  refine ⟨h.toConsistent.burst port bytes, h.runs, fun hnone p v hv => ?_⟩
  simp only [Function.update_apply] at hv
  split_ifs at hv with hp
  · obtain ⟨u, hu, rfl⟩ := Option.map_eq_some_iff.mp hv
    have hturns := hquiet.resolve_left (by simp_all) u hu
    exact (DmaChannel.index_foldl (h.running h.runs port u hu) bytes).trans hturns
  · exact h.empty hnone p v hv

theorem step (h : Quiet s) {a : Action} (hquiet : QuietStart s a) (hstep : s.step a = some t) :
    Quiet t := by
  cases a with
  | call =>
    obtain ⟨-, call, todo, htodo, rfl⟩ := State.step_call.mp hstep
    exact h.exec htodo
  | irqHandler port =>
    obtain ⟨hdeliver, u, hu, rfl⟩ := State.step_irqHandler.mp hstep
    exact h.irqHandler hu (State.idle_of_deliverable hdeliver hu).2
  | burst port bytes =>
    obtain ⟨-, rfl⟩ := State.step_burst.mp hstep
    exact h.burst hquiet
  | reset =>
    obtain ⟨-, rfl⟩ := State.step_reset.mp hstep
    exact init

end Quiet

/-- While no burst leaves bytes behind before `rxStream` is created, in this boot and in
those after every reset, the MCU survives its start. -/
theorem quiet_start_survives {s : State} (h : (boot.restrict QuietStart).Reachable s) :
    Survives s :=
  (h.restrict_invariant (I := Quiet) Quiet.init
    (fun _ _ _ hs hquiet hstep => hs.step hquiet hstep)).survives

/-- The first byte that comes in once the scheduler has run is sent to the stream. -/
theorem quiet_start_survives_boot : ∃ s, (boot.restrict QuietStart).Reachable s ∧ Survives s ∧
    s.rxStream.map (·.bytes) = some [0xAA] := by
  have hrun : ((boot.restrict QuietStart).run {} (.burst .usart1 [0x01] ::
      List.replicate main.length .call ++ [.burst .usart1 [0xAA], .irqHandler .usart1])).map
        (fun s => s.rxStream.map (·.bytes)) = some (some [0xAA]) := by decide +kernel
  obtain ⟨s, hs, hstream⟩ := Option.map_eq_some_iff.mp hrun
  exact ⟨s, Machine.reachable_of_run hs, quiet_start_survives (Machine.reachable_of_run hs),
    hstream⟩

/-- A byte that comes in on USART1 as soon as its interrupt is enabled is sent to NULL. -/
theorem early_burst_sent_to_null : ∃ s, boot.Reachable s ∧ s.Sends .usart1 ∧ s.rxStream = none := by
  have hrun : (boot.run {} (List.replicate 5 .call ++ [.burst .usart1 [0xAA]])).map
      (fun s => (s.deliverable .usart1, (s.uart .usart1).map (·.dma.index), s.rxStream.isNone)) =
        some (true, some 1, true) := by decide +kernel
  obtain ⟨s, hs, hread⟩ := Option.map_eq_some_iff.mp hrun
  simp only [Prod.mk.injEq, Option.isNone_iff_eq_none] at hread
  obtain ⟨hdeliver, hindex, hnone⟩ := hread
  obtain ⟨u, hu, hone⟩ := Option.map_eq_some_iff.mp hindex
  exact ⟨s, Machine.reachable_of_run hs, ⟨hdeliver, u, hu, by rw [hone]; exact Nat.one_pos⟩, hnone⟩

/-! ### A burst that comes too early -/

/-- A step that the boot takes by itself. -/
def Action.Own : Action → Prop
  | .call | .irqHandler _ => True
  | .burst _ _ | .reset => False

/-- Bytes wait to be sent, and there is no stream. -/
structure Doomed (s : State) (port : Port) : Prop extends Consistent s where
  runs : s.halted = false
  null : s.rxStream = none
  waiting : ∃ u, s.uart port = some u ∧ u.idle = true ∧ 0 < u.dma.index

namespace Doomed
variable {s t : State} {port : Port}

theorem sends (h : Doomed s port) (hdeliver : s.deliverable port = true) : s.Sends port := by
  obtain ⟨u, hu, -, hpos⟩ := h.waiting
  exact ⟨hdeliver, u, hu, hpos⟩

/-- The other UART's handler sends to NULL as well, or changes nothing for this one. -/
theorem irqHandler (h : Doomed s port) {other : Port} (hdeliver : s.deliverable other = true)
    (hsends : ¬ s.Sends other) :
    ∃ t, s.step (.irqHandler other) = some t ∧ Doomed t port ∧ t.todo = s.todo ∧
      t.deliverable other = false ∧ t.deliverable port = s.deliverable port := by
  obtain ⟨-, -, -, u, hu, hidle⟩ := State.deliverable_iff.mp hdeliver
  have hzero : u.dma.index = 0 := by
    by_contra hne
    exact hsends ⟨hdeliver, u, hu, Nat.pos_of_ne_zero hne⟩
  have hne : port ≠ other := by
    rintro rfl
    exact hsends (h.sends hdeliver)
  have hstep := State.step_irqHandler.mpr ⟨hdeliver, u, hu, rfl⟩
  have hcons := h.toConsistent.step hstep
  rw [idleIrqHandler_empty hidle hzero] at hstep hcons
  have hsame : Function.update s.uart other (some (restartReceive (stopReceive u))) port =
      s.uart port := Function.update_of_ne hne ..
  refine ⟨_, hstep, ⟨hcons, rfl, h.null, ?_⟩, rfl, ?_, ?_⟩
  · obtain ⟨v, hv, hwaits⟩ := h.waiting
    exact ⟨v, hsame.trans hv, hwaits⟩
  · simp [State.deliverable, restartReceive, stopReceive]
  · simp only [State.deliverable, hsame, h.runs]

/-- The next call cannot be the creation, since the interrupt would come before it. -/
theorem call (h : Doomed s port) (hgoes : s.goesOn = true) :
    ∃ t, s.step .call = some t ∧ Doomed t port ∧ t.todo.length < s.todo.length := by
  obtain ⟨-, hnone⟩ := State.goesOn_iff.mp hgoes
  obtain ⟨u, hu, hidle, hpos⟩ := h.waiting
  have hcreate := h.rxStream h.null
  obtain ⟨call, todo, htodo⟩ := List.exists_cons_of_ne_nil (List.ne_nil_of_mem hcreate)
  have hsuffix := h.suffix_rest htodo
  have hstep := State.step_call.mpr ⟨hgoes, call, todo, htodo, rfl⟩
  have hcons := h.toConsistent.step hstep
  have hne : call ≠ .xStreamBufferCreateStatic := by
    rintro rfl
    obtain ⟨hirq, hstart⟩ := create_after hsuffix
    have henabled : s.irqEnabled port = true := by
      by_contra hoff
      have hmem := htodo ▸ h.irqEnabled port (by simpa using hoff)
      exact hirq port (List.mem_of_ne_of_mem (by simp) hmem)
    have hunmasked : s.masked = false := by
      by_contra hmasked
      have hmem := htodo ▸ h.masked (by simpa using hmasked)
      exact hstart (List.mem_of_ne_of_mem (by simp) hmem)
    have hdeliver := State.deliverable_iff.mpr ⟨h.runs, hunmasked, henabled, u, hu, hidle⟩
    rw [hnone port] at hdeliver
    cases hdeliver
  have hrest : .xStreamBufferCreateStatic ∈ todo :=
    List.mem_of_ne_of_mem (Ne.symm hne) (htodo ▸ hcreate)
  refine ⟨_, hstep, ⟨hcons, ?_, ?_, u, ?_, hidle, hpos⟩, by simp [htodo]⟩
  · cases call with
    | configAssert => exact absurd hrest (create_not_mem hsuffix)
    | _ => exact h.runs
  · exact (State.exec_rxStream hne).trans h.null
  · cases call with
    | bkelUsartDmaInit p =>
      have hother : port ≠ p := by
        rintro rfl
        have hoff := h.uart port (by rw [htodo]; exact List.mem_cons_self)
        rw [hu] at hoff
        cases hoff
      exact (Function.update_of_ne hother ..).trans hu
    | _ => exact hu

/-- A handler is about to send to NULL, or the program goes on once the other UART's
handler has run. -/
theorem sends_or_goesOn (h : Doomed s port) : (∃ p, s.Sends p) ∨
    ∃ actions t, (∀ a ∈ actions, a.Own) ∧ boot.run s actions = some t ∧
      Doomed t port ∧ t.goesOn = true ∧ t.todo = s.todo := by
  by_cases hsends : ∃ p, s.Sends p
  · exact Or.inl hsends
  right
  rw [not_exists] at hsends
  have hport : s.deliverable port = false := by
    by_contra hdeliver
    exact hsends port (h.sends (by simpa using hdeliver))
  by_cases hother : ∃ other, s.deliverable other = true
  · obtain ⟨other, hdeliver⟩ := hother
    obtain ⟨t, hstep, ht, htodo, hoff, hsame⟩ := h.irqHandler hdeliver (hsends other)
    have hnone : ∀ p, t.deliverable p = false := by
      have hne : port ≠ other := by
        rintro rfl
        simp [hport] at hdeliver
      rw [hport] at hsame
      intro p
      cases p <;> cases port <;> cases other <;> first | assumption | exact absurd rfl hne
    refine ⟨[.irqHandler other], t, by simp [Action.Own], ?_, ht, ?_, htodo⟩
    · exact (Machine.run_singleton ..).trans hstep
    · exact State.goesOn_iff.mpr ⟨ht.runs, hnone⟩
  · refine ⟨[], s, by simp, rfl, h, State.goesOn_iff.mpr ⟨h.runs, fun p => ?_⟩, rfl⟩
    by_contra hdeliver
    exact hother ⟨p, by simpa using hdeliver⟩

/-- The boot runs into the assertion before it comes to the creation. -/
theorem reaches (h : Doomed s port) : ∃ actions t, (∀ a ∈ actions, a.Own) ∧
    boot.run s actions = some t ∧ t.rxStream = none ∧ ∃ p, t.Sends p := by
  induction hlen : s.todo.length using Nat.strong_induction_on generalizing s with
  | _ n ih =>
    rcases h.sends_or_goesOn with hsends | ⟨first, t, hfirst, hrun, ht, hgoes, htodo⟩
    · exact ⟨[], s, by simp, rfl, h.null, hsends⟩
    · obtain ⟨u, hstep, hu, hlt⟩ := ht.call hgoes
      rw [htodo, hlen] at hlt
      obtain ⟨rest, v, hrest, hrun', hv⟩ := ih _ hlt hu rfl
      refine ⟨first ++ .call :: rest, v, ?_, ?_, hv⟩
      · simp only [List.mem_append, List.mem_cons]
        rintro a (ha | rfl | ha)
        · exact hfirst a ha
        · trivial
        · exact hrest a ha
      · rw [Machine.run_append, hrun, Option.bind_some, Machine.run_cons,
          show boot.step t .call = some u from hstep, Option.bind_some, hrun']

end Doomed

/-- The handler that sends to NULL does not return. -/
theorem halts_of_sends {s : State} {port : Port} (hsends : s.Sends port)
    (hnull : s.rxStream = none) :
    ∃ t, s.step (.irqHandler port) = some t ∧ t.halted = true := by
  obtain ⟨hdeliver, u, hu, hpos⟩ := hsends
  have hidle := (State.idle_of_deliverable hdeliver hu).2
  refine ⟨_, State.step_irqHandler.mpr ⟨hdeliver, u, hu, rfl⟩, ?_⟩
  rw [hnull, idleIrqHandler_null hidle hpos]

/-- Once stopped, the MCU stays so whatever comes. -/
theorem halted_of_run {s t : State} {actions : List Action} (hhalted : s.halted = true)
    (hrun : boot.run s actions = some t) : t.halted = true :=
  Machine.run_preserves (I := fun s => s.halted = true)
    (fun _ _ _ hs hstep => State.halted_of_step hs hstep) hhalted hrun

/-- Every burst that is not quiet is fatal unless more traffic or a reset comes to its aid:
the boot's own steps lead to a handler that sends it to NULL and stops the MCU for good. -/
theorem loud_start_fatal {s t : State} (h : boot.Reachable s) (hruns : s.halted = false)
    {port : Port} {bytes : List UInt8} (hloud : ¬ QuietStart s (.burst port bytes))
    (hstep : s.step (.burst port bytes) = some t) :
    ∃ actions u, (∀ a ∈ actions, a.Own) ∧ boot.run t actions = some u ∧
      u.rxStream = none ∧ ∃ p, u.Sends p ∧ ∃ v, u.step (.irqHandler p) = some v ∧
        ∀ later w, boot.run v later = some w → w.halted = true := by
  obtain ⟨-, rfl⟩ := State.step_burst.mp hstep
  simp only [QuietStart, not_or, Option.not_isSome_iff_eq_none, not_forall] at hloud
  obtain ⟨hnull, u, hu, hturns⟩ := hloud
  have hcons := consistent h
  have hpos : 0 < (u.burst bytes).dma.index := by
    rw [Uart.burst, DmaChannel.index_foldl (hcons.running hruns port u hu)]
    exact Nat.pos_of_ne_zero hturns
  have hburst : Function.update s.uart port ((s.uart port).map (·.burst bytes)) port =
      some (u.burst bytes) := by
    rw [Function.update_self, Option.mem_def.mp hu, Option.map_some]
  have hdoomed : Doomed _ port :=
    ⟨hcons.burst port bytes, hruns, hnull, u.burst bytes, hburst, rfl, hpos⟩
  obtain ⟨actions, v, hown, hrun, hnone, p, hsends⟩ := hdoomed.reaches
  obtain ⟨w, hlast, hhalted⟩ := halts_of_sends hsends hnone
  exact ⟨actions, v, hown, hrun, hnone, p, hsends, w, hlast,
    fun later x hlater => halted_of_run hhalted hlater⟩

end SomeIpGateway.McuBoot
