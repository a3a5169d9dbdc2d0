import SomeIpGateway.McuChunking
import SomeIpGateway.McuDispatch
import SomeIpGateway.McuStreamBuffer
import SomeIpGateway.UartWriters

/-!
# From the lines of the MCU to its frames

Bytes come in one at a time on either UART, and their DMA channels write them down. When a
line goes idle, its handler takes over what its channel has written and sends it into
`rxStream`; a handler is over before the next byte is. The command task takes its steps in
between, and parses what each receive returns.
-/
namespace SomeIpGateway.McuInput
open ByteAccess StreamScanning FrameFormat McuReceive McuBoot McuStreamBuffer McuParser
open McuChunking StepMachine

/-- Both UARTs, the stream buffer with the command task, and two records: what has come in on
each line, and what each call of a handler has taken over. -/
structure State where
  uart : Port → Uart := fun _ => Uart.dmaInit
  buffer : McuStreamBuffer.State := {}
  line : Port → List UInt8 := fun _ => []
  taken : List (Port × List UInt8) := []

inductive Action where
  | task
  | byte (port : Port) (byte : UInt8)
  /-- The line has been idle for as long as a byte takes. -/
  | idle (port : Port)
  | irqHandler (port : Port)

namespace State

/-- What the DMA channel of a UART has written since it was armed. -/
def pending (s : State) (port : Port) : List UInt8 :=
  (s.uart port).dma.buf.take (s.uart port).dma.index

/-- `USART1_IRQHandler` and `USART2_IRQHandler`, with the IDLE flag set. -/
def irqHandler (s : State) (port : Port) : State :=
  let u := stopReceive (s.uart port)
  let receivedLen := uartRxBufSize - u.dma.cndtr
  { s with
    uart := Function.update s.uart port (restartReceive u)
    buffer :=
      if 0 < receivedLen then s.buffer.sendFromISR (u.dma.buf.take receivedLen) else s.buffer
    taken := s.taken ++ [(port, u.dma.buf.take receivedLen)] }

def step (s : State) : Action → Option State
  | .task => s.buffer.stepTask.map fun buffer => { s with buffer }
  | .byte port byte =>
    let u := s.uart port
    some { s with
      uart := Function.update s.uart port { u with dma := u.dma.transfer byte }
      line := Function.update s.line port (s.line port ++ [byte]) }
  | .idle port =>
    let u := s.uart port
    some { s with uart := Function.update s.uart port { u with idle := true } }
  | .irqHandler port =>
    if (s.uart port).idle = true ∧ s.buffer.pc ≠ .assertFailed then some (s.irqHandler port)
    else none

end State

def reception : Machine State Action := ⟨{}, State.step⟩

/-- No more than 255 bytes come in until a handler takes them over, and the stream buffer has
space for them then. -/
def Fits (s : State) : Action → Prop
  | .byte port _ => (s.uart port).dma.index + 1 < uartRxBufSize
  | .irqHandler port => (s.uart port).dma.index ≤ s.buffer.ring.space
  | _ => True

instance (s : State) : DecidablePred (Fits s) := fun a => by
  unfold Fits
  split <;> infer_instance

def fromPort (port : Port) (taken : List (Port × List UInt8)) : List UInt8 :=
  (taken.filter (fun t => t.1 = port)).flatMap Prod.snd

theorem fromPort_append (port : Port) (taken more : List (Port × List UInt8)) :
    fromPort port (taken ++ more) = fromPort port taken ++ fromPort port more := by
  rw [fromPort, List.filter_append, List.flatMap_append, fromPort, fromPort]

structure Inv (s : State) : Prop where
  buffer : McuStreamBuffer.Inv s.buffer
  enabled : ∀ port, (s.uart port).dma.enabled = true
  lines : ∀ port, s.line port = fromPort port s.taken ++ s.pending port
  accepted : s.buffer.accepted = s.taken.flatMap Prod.snd

theorem Inv.init : Inv {} where
  buffer := McuStreamBuffer.Inv.init
  enabled _ := rfl
  lines _ := rfl
  accepted := rfl

theorem Inv.task {s t : State} (h : Inv s) (hstep : s.step .task = some t) : Inv t := by
  obtain ⟨buffer, hbuffer, rfl⟩ := Option.map_eq_some_iff.mp hstep
  obtain ⟨hinv, haccepted, -⟩ := h.buffer.task hbuffer
  exact { h with buffer := hinv, accepted := haccepted.trans h.accepted }

/-- A byte goes behind those that its channel has written. -/
theorem Inv.byte {s t : State} {port : Port} {byte : UInt8} (h : Inv s)
    (hfits : Fits s (.byte port byte)) (hstep : s.step (.byte port byte) = some t) : Inv t := by
  obtain rfl := Option.some.inj hstep
  have hon := h.enabled port
  have hindex : ((s.uart port).dma.transfer byte).index = (s.uart port).dma.index + 1 := by
    rw [DmaChannel.index_transfer hon, Nat.mod_eq_of_lt hfits]
  refine { h with enabled := fun p => ?_, lines := fun p => ?_ }
  · rcases eq_or_ne p port with rfl | hp
    · simp only [Function.update_self]
      exact (DmaChannel.enabled_transfer _ byte).trans hon
    · simp only [Function.update_of_ne hp]
      exact h.enabled p
  · rcases eq_or_ne p port with rfl | hp
    · simp only [State.pending, Function.update_self]
      rw [hindex, DmaChannel.buf_transfer hon, h.lines p, List.append_assoc, State.pending]
    · simp only [State.pending, Function.update_of_ne hp]
      exact h.lines p

theorem Inv.idle {s t : State} {port : Port} (h : Inv s) (hstep : s.step (.idle port) = some t) :
    Inv t := by
  obtain rfl := Option.some.inj hstep
  have hdma (p : Port) :
      (Function.update s.uart port { s.uart port with idle := true } p).dma = (s.uart p).dma := by
    rcases eq_or_ne p port with rfl | hp
    · rw [Function.update_self]
    · rw [Function.update_of_ne hp]
  refine { h with enabled := fun p => ?_, lines := fun p => ?_ }
  · dsimp only
    rw [hdma]
    exact h.enabled p
  · simp only [State.pending, hdma]
    exact h.lines p

/-- A handler moves what its channel has written behind what was taken over before. -/
theorem Inv.irqHandler {s : State} {port : Port} (h : Inv s)
    (hfits : Fits s (.irqHandler port)) : Inv (s.irqHandler port) := by
  have hlen : (s.pending port).length = (s.uart port).dma.index := by
    rw [State.pending, List.length_take, (s.uart port).dma.size]
    exact Nat.min_eq_left (s.uart port).dma.index_lt.le
  have hbuffer : (s.irqHandler port).buffer = if 0 < (s.uart port).dma.index then
      s.buffer.sendFromISR (s.pending port) else s.buffer := rfl
  have htaken : (s.irqHandler port).taken = s.taken ++ [(port, s.pending port)] := rfl
  have hline : (s.irqHandler port).line = s.line := rfl
  refine ⟨?_, fun p => ?_, fun p => ?_, ?_⟩
  · rw [hbuffer]
    split_ifs with hpos
    · exact h.buffer.isr (List.ne_nil_of_length_pos (hlen ▸ hpos))
    · exact h.buffer
  · rcases eq_or_ne p port with rfl | hp
    · simp only [State.irqHandler, Function.update_self]
      rfl
    · simp only [State.irqHandler, Function.update_of_ne hp]
      exact h.enabled p
  · rw [hline, htaken, fromPort_append]
    rcases eq_or_ne p port with rfl | hp
    · have hnone : (s.irqHandler p).pending p = [] := by
        simp only [State.pending, State.irqHandler, Function.update_self]
        rfl
      rw [hnone, List.append_nil]
      simpa [fromPort] using h.lines p
    · have hsame : (s.irqHandler port).pending p = s.pending p := by
        simp only [State.pending, State.irqHandler, Function.update_of_ne hp]
      rw [hsame]
      simpa [fromPort, hp.symm] using h.lines p
  · rw [hbuffer, htaken, List.flatMap_append, ← h.accepted]
    split_ifs with hpos
    · have hspace : (s.pending port).length ≤ s.buffer.ring.space := hlen.trans_le hfits
      rw [State.sendFromISR_of_space _ _ (by omega) (List.ne_nil_of_length_pos (hlen ▸ hpos)),
        State.sendCompleteFromISR_accepted]
      simp only [State.writeMessage, List.take_of_length_le hspace, List.flatMap_singleton]
    · have hnil : s.pending port = [] := List.length_eq_zero_iff.mp (by omega)
      simp [hnil]

theorem Inv.step {s t : State} {a : Action} (h : Inv s) (hfits : Fits s a)
    (hstep : s.step a = some t) : Inv t := by
  cases a with
  | task => exact h.task hstep
  | byte port byte => exact h.byte hfits hstep
  | idle port => exact h.idle hstep
  | irqHandler port =>
    simp only [State.step] at hstep
    split_ifs at hstep
    obtain rfl := Option.some.inj hstep
    exact h.irqHandler hfits

theorem inv_of_reachable {s : State} (h : (reception.restrict Fits).Reachable s) : Inv s :=
  h.restrict_invariant Inv.init (fun _ _ _ hI hfits hst => hI.step hfits hst)

/-! ### What the command task handles -/

/-- Nothing is left in the DMA buffers and in the stream buffer. -/
structure State.Settled (s : State) : Prop where
  pending : ∀ port, s.pending port = []
  contents : s.buffer.ring.contents = []

/-- No chunk ends on four bytes of a frame in front of a byte of `rx_buf` that makes the DLC
exceed its limit. -/
def State.HeadersSafe (s : State) (frames : List BkelFrame) : Prop :=
  ∀ i < s.buffer.chunks.length, HeaderCutSafe frames s.buffer.chunks i

instance (s : State) (frames : List BkelFrame) : Decidable (s.HeadersSafe frames) :=
  inferInstanceAs (Decidable (∀ i < _, _))

/-- The command task handles the frames and keeps nothing back, where `beyond` is the memory
behind `rx_buf`. -/
def State.Handles (s : State) (beyond : ℕ → List UInt8) (frames : List BkelFrame) : Prop :=
  (run beyond CommandTask.init s.buffer.chunks).1 = frames ∧
    (run beyond CommandTask.init s.buffer.chunks).2.rxLen = 0

structure Received (s : State) : Prop where
  /-- The bytes of a line are taken over once and in order. -/
  lines : ∀ port, s.line port = fromPort port s.taken ++ s.pending port
  /-- What the handlers take over is received without a gap, each burst in one piece. -/
  chunks : s.buffer.chunks.flatten ++ s.buffer.ring.contents = s.taken.flatMap Prod.snd
  chunk_size : ∀ chunk ∈ s.buffer.chunks, 0 < chunk.length ∧ chunk.length ≤ tempSize
  handled_wellFormed : ∀ beyond, ∀ f ∈ (run beyond CommandTask.init s.buffer.chunks).1,
    McuDispatch.WellFormed f
  /-- Where it is a stream of frames with at most 256 bytes of payload, as the gateway builds
  them, and no cut is unsafe, these are handled, and nothing else. -/
  frames : s.Settled → ∀ frames : List BkelFrame,
    (∀ f ∈ frames, f.WellFormed ∧ f.dlc.toNat ≤ 256) →
    s.taken.flatMap Prod.snd = frames.flatMap frameBytes → s.HeadersSafe frames →
    ∀ beyond, s.Handles beyond frames

theorem handles_of_safe {s : State} {frames : List BkelFrame} (hs : Sent frames s.buffer.chunks)
    (hsafe : s.HeadersSafe frames) (beyond : ℕ → List UInt8) : s.Handles beyond frames := by
  have htracks := tracks_run hs beyond le_rfl hsafe
  rw [List.take_length] at htracks
  obtain ⟨hitems, hrest⟩ := drain_frames hs.wellFormed
  constructor
  · rw [htracks.handled, List.take_length, hs.flatten_eq, hitems]
  · rw [← CommandTask.length_held, htracks.held, List.take_length, hs.flatten_eq, hrest,
      List.length_nil]

theorem Inv.received {s : State} (h : Inv s) : Received s where
  lines := h.lines
  chunks := h.buffer.fifo.trans h.accepted
  chunk_size := h.buffer.chunk_size
  handled_wellFormed beyond := McuDispatch.run_wellFormed beyond CommandTask.init s.buffer.chunks
  frames hsettled frames hframes hstream hsafe beyond := by
    have hchunks : s.buffer.chunks.flatten = frames.flatMap frameBytes := by
      have hfifo := h.buffer.fifo
      rwa [hsettled.contents, List.append_nil, h.accepted, hstream] at hfifo
    have hsent : Sent frames s.buffer.chunks := by
      refine ⟨hframes, hchunks.trans (List.flatMap_congr fun f hf => ?_), h.buffer.chunk_size⟩
      exact (PacketCodec.buildFrame_eq_frameBytes (hframes f hf).1 (hframes f hf).2).symm
    exact handles_of_safe hsent hsafe beyond

end SomeIpGateway.McuInput
