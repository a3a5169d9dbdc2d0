import SomeIpGateway.FrameFormat

/-!
# Reception at the MCU

Each UART has a receive DMA channel in circular mode over a buffer of 256 bytes,
as `BKEL_USART1_DMA_Init` and `BKEL_USART2_DMA_Init` set it up: CNDTR counts down
from 256, is reloaded with 256 at 0, and the byte goes to the index that CNDTR
stands for. The IDLE handlers copy what came in since they last rewrote CNDTR into
`rxStream`.
-/
namespace SomeIpGateway.McuReceive
open ByteAccess FrameFormat

def uartRxBufSize : ℕ := 256

/-- A receive channel and the buffer it fills. -/
structure DmaChannel where
  enabled : Bool
  cndtr : ℕ
  buf : List UInt8
  size : buf.length = uartRxBufSize
  cndtr_pos : 0 < cndtr
  cndtr_le : cndtr ≤ uartRxBufSize

namespace DmaChannel

def index (dma : DmaChannel) : ℕ := uartRxBufSize - dma.cndtr

theorem index_lt (dma : DmaChannel) : dma.index < uartRxBufSize := by
  have hpos := dma.cndtr_pos
  have hle := dma.cndtr_le
  rw [index]
  omega

def transfer (dma : DmaChannel) (byte : UInt8) : DmaChannel :=
  if dma.enabled then
    { dma with
      buf := store dma.buf dma.index [byte]
      cndtr := if dma.cndtr - 1 = 0 then uartRxBufSize else dma.cndtr - 1
      size := (length_store (by rw [dma.size]; exact dma.index_lt)).trans dma.size
      cndtr_pos := by
        split_ifs with hzero
        · decide
        · exact Nat.pos_of_ne_zero hzero
      cndtr_le := by
        split_ifs
        · exact le_rfl
        · exact (Nat.sub_le _ _).trans dma.cndtr_le }
  else dma

/-- The software's write of CNDTR. -/
def rearm (dma : DmaChannel) : DmaChannel :=
  { dma with cndtr := uartRxBufSize, cndtr_pos := by decide, cndtr_le := le_rfl }

end DmaChannel

/-- A UART: the IDLE bit of its status register, and its receive channel. -/
structure Uart where
  idle : Bool
  dma : DmaChannel

namespace Uart

/-- The state after `BKEL_USART1_DMA_Init` or `BKEL_USART2_DMA_Init`. -/
def dmaInit : Uart :=
  ⟨false, ⟨true, uartRxBufSize, List.replicate uartRxBufSize 0, List.length_replicate, by decide,
    le_rfl⟩⟩

/-- A burst of bytes on the line, ended by the line going idle. -/
def burst (u : Uart) (bytes : List UInt8) : Uart :=
  { idle := true, dma := bytes.foldl DmaChannel.transfer u.dma }

/-- The body that the two IDLE handlers share: the UART and `rxStream` afterwards. -/
def idleIrqHandler (u : Uart) (rxStream : List UInt8) : Uart × List UInt8 :=
  if u.idle then
    let dma := { u.dma with enabled := false }
    let receivedLen := uartRxBufSize - dma.cndtr
    let rxStream := if 0 < receivedLen then rxStream ++ dma.buf.take receivedLen else rxStream
    ({ idle := false, dma := { dma.rearm with enabled := true } }, rxStream)
  else (u, rxStream)

end Uart

structure Mcu where
  usart1 : Uart := Uart.dmaInit
  usart2 : Uart := Uart.dmaInit
  rxStream : List UInt8 := []

/-- `USART1_IRQHandler`, on DMA channel 5 and `uart1_rx_dma_buf`. -/
def usart1IrqHandler (m : Mcu) : Mcu :=
  let (usart1, rxStream) := m.usart1.idleIrqHandler m.rxStream
  { m with usart1, rxStream }

/-- `USART2_IRQHandler`, on DMA channel 6 and `uart2_rx_dma_buf`. -/
def usart2IrqHandler (m : Mcu) : Mcu :=
  let (usart2, rxStream) := m.usart2.idleIrqHandler m.rxStream
  { m with usart2, rxStream }

inductive Port where
  | usart1
  | usart2
  deriving Repr, DecidableEq

/-- A burst on one UART, and the interrupt that ends it. -/
def Mcu.receive (m : Mcu) : Port → List UInt8 → Mcu
  | .usart1, bytes => usart1IrqHandler { m with usart1 := m.usart1.burst bytes }
  | .usart2, bytes => usart2IrqHandler { m with usart2 := m.usart2.burst bytes }

def Mcu.receiveAll (m : Mcu) (port : Port) (bursts : List (List UInt8)) : Mcu :=
  bursts.foldl (fun m bytes => m.receive port bytes) m

def Mcu.uart (m : Mcu) : Port → Uart
  | .usart1 => m.usart1
  | .usart2 => m.usart2

/-! ### One burst -/

/-- A channel that is running and about to fill its buffer from the start. -/
def DmaChannel.Armed (dma : DmaChannel) : Prop := dma.enabled = true ∧ dma.cndtr = uartRxBufSize

namespace DmaChannel

theorem index_transfer {dma : DmaChannel} (h : dma.enabled = true) (byte : UInt8) :
    (dma.transfer byte).index = (dma.index + 1) % uartRxBufSize := by
  have hpos := dma.cndtr_pos
  have hle := dma.cndtr_le
  simp only [transfer, h, if_true, index, uartRxBufSize] at *
  split_ifs <;> omega

theorem enabled_transfer (dma : DmaChannel) (byte : UInt8) :
    (dma.transfer byte).enabled = dma.enabled := by
  unfold transfer
  split_ifs <;> rfl

theorem enabled_foldl (dma : DmaChannel) (bytes : List UInt8) :
    (bytes.foldl transfer dma).enabled = dma.enabled := by
  induction bytes generalizing dma with
  | nil => rfl
  | cons byte bytes ih => exact (ih (dma.transfer byte)).trans (dma.enabled_transfer byte)

/-- While the end of the buffer is not passed, the bytes line up behind each other. -/
theorem buf_transfer {dma : DmaChannel} (h : dma.enabled = true) (byte : UInt8) :
    (dma.transfer byte).buf.take (dma.index + 1) = dma.buf.take dma.index ++ [byte] := by
  simp only [transfer, h, if_true]
  exact take_store (dma.index_lt.le.trans dma.size.ge) [byte]

/-- A run of transfers moves the index on by the number of bytes, modulo the size. -/
theorem index_foldl {dma : DmaChannel} (h : dma.enabled = true) (bytes : List UInt8) :
    (bytes.foldl transfer dma).index = (dma.index + bytes.length) % uartRxBufSize := by
  induction bytes generalizing dma with
  | nil => exact (Nat.mod_eq_of_lt dma.index_lt).symm
  | cons byte bytes ih =>
    rw [List.foldl_cons, ih ((dma.enabled_transfer byte).trans h), index_transfer h,
      Nat.mod_add_mod, List.length_cons]
    congr 1
    omega

/-- A run of transfers that does not reach the end of the buffer writes it in order. -/
theorem buf_foldl {dma : DmaChannel} (h : dma.enabled = true) {bytes : List UInt8}
    (hlen : dma.index + bytes.length < uartRxBufSize) :
    (bytes.foldl transfer dma).buf.take (dma.index + bytes.length) =
      dma.buf.take dma.index ++ bytes := by
  induction bytes generalizing dma with
  | nil => simp
  | cons byte bytes ih =>
    rw [List.length_cons] at hlen
    have hindex : (dma.transfer byte).index = dma.index + 1 := by
      rw [index_transfer h, Nat.mod_eq_of_lt (by omega)]
    have htail := ih ((dma.enabled_transfer byte).trans h) (by omega)
    rw [hindex, buf_transfer h] at htail
    rw [List.foldl_cons, List.length_cons, show dma.index + (bytes.length + 1) =
      dma.index + 1 + bytes.length by omega, htail]
    simp

end DmaChannel

/-- What the handler forwards at the end of a burst: nothing is added to it, all of it
if it is shorter than the buffer, and only its length modulo the size otherwise. -/
theorem idleIrqHandler_burst {u : Uart} (hu : u.dma.Armed) (bytes rxStream : List UInt8) :
    ((u.burst bytes).idleIrqHandler rxStream).1.dma.Armed ∧
    ∃ forwarded, ((u.burst bytes).idleIrqHandler rxStream).2 = rxStream ++ forwarded ∧
      forwarded.length = bytes.length % uartRxBufSize ∧
      (bytes.length < uartRxBufSize → forwarded = bytes) := by
  obtain ⟨hon, hcndtr⟩ := hu
  have hzero : u.dma.index = 0 := by rw [DmaChannel.index, hcndtr, Nat.sub_self]
  have hindex := DmaChannel.index_foldl hon bytes
  rw [hzero, Nat.zero_add] at hindex
  have hlen : uartRxBufSize - (u.burst bytes).dma.cndtr = bytes.length % uartRxBufSize := hindex
  refine ⟨⟨rfl, rfl⟩, (u.burst bytes).dma.buf.take (bytes.length % uartRxBufSize), ?_, ?_, ?_⟩
  · simp only [Uart.idleIrqHandler, Uart.burst] at hlen ⊢
    simp only [if_true, hlen]
    split_ifs with hpos
    · rfl
    · simp [Nat.eq_zero_of_not_pos hpos]
  · rw [List.length_take, (u.burst bytes).dma.size]
    exact Nat.min_eq_left (Nat.mod_lt _ (by decide)).le
  · intro hshort
    have hbuf := DmaChannel.buf_foldl hon (by rwa [hzero, Nat.zero_add] : u.dma.index + _ < _)
    rw [hzero, Nat.zero_add, List.take_zero, List.nil_append] at hbuf
    rw [Nat.mod_eq_of_lt hshort]
    exact hbuf

/-! ### All bursts -/

theorem receive_spec {m : Mcu} {port : Port} (hm : (m.uart port).dma.Armed)
    (bytes : List UInt8) :
    ((m.receive port bytes).uart port).dma.Armed ∧
    ∃ forwarded, (m.receive port bytes).rxStream = m.rxStream ++ forwarded ∧
      forwarded.length = bytes.length % uartRxBufSize ∧
      (bytes.length < uartRxBufSize → forwarded = bytes) := by
  cases port with
  | usart1 => exact idleIrqHandler_burst hm bytes m.rxStream
  | usart2 => exact idleIrqHandler_burst hm bytes m.rxStream

/-- The bytes forwarded are those of the bursts, if every burst is shorter than the
buffer; and if one is not, fewer bytes are forwarded than came in. -/
theorem receiveAll_spec {m : Mcu} {port : Port} (hm : (m.uart port).dma.Armed)
    (bursts : List (List UInt8)) :
    ∃ forwarded, (m.receiveAll port bursts).rxStream = m.rxStream ++ forwarded ∧
      forwarded.length ≤ bursts.flatten.length ∧
      (forwarded = bursts.flatten ↔ ∀ bytes ∈ bursts, bytes.length < uartRxBufSize) := by
  induction bursts generalizing m with
  | nil => exact ⟨[], by simp [Mcu.receiveAll], by simp, by simp⟩
  | cons bytes bursts ih =>
    obtain ⟨hm', first, hfirst, hlen, hsame⟩ := receive_spec hm bytes
    obtain ⟨rest, hrest, hle, hiff⟩ := ih hm'
    have hmod : bytes.length % uartRxBufSize ≤ bytes.length := Nat.mod_le _ _
    refine ⟨first ++ rest, ?_, ?_, ?_⟩
    · rw [Mcu.receiveAll, List.foldl_cons]
      exact hrest.trans (by rw [hfirst, List.append_assoc])
    · rw [List.length_append, List.flatten_cons, List.length_append]
      omega
    · rw [List.flatten_cons, List.forall_mem_cons]
      by_cases hshort : bytes.length < uartRxBufSize
      · rw [hsame hshort, List.append_cancel_left_eq, hiff]
        simp [hshort]
      · -- a full turn of the ring is not counted
        have hlt : first.length < bytes.length := by
          rw [hlen]
          exact (Nat.mod_lt _ (by decide)).trans_le (not_lt.mp hshort)
        refine iff_of_false (fun heq => ?_) (fun h => hshort h.1)
        have := congrArg List.length heq
        simp only [List.length_append] at this
        omega

/-- On either UART, the bursts received after initialisation reach `rxStream` whole
and in order if and only if each of them is shorter than the DMA buffer. -/
theorem bursts_forwarded_iff (port : Port) (bursts : List (List UInt8)) :
    (({} : Mcu).receiveAll port bursts).rxStream = bursts.flatten ↔
      ∀ bytes ∈ bursts, bytes.length < 256 := by
  have hinit : ((({} : Mcu).uart port)).dma.Armed := by
    cases port <;> exact ⟨rfl, rfl⟩
  obtain ⟨forwarded, hstream, -, hiff⟩ := receiveAll_spec hinit bursts
  rw [hstream]
  exact hiff

/-- Of the longest frame the gateway sends, only the last eight bytes arrive. -/
theorem long_burst_lost :
    (({} : Mcu).receiveAll .usart1
      [frameBytes ⟨0x10, 0x01, 256, 1, List.replicate 256 0⟩]).rxStream.length = 8 ∧
    ¬ (({} : Mcu).receiveAll .usart1
        [frameBytes ⟨0x10, 0x01, 256, 1, List.replicate 256 0⟩]).rxStream =
      [frameBytes ⟨0x10, 0x01, 256, 1, List.replicate 256 0⟩].flatten := by
  constructor <;> decide +kernel

end SomeIpGateway.McuReceive
