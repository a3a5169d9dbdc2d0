import SomeIpGateway.FrameFormat
import SomeIpGateway.ReadPrograms

/-!
# The MCU's command handlers

The handlers that `f_RPCTask` and `f_sendDataTask` call, as programs that read the
payload of the packet they are given. What the SPI slave returns is only printed,
and appears here as the argument of that print alone. The table in `handle_frame`
admits a frame by SID and DLC; it covers what the handler of the SID reads.
-/
namespace SomeIpGateway.McuHandlers
open ByteAccess FrameFormat ReadPrograms

def rpcLd2Control : UInt8 := 0x10
def rpcMcuReset : UInt8 := 0x11
def rpcSpiRead : UInt8 := 0x12
def rpcPwmSetout : UInt8 := 0x13
def diagPwmOutputValue : UInt8 := 0x20
def diagPwmInputValue : UInt8 := 0x21
def diagAdc1GetValue : UInt8 := 0x22
def diagAdc2GetValue : UInt8 := 0x23
def diagGpoPinstate : UInt8 := 0x24
def diagGpiPinstate : UInt8 := 0x25
def diagLd2Pinstate : UInt8 := 0x26

/-- What a handler does to the outside. -/
inductive Effect where
  | print (format : String) (args : List UInt8)
  | ld2Off
  | ld2On
  | ld2Toggle
  | systemReset
  | spi2Transfer (tx : UInt8)
  /-- A print with the byte that the transfer before it returned as its last argument. -/
  | printReceived (format : String) (args : List UInt8)
  | pwmSetPeriod (period : UInt8)
  | pwmSetDuty (duty : UInt8)
  /-- The frame with the answer to a diagnostic request is built and sent. -/
  | sendDiag (sid : UInt8)
  deriving Repr, DecidableEq

/-- A handler's body, reading `packet->payload`. -/
abbrev Body := Program UInt8 Effect

open Program in
/-- `BKEL_RPC_LD2_Control`. -/
def ld2Control : Body :=
  read 0 fun cmd =>
    if cmd = 0x00 then acts [.print "LD2 OFF\r\n" [], .ld2Off] halt
    else if cmd = 0x01 then acts [.print "LD2 ON\r\n" [], .ld2On] halt
    else if cmd = 0x02 then acts [.print "LD2 Toggle\r\n" [], .ld2Toggle] halt
    else read 0 fun b => acts [.print "[LD2] invalid cmd: 0x%02X\r\n" [b]] halt

open Program in
/-- `BKEL_RPC_MCU_Reset`, with `ENABLE_MCU_RESET` defined. -/
def mcuReset : Body :=
  read 0 fun cmd =>
    if cmd = 0x01 then acts [.print "[MCU_Reset]\r\n" [], .systemReset] halt
    else read 0 fun b => acts [.print "[MCU] invalid cmd: 0x%02X\r\n" [b]] halt

open Program in
/-- The loop of `SPI_CMD_WRITE`: `n` turns from the turn `i` on. -/
def spiWrite (i : ℕ) : ℕ → Body
  | 0 => halt
  | n + 1 => read (i + 1) fun tx =>
      acts [.spi2Transfer tx, .printReceived "TX = 0x%02X, RX(loopback) = 0x%02X\r\n" [tx]]
        (spiWrite (i + 1) n)

open Program in
/-- `BKEL_RPC_SPI_Read`. -/
def spiRead : Body :=
  read 0 fun cmd =>
    if cmd = 0x00 then
      acts (.print "[SPI Read]\r\n" [] ::
        (List.replicate 4 [.spi2Transfer 0x00, .printReceived "RX = 0x%02X\r\n" []]).flatten) halt
    else if cmd = 0x01 then acts [.print "[SPI Write]\r\n" []] (spiWrite 0 4)
    else read 0 fun b => acts [.print "[SPI] invalid cmd: 0x%02X\r\n" [b]] halt

open Program in
/-- `BKEL_RPC_PWM_Setout`: the payload is the duty and behind it the period. -/
def pwmSetout : Body :=
  acts [.print "[PWM Setout]\r\n" []] (read 1 fun period =>
    acts [.pwmSetPeriod period] (read 0 fun duty => acts [.pwmSetDuty duty] halt))

open Program in
/-- `AppSendDiagPWMOut` and the other handlers of `f_sendDataTask`, by the SID of the frame
they send. They are called without the packet. -/
def appSendDiag (sid : UInt8) : Body := acts [.sendDiag sid] halt

inductive Handler where
  | ld2Control
  | mcuReset
  | spiRead
  | pwmSetout
  | diagPwmOut
  | diagPwmIn
  | diagAdc1Val
  | diagAdc2Val
  | diagGpoPinState
  | diagGpiPinState
  | diagLd2PinState
  deriving Repr, DecidableEq

namespace Handler

def body : Handler → Body
  | ld2Control => McuHandlers.ld2Control
  | mcuReset => McuHandlers.mcuReset
  | spiRead => McuHandlers.spiRead
  | pwmSetout => McuHandlers.pwmSetout
  | diagPwmOut => appSendDiag 0x20
  | diagPwmIn => appSendDiag 0x21
  | diagAdc1Val => appSendDiag 0x22
  | diagAdc2Val => appSendDiag 0x23
  | diagGpoPinState => appSendDiag 0x24
  | diagGpiPinState => appSendDiag 0x25
  | diagLd2PinState => appSendDiag 0x26

/-- The number of payload bytes that a handler may read. -/
def payloadBytes : Handler → ℕ
  | ld2Control | mcuReset => 1
  | pwmSetout => 2
  | spiRead => 5
  | _ => 0

end Handler

/-- The two tasks that execute commands. -/
inductive Worker where
  | sendData
  | rpc
  deriving Repr, DecidableEq

/-- The switch over `packet->sid` in `f_sendDataTask` and in `f_RPCTask`. -/
def Worker.switch (w : Worker) (sid : UInt8) : Option Handler :=
  match w with
  | .sendData =>
    if sid = diagPwmOutputValue then some .diagPwmOut
    else if sid = diagPwmInputValue then some .diagPwmIn
    else if sid = diagAdc1GetValue then some .diagAdc1Val
    else if sid = diagAdc2GetValue then some .diagAdc2Val
    else if sid = diagGpoPinstate then some .diagGpoPinState
    else if sid = diagGpiPinstate then some .diagGpiPinState
    else if sid = diagLd2Pinstate then some .diagLd2PinState
    else none
  | .rpc =>
    if sid = rpcLd2Control then some .ld2Control
    else if sid = rpcMcuReset then some .mcuReset
    else if sid = rpcSpiRead then some .spiRead
    else if sid = rpcPwmSetout then some .pwmSetout
    else none

/-- The switch at the head of `handle_frame`: `is_valid_dlc`, and what it prints. -/
def checkDlc (sid : UInt8) (dlc : UInt16) : Bool × List Effect :=
  if sid = diagGpoPinstate ∨ sid = diagGpiPinstate ∨ sid = diagLd2Pinstate ∨
      sid = diagPwmOutputValue ∨ sid = diagPwmInputValue ∨ sid = diagAdc1GetValue ∨
      sid = diagAdc2GetValue then (true, [])
  else if sid = rpcLd2Control ∨ sid = rpcMcuReset then (dlc = 1, [])
  else if sid = rpcPwmSetout then (dlc = 2, [])
  else if sid = rpcSpiRead then (dlc = 5, [])
  else (false, [.print "[handle_frame_error] Undefined SID: 0x%02x\r\n" [sid]])

def isValidDlc (sid : UInt8) (dlc : UInt16) : Bool := (checkDlc sid dlc).1

/-- The task that `handle_frame` notifies. -/
def notified (sid : UInt8) : Option Worker :=
  if 0x10 ≤ sid ∧ sid ≤ 0x1F then some .rpc
  else if 0x20 ≤ sid ∧ sid ≤ 0x2F then some .sendData
  else none

/-- The commands of the protocol: the handler of each SID. -/
def commands : List (UInt8 × Handler) :=
  [(0x10, .ld2Control), (0x11, .mcuReset), (0x12, .spiRead), (0x13, .pwmSetout),
    (0x20, .diagPwmOut), (0x21, .diagPwmIn), (0x22, .diagAdc1Val), (0x23, .diagAdc2Val),
    (0x24, .diagGpoPinState), (0x25, .diagGpiPinState), (0x26, .diagLd2PinState)]

/-- The handler that a frame with an admitted DLC calls for. -/
def handlerOf (sid : UInt8) (dlc : UInt16) : Option Handler :=
  if isValidDlc sid dlc then commands.lookup sid else none

/-- A completed run of a handler. -/
structure Run where
  handler : Handler
  trace : List (Event UInt8 Effect)
  deriving Repr, DecidableEq

/-- The run that a frame calls for: of the handler of its SID, on the frame's own bytes. -/
def expectedRun (f : BkelFrame) : Option Run :=
  (handlerOf f.sid f.dlc).map fun h => ⟨h, h.body.trace (u8At f.payload)⟩

/-! ### Reads -/

theorem spiWrite_readsBelow {i n : ℕ} (h : i + n ≤ 4) : (spiWrite i n).ReadsBelow 5 := by
  induction n generalizing i with
  | zero => trivial
  | succ n ih => exact ⟨by omega, fun _ => (Program.readsBelow_acts _).mpr (ih (by omega))⟩

theorem body_readsBelow (h : Handler) : h.body.ReadsBelow h.payloadBytes := by
  cases h with
  | ld2Control =>
    refine ⟨by decide, fun cmd => ?_⟩
    dsimp only
    split_ifs <;> simp [Program.ReadsBelow, Handler.payloadBytes]
  | mcuReset =>
    refine ⟨by decide, fun cmd => ?_⟩
    dsimp only
    split_ifs <;> simp [Program.ReadsBelow, Handler.payloadBytes]
  | spiRead =>
    refine ⟨by decide, fun cmd => ?_⟩
    dsimp only
    split_ifs
    · simp [Program.ReadsBelow]
    · exact (Program.readsBelow_acts _).mpr (spiWrite_readsBelow (by decide))
    · simp [Program.ReadsBelow, Handler.payloadBytes]
  | pwmSetout => simp [Handler.body, pwmSetout, Program.ReadsBelow, Handler.payloadBytes]
  | _ => simp [Handler.body, appSendDiag, Program.ReadsBelow]

/-- The table of `handle_frame` admits a frame only with the bytes that its handler reads,
and only for an SID that the notified task knows. -/
theorem handlerOf_spec {sid : UInt8} {dlc : UInt16} (h : isValidDlc sid dlc) :
    ∃ w handler, notified sid = some w ∧ w.switch sid = some handler ∧
      handlerOf sid dlc = some handler ∧ handler.payloadBytes ≤ dlc.toNat := by
  have hvalid := h
  unfold isValidDlc checkDlc at h
  split_ifs at h with hdiag hone hpwm hspi
  · rcases hdiag with rfl | rfl | rfl | rfl | rfl | rfl | rfl <;>
      exact ⟨.sendData, _, rfl, rfl, by rw [handlerOf, if_pos hvalid]; rfl, Nat.zero_le _⟩
  · obtain rfl : dlc = 1 := by simpa using h
    rcases hone with rfl | rfl <;> exact ⟨.rpc, _, rfl, rfl, rfl, by decide⟩
  · obtain rfl : dlc = 2 := by simpa using h
    subst hpwm
    exact ⟨.rpc, _, rfl, rfl, rfl, by decide⟩
  · obtain rfl : dlc = 5 := by simpa using h
    subst hspi
    exact ⟨.rpc, _, rfl, rfl, rfl, by decide⟩

theorem payloadBytes_le (h : Handler) : h.payloadBytes ≤ 5 := by cases h <;> decide

theorem length_trace_spiWrite (mem : ℕ → UInt8) (i n : ℕ) :
    ((spiWrite i n).trace mem).length = 3 * n := by
  induction n generalizing i with
  | zero => rfl
  | succ n ih =>
    simp only [spiWrite, Program.trace, List.length_cons, Program.length_trace_acts, ih,
      List.length_nil]
    omega

/-- A handler is done after a bounded number of events. -/
theorem length_trace_body (h : Handler) (mem : ℕ → UInt8) : (h.body.trace mem).length ≤ 16 := by
  cases h with
  | ld2Control =>
    simp only [Handler.body, ld2Control, Program.trace]
    split_ifs <;> simp [Program.length_trace_acts, Program.trace]
  | mcuReset =>
    simp only [Handler.body, mcuReset, Program.trace]
    split_ifs <;> simp [Program.length_trace_acts, Program.trace]
  | spiRead =>
    simp only [Handler.body, spiRead, Program.trace]
    split_ifs <;> simp [Program.length_trace_acts, Program.trace, length_trace_spiWrite]
  | pwmSetout => simp [Handler.body, pwmSetout, Program.length_trace_acts, Program.trace]
  | _ => simp [Handler.body, appSendDiag, Program.length_trace_acts, Program.trace]

/-- A packet that agrees with a frame on the bytes the handler reads gives the handler
the run on the frame's own bytes. -/
theorem trace_body_congr (h : Handler) {mem mem' : ℕ → UInt8}
    (heq : ∀ i < h.payloadBytes, mem i = mem' i) : h.body.trace mem = h.body.trace mem' :=
  Program.trace_congr (body_readsBelow h) heq

theorem expectedRun_of_not_valid {f : BkelFrame} (h : isValidDlc f.sid f.dlc = false) :
    expectedRun f = none := by
  simp [expectedRun, handlerOf, h]

/-- An admitted frame's run is on bytes of its own. -/
theorem expectedRun_reads {f : BkelFrame} (hlen : f.payload.length = f.dlc.toNat) {r : Run}
    (hr : expectedRun f = some r) {i : ℕ} {b : UInt8} (hread : .read i b ∈ r.trace) :
    i < r.handler.payloadBytes ∧ f.payload[i]? = some b := by
  obtain ⟨h, hh, rfl⟩ := Option.map_eq_some_iff.mp hr
  have hvalid : isValidDlc f.sid f.dlc := by
    by_contra hnot
    simp [handlerOf, hnot] at hh
  obtain ⟨w, h', -, -, hh', hle⟩ := handlerOf_spec hvalid
  obtain rfl : h = h' := Option.some.inj (hh.symm.trans hh')
  obtain ⟨hi, rfl⟩ := (body_readsBelow h).of_mem_trace hread
  have hlt : i < f.payload.length := by omega
  exact ⟨hi, by simp [u8At, hlt]⟩

end SomeIpGateway.McuHandlers
