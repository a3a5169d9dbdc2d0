import SomeIpGateway.AdcSampling
import SomeIpGateway.GpioPorts
import SomeIpGateway.McuDispatch
import SomeIpGateway.McuOutput
import SomeIpGateway.PwmDiagnosis

/-!
# The device behind the commands

The handlers of `f_RPCTask` and `f_sendDataTask` run on the registers of the ports and of TIM2,
print and send answers. To its clients the device is a panel: a lamp, a PWM output and some
inputs, which commands set and diagnostic requests report.
-/
namespace SomeIpGateway.McuDevice
open StreamScanning FrameFormat PacketCodec ByteAccess ReadPrograms McuHandlers McuEncoder
open McuOutput UartInput GpioPorts PwmDiagnosis StepMachine

/-! ### Text -/

/-- A digit of `%X`, or of `%x`. -/
def hexDigit (conversion : Char) (n : ℕ) : UInt8 :=
  UInt8.ofNat (if n < 10 then 48 + n else if conversion = 'X' then 55 + n else 87 + n)

/-- `printf` with the conversions that the handlers use: `%02X` and `%02x` of a byte. -/
def printf : List Char → List UInt8 → List UInt8
  | '%' :: '0' :: '2' :: conversion :: format, arg :: args =>
    hexDigit conversion (arg.toNat / 16) :: hexDigit conversion (arg.toNat % 16) ::
      printf format args
  | c :: format, args => UInt8.ofNat c.toNat :: printf format args
  | [], _ => []

def IsAscii (format : List Char) : Prop := ∀ c ∈ format, c.toNat < 0x80

instance (format : List Char) : Decidable (IsAscii format) :=
  List.decidableBAll (fun c : Char => c.toNat < 0x80) format

theorem hexDigit_lt (conversion : Char) {n : ℕ} (h : n < 16) : hexDigit conversion n < 0x80 := by
  rw [UInt8.lt_iff_toNat_lt, hexDigit, UInt8.toNat_ofNat']
  change _ < 128
  split_ifs <;> omega

/-- What an ASCII format prints is ASCII. -/
theorem printf_lt {format : List Char} (h : IsAscii format) (args : List UInt8) :
    ∀ b ∈ printf format args, b < 0x80 := by
  induction format, args using printf.induct with
  | case1 conversion format arg args ih =>
    intro b hb
    have harg := arg.toNat_lt
    simp only [printf, List.mem_cons] at hb
    rcases hb with rfl | rfl | hb
    · exact hexDigit_lt conversion (by omega)
    · exact hexDigit_lt conversion (by omega)
    · exact ih (fun c hc => h c (by simp [hc])) b hb
  | case2 c format args hformat ih =>
    intro b hb
    rw [printf.eq_2 _ _ _ hformat] at hb
    rcases List.mem_cons.mp hb with rfl | hb
    · have hc : c.toNat < 128 := h c (by simp)
      rw [UInt8.lt_iff_toNat_lt, UInt8.toNat_ofNat', Nat.mod_eq_of_lt (by omega)]
      exact hc
    · exact ih (fun c hc => h c (by simp [hc])) b hb
  | case3 args =>
    intro b hb
    simp [printf] at hb

/-! ### The registers -/

/-- PA5. -/
def ld2Pin : UInt16 := 0x0020

/-- PC1. -/
def gpoPin : UInt16 := 0x0002

/-- PC0. -/
def gpiPin : UInt16 := 0x0001

/-- The registers that the handlers work on. -/
structure Device where
  gpioa : Port
  gpioc : Port
  tim2 : Tim2
  deriving Repr, DecidableEq

/-- After `BKEL_GPIO_Init` and `BKEL_PWM_Init`: PA5 and PC1 are outputs, and PC0 is pulled up. -/
def Device.init : Device := ⟨⟨0, ld2Pin⟩, ⟨1, gpoPin⟩, Tim2.init⟩

/-- What a handler finds outside of these registers. -/
structure Inputs where
  /-- The levels at the pins of GPIOA that are no outputs of the port. -/
  gpioa : UInt16 := 0
  gpioc : UInt16 := 0
  /-- What `BKEL_BSW_ADC_GetValue` returns. -/
  adcVal : UInt32 := 0
  /-- The duty and the frequency over 999 of a valid PWM input, computed in floating point. -/
  pwmIn : Option (UInt8 × UInt8) := none
  /-- What the transfers over SPI return. -/
  spi2 : List UInt8 := []
  /-- What `out_buf` contains before. -/
  outBuf : Vector UInt8 64 := Vector.replicate 64 0

/-- An answer to a diagnostic request. -/
structure Answer extends Content where
  short : payload.length ≤ 2
  deriving DecidableEq

/-- `BKEL_BSW_GPIO` read for an answer. -/
def pinState (sid : UInt8) (port : Port) (applied pin : UInt16) : Answer :=
  ⟨⟨sid, 0x01, [(port.readPin applied pin).byte]⟩, Nat.le_succ 1⟩

namespace Device
variable (d : Device) (inputs : Inputs)

def appSendDiagPWMOut : Answer :=
  ⟨⟨0x20, 0x02, [d.tim2.readDuty.value, d.tim2.readPeriod.value]⟩, le_rfl⟩

/-- No answer if the input is not valid. -/
def appSendDiagPWMIn : Option Answer :=
  inputs.pwmIn.map fun pwm => ⟨⟨0x21, 0x02, [pwm.1, pwm.2]⟩, le_rfl⟩

def appSendDiagADC1Val : Answer :=
  ⟨⟨0x22, 0x02, AdcSampling.Channel.adc1.payload inputs.adcVal⟩, le_rfl⟩

def appSendDiagADC2Val : Answer :=
  ⟨⟨0x23, 0x02, AdcSampling.Channel.adc2.payload inputs.adcVal⟩, le_rfl⟩

def appSendDiagGPOPinState : Answer := pinState 0x24 d.gpioc inputs.gpioc gpoPin

def appSendDiagGPIPinState : Answer := pinState 0x25 d.gpioc inputs.gpioc gpiPin

def appSendDiagLD2PinState : Answer := pinState 0x26 d.gpioa inputs.gpioa ld2Pin

/-- The answer that is sent with an SID. -/
def diagnosis (sid : UInt8) : Option Answer :=
  if sid = 0x20 then some d.appSendDiagPWMOut
  else if sid = 0x21 then appSendDiagPWMIn inputs
  else if sid = 0x22 then some (appSendDiagADC1Val inputs)
  else if sid = 0x23 then some (appSendDiagADC2Val inputs)
  else if sid = 0x24 then some (d.appSendDiagGPOPinState inputs)
  else if sid = 0x25 then some (d.appSendDiagGPIPinState inputs)
  else if sid = 0x26 then some (d.appSendDiagLD2PinState inputs)
  else none

end Device

/-- The call of `build_frame` for an answer. -/
def Answer.call (a : Answer) (outBuf : Vector UInt8 64) : BuildCall where
  outBuf := outBuf.toList
  outBufSize := 64
  sid := a.sid
  type := a.type
  payload := a.payload
  payloadLen := UInt16.ofNat a.payload.length
  buf_covers := by simp
  payload_covers := by
    have := a.short
    rw [UInt16.toNat_ofNat', Nat.mod_eq_of_lt (by omega)]

/-! ### Running a handler -/

/-- The registers, the bytes that SPI has returned last and returns next, and what was sent. -/
structure Execution where
  device : Device
  rx : UInt8 := 0
  spi2 : List UInt8
  sent : List Sending := []

namespace Execution

def print (x : Execution) (format : String) (args : List UInt8) : Execution :=
  { x with sent := x.sent ++ [.text (printf format.toList args)] }

/-- What an event of a handler does. A reset starts from the registers as they are set up. -/
def execute (inputs : Inputs) (x : Execution) : Event UInt8 Effect → Execution
  | .read _ _ => x
  | .act (.print format args) => x.print format args
  | .act .ld2Off => { x with device.gpioa := x.device.gpioa.writePin ld2Pin .reset }
  | .act .ld2On => { x with device.gpioa := x.device.gpioa.writePin ld2Pin .set }
  | .act .ld2Toggle => { x with device.gpioa := x.device.gpioa.togglePin ld2Pin }
  | .act .systemReset => { x with device := Device.init }
  | .act (.spi2Transfer _) => { x with rx := x.spi2.headD 0, spi2 := x.spi2.tail }
  | .act (.printReceived format args) => x.print format (args ++ [x.rx])
  | .act (.pwmSetPeriod period) =>
    { x with device.tim2 := (x.device.tim2.setPeriod period).value }
  | .act (.pwmSetDuty duty) => { x with device.tim2 := x.device.tim2.setDuty duty }
  | .act (.sendDiag sid) =>
    { x with
      sent := x.sent ++ ((x.device.diagnosis inputs sid).map
        fun answer => .answer (answer.call inputs.outBuf)).toList }

end Execution

namespace Device

/-- A run of a handler: the registers after it, and what it has sent. -/
def run (d : Device) (inputs : Inputs) (r : Run) : Device × List Sending :=
  let x := r.trace.foldl (Execution.execute inputs) { device := d, spi2 := inputs.spi2 }
  (x.device, x.sent)

/-- Runs one after the other, each with inputs of its own. -/
def runAll (d : Device) (inputs : ℕ → Inputs) : List Run → Device × List Sending
  | [] => (d, [])
  | r :: runs =>
    let (d, sent) := d.run (inputs 0) r
    let (d, more) := d.runAll (fun n => inputs (n + 1)) runs
    (d, sent ++ more)

end Device

/-! ### The panel -/

/-- The lamp, the period of the PWM output in timer counts, and its duty in percent. -/
structure Panel where
  lamp : Bool
  counts : ℕ
  duty : ℕ
  counts_pos : 0 < counts
  counts_le : counts ≤ 1000
  duty_le : duty ≤ 100

namespace Panel

def init : Panel := ⟨false, 999, 50, by decide, by decide, by decide⟩

/-- Set the PWM output to a duty in percent and a frequency in kHz. -/
def setout (p : Panel) (duty period : UInt8) : Panel where
  lamp := p.lamp
  counts := if period = 0 then p.counts else PwmDiagnosis.counts period.toNat
  duty := min duty.toNat 100
  counts_pos := by
    have hlt := period.toNat_lt
    split_ifs with hzero
    · exact p.counts_pos
    · exact Nat.div_pos (by omega) (Nat.pos_of_ne_zero fun h => hzero (UInt8.toNat_inj.mp h))
  counts_le := by
    split_ifs
    · exact p.counts_le
    · exact Nat.div_le_self 1000 period.toNat
  duty_le := Nat.min_le_right _ _

/-- The panel after an accepted command. -/
def after (p : Panel) (f : BkelFrame) : Panel :=
  if f.sid = rpcLd2Control then
    if u8At f.payload 0 = 0 then { p with lamp := false }
    else if u8At f.payload 0 = 1 then { p with lamp := true }
    else if u8At f.payload 0 = 2 then { p with lamp := !p.lamp }
    else p
  else if f.sid = rpcPwmSetout then p.setout (u8At f.payload 0) (u8At f.payload 1)
  else p

/-- The high counts of the PWM output over those of its period, in percent. -/
def dutyShown (p : Panel) : ℕ := (p.counts + 1) * p.duty / 100 * 100 / p.counts

/-- The frequency in kHz, of which the device keeps 16 bits in Hz. -/
def periodShown (p : Panel) : ℕ := 1000000 / p.counts % 65536 / 999

/-- What an accepted diagnostic request is answered. -/
def answer (p : Panel) (inputs : Inputs) (f : BkelFrame) : Option Content :=
  if f.sid = diagPwmOutputValue then
    some ⟨f.sid, 2, [UInt8.ofNat p.dutyShown, UInt8.ofNat p.periodShown]⟩
  else if f.sid = diagPwmInputValue then inputs.pwmIn.map fun pwm => ⟨f.sid, 2, [pwm.1, pwm.2]⟩
  else if f.sid = diagAdc1GetValue then
    some ⟨f.sid, 2, AdcSampling.Channel.adc1.payload inputs.adcVal⟩
  else if f.sid = diagAdc2GetValue then
    some ⟨f.sid, 2, AdcSampling.Channel.adc2.payload inputs.adcVal⟩
  else if f.sid = diagGpoPinstate then some ⟨f.sid, 1, [0]⟩
  else if f.sid = diagGpiPinstate then
    some ⟨f.sid, 1, [if inputs.gpioc &&& gpiPin ≠ 0 then 1 else 0]⟩
  else if f.sid = diagLd2Pinstate then some ⟨f.sid, 1, [if p.lamp then 1 else 0]⟩
  else none

/-- Accepted commands one after the other, and what they are answered. -/
def answers (p : Panel) (inputs : ℕ → Inputs) : List BkelFrame → List Content
  | [] => []
  | f :: frames =>
    (p.answer (inputs 0) f).toList ++ (p.after f).answers (fun n => inputs (n + 1)) frames

end Panel

/-! ### The registers follow the panel -/

structure Refines (d : Device) (p : Panel) : Prop where
  gpioa : d.gpioa = ⟨if p.lamp then ld2Pin else 0, ld2Pin⟩
  gpioc : d.gpioc = Device.init.gpioc
  arr : d.tim2.arr.toNat = p.counts
  ccr1 : d.tim2.ccr1.toNat = (p.counts + 1) * p.duty / 100

theorem refines_init : Refines Device.init Panel.init where
  gpioa := rfl
  gpioc := rfl
  arr := rfl
  ccr1 := rfl

/-- What is sent from one moment to another: texts, and answers. -/
def Sends (x y : Execution) (contents : List Content) : Prop :=
  ∃ more, y.sent = x.sent ++ more ∧ (∀ m ∈ more, m.Proper) ∧
    more.filterMap Sending.answered = contents

theorem sends_of_eq {x y : Execution} (h : y.sent = x.sent) : Sends x y [] :=
  ⟨[], by simp [h], by simp, rfl⟩

theorem Sends.trans {x y z : Execution} {a b : List Content} (hxy : Sends x y a)
    (hyz : Sends y z b) : Sends x z (a ++ b) := by
  obtain ⟨m, hm, hproper, rfl⟩ := hxy
  obtain ⟨n, hn, hproper', rfl⟩ := hyz
  refine ⟨m ++ n, by rw [hn, hm, List.append_assoc], fun t ht => ?_, List.filterMap_append⟩
  rcases List.mem_append.mp ht with ht | ht
  · exact hproper t ht
  · exact hproper' t ht

theorem sends_print (x : Execution) {format : String} (h : IsAscii format.toList)
    (args : List UInt8) : Sends x (x.print format args) [] := by
  refine ⟨[.text (printf format.toList args)], rfl, fun m hm => ?_, rfl⟩
  obtain rfl := List.mem_singleton.mp hm
  exact printf_lt h args

/-- Events that only read and print. -/
def Quiet : Event UInt8 Effect → Prop
  | .read _ _ => True
  | .act (.print format _) => IsAscii format.toList
  | .act (.printReceived format _) => IsAscii format.toList
  | .act (.spi2Transfer _) => True
  | _ => False

theorem foldl_quiet (inputs : Inputs) {events : List (Event UInt8 Effect)}
    (h : ∀ e ∈ events, Quiet e) (x : Execution) :
    (events.foldl (Execution.execute inputs) x).device = x.device ∧
      Sends x (events.foldl (Execution.execute inputs) x) [] := by
  induction events generalizing x with
  | nil => exact ⟨rfl, sends_of_eq rfl⟩
  | cons e events ih =>
    obtain ⟨hdevice, hsends⟩ :=
      ih (fun e he => h e (List.mem_cons_of_mem _ he)) (Execution.execute inputs x e)
    have hfirst : (Execution.execute inputs x e).device = x.device ∧
        Sends x (Execution.execute inputs x e) [] := by
      have hquiet := h e List.mem_cons_self
      cases e with
      | read i b => exact ⟨rfl, sends_of_eq rfl⟩
      | act e =>
        cases e with
        | print format args => exact ⟨rfl, sends_print x hquiet args⟩
        | printReceived format args => exact ⟨rfl, sends_print x hquiet _⟩
        | spi2Transfer tx => exact ⟨rfl, sends_of_eq rfl⟩
        | ld2Off | ld2On | ld2Toggle | systemReset | pwmSetPeriod _ | pwmSetDuty _ | sendDiag _ =>
          exact hquiet.elim
    exact ⟨hdevice.trans hfirst.1, hfirst.2.trans hsends⟩

theorem ofNat_toNat_eq {b : UInt8} {n : ℕ} (h : b.toNat = n) : b = UInt8.ofNat n := by
  rw [← h, UInt8.ofNat_toNat]

/-- What `BKEL_PWM_ReadPeriod` returns, with what its 16-bit variable cuts. -/
theorem toNat_readPeriod {tim : Tim2} (hpos : 0 < tim.arr.toNat) (hle : tim.arr.toNat ≤ 1000) :
    tim.readPeriod.value.toNat = 1000000 / tim.arr.toNat % 65536 / 999 := by
  have hperiod := toNat_toUInt16 (show tim.arr.toNat < 65536 by omega)
  have hbranch : 0 < (toUInt16 tim.arr.toNat).value := by
    rw [UInt16.lt_iff_toNat_lt, hperiod]
    exact hpos
  have hvalue (x y : ℕ) : (divide x y).value = x / y := rfl
  have hcut (x : ℕ) : (toUInt16 x).value.toNat = x % 65536 := UInt16.toNat_ofNat'
  have hsmall (x : ℕ) : x % 65536 / 999 < 256 := by omega
  simp only [Tim2.readPeriod, LoggedComputations.Logged.value_bind, if_pos hbranch, hperiod, hvalue,
    hcut]
  exact toNat_toUInt8 (hsmall _)

namespace Refines
variable {d : Device} {p : Panel}

/-- A port whose latch shows the lamp. -/
theorem lamp (h : Refines d p) {port : Port} {lamp : Bool}
    (hport : port = ⟨if lamp then ld2Pin else 0, ld2Pin⟩) :
    Refines { d with gpioa := port } { p with lamp } where
  gpioa := hport
  gpioc := h.gpioc
  arr := h.arr
  ccr1 := h.ccr1

theorem ld2Write (h : Refines d p) (pinstate : GpioState) :
    Refines { d with gpioa := d.gpioa.writePin ld2Pin pinstate }
      { p with lamp := decide (pinstate ≠ .reset) } := by
  apply h.lamp
  rw [Port.writePin_eq, h.gpioa]
  cases pinstate <;> cases p.lamp <;> rfl

theorem ld2Toggle (h : Refines d p) :
    Refines { d with gpioa := d.gpioa.togglePin ld2Pin } { p with lamp := !p.lamp } := by
  apply h.lamp
  rw [Port.togglePin_eq, h.gpioa]
  cases p.lamp <;> rfl

theorem ld2PinState (h : Refines d p) (inputs : Inputs) :
    (d.appSendDiagLD2PinState inputs).payload = [if p.lamp then 1 else 0] := by
  have houtput : ld2Pin &&& d.gpioa.outputs = ld2Pin := by
    rw [h.gpioa]
    exact UInt16.and_self
  rw [Device.appSendDiagLD2PinState, pinState, Port.readPin_of_outputs _ _ _ houtput, h.gpioa]
  cases p.lamp <;> rfl

theorem gpoPinState (h : Refines d p) (inputs : Inputs) :
    (d.appSendDiagGPOPinState inputs).payload = [0] := by
  have houtput : gpoPin &&& d.gpioc.outputs = gpoPin := by
    rw [h.gpioc]
    rfl
  rw [Device.appSendDiagGPOPinState, pinState, Port.readPin_of_outputs _ _ _ houtput, h.gpioc]
  rfl

theorem gpiPinState (h : Refines d p) (inputs : Inputs) :
    (d.appSendDiagGPIPinState inputs).payload =
      [if inputs.gpioc &&& gpiPin ≠ 0 then 1 else 0] := by
  have hinput : gpiPin &&& ~~~d.gpioc.outputs = gpiPin := by
    rw [h.gpioc]
    rfl
  rw [Device.appSendDiagGPIPinState, pinState, Port.readPin_of_inputs _ _ _ hinput]
  dsimp only
  split_ifs <;> rfl

theorem pwmOut (h : Refines d p) :
    d.appSendDiagPWMOut.payload = [UInt8.ofNat p.dutyShown, UInt8.ofNat p.periodShown] := by
  have hpos : 0 < d.tim2.arr.toNat := h.arr ▸ p.counts_pos
  have hle : d.tim2.arr.toNat ≤ 1000 := h.arr ▸ p.counts_le
  have hfits : d.tim2.ccr1.toNat ≤ d.tim2.arr.toNat + 1 := by
    rw [h.ccr1, h.arr]
    exact Nat.div_le_of_le_mul (by rw [Nat.mul_comm]; gcongr; exact p.duty_le)
  have hduty := (Tim2.readDuty_spec hpos hle hfits).2
  have hperiod := toNat_readPeriod hpos hle
  rw [h.ccr1, h.arr] at hduty
  rw [h.arr] at hperiod
  rw [Device.appSendDiagPWMOut, ofNat_toNat_eq hduty, ofNat_toNat_eq hperiod]
  rfl

theorem setout (h : Refines d p) (duty period : UInt8) :
    Refines { d with tim2 := (d.tim2.setout ⟨duty, period⟩).value } (p.setout duty period) := by
  have hle : d.tim2.arr.toNat ≤ 1000 := h.arr ▸ p.counts_le
  obtain ⟨-, harr, -, hccr⟩ := Tim2.setout_spec hle ⟨duty, period⟩
  have harr' : (d.tim2.setout ⟨duty, period⟩).value.arr.toNat = (p.setout duty period).counts := by
    rw [harr, h.arr]
    rfl
  rw [harr'] at hccr
  exact ⟨h.gpioa, h.gpioc, harr', hccr⟩

/-- The device and the panel answer alike. -/
theorem diagnosis (h : Refines d p) (inputs : Inputs) (f : BkelFrame) :
    (d.diagnosis inputs f.sid).map Answer.toContent = p.answer inputs f := by
  unfold Device.diagnosis Panel.answer
  simp only [diagPwmOutputValue, diagPwmInputValue, diagAdc1GetValue, diagAdc2GetValue,
    diagGpoPinstate, diagGpiPinstate, diagLd2Pinstate]
  split_ifs with hpwm hin hadc1 hadc2 hgpo hgpi hld2
  · rw [hpwm, ← h.pwmOut]
    rfl
  · rw [hin, Device.appSendDiagPWMIn, Option.map_map]
    rfl
  · rw [hadc1]
    rfl
  · rw [hadc2]
    rfl
  · rw [hgpo, ← h.gpoPinState inputs]
    rfl
  · rw [hgpi, ← h.gpiPinState inputs]
    rfl
  · rw [hld2, ← h.ld2PinState inputs]
    rfl
  · simp only [hpwm, hin, hadc1, hadc2, hgpo, hgpi, hld2, if_false, Option.map_none]

end Refines

theorem Answer.fits (a : Answer) (outBuf : Vector UInt8 64) : (a.call outBuf).Fits := by
  have hshort := a.short
  have hcovers := (a.call outBuf).payload_covers
  change (a.call outBuf).payloadLen.toNat + 8 ≤ 64
  rw [← hcovers]
  change a.payload.length + 8 ≤ 64
  omega

theorem Answer.answered_call (a : Answer) (outBuf : Vector UInt8 64) :
    (Sending.answer (a.call outBuf)).answered = some a.toContent := if_pos (a.fits outBuf)

/-- An answer carries the SID of its request. -/
theorem diagnosis_sid {d : Device} {inputs : Inputs} {sid : UInt8} {a : Answer}
    (h : d.diagnosis inputs sid = some a) : a.sid = sid ∧ sid ≠ serviceAdvertise := by
  unfold Device.diagnosis at h
  split_ifs at h
  all_goals
    first
    | obtain rfl := Option.some.inj h
    | obtain ⟨pwm, -, rfl⟩ := Option.map_eq_some_iff.mp h
  all_goals exact ⟨Eq.symm ‹sid = _›, ‹sid = _› ▸ by decide⟩

theorem sends_diagnosis (inputs : Inputs) (x : Execution) (sid : UInt8) :
    Sends x (Execution.execute inputs x (.act (.sendDiag sid)))
      ((x.device.diagnosis inputs sid).map Answer.toContent).toList := by
  refine ⟨_, rfl, fun m hm => ?_, ?_⟩
  · obtain ⟨a, ha, rfl⟩ := Option.map_eq_some_iff.mp (Option.mem_toList.mp hm)
    obtain ⟨hsid, hne⟩ := diagnosis_sid ha
    have hfits := a.fits inputs.outBuf
    refine ⟨hsid.trans_ne hne, ?_⟩
    have hroom : (a.call inputs.outBuf).payloadLen.toNat + 8 ≤ 64 := hfits
    rw [bkelMaxPayload]
    omega
  · cases x.device.diagnosis inputs sid with
    | none => rfl
    | some a => simp [Answer.answered_call]

/-- What a run of a handler does to the registers the command does to the panel, and what it
sends is the panel's answer, among texts. -/
structure RunRefines (d : Device) (p : Panel) (inputs : Inputs) (f : BkelFrame) (r : Run) :
    Prop where
  refines : Refines (d.run inputs r).1 (p.after f)
  answers : (d.run inputs r).2.filterMap Sending.answered = (p.answer inputs f).toList
  proper : ∀ x ∈ (d.run inputs r).2, x.Proper

theorem runRefines_of_sends {d : Device} {p : Panel} {inputs : Inputs} {f : BkelFrame} {r : Run}
    {y : Execution}
    (hy : r.trace.foldl (Execution.execute inputs) { device := d, spi2 := inputs.spi2 } = y)
    (hrefines : Refines y.device (p.after f))
    (hsends : Sends { device := d, spi2 := inputs.spi2 } y (p.answer inputs f).toList) :
    RunRefines d p inputs f r := by
  obtain ⟨more, hmore, hproper, hanswers⟩ := hsends
  have hrun : d.run inputs r = (y.device, more) := by
    rw [Device.run, hy, hmore]
    rfl
  exact ⟨by rw [hrun]; exact hrefines, by rw [hrun]; exact hanswers, by rw [hrun]; exact hproper⟩

/-! ### One run -/

/-- The command restarts the MCU. -/
def Resets (f : BkelFrame) : Prop := f.sid = rpcMcuReset ∧ u8At f.payload 0 = 1

instance (f : BkelFrame) : Decidable (Resets f) := inferInstanceAs (Decidable (_ ∧ _))

theorem quiet_acts {mem : ℕ → UInt8} {actions : List Effect} {next : Body}
    (hactions : ∀ a ∈ actions, Quiet (.act a)) (hnext : ∀ e ∈ next.trace mem, Quiet e) :
    ∀ e ∈ (Program.acts actions next).trace mem, Quiet e := by
  induction actions with
  | nil => exact hnext
  | cons a actions ih =>
    intro e he
    rcases List.mem_cons.mp he with rfl | he
    · exact hactions a (by simp)
    · exact ih (fun b hb => hactions b (by simp [hb])) e he

/-- The default branch of a handler prints the command. -/
theorem quiet_default {mem : ℕ → UInt8} {format : String} (h : IsAscii format.toList) :
    ∀ e ∈ (Program.read 0 fun b => Program.acts [Effect.print format [b]] .halt).trace mem,
      Quiet e := by
  intro e he
  rcases List.mem_cons.mp he with rfl | he
  · trivial
  · refine quiet_acts (fun a ha => ?_) (fun e he => by cases he) e he
    obtain rfl := List.mem_singleton.mp ha
    exact h

theorem quiet_spiWrite (mem : ℕ → UInt8) (i n : ℕ) :
    ∀ e ∈ (spiWrite i n).trace mem, Quiet e := by
  induction n generalizing i with
  | zero => intro e he; cases he
  | succ n ih =>
    intro e he
    rcases List.mem_cons.mp he with rfl | he
    · trivial
    · refine quiet_acts (fun a ha => ?_) (ih (i + 1)) e he
      simp only [List.mem_cons, List.not_mem_nil, or_false] at ha
      rcases ha with rfl | rfl
      · trivial
      · change IsAscii _
        decide

theorem quiet_spiRead (mem : ℕ → UInt8) : ∀ e ∈ spiRead.trace mem, Quiet e := by
  intro e he
  rcases List.mem_cons.mp he with rfl | he
  · trivial
  dsimp only at he
  split_ifs at he
  · refine quiet_acts (fun a ha => ?_) (fun e he => by cases he) e he
    simp only [List.reduceReplicate, List.flatten_cons, List.flatten_nil, List.append_nil,
      List.cons_append, List.nil_append, List.mem_cons, List.not_mem_nil, or_false] at ha
    rcases ha with rfl | rfl | rfl | rfl | rfl | rfl | rfl | rfl | rfl <;>
      first | trivial | (change IsAscii _; decide)
  · refine quiet_acts (fun a ha => ?_) (quiet_spiWrite mem 0 4) e he
    obtain rfl := List.mem_singleton.mp ha
    change IsAscii _
    decide
  · exact quiet_default (by decide) e he

/-- Without a reset, the handler of it only prints. -/
theorem quiet_mcuReset {mem : ℕ → UInt8} (h : mem 0 ≠ 1) :
    ∀ e ∈ mcuReset.trace mem, Quiet e := by
  intro e he
  rcases List.mem_cons.mp he with rfl | he
  · trivial
  dsimp only at he
  rw [if_neg h] at he
  exact quiet_default (by decide) e he

section
variable {d : Device} {p : Panel} {f : BkelFrame} (inputs : Inputs)

/-- Only diagnostic requests are answered. -/
theorem answer_eq_none (h : f.sid < 0x20) : p.answer inputs f = none := by
  have hne {sid : UInt8} (hsid : 0x20 ≤ sid) : f.sid ≠ sid := by
    rintro rfl
    exact UInt8.not_lt.mpr hsid h
  unfold Panel.answer
  rw [if_neg (hne (by decide)), if_neg (hne (by decide)), if_neg (hne (by decide)),
    if_neg (hne (by decide)), if_neg (hne (by decide)), if_neg (hne (by decide)),
    if_neg (hne (by decide))]

theorem runRefines_quiet (h : Refines d p) {r : Run} (hquiet : ∀ e ∈ r.trace, Quiet e)
    (hafter : p.after f = p) (hsid : f.sid < 0x20) : RunRefines d p inputs f r := by
  obtain ⟨hdevice, hsends⟩ := foldl_quiet inputs hquiet { device := d, spi2 := inputs.spi2 }
  refine runRefines_of_sends rfl ?_ ?_
  · rw [hdevice, hafter]
    exact h
  · rw [answer_eq_none inputs hsid]
    exact hsends

/-- A command that is printed and then sets the port of the lamp. -/
theorem runRefines_lamp {r : Run} (b : UInt8) (format : String) (e : Effect) (port : Port)
    (htrace : r.trace = [.read 0 b, .act (.print format []), .act e])
    (hformat : IsAscii format.toList)
    (hexecute : ∀ x : Execution, x.device = d →
      Execution.execute inputs x (.act e) = { x with device.gpioa := port })
    (hrefines : Refines { d with gpioa := port } (p.after f)) (hsid : f.sid < 0x20) :
    RunRefines d p inputs f r := by
  let x : Execution := { device := d, spi2 := inputs.spi2 }
  have hfold : r.trace.foldl (Execution.execute inputs) x =
      { x.print format [] with device.gpioa := port } := by
    rw [htrace]
    exact hexecute (x.print format []) rfl
  refine runRefines_of_sends hfold hrefines ?_
  rw [answer_eq_none inputs hsid]
  exact sends_print x hformat []

theorem runRefines_ld2Control (h : Refines d p) (hsid : f.sid = 0x10) :
    RunRefines d p inputs f ⟨.ld2Control, ld2Control.trace (u8At f.payload)⟩ := by
  have hlow : f.sid < 0x20 := hsid ▸ by decide
  have hafter : p.after f = if u8At f.payload 0 = 0 then { p with lamp := false }
      else if u8At f.payload 0 = 1 then { p with lamp := true }
      else if u8At f.payload 0 = 2 then { p with lamp := !p.lamp } else p := if_pos hsid
  by_cases hoff : u8At f.payload 0 = 0
  · refine runRefines_lamp inputs 0 "LD2 OFF\r\n" .ld2Off (d.gpioa.writePin ld2Pin .reset) ?_
      (by decide) (fun x hx => by rw [← hx]; rfl) ?_ hlow
    · simp [ld2Control, Program.trace, Program.acts, hoff]
    · rw [hafter, if_pos hoff]
      exact h.ld2Write .reset
  by_cases hon : u8At f.payload 0 = 1
  · refine runRefines_lamp inputs 1 "LD2 ON\r\n" .ld2On (d.gpioa.writePin ld2Pin .set) ?_
      (by decide) (fun x hx => by rw [← hx]; rfl) ?_ hlow
    · simp [ld2Control, Program.trace, Program.acts, hon]
    · rw [hafter, if_neg hoff, if_pos hon]
      exact h.ld2Write .set
  by_cases htoggle : u8At f.payload 0 = 2
  · refine runRefines_lamp inputs 2 "LD2 Toggle\r\n" .ld2Toggle (d.gpioa.togglePin ld2Pin) ?_
      (by decide) (fun x hx => by rw [← hx]; rfl) ?_ hlow
    · simp [ld2Control, Program.trace, Program.acts, htoggle]
    · rw [hafter, if_neg hoff, if_neg hon, if_pos htoggle]
      exact h.ld2Toggle
  · refine runRefines_quiet inputs h (fun e he => ?_) ?_ hlow
    · rcases List.mem_cons.mp he with rfl | he
      · trivial
      · dsimp only at he
        rw [if_neg hoff, if_neg hon, if_neg htoggle] at he
        exact quiet_default (by decide) e he
    · rw [hafter, if_neg hoff, if_neg hon, if_neg htoggle]

theorem runRefines_pwmSetout (h : Refines d p) (hsid : f.sid = 0x13) :
    RunRefines d p inputs f ⟨.pwmSetout, pwmSetout.trace (u8At f.payload)⟩ := by
  have hafter : p.after f = p.setout (u8At f.payload 0) (u8At f.payload 1) := by
    have hrpc : f.sid ≠ rpcLd2Control := hsid.trans_ne (by decide)
    rw [Panel.after, if_neg hrpc, if_pos (show f.sid = rpcPwmSetout from hsid)]
  let x : Execution := { device := d, spi2 := inputs.spi2 }
  have hfold : (pwmSetout.trace (u8At f.payload)).foldl (Execution.execute inputs) x =
      { x.print "[PWM Setout]\r\n" [] with device.tim2 :=
        ((pwmSetout.trace (u8At f.payload)).foldlM Tim2.execute d.tim2).value } := rfl
  rw [Tim2.execute_pwmSetout] at hfold
  refine runRefines_of_sends hfold ?_ ?_
  · rw [hafter]
    exact h.setout _ _
  · rw [answer_eq_none inputs (hsid ▸ by decide)]
    exact sends_print x (by decide) []

theorem runRefines_diagnosis (h : Refines d p) (hafter : p.after f = p) {r : Run}
    (htrace : r.trace = [.act (.sendDiag f.sid)]) : RunRefines d p inputs f r := by
  refine runRefines_of_sends (congrArg _ htrace) ?_ ?_
  · rw [hafter]
    exact h
  · rw [← h.diagnosis inputs f]
    exact sends_diagnosis inputs { device := d, spi2 := inputs.spi2 } f.sid

theorem after_of_ne (hlamp : f.sid ≠ rpcLd2Control) (hpwm : f.sid ≠ rpcPwmSetout) :
    p.after f = p := by rw [Panel.after, if_neg hlamp, if_neg hpwm]

theorem runRefines (h : Refines d p) {r : Run} (hr : expectedRun f = some r)
    (hreset : ¬ Resets f) : RunRefines d p inputs f r := by
  obtain ⟨handler, hhandler, rfl⟩ := Option.map_eq_some_iff.mp hr
  have hmem : (f.sid, handler) ∈ commands := by
    rw [handlerOf] at hhandler
    split_ifs at hhandler
    obtain ⟨before, after, hcommands, -⟩ := List.lookup_eq_some_iff.mp hhandler
    simp [hcommands]
  have hother (hlamp : f.sid ≠ rpcLd2Control) (hpwm : f.sid ≠ rpcPwmSetout) : p.after f = p :=
    after_of_ne hlamp hpwm
  simp only [commands, List.mem_cons, Prod.mk.injEq, List.not_mem_nil, or_false] at hmem
  rcases hmem with ⟨hsid, rfl⟩ | ⟨hsid, rfl⟩ | ⟨hsid, rfl⟩ | ⟨hsid, rfl⟩ | hdiag
  · exact runRefines_ld2Control inputs h hsid
  · refine runRefines_quiet inputs h (quiet_mcuReset fun hone => hreset ⟨hsid, hone⟩)
      (hother ?_ ?_) ?_ <;> rw [hsid] <;> decide
  · refine runRefines_quiet inputs h (quiet_spiRead _) (hother ?_ ?_) ?_ <;> rw [hsid] <;> decide
  · exact runRefines_pwmSetout inputs h hsid
  · rcases hdiag with ⟨hsid, rfl⟩ | ⟨hsid, rfl⟩ | ⟨hsid, rfl⟩ | ⟨hsid, rfl⟩ | ⟨hsid, rfl⟩ |
        ⟨hsid, rfl⟩ | ⟨hsid, rfl⟩ <;>
      refine runRefines_diagnosis inputs h (hother ?_ ?_) ?_ <;> rw [hsid] <;> first | decide | rfl

end

/-! ### All runs -/

def Admitted (f : BkelFrame) : Prop := isValidDlc f.sid f.dlc

instance : DecidablePred Admitted := fun f => inferInstanceAs (Decidable (isValidDlc f.sid f.dlc))

/-- The runs that frames call for keep the registers on the panel's side. -/
theorem runAll_refines {frames : List BkelFrame}
    (hreset : ∀ f ∈ frames.filter Admitted, ¬ Resets f) {d : Device} {p : Panel} (h : Refines d p)
    (inputs : ℕ → Inputs) :
    (d.runAll inputs (frames.filterMap expectedRun)).2.filterMap Sending.answered =
        p.answers inputs (frames.filter Admitted) ∧
      ∀ x ∈ (d.runAll inputs (frames.filterMap expectedRun)).2, x.Proper := by
  induction frames generalizing d p inputs with
  | nil => exact ⟨rfl, fun x hx => by cases hx⟩
  | cons f frames ih =>
    by_cases hvalid : Admitted f
    · obtain ⟨r, hr, -⟩ := McuDispatch.expectedRun_of_valid hvalid
      rw [List.filter_cons_of_pos (by simpa using hvalid)] at hreset
      have hrun := runRefines (inputs 0) h hr (hreset f List.mem_cons_self)
      obtain ⟨hanswers, hproper⟩ := ih (fun g hg => hreset g (List.mem_cons_of_mem f hg))
        hrun.refines (fun n => inputs (n + 1))
      rw [List.filterMap_cons_some hr, List.filter_cons_of_pos (by simpa using hvalid)]
      refine ⟨?_, fun x hx => ?_⟩
      · simp only [Device.runAll, List.filterMap_append, hrun.answers, hanswers, Panel.answers]
      · rcases List.mem_append.mp hx with hx | hx
        · exact hrun.proper x hx
        · exact hproper x hx
    · have hnone : expectedRun f = none :=
        expectedRun_of_not_valid (Bool.not_eq_true _ ▸ hvalid)
      rw [List.filter_cons_of_neg (by simpa using hvalid)] at hreset
      rw [List.filterMap_cons_none hnone, List.filter_cons_of_neg (by simpa using hvalid)]
      exact ih hreset h inputs

/-- The commands whose runs are complete: those handled, except for one that is still executed. -/
structure Executed (s : McuDispatch.State) (done : List BkelFrame) : Prop where
  front : done <+: s.handled
  missing : s.handled.length ≤ done.length + 1
  at_rest : s.Idle → done = s.handled

theorem exists_executed {packet : McuDispatch.CommonPacket} {s : McuDispatch.State}
    (h : (McuDispatch.mcu packet).Reachable s) :
    ∃ done, Executed s done ∧ s.log = done.filterMap expectedRun := by
  have hinv : McuDispatch.Inv packet s :=
    h.invariant McuDispatch.Inv.init fun _ _ _ hI hstep => hI.step hstep
  rcases hinv.work with hs | ⟨w, f, earlier, ha⟩
  · exact ⟨s.handled, ⟨List.prefix_rfl, Nat.le_succ _, fun _ => rfl⟩, hs.log⟩
  · refine ⟨earlier, ⟨?_, ?_, fun hidle => ?_⟩, ha.log⟩
    · rw [ha.handled]
      exact List.prefix_append _ _
    · rw [ha.handled, List.length_append, List.length_singleton]
    · have hready := ha.ready
      simp [hidle.workers w] at hready

/-! ### What the gateway finds -/

/-- What the handlers send is marked; the rest are advertisements and texts of other tasks. -/
structure Merges (sent : List (Bool × Sending)) (handlers : List Sending) : Prop where
  marked : (sent.filter Prod.fst).map Prod.snd = handlers
  others : ∀ x, (false, x) ∈ sent → x.Proper ∧ x.answered = none

theorem Merges.answered {sent : List (Bool × Sending)} {handlers : List Sending}
    (h : Merges sent handlers) :
    (sent.map Prod.snd).filterMap Sending.answered = handlers.filterMap Sending.answered := by
  obtain ⟨rfl, hothers⟩ := h
  induction sent with
  | nil => rfl
  | cons x sent ih =>
    obtain ⟨marked, x⟩ := x
    have hrest := ih fun y hy => hothers y (List.mem_cons_of_mem _ hy)
    cases marked with
    | false =>
      have hnone := (hothers x List.mem_cons_self).2
      simpa [List.filterMap_cons, hnone] using hrest
    | true => simp [List.filterMap_cons, hrest]

/-- The frames on the line of an MCU, among them the answers of the panel. -/
theorem carries_panel {packet : McuDispatch.CommonPacket} {s : McuDispatch.State}
    (h : (McuDispatch.mcu packet).Reachable s)
    (hreset : ∀ f ∈ s.handled.filter Admitted, ¬ Resets f) (inputs : ℕ → Inputs) (uid : Uid)
    {sent : List (Bool × Sending)} (hsent : Merges sent (Device.init.runAll inputs s.log).2) :
    ∃ frames done, Carries (CidState.node uid {}) (lineBytes uid {} (sent.map Prod.snd)) frames ∧
      Executed s done ∧ answersIn frames = Panel.init.answers inputs (done.filter Admitted) := by
  obtain ⟨done, hdone, hlog⟩ := exists_executed h
  have hsub := (hdone.front.sublist.filter (decide <| Admitted ·)).subset
  obtain ⟨hanswers, hproper⟩ :=
    runAll_refines (fun f hf => hreset f (hsub hf)) refines_init inputs
  rw [← hlog] at hanswers hproper
  have hall : ∀ x ∈ sent.map Prod.snd, x.Proper := by
    intro x hx
    obtain ⟨⟨marked, y⟩, hy, rfl⟩ := List.mem_map.mp hx
    cases marked with
    | false => exact (hsent.others y hy).1
    | true =>
      apply hproper
      rw [← hsent.marked]
      exact List.mem_map_of_mem (List.mem_filter.mpr ⟨hy, rfl⟩)
  obtain ⟨frames, -, hcarries, -, -, hframes⟩ := carries_lineBytes uid hall {}
  exact ⟨frames, done, hcarries, hdone, by rw [hframes, hsent.answered, hanswers]⟩

/-- Whatever commands come to the MCU and however its tasks are scheduled, as long as none of
the accepted commands restarts it and what the tasks send goes out one after the other: on its
line the gateway finds, besides advertisements, exactly what the panel answers to the accepted
commands that have been executed, if its terminal reads the frames as they are sent. -/
theorem panel_answers {packet : McuDispatch.CommonPacket} {s : McuDispatch.State}
    (h : (McuDispatch.mcu packet).Reachable s)
    (hreset : ∀ f ∈ s.handled.filter Admitted, ¬ Resets f) (inputs : ℕ → Inputs) (uid : Uid)
    {sent : List (Bool × Sending)} (hsent : Merges sent (Device.init.runAll inputs s.log).2)
    {flags : InputFlags}
    (hpass : ∀ f ∈ items (packetParser.drain (lineBytes uid {} (sent.map Prod.snd))).1,
      flags.uartInit.Passes (frameBytes f)) :
    ∃ done, Executed s done ∧
      answersIn (items (packetParser.drain
        (flags.uartInit.input (lineBytes uid {} (sent.map Prod.snd)))).1) =
          Panel.init.answers inputs (done.filter Admitted) := by
  obtain ⟨frames, done, hcarries, hdone, hanswers⟩ := carries_panel h hreset inputs uid hsent
  rw [hcarries.found_sent] at hpass
  exact ⟨done, hdone, by rw [hcarries.found_all hpass, hanswers]⟩

/-- The lamp is switched on, the PWM output is set to 30 percent at 2 kHz, and both are asked
for; a text of another task comes first, whose end the terminal changes. -/
theorem panel_answers_lamp_and_pwm :
    ∃ s : McuDispatch.State, answersIn (items (packetParser.drain
      (InputFlags.linux.uartInit.input (lineBytes ⟨1, 2, 4⟩ {}
        (.text [0x4F, 0x4B, 0x0D] :: (Device.init.runAll (fun _ => {}) s.log).2)))).1) =
          [⟨0x26, 1, [1]⟩, ⟨0x20, 2, [30, 2]⟩] := by
  let frames : List BkelFrame := [⟨0x10, 1, 1, 7, [1]⟩, ⟨0x13, 2, 2, 7, [30, 2]⟩,
    ⟨0x26, 1, 0, 7, []⟩, ⟨0x20, 1, 0, 7, []⟩]
  obtain ⟨s, hs, hcommand, hsendData, hrpc, hhandled, hlog⟩ :=
    Machine.exists_reachable (M := McuDispatch.mcu McuDispatch.stalePacket)
      (fun s => s.ready .command = false ∧ s.ready .sendData = false ∧ s.ready .rpc = false ∧
        s.handled = frames ∧ s.log = frames.filterMap expectedRun)
      (List.flatten [[.run .sendData, .run .rpc], frames.map .arrive,
        List.replicate 5 (.run .command), List.replicate 7 (.run .rpc),
        List.replicate 5 (.run .command), List.replicate 9 (.run .rpc),
        List.replicate 5 (.run .command), List.replicate 5 (.run .sendData),
        List.replicate 5 (.run .command), List.replicate 5 (.run .sendData)])
      (by decide +kernel)
  have hidle : s.Idle := fun t ht => by cases t <;> first | assumption | exact (ht rfl).elim
  have hmerges : Merges ((false, .text [0x4F, 0x4B, 0x0D]) ::
      (Device.init.runAll (fun _ => {}) s.log).2.map (true, ·))
      (Device.init.runAll (fun _ => {}) s.log).2 := by
    refine ⟨by simp [List.filter_map, Function.comp_def], fun x hx => ?_⟩
    obtain rfl : x = .text [0x4F, 0x4B, 0x0D] := by simpa using hx
    exact ⟨by decide, rfl⟩
  have hreturn : ∀ f ∈ items (packetParser.drain (lineBytes ⟨1, 2, 4⟩ {}
      (.text [0x4F, 0x4B, 0x0D] ::
        (Device.init.runAll (fun _ => {}) (frames.filterMap expectedRun)).2))).1,
      0x0D ∉ frameBytes f := by decide +kernel
  obtain ⟨done, hdone, hanswers⟩ := panel_answers hs (by rw [hhandled]; decide) (fun _ => {})
    ⟨1, 2, 4⟩ hmerges fun f hf => InputFlags.passes_linux (hreturn f (by
      rw [hlog] at hf
      simpa [Function.comp_def] using hf))
  rw [hdone.at_rest hidle, hhandled] at hanswers
  refine ⟨s, ?_⟩
  simpa [Function.comp_def] using hanswers.trans (by decide)

end SomeIpGateway.McuDevice
