import SomeIpGateway.LoggedComputations
import SomeIpGateway.McuHandlers

/-!
# Setting the PWM output and reading it back

`BKEL_RPC_PWM_Setout` writes duty and period to the registers of TIM2, and
`AppSendDiagPWMOut` computes them back from the registers. Both use integer divisions, the
reader in 16-bit variables. Every division by zero and every value cut by a conversion is
logged, so that a clean log says that neither happened.
-/
namespace SomeIpGateway.PwmDiagnosis
open LoggedComputations McuHandlers ReadPrograms

/-- What may go wrong in integer arithmetic of C. -/
inductive Incident where
  | divisionByZero
  | cut
  deriving Repr, DecidableEq

/-- Integer division. -/
def divide (x y : ℕ) : Logged Incident ℕ := ⟨x / y, if y = 0 then [.divisionByZero] else []⟩

/-- Conversion to `uint8_t`. -/
def toUInt8 (x : ℕ) : Logged Incident UInt8 := ⟨UInt8.ofNat x, if x < 2 ^ 8 then [] else [.cut]⟩

/-- Conversion to `uint16_t`. -/
def toUInt16 (x : ℕ) : Logged Incident UInt16 :=
  ⟨UInt16.ofNat x, if x < 2 ^ 16 then [] else [.cut]⟩

/-- The registers of TIM2 that set period and pulse width. -/
structure Tim2 where
  arr : UInt32
  ccr1 : UInt32
  deriving Repr, DecidableEq

/-- The registers at the start: 1 kHz and 50 percent. -/
def Tim2.init : Tim2 := ⟨999, 500⟩

/-- `BKEL_PWM_Payload_t`. -/
structure PwmPayload where
  duty : UInt8
  period : UInt8
  deriving Repr, DecidableEq

namespace Tim2

/-- `BKEL_PWM_SetPeriod`. -/
def setPeriod (tim : Tim2) (period : UInt8) : Logged Incident Tim2 :=
  if period = 0 then pure tim
  else do
    let arr ← divide 1000000 (period.toNat * 1000)
    pure { tim with arr := UInt32.ofNat arr }

/-- `BKEL_PWM_SetDuty`. -/
def setDuty (tim : Tim2) (dutyPercent : UInt8) : Tim2 :=
  let dutyPercent := if 100 < dutyPercent then 100 else dutyPercent
  { tim with ccr1 := (tim.arr + 1) * dutyPercent.toUInt32 / 100 }

/-- `BKEL_PWM_ReadDuty`. -/
def readDuty (tim : Tim2) : Logged Incident UInt8 := do
  let period ← toUInt16 tim.arr.toNat
  let thigh ← toUInt16 tim.ccr1.toNat
  if 0 < period then do
    let duty ← toUInt16 (← divide (thigh.toUInt32 * 100).toNat period.toNat)
    toUInt8 duty.toNat
  else toUInt8 999

/-- `BKEL_PWM_ReadPeriod`. -/
def readPeriod (tim : Tim2) : Logged Incident UInt8 := do
  let period ← toUInt16 tim.arr.toNat
  if 0 < period then do
    let period ← toUInt16 (← divide 1000000 period.toNat)
    toUInt8 (← divide period.toNat 999)
  else toUInt8 (← divide period.toNat 999)

/-- `BKEL_RPC_PWM_Setout`. -/
def setout (tim : Tim2) (request : PwmPayload) : Logged Incident Tim2 := do
  let tim ← tim.setPeriod request.period
  pure (tim.setDuty request.duty)

/-- What an event of a handler does to the timer. -/
def execute (tim : Tim2) : Event UInt8 Effect → Logged Incident Tim2
  | .act (.pwmSetPeriod period) => tim.setPeriod period
  | .act (.pwmSetDuty duty) => pure (tim.setDuty duty)
  | _ => pure tim

/-- The handler of SID 0x13, run on the payload of a packet, sets the timer so. -/
theorem execute_pwmSetout (tim : Tim2) (payload : ℕ → UInt8) :
    (pwmSetout.trace payload).foldlM execute tim = tim.setout ⟨payload 0, payload 1⟩ := by
  simp only [pwmSetout, Program.acts, Program.trace, List.foldr_cons, List.foldr_nil,
    List.foldlM_cons, List.foldlM_nil, execute, setout]
  simp [bind, pure]

/-- The payload that `AppSendDiagPWMOut` sends. -/
def diagPwmOut (tim : Tim2) : Logged Incident (List UInt8) := do
  let readPWM ← tim.readDuty
  let readPeriod ← tim.readPeriod
  pure [readPWM, readPeriod]

/-- Requests executed one after another. -/
def setoutAll (tim : Tim2) : List PwmPayload → Logged Incident Tim2
  | [] => pure tim
  | request :: requests => do
    let tim ← tim.setout request
    tim.setoutAll requests

end Tim2

/-- Requests executed from the initial registers on, and the diagnosis after them. -/
def session (requests : List PwmPayload) : Logged Incident (List UInt8) := do
  let tim ← Tim2.init.setoutAll requests
  tim.diagPwmOut

/-! ### What the registers hold -/

section Arithmetic

theorem log_divide {x y : ℕ} (h : 0 < y) : (divide x y).log = [] := by
  simp [divide, Nat.ne_of_gt h]

theorem log_toUInt8_iff (x : ℕ) : (toUInt8 x).log = [] ↔ x < 256 := by
  unfold toUInt8
  split_ifs with h
  · exact iff_of_true rfl h
  · exact iff_of_false (by simp) h

theorem log_toUInt16_iff (x : ℕ) : (toUInt16 x).log = [] ↔ x < 65536 := by
  unfold toUInt16
  split_ifs with h
  · exact iff_of_true rfl h
  · exact iff_of_false (by simp) h

theorem toNat_toUInt16 {x : ℕ} (h : x < 65536) : (toUInt16 x).value.toNat = x := by
  simp only [toUInt16, UInt16.toNat_ofNat']
  exact Nat.mod_eq_of_lt h

theorem toNat_toUInt8 {x : ℕ} (h : x < 256) : (toUInt8 x).value.toNat = x := by
  simp only [toUInt8, UInt8.toNat_ofNat']
  exact Nat.mod_eq_of_lt h

end Arithmetic

/-- The timer counts of a period in kHz. -/
def counts (period : ℕ) : ℕ := 1000 / period

namespace Tim2

theorem log_setPeriod (tim : Tim2) (period : UInt8) : (tim.setPeriod period).log = [] := by
  unfold setPeriod
  split_ifs with hzero
  · rfl
  · have hpos : 0 < period.toNat := Nat.pos_of_ne_zero fun h => hzero (UInt8.toNat_inj.mp h)
    simp [divide, Nat.ne_of_gt hpos]

/-- A period of zero leaves the register alone, any other sets it. -/
theorem toNat_arr_setPeriod (tim : Tim2) (period : UInt8) :
    (tim.setPeriod period).value.arr.toNat =
      if period = 0 then tim.arr.toNat else counts period.toNat := by
  unfold setPeriod
  split_ifs with hzero
  · rfl
  · have hcounts : 1000000 / (period.toNat * 1000) = counts period.toNat := by
      rw [counts, Nat.mul_comm, ← Nat.div_div_eq_div_mul]
    have hle : counts period.toNat ≤ 1000 := Nat.div_le_self _ _
    simp only [Logged.value_bind, Logged.value_pure, divide, hcounts, UInt32.toNat_ofNat']
    omega

/-- The duty that `BKEL_PWM_SetDuty` works with. -/
theorem toNat_min_duty (duty : UInt8) :
    (if 100 < duty then 100 else duty : UInt8).toNat = min duty.toNat 100 := by
  split_ifs with h
  · have hlt : 100 < duty.toNat := UInt8.lt_iff_toNat_lt.mp h
    rw [Nat.min_eq_right hlt.le]
    rfl
  · have hle : duty.toNat ≤ 100 := not_lt.mp fun hlt => h (UInt8.lt_iff_toNat_lt.mpr hlt)
    rw [Nat.min_eq_left hle]

theorem toNat_ccr1_setDuty {tim : Tim2} (h : tim.arr.toNat ≤ 1000) (duty : UInt8) :
    (tim.setDuty duty).ccr1.toNat = (tim.arr.toNat + 1) * min duty.toNat 100 / 100 := by
  have hduty : min duty.toNat 100 ≤ 100 := Nat.min_le_right _ _
  have hmul : (tim.arr.toNat + 1) * min duty.toNat 100 ≤ 1001 * 100 :=
    Nat.mul_le_mul (by omega) hduty
  have harr : (tim.arr + 1).toNat = tim.arr.toNat + 1 := by
    rw [UInt32.toNat_add]
    exact Nat.mod_eq_of_lt (by simp; omega)
  simp only [setDuty, UInt32.toNat_div, UInt32.toNat_mul, harr, UInt8.toNat_toUInt32,
    toNat_min_duty]
  rw [Nat.mod_eq_of_lt (by omega)]
  rfl

theorem setout_spec {tim : Tim2} (h : tim.arr.toNat ≤ 1000) (request : PwmPayload) :
    let tim' := (tim.setout request).value
    (tim.setout request).log = [] ∧
      tim'.arr.toNat =
        (if request.period = 0 then tim.arr.toNat else counts request.period.toNat) ∧
      tim'.arr.toNat ≤ 1000 ∧
      tim'.ccr1.toNat = (tim'.arr.toNat + 1) * min request.duty.toNat 100 / 100 := by
  have harr := tim.toNat_arr_setPeriod request.period
  have hle : (tim.setPeriod request.period).value.arr.toNat ≤ 1000 := by
    rw [harr]
    split_ifs
    · exact h
    · exact Nat.div_le_self _ _
  refine ⟨?_, harr, hle, toNat_ccr1_setDuty hle request.duty⟩
  simp [setout, log_setPeriod]

/-- The last period other than zero decides the one register, and no request fails. -/
theorem setoutAll_arr {tim : Tim2} (h : tim.arr.toNat ≤ 1000) (requests : List PwmPayload) :
    (tim.setoutAll requests).log = [] ∧
      (tim.setoutAll requests).value.arr.toNat =
        ((requests.filter (·.period ≠ 0)).getLast?.map (counts ·.period.toNat)).getD
          tim.arr.toNat := by
  induction requests generalizing tim with
  | nil => exact ⟨rfl, rfl⟩
  | cons request requests ih =>
    obtain ⟨hlog, harr, hle, -⟩ := setout_spec h request
    obtain ⟨hrest, hfinal⟩ := ih hle
    refine ⟨?_, ?_⟩
    · simp [setoutAll, hlog, hrest]
    · rw [setoutAll, Logged.value_bind, hfinal, harr]
      by_cases hzero : request.period = 0
      · simp [hzero]
      · rw [List.filter_cons_of_pos (by simpa using hzero), List.getLast?_cons, if_neg hzero]
        cases (requests.filter (·.period ≠ 0)).getLast? with
        | none => rfl
        | some r => rfl

/-- The last duty decides the other register. -/
theorem setoutAll_ccr1 {tim : Tim2} (h : tim.arr.toNat ≤ 1000) {requests : List PwmPayload}
    {last : PwmPayload} (hlast : requests.getLast? = some last) :
    (tim.setoutAll requests).value.ccr1.toNat =
      ((tim.setoutAll requests).value.arr.toNat + 1) * min last.duty.toNat 100 / 100 := by
  induction requests generalizing tim with
  | nil => simp at hlast
  | cons request requests ih =>
    obtain ⟨-, -, hle, hccr⟩ := setout_spec h request
    rw [setoutAll, Logged.value_bind]
    cases requests with
    | nil =>
      obtain rfl : request = last := by simpa using hlast
      exact hccr
    | cons next requests => exact ih hle (by simpa [List.getLast?_cons] using hlast)

/-! ### Reading back -/

/-- What `BKEL_PWM_ReadDuty` computes from registers that fit its variables. -/
theorem readDuty_spec {tim : Tim2} (hpos : 0 < tim.arr.toNat) (hle : tim.arr.toNat ≤ 1000)
    (hccr : tim.ccr1.toNat ≤ tim.arr.toNat + 1) :
    tim.readDuty.log = [] ∧
      tim.readDuty.value.toNat = tim.ccr1.toNat * 100 / tim.arr.toNat := by
  have hperiod := toNat_toUInt16 (show tim.arr.toNat < 65536 by omega)
  have hthigh := toNat_toUInt16 (show tim.ccr1.toNat < 65536 by omega)
  have hlog := (log_toUInt16_iff tim.arr.toNat).mpr (by omega)
  have hlog' := (log_toUInt16_iff tim.ccr1.toNat).mpr (by omega)
  have hbranch : 0 < (toUInt16 tim.arr.toNat).value := by
    rw [UInt16.lt_iff_toNat_lt, hperiod]
    exact hpos
  have hproduct :
      ((toUInt16 tim.ccr1.toNat).value.toUInt32 * 100).toNat = tim.ccr1.toNat * 100 := by
    rw [UInt32.toNat_mul, UInt16.toNat_toUInt32, hthigh]
    exact Nat.mod_eq_of_lt (by simp; omega)
  have hquotient : tim.ccr1.toNat * 100 / tim.arr.toNat < 256 := by
    rw [Nat.div_lt_iff_lt_mul hpos]
    omega
  have hduty := toNat_toUInt16 (show tim.ccr1.toNat * 100 / tim.arr.toNat < 65536 by omega)
  have hvalue : (divide (tim.ccr1.toNat * 100) tim.arr.toNat).value =
      tim.ccr1.toNat * 100 / tim.arr.toNat := rfl
  simp only [readDuty, Logged.log_bind, Logged.value_bind, if_pos hbranch, hproduct, hperiod, hlog,
    hlog', log_divide hpos, hvalue, hduty, (log_toUInt16_iff _).mpr (hquotient.trans (by decide)),
    (log_toUInt8_iff _).mpr hquotient, toNat_toUInt8 hquotient]
  exact ⟨rfl, trivial⟩

/-- What `BKEL_PWM_ReadPeriod` computes; its 16-bit variable holds the frequency in Hz. -/
theorem readPeriod_spec {tim : Tim2} (hpos : 0 < tim.arr.toNat) (hle : tim.arr.toNat ≤ 1000) :
    (tim.readPeriod.log = [] ↔ 1000000 / tim.arr.toNat < 65536) ∧
      (1000000 / tim.arr.toNat < 65536 →
        tim.readPeriod.value.toNat = 1000000 / tim.arr.toNat / 999) := by
  have hperiod := toNat_toUInt16 (show tim.arr.toNat < 65536 by omega)
  have hlog := (log_toUInt16_iff tim.arr.toNat).mpr (by omega)
  have hbranch : 0 < (toUInt16 tim.arr.toNat).value := by
    rw [UInt16.lt_iff_toNat_lt, hperiod]
    exact hpos
  have hvalue (x y : ℕ) : (divide x y).value = x / y := rfl
  have hsmall (x : UInt16) : x.toNat / 999 < 256 := by
    have hx := x.toNat_lt
    omega
  simp only [readPeriod, Logged.log_bind, Logged.value_bind, if_pos hbranch, hperiod, hlog,
    log_divide hpos, log_divide (show 0 < 999 by decide), hvalue, List.nil_append,
    (log_toUInt8_iff _).mpr (hsmall _), List.append_nil, log_toUInt16_iff, toNat_toUInt8 (hsmall _)]
  refine ⟨trivial, fun hfits => ?_⟩
  rw [toNat_toUInt16 hfits]

end Tim2

/-! ### When the diagnosis is right -/

/-- Duty and period come back from the registers: the frequency fits 16 bits, the counts of
the period are fine enough for its division, and what the duty loses in its own division is
no more than the counts make up for. -/
def ReadsBack (duty period : ℕ) : Prop :=
  period ≤ 62 ∧ 1002 ≤ (period + 1) * counts period ∧
    (counts period + 1) * duty % 100 ≤ duty ∧
    duty < counts period + (counts period + 1) * duty % 100

instance (duty period : ℕ) : Decidable (ReadsBack duty period) :=
  inferInstanceAs (Decidable (_ ∧ _))

/-- The duty survives the two divisions. -/
theorem duty_reads_back_iff {a d : ℕ} (ha : 0 < a) :
    (a + 1) * d / 100 * 100 / a = d ↔ (a + 1) * d % 100 ≤ d ∧ d < a + (a + 1) * d % 100 := by
  have hsplit := Nat.div_add_mod ((a + 1) * d) 100
  have hleft : (a + 1) * d = a * d + d := Nat.succ_mul a d
  have hright : (d + 1) * a = a * d + a := by rw [Nat.succ_mul, Nat.mul_comm]
  have hcomm : d * a = a * d := Nat.mul_comm d a
  calc (a + 1) * d / 100 * 100 / a = d
      ↔ d * a ≤ (a + 1) * d / 100 * 100 ∧ (a + 1) * d / 100 * 100 < (d + 1) * a := by
        rw [← Nat.le_div_iff_mul_le ha, ← Nat.div_lt_iff_lt_mul ha]
        omega
    _ ↔ (a + 1) * d % 100 ≤ d ∧ d < a + (a + 1) * d % 100 := by omega

theorem sixteen_le_counts_iff {p : ℕ} (hp : 0 < p) : 16 ≤ counts p ↔ p ≤ 62 := by
  rw [counts, Nat.le_div_iff_mul_le hp]
  omega

/-- The period survives the two divisions, and its frequency fits 16 bits. -/
theorem period_reads_back_iff {p : ℕ} (hp : 0 < p) (hle : p ≤ 255) :
    (1000000 / counts p < 65536 ∧ 1000000 / counts p / 999 = p) ↔
      p ≤ 62 ∧ 1002 ≤ (p + 1) * counts p := by
  have hc : 0 < counts p := Nat.div_pos (by omega) hp
  have hmul : p * counts p ≤ 1000 := Nat.mul_div_le 1000 p
  have hsucc : (p + 1) * counts p = p * counts p + counts p := Nat.succ_mul p _
  have hc' : 0 < counts p * 999 := by omega
  have hfits : 1000000 / counts p < 65536 ↔ p ≤ 62 := by
    rw [Nat.div_lt_iff_lt_mul hc, ← sixteen_le_counts_iff hp]
    omega
  have hback : 1000000 / (counts p * 999) = p ↔
      p * (counts p * 999) ≤ 1000000 ∧ 1000000 < (p + 1) * (counts p * 999) := by
    rw [← Nat.le_div_iff_mul_le hc', ← Nat.div_lt_iff_lt_mul hc']
    omega
  rw [hfits, Nat.div_div_eq_div_mul, hback, ← Nat.mul_assoc, ← Nat.mul_assoc]
  omega

/-- The diagnosis after the requests reports the last duty, at most 100, and the last period
other than zero, without a division by zero or a value cut. -/
def Reported (requests : List PwmPayload) (duty period : UInt8) : Prop :=
  (session requests).log = [] ∧
    (session requests).value = [if 100 < duty then 100 else duty, period]

instance (requests : List PwmPayload) (duty period : UInt8) :
    Decidable (Reported requests duty period) := inferInstanceAs (Decidable (_ ∧ _))

theorem reported_split (requests : List PwmPayload) (duty period : UInt8) :
    Reported requests duty period ↔
      ((Tim2.init.setoutAll requests).log = [] ∧
        (Tim2.init.setoutAll requests).value.readDuty.log = [] ∧
        (Tim2.init.setoutAll requests).value.readPeriod.log = []) ∧
      (Tim2.init.setoutAll requests).value.readDuty.value.toNat = min duty.toNat 100 ∧
      (Tim2.init.setoutAll requests).value.readPeriod.value.toNat = period.toNat := by
  simp only [Reported, session, Tim2.diagPwmOut, Logged.log_bind, Logged.log_pure,
    Logged.value_bind, Logged.value_pure, List.append_eq_nil_iff, and_true, List.cons.injEq,
    ← UInt8.toNat_inj, Tim2.toNat_min_duty]

/-- It does so exactly if the two read back from their counts. -/
theorem reported_iff {requests : List PwmPayload} {last r : PwmPayload}
    (hlast : requests.getLast? = some last)
    (hperiod : (requests.filter (·.period ≠ 0)).getLast? = some r) :
    Reported requests last.duty r.period ↔
      ReadsBack (min last.duty.toNat 100) r.period.toNat := by
  have hinit : Tim2.init.arr.toNat ≤ 1000 := by decide
  obtain ⟨hlog, harr⟩ := Tim2.setoutAll_arr hinit requests
  have hccr := Tim2.setoutAll_ccr1 hinit hlast
  have hnonzero : r.period ≠ 0 := by
    simpa using (List.mem_filter.mp (List.mem_of_getLast? hperiod)).2
  have hp : 0 < r.period.toNat := Nat.pos_of_ne_zero fun h => hnonzero (UInt8.toNat_inj.mp h)
  have hp' : r.period.toNat ≤ 255 := Nat.le_of_lt_succ r.period.toNat_lt
  have hc : 0 < counts r.period.toNat := Nat.div_pos (by omega) hp
  have hc' : counts r.period.toNat ≤ 1000 := Nat.div_le_self _ _
  rw [reported_split]
  rw [hperiod, Option.map_some, Option.getD_some] at harr
  generalize (Tim2.init.setoutAll requests).value = tim at harr hccr ⊢
  rw [harr] at hccr
  have hfits : tim.ccr1.toNat ≤ tim.arr.toNat + 1 := by
    rw [hccr, harr]
    exact Nat.div_le_of_le_mul (by rw [Nat.mul_comm]; gcongr; exact Nat.min_le_right _ _)
  obtain ⟨hdlog, hduty⟩ := Tim2.readDuty_spec (harr.symm ▸ hc) (harr.symm ▸ hc') hfits
  obtain ⟨hplog, hfreq⟩ := Tim2.readPeriod_spec (harr.symm ▸ hc) (harr.symm ▸ hc')
  rw [harr] at hplog hfreq hduty
  have hdutyIff := duty_reads_back_iff hc (d := min last.duty.toNat 100)
  have hperiodIff := period_reads_back_iff hp hp'
  rw [hlog, hdlog, hplog, hduty, hccr, hdutyIff, ReadsBack, ← and_assoc (a := r.period.toNat ≤ 62),
    ← hperiodIff]
  constructor
  · rintro ⟨⟨-, -, hcut⟩, hback, hvalue⟩
    exact ⟨⟨hcut, (hfreq hcut).symm.trans hvalue⟩, hback⟩
  · rintro ⟨⟨hcut, hvalue⟩, hback⟩
    exact ⟨⟨rfl, rfl, hcut⟩, hback, (hfreq hcut).trans hvalue⟩

/-- A duty of 30 percent at 2 kHz is reported, also after a request that leaves the period. -/
theorem reported_iff_kept_period : Reported [⟨70, 2⟩, ⟨30, 0⟩] 30 2 := by
  have hlast : [⟨70, 2⟩, ⟨30, 0⟩].getLast? = some (⟨30, 0⟩ : PwmPayload) := rfl
  exact (reported_iff hlast (r := ⟨70, 2⟩) rfl).mpr (by decide)

/-- A duty of 100 percent at 10 kHz is reported as 101 percent. -/
theorem full_duty_misreported : ¬ Reported [⟨100, 10⟩] 100 10 := by decide +kernel

end SomeIpGateway.PwmDiagnosis
