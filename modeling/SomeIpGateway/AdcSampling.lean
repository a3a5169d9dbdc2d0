import Mathlib.Data.List.GetD
import SomeIpGateway.ByteAccess
import SomeIpGateway.StepMachine

/-!
# The sampled pairs of the ADC

ADC1 converts CH14 and CH15 in turn without a pause, and a circular DMA channel writes the
results into two frames of one pair each. A frame that is full is announced by an interrupt.
`BKEL_BSW_ADC_GetValue` copies the announced frame with interrupts disabled; the DMA channel
goes on meanwhile. `f_sendDataTask` is its only caller.
-/
namespace SomeIpGateway.AdcSampling
open ByteAccess StepMachine

/-- `ADC_ChPair_t`. -/
structure AdcChPair where
  ch14 : UInt16
  ch15 : UInt16
  deriving Repr, DecidableEq

def adcChPerFrame : ℕ := 2

def adcDmaBufLen : ℕ := 4

def adcInvalidValue : UInt32 := 0xFFFFFFFF

/-- CH14 in the upper half, CH15 in the lower one. -/
def AdcChPair.value (p : AdcChPair) : UInt32 := p.ch14.toUInt32 <<< 16 ||| p.ch15.toUInt32

/-- `AppSendDiagADC1Val` and `AppSendDiagADC2Val`. -/
inductive Channel where
  | adc1
  | adc2
  deriving Repr, DecidableEq

def Channel.adcVal (value : UInt32) : Channel → UInt16
  | .adc1 => (value >>> 16 &&& 0xFFFF).toUInt16
  | .adc2 => (value &&& 0xFFFF).toUInt16

/-- The payload of the answer, as `memcpy` lays it out. -/
def Channel.payload (value : UInt32) (channel : Channel) : List UInt8 :=
  [lowByte (channel.adcVal value), highByte (channel.adcVal value)]

/-- Where the task is in `BKEL_BSW_ADC_GetValue`. -/
inductive Pc where
  | out
  /-- In front of `if (adc_frame_ready)`. -/
  | test
  | disable
  | readIdx
  | readCh14 (idx : ℕ)
  | readCh15 (idx : ℕ) (ch14 : UInt16)
  /-- In front of `adc_frame_ready = 0`. -/
  | clear
  | enable
  /-- In front of `if (!valid)`. -/
  | result
  deriving Repr, DecidableEq

/-- A call that has returned, with the number of frames announced before it. -/
structure Answer where
  channel : Channel
  announced : ℕ
  value : UInt32
  deriving Repr, DecidableEq

/-- The hardware, the variables of the driver and the task; and a record of all conversions. -/
structure State where
  /-- `adc_dma_buf`, as half-words. -/
  dmaBuf : ℕ → UInt16 := fun _ => 0
  /-- Where the DMA channel writes next: `ADC_DMA_BUF_LEN` less its counter. -/
  position : ℕ := 0
  htif : Bool := false
  tcif : Bool := false
  irqEnabled : Bool := true
  frameReady : Bool := false
  frameIdx : ℕ := 0
  shadow : AdcChPair := ⟨0, 0⟩
  valid : Bool := false
  pc : Pc := .out
  channel : Channel := .adc1
  announcedBefore : ℕ := 0
  samples : List UInt16 := []
  answers : List Answer := []

inductive Action where
  /-- A conversion ends, and the DMA channel writes its result. -/
  | convert (sample : UInt16)
  | irqHandler
  | call (channel : Channel)
  | task

namespace State

def pending (s : State) : Bool := s.htif || s.tcif

def announced (s : State) : ℕ :=
  s.samples.length / adcChPerFrame - if s.pending then 1 else 0

/-- The DMA channel sets a flag at half of its buffer, and at its end. -/
def convert (s : State) (sample : UInt16) : State :=
  { s with
    dmaBuf := Function.update s.dmaBuf s.position sample
    position := (s.position + 1) % adcDmaBufLen
    htif := s.htif || s.position + 1 == adcDmaBufLen / 2
    tcif := s.tcif || s.position + 1 == adcDmaBufLen
    samples := s.samples ++ [sample] }

/-- `DMA1_Channel1_IRQHandler`. -/
def irqHandler (s : State) : State :=
  let s := if s.htif then { s with htif := false, frameIdx := 0, frameReady := true } else s
  if s.tcif then { s with tcif := false, frameIdx := 1, frameReady := true } else s

/-- What `BKEL_BSW_ADC_GetValue` returns. -/
def getValue (s : State) : UInt32 := if s.valid then s.shadow.value else adcInvalidValue

/-- One step of `BKEL_BSW_ADC_GetValue`. -/
def stepTask (s : State) : Option State :=
  match s.pc with
  | .out => none
  | .test => some { s with pc := if s.frameReady then .disable else .result }
  | .disable => some { s with irqEnabled := false, pc := .readIdx }
  | .readIdx => some { s with pc := .readCh14 s.frameIdx }
  | .readCh14 idx => some { s with pc := .readCh15 idx (s.dmaBuf (adcChPerFrame * idx)) }
  | .readCh15 idx ch14 =>
    some { s with shadow := ⟨ch14, s.dmaBuf (adcChPerFrame * idx + 1)⟩, pc := .clear }
  | .clear => some { s with frameReady := false, valid := true, pc := .enable }
  | .enable => some { s with irqEnabled := true, pc := .result }
  | .result =>
    some { s with
      answers := s.answers ++ [⟨s.channel, s.announcedBefore, s.getValue⟩]
      pc := .out }

/-- One step. A handler that may run comes before the next step of the task. -/
def step (s : State) : Action → Option State
  | .convert sample => some (s.convert sample)
  | .irqHandler => if s.irqEnabled ∧ s.pending then some s.irqHandler else none
  | .call channel =>
    if s.pc = .out then some { s with pc := .test, channel, announcedBefore := s.announced }
    else none
  | .task => if s.irqEnabled ∧ s.pending then none else s.stepTask

end State

def sampling : Machine State Action := ⟨{}, State.step⟩

/-- While a flag is set, no frame comes to its end; and while interrupts are disabled, none is
begun either. -/
def Timely (s : State) : Action → Prop
  | .convert _ => s.pending = true → s.irqEnabled = true ∧ s.position % adcChPerFrame = 0
  | _ => True

instance (s : State) : DecidablePred (Timely s) := fun a => by
  unfold Timely
  split <;> infer_instance

/-! ### The pairs -/

def pairAt (samples : List UInt16) (i : ℕ) : AdcChPair :=
  ⟨samples.getD (2 * i) 0, samples.getD (2 * i + 1) 0⟩

def valueAfter (samples : List UInt16) (count : ℕ) : UInt32 :=
  if count = 0 then adcInvalidValue else (pairAt samples (count - 1)).value

theorem pairAt_append {samples : List UInt16} {i : ℕ} (h : 2 * i + 1 < samples.length)
    (more : List UInt16) : pairAt (samples ++ more) i = pairAt samples i := by
  rw [pairAt, pairAt, List.getD_append _ _ _ _ (by omega), List.getD_append _ _ _ _ h]

theorem valueAfter_append {samples : List UInt16} {count : ℕ} (h : 2 * count ≤ samples.length)
    (more : List UInt16) : valueAfter (samples ++ more) count = valueAfter samples count := by
  unfold valueAfter
  split_ifs with hzero
  · rfl
  · rw [pairAt_append (by omega)]

/-! ### The invariant -/

namespace State

/-- Interrupts are disabled for the copy of the frame announced last. -/
def Copies (s : State) : Prop :=
  s.irqEnabled = false ∧ s.frameReady = true ∧ s.announcedBefore ≤ s.announced

def AtPc (s : State) (copied : ℕ) : Pc → Prop
  | .out => s.irqEnabled = true
  | .test => s.irqEnabled = true ∧ s.announcedBefore ≤ s.announced
  | .disable => s.irqEnabled = true ∧ s.frameReady = true ∧ s.announcedBefore ≤ s.announced
  | .readIdx => s.Copies
  | .readCh14 idx => s.Copies ∧ idx = (s.announced - 1) % 2
  | .readCh15 idx ch14 => s.Copies ∧ idx = (s.announced - 1) % 2 ∧
      ch14 = (pairAt s.samples (s.announced - 1)).ch14
  | .clear => s.Copies ∧ s.shadow = pairAt s.samples (s.announced - 1)
  | .enable => s.irqEnabled = false ∧ s.frameReady = false ∧ s.announcedBefore ≤ copied
  | .result => s.irqEnabled = true ∧ s.announcedBefore ≤ copied

end State

/-- What a call returns that takes the pair announced as the given one in turn. -/
structure Answer.From (answer : Answer) (samples : List UInt16) (announced count : ℕ) :
    Prop where
  value : answer.value = valueAfter samples count
  not_older : answer.announced ≤ count
  count_le : count ≤ announced

structure Inv (s : State) (counts : List ℕ) (copied : ℕ) : Prop where
  position : s.position = s.samples.length % 4
  htif : s.htif = true → s.samples.length % 4 = 2 ∨ s.samples.length % 4 = 3
  tcif : s.tcif = true → 4 ≤ s.samples.length ∧
    (s.samples.length % 4 = 0 ∨ s.samples.length % 4 = 1)
  masked : s.irqEnabled = false → s.pending = true → s.samples.length % 2 = 0
  dmaBuf : ∀ j < s.samples.length, s.samples.length ≤ j + 4 →
    s.dmaBuf (j % 4) = s.samples.getD j 0
  frameIdx : 0 < s.announced → s.frameIdx = (s.announced - 1) % 2
  frameReady : s.frameReady = true → 0 < s.announced
  fresh : s.frameReady = false → copied = s.announced
  copied_le : copied ≤ s.announced
  valid : s.valid = true ↔ 0 < copied
  shadow : 0 < copied → s.pc ≠ .clear → s.shadow = pairAt s.samples (copied - 1)
  at_pc : s.AtPc copied s.pc
  answers : List.Forall₂ (fun answer count => answer.From s.samples s.announced count)
    s.answers counts
  sorted : counts.Pairwise (· ≤ ·)
  counts_le : ∀ count ∈ counts, count ≤ copied

theorem Inv.init : Inv {} [] 0 where
  position := rfl
  htif h := by cases h
  tcif h := by cases h
  masked h := by cases h
  dmaBuf j hj := by cases hj
  frameIdx h := by cases h
  frameReady h := by cases h
  fresh _ := rfl
  copied_le := le_rfl
  valid := ⟨fun h => (by cases h), fun h => (by cases h)⟩
  shadow h := by cases h
  at_pc := rfl
  answers := .nil
  sorted := .nil
  counts_le := by simp

section
variable {s t : State} {counts : List ℕ} {copied : ℕ}

theorem two_mul_announced_le (s : State) : 2 * s.announced ≤ s.samples.length := by
  rw [State.announced, adcChPerFrame]
  omega

/-- Until its interrupt is served, a frame is full but not announced. -/
theorem Inv.announced_eq (h : Inv s counts copied) :
    s.samples.length / 2 = s.announced + if s.pending then 1 else 0 := by
  have hht := h.htif
  have htc := h.tcif
  rw [State.announced, adcChPerFrame]
  cases hp : s.pending with
  | false => rfl
  | true =>
    have hflag : s.htif = true ∨ s.tcif = true := by simpa [State.pending] using hp
    simp only [if_true]
    rcases hflag with hflag | hflag
    · have := hht hflag
      omega
    · have := htc hflag
      omega

/-- The frame that was announced last is still there while interrupts are disabled. -/
theorem Inv.dmaBuf_announced (h : Inv s counts copied) (hmasked : s.irqEnabled = false)
    (hpos : 0 < s.announced) (channel : ℕ) (hchannel : channel < 2) :
    s.dmaBuf (2 * ((s.announced - 1) % 2) + channel) =
      s.samples.getD (2 * (s.announced - 1) + channel) 0 := by
  have hle := two_mul_announced_le s
  have hann := h.announced_eq
  have hlen : s.samples.length ≤ 2 * s.announced + 2 := by
    cases hp : s.pending with
    | false =>
      simp only [hp, Bool.false_eq_true, if_false] at hann
      omega
    | true =>
      have heven := h.masked hmasked hp
      simp only [hp, if_true] at hann
      omega
  have hread := h.dmaBuf (2 * (s.announced - 1) + channel) (by omega) (by omega)
  rwa [show (2 * (s.announced - 1) + channel) % 4 = 2 * ((s.announced - 1) % 2) + channel
    by omega] at hread

/-! ### A conversion -/

theorem Inv.announced_convert (h : Inv s counts copied) {sample : UInt16}
    (htimely : Timely s (.convert sample)) : (s.convert sample).announced = s.announced := by
  have hann := h.announced_eq
  have hpos := h.position
  have hlen : (s.convert sample).samples.length = s.samples.length + 1 := by
    rw [State.convert, List.length_append, List.length_singleton]
  have hpending : (s.convert sample).pending = (s.pending || s.samples.length % 2 == 1) := by
    have hend : s.samples.length % 4 + 1 = 4 / 2 ∨ s.samples.length % 4 + 1 = 4 ↔
        s.samples.length % 2 = 1 := by omega
    rw [Bool.eq_iff_iff]
    simp only [State.convert, State.pending, adcDmaBufLen, hpos, Bool.or_eq_true, beq_iff_eq]
    rw [← hend]
    tauto
  rw [State.announced, hlen, hpending, adcChPerFrame]
  cases hp : s.pending with
  | false =>
    simp only [hp, Bool.false_eq_true, if_false, Bool.false_or, beq_iff_eq] at hann ⊢
    split_ifs <;> omega
  | true =>
    have heven := (htimely hp).2
    rw [hpos, adcChPerFrame] at heven
    simp only [hp, if_true, Bool.true_or] at hann ⊢
    omega

theorem Inv.convert (h : Inv s counts copied) {sample : UInt16}
    (htimely : Timely s (.convert sample)) : Inv (s.convert sample) counts copied := by
  have hann := h.announced_convert htimely
  have hpos := h.position
  have htwo := two_mul_announced_le s
  have hlen : (s.convert sample).samples.length = s.samples.length + 1 := by
    rw [State.convert, List.length_append, List.length_singleton]
  have hodd (hflag : s.pending = true) : s.samples.length % 2 = 0 := by
    have heven := (htimely hflag).2
    rw [hpos, adcChPerFrame] at heven
    omega
  have hpair {i : ℕ} (hi : i < s.announced) :
      pairAt (s.convert sample).samples i = pairAt s.samples i := pairAt_append (by omega) [sample]
  have hbefore (hle : s.announcedBefore ≤ s.announced) :
      (s.convert sample).announcedBefore ≤ (s.convert sample).announced := hle.trans hann.ge
  have hcopies (hc : s.Copies) : (s.convert sample).Copies := ⟨hc.1, hc.2.1, hbefore hc.2.2⟩
  refine { h with
    position := ?_, htif := ?_, tcif := ?_, masked := ?_, dmaBuf := ?_, frameIdx := ?_
    frameReady := ?_, fresh := ?_, copied_le := ?_, shadow := ?_, at_pc := ?_, answers := ?_ }
  · change (s.position + 1) % 4 = _
    rw [hlen, hpos]
    omega
  · intro hflag
    simp only [State.convert, adcDmaBufLen, Bool.or_eq_true, beq_iff_eq] at hflag
    rcases hflag with hold | hnew
    · have := h.htif hold
      have := hodd (by simp [State.pending, hold])
      omega
    · omega
  · intro hflag
    simp only [State.convert, adcDmaBufLen, Bool.or_eq_true, beq_iff_eq] at hflag
    rcases hflag with hold | hnew
    · have := h.tcif hold
      have := hodd (by simp [State.pending, hold])
      omega
    · omega
  · intro hmasked hflag
    have hnot : s.pending = false := by
      by_contra hp
      have hon := (htimely (by simpa using hp)).1
      exact Bool.false_ne_true (hmasked.symm.trans hon)
    simp only [State.pending, Bool.or_eq_false_iff] at hnot
    simp only [State.convert, State.pending, adcDmaBufLen, hnot.1, hnot.2, Bool.false_or,
      Bool.or_eq_true, beq_iff_eq] at hflag
    omega
  · intro j hj hrecent
    rw [hlen] at hj hrecent
    simp only [State.convert, hpos]
    rcases Nat.lt_or_ge j s.samples.length with hold | hnew
    · rw [Function.update_of_ne (by omega), h.dmaBuf j hold (by omega),
        List.getD_append _ _ _ _ hold]
    · obtain rfl : j = s.samples.length := by omega
      rw [Function.update_self, List.getD_append_right _ _ _ _ le_rfl, Nat.sub_self]
      rfl
  · rw [hann]
    exact h.frameIdx
  · rw [hann]
    exact h.frameReady
  · rw [hann]
    exact h.fresh
  · rw [hann]
    exact h.copied_le
  · intro hcopied hpc
    have hle := h.copied_le
    rw [hpair (by omega)]
    exact h.shadow hcopied hpc
  · have hpc := h.at_pc
    have hready := h.frameReady
    change State.AtPc _ copied s.pc
    generalize s.pc = pc at hpc ⊢
    cases pc with
    | out | enable | result => exact hpc
    | test => exact ⟨hpc.1, hbefore hpc.2⟩
    | disable => exact ⟨hpc.1, hpc.2.1, hbefore hpc.2.2⟩
    | readIdx => exact hcopies hpc
    | readCh14 idx => exact ⟨hcopies hpc.1, hpc.2.trans (by rw [hann])⟩
    | readCh15 idx ch14 =>
      have hframe := hready hpc.1.2.1
      refine ⟨hcopies hpc.1, hpc.2.1.trans (by rw [hann]), hpc.2.2.trans ?_⟩
      rw [hann, hpair (by omega)]
    | clear =>
      have hframe := hready hpc.1.2.1
      refine ⟨hcopies hpc.1, Eq.trans hpc.2 ?_⟩
      rw [hann, hpair (by omega)]
  · refine h.answers.imp (fun answer count hfrom => ?_)
    have hle := hfrom.count_le
    refine ⟨hfrom.value.trans ?_, hfrom.not_older, hle.trans hann.ge⟩
    exact (valueAfter_append (by omega) [sample]).symm

/-! ### The handler -/

theorem Inv.irqHandler_eq (h : Inv s counts copied) (hpending : s.pending = true) :
    s.irqHandler = { s with
      htif := false
      tcif := false
      frameIdx := (s.samples.length / 2 - 1) % 2
      frameReady := true } := by
  have hht := h.htif
  have htc := h.tcif
  simp only [State.pending, Bool.or_eq_true] at hpending
  simp only [State.irqHandler]
  cases hhalf : s.htif with
  | true =>
    have hnot : s.tcif = false := by
      by_contra hcomplete
      have := hht hhalf
      have := htc (by simpa using hcomplete)
      omega
    have hidx : (s.samples.length / 2 - 1) % 2 = 0 := by
      have := hht hhalf
      omega
    simp only [hnot, if_true, Bool.false_eq_true, if_false, hidx]
  | false =>
    have hcomplete : s.tcif = true := by simpa [hhalf] using hpending
    have hidx : (s.samples.length / 2 - 1) % 2 = 1 := by
      have := htc hcomplete
      omega
    simp only [hcomplete, if_true, Bool.false_eq_true, if_false, hidx, hhalf]

theorem Inv.irqHandler (h : Inv s counts copied) (hon : s.irqEnabled = true)
    (hpending : s.pending = true) : Inv s.irqHandler counts copied := by
  have hann := h.announced_eq
  rw [hpending, if_pos rfl] at hann
  have hle := h.copied_le
  rw [h.irqHandler_eq hpending]
  have hnext : State.announced { s with
      htif := false, tcif := false, frameIdx := (s.samples.length / 2 - 1) % 2
      frameReady := true } = s.announced + 1 := hann
  refine { h with
    htif := ?_, tcif := ?_, masked := ?_, frameIdx := ?_, frameReady := ?_, fresh := ?_
    copied_le := ?_, at_pc := ?_, answers := ?_ }
  · rintro ⟨⟩
  · rintro ⟨⟩
  · intro _ hflag
    cases hflag
  · intro _
    rw [hnext, ← hann]
  · intro _
    omega
  · rintro ⟨⟩
  · omega
  · have hpc := h.at_pc
    dsimp only
    generalize s.pc = pc at hpc ⊢
    cases pc with
    | out => exact hpc
    | test => exact ⟨hpc.1, (Nat.le_succ_of_le hpc.2).trans hnext.ge⟩
    | disable => exact ⟨hpc.1, rfl, (Nat.le_succ_of_le hpc.2.2).trans hnext.ge⟩
    | result => exact hpc
    | readIdx => exact absurd (hpc.1.symm.trans hon) Bool.false_ne_true
    | enable => exact absurd (hpc.1.symm.trans hon) Bool.false_ne_true
    | readCh14 idx => exact absurd (hpc.1.1.symm.trans hon) Bool.false_ne_true
    | readCh15 idx ch14 => exact absurd (hpc.1.1.symm.trans hon) Bool.false_ne_true
    | clear => exact absurd (hpc.1.1.symm.trans hon) Bool.false_ne_true
  · refine h.answers.imp (fun answer count hfrom => ?_)
    exact ⟨hfrom.value, hfrom.not_older, (Nat.le_succ_of_le hfrom.count_le).trans hnext.ge⟩

/-! ### The task -/

theorem Inv.getValue_eq (h : Inv s counts copied) (hpc : s.pc ≠ .clear) :
    s.getValue = valueAfter s.samples copied := by
  rw [State.getValue, valueAfter]
  rcases Nat.eq_zero_or_pos copied with hzero | hpos
  · have hvalid : s.valid = false := by
      by_contra hv
      have := h.valid.mp (by simpa using hv)
      omega
    rw [hvalid, hzero]
    rfl
  · rw [h.valid.mpr hpos, h.shadow hpos hpc, if_pos rfl, if_neg (by omega)]

theorem Inv.task (h : Inv s counts copied)
    (hfirst : ¬ (s.irqEnabled = true ∧ s.pending = true)) (hstep : s.stepTask = some t) :
    ∃ counts copied, Inv t counts copied := by
  have hpc := h.at_pc
  unfold State.stepTask at hstep
  cases hat : s.pc with
  | out => simp [hat] at hstep
  | test =>
    rw [hat] at hstep hpc
    obtain rfl := Option.some.inj hstep
    refine ⟨counts, copied, { h with shadow := ?_, at_pc := ?_ }⟩
    · intro hpos _
      exact h.shadow hpos (by rw [hat]; exact Pc.noConfusion)
    · dsimp only
      split_ifs with hready
      · exact ⟨hpc.1, hready, hpc.2⟩
      · have hfresh := h.fresh (by simpa using hready)
        exact ⟨hpc.1, hpc.2.trans hfresh.ge⟩
  | disable =>
    rw [hat] at hstep hpc
    obtain rfl := Option.some.inj hstep
    refine ⟨counts, copied, { h with masked := ?_, shadow := ?_, at_pc := ?_ }⟩
    · intro _ hflag
      exact absurd ⟨hpc.1, hflag⟩ hfirst
    · exact fun hpos _ => h.shadow hpos (by rw [hat]; exact Pc.noConfusion)
    · exact ⟨rfl, hpc.2⟩
  | readIdx =>
    rw [hat] at hstep hpc
    obtain rfl := Option.some.inj hstep
    refine ⟨counts, copied, { h with shadow := ?_, at_pc := ?_ }⟩
    · exact fun hpos _ => h.shadow hpos (by rw [hat]; exact Pc.noConfusion)
    · exact ⟨hpc, h.frameIdx (h.frameReady hpc.2.1)⟩
  | readCh14 idx =>
    rw [hat] at hstep hpc
    obtain ⟨hcopies, rfl⟩ := hpc
    obtain rfl := Option.some.inj hstep
    have hread := h.dmaBuf_announced hcopies.1 (h.frameReady hcopies.2.1) 0 (by decide)
    refine ⟨counts, copied, { h with shadow := ?_, at_pc := ?_ }⟩
    · exact fun hpos _ => h.shadow hpos (by rw [hat]; exact Pc.noConfusion)
    · exact ⟨hcopies, rfl, hread⟩
  | readCh15 idx ch14 =>
    rw [hat] at hstep hpc
    obtain ⟨hcopies, rfl, rfl⟩ := hpc
    obtain rfl := Option.some.inj hstep
    have hread := h.dmaBuf_announced hcopies.1 (h.frameReady hcopies.2.1) 1 (by decide)
    refine ⟨counts, copied, { h with shadow := ?_, at_pc := ?_ }⟩
    · exact fun _ hclear => (hclear rfl).elim
    · exact ⟨hcopies, congrArg (AdcChPair.mk _) hread⟩
  | clear =>
    rw [hat] at hstep hpc
    obtain ⟨hcopies, hshadow⟩ := hpc
    obtain rfl := Option.some.inj hstep
    have hpos := h.frameReady hcopies.2.1
    refine ⟨counts, s.announced, { h with
      frameReady := ?_, fresh := ?_, copied_le := ?_, valid := ?_, shadow := ?_, at_pc := ?_
      counts_le := ?_ }⟩
    · rintro ⟨⟩
    · exact fun _ => rfl
    · exact le_rfl
    · exact ⟨fun _ => hpos, fun _ => rfl⟩
    · exact fun _ _ => hshadow
    · exact ⟨hcopies.1, rfl, hcopies.2.2⟩
    · exact fun count hcount => (h.counts_le count hcount).trans h.copied_le
  | enable =>
    rw [hat] at hstep hpc
    obtain rfl := Option.some.inj hstep
    refine ⟨counts, copied, { h with masked := ?_, shadow := ?_, at_pc := ?_ }⟩
    · rintro ⟨⟩
    · exact fun hpos _ => h.shadow hpos (by rw [hat]; exact Pc.noConfusion)
    · exact ⟨rfl, hpc.2.2⟩
  | result =>
    rw [hat] at hstep hpc
    obtain rfl := Option.some.inj hstep
    have hnot : s.pc ≠ .clear := by
      rw [hat]
      exact Pc.noConfusion
    refine ⟨counts ++ [copied], copied, { h with
      shadow := ?_, at_pc := ?_, answers := ?_, sorted := ?_, counts_le := ?_ }⟩
    · exact fun hpos _ => h.shadow hpos hnot
    · exact hpc.1
    · exact List.rel_append h.answers (.cons ⟨h.getValue_eq hnot, hpc.2, h.copied_le⟩ .nil)
    · rw [List.pairwise_append]
      refine ⟨h.sorted, List.pairwise_singleton _ _, fun a ha b hb => ?_⟩
      obtain rfl := List.mem_singleton.mp hb
      exact h.counts_le a ha
    · intro count hcount
      rcases List.mem_append.mp hcount with hold | hnew
      · exact h.counts_le count hold
      · exact (List.mem_singleton.mp hnew).le

theorem Inv.call (h : Inv s counts copied) {channel : Channel}
    (hstep : s.step (.call channel) = some t) : Inv t counts copied := by
  simp only [State.step] at hstep
  split_ifs at hstep with hout
  obtain rfl := Option.some.inj hstep
  have hpc := h.at_pc
  rw [hout] at hpc
  refine { h with shadow := ?_, at_pc := ?_ }
  · exact fun hpos _ => h.shadow hpos (by rw [hout]; exact Pc.noConfusion)
  · exact ⟨hpc, le_rfl⟩

theorem Inv.step {a : Action} (h : Inv s counts copied) (htimely : Timely s a)
    (hstep : s.step a = some t) : ∃ counts copied, Inv t counts copied := by
  cases a with
  | convert sample =>
    obtain rfl := Option.some.inj hstep
    exact ⟨counts, copied, h.convert htimely⟩
  | irqHandler =>
    simp only [State.step] at hstep
    split_ifs at hstep with hruns
    obtain rfl := Option.some.inj hstep
    exact ⟨counts, copied, h.irqHandler hruns.1 hruns.2⟩
  | call channel => exact ⟨counts, copied, h.call hstep⟩
  | task =>
    simp only [State.step] at hstep
    split_ifs at hstep with hfirst
    exact h.task hfirst hstep

end

/-! ### The answers -/

theorem AdcChPair.value_toNat (p : AdcChPair) :
    p.value.toNat = 65536 * p.ch14.toNat + p.ch15.toNat := by
  have h14 := p.ch14.toNat_lt
  have h15 := p.ch15.toNat_lt
  have hor := Nat.two_pow_add_eq_or_of_lt (i := 16) h15 p.ch14.toNat
  have hshift : p.ch14.toNat * 65536 % 4294967296 = 2 ^ 16 * p.ch14.toNat := by omega
  calc p.value.toNat = p.ch14.toNat * 65536 % 4294967296 ||| p.ch15.toNat := by
        simp [AdcChPair.value, Nat.shiftLeft_eq]
    _ = 65536 * p.ch14.toNat + p.ch15.toNat := by rw [hshift, ← hor]

theorem adcVal_adc1 (value : UInt32) : (Channel.adc1.adcVal value).toNat = value.toNat / 65536 := by
  have hv := value.toNat_lt
  have h := Nat.and_two_pow_sub_one_eq_mod (value.toNat / 65536 % 65536) 16
  simp [Channel.adcVal, Nat.shiftRight_eq_div_pow] at h ⊢
  omega

theorem adcVal_adc2 (value : UInt32) : (Channel.adc2.adcVal value).toNat = value.toNat % 65536 := by
  have h := Nat.and_two_pow_sub_one_eq_mod (value.toNat % 65536) 16
  simp [Channel.adcVal] at h ⊢
  omega

def Channel.sampleOf (p : AdcChPair) : Channel → UInt16
  | .adc1 => p.ch14
  | .adc2 => p.ch15

theorem adcVal_value (p : AdcChPair) (channel : Channel) :
    channel.adcVal p.value = channel.sampleOf p := by
  have hvalue := p.value_toNat
  have h15 := p.ch15.toNat_lt
  rw [← UInt16.toNat_inj]
  cases channel with
  | adc1 =>
    rw [adcVal_adc1, hvalue, Channel.sampleOf]
    omega
  | adc2 =>
    rw [adcVal_adc2, hvalue, Channel.sampleOf]
    omega

/-- What an answer says after the given number of frames, with 0xFFFF for none. -/
def Channel.reported (samples : List UInt16) (count : ℕ) (channel : Channel) : UInt16 :=
  if count = 0 then 0xFFFF else channel.sampleOf (pairAt samples (count - 1))

theorem payload_valueAfter (samples : List UInt16) (count : ℕ) (channel : Channel) :
    u16At (channel.payload (valueAfter samples count)) 0 = channel.reported samples count := by
  have hpayload (value : UInt32) : u16At (channel.payload value) 0 = channel.adcVal value :=
    u16OfBytes_bytes _
  rw [hpayload, valueAfter, Channel.reported]
  split_ifs
  · cases channel <;> rfl
  · exact adcVal_value _ channel

/-- A sample has twelve bits, so that 0xFFFF is none. -/
theorem reported_eq_invalid {samples : List UInt16} (h : ∀ sample ∈ samples, sample < 4096)
    {count : ℕ} (hcount : 2 * count ≤ samples.length) (channel : Channel) :
    channel.reported samples count = 0xFFFF ↔ count = 0 := by
  rw [Channel.reported]
  split_ifs with hzero
  · simp [hzero]
  · have hsample (i : ℕ) (hi : i < samples.length) : samples.getD i 0 < 4096 := by
      rw [List.getD_eq_getElem _ _ hi]
      exact h _ (List.getElem_mem hi)
    have hlt : channel.sampleOf (pairAt samples (count - 1)) < 4096 := by
      cases channel
      · exact hsample _ (by omega)
      · exact hsample _ (by omega)
    refine iff_of_false (fun heq => ?_) hzero
    rw [heq] at hlt
    exact absurd hlt (by decide)

/-- What a call returns and the answer made of it. -/
structure Answer.Sound (answer : Answer) (s : State) (count : ℕ) : Prop where
  /-- Both halves are of one pair, -/
  value : answer.value = valueAfter s.samples count
  /-- which is no older than the last one announced before the call. -/
  not_older : answer.announced ≤ count
  count_le : count ≤ s.announced
  payload : u16At (answer.channel.payload answer.value) 0 =
    answer.channel.reported s.samples count
  /-- The answer says 0xFFFF exactly if no frame was announced. -/
  invalid : (∀ sample ∈ s.samples, sample < 4096) →
    (u16At (answer.channel.payload answer.value) 0 = 0xFFFF ↔ count = 0)

/-- In every interleaving of the conversions, the handler and the calls in which no interrupt
is served too late, each call returns a pair that was converted together, or the invalid value
before there is one, and no call returns an older pair than an earlier call. -/
theorem answers_sampled {s : State} (h : (sampling.restrict Timely).Reachable s) :
    ∃ counts : List ℕ, counts.Pairwise (· ≤ ·) ∧
      List.Forall₂ (fun answer count => answer.Sound s count) s.answers counts := by
  have hinv : ∃ counts copied, Inv s counts copied :=
    h.restrict_invariant (I := fun s => ∃ counts copied, Inv s counts copied) ⟨[], 0, Inv.init⟩
      (fun _ _ _ ⟨_, _, hI⟩ htimely hstep => hI.step htimely hstep)
  obtain ⟨counts, copied, hinv⟩ := hinv
  refine ⟨counts, hinv.sorted, hinv.answers.imp fun answer count hfrom => ?_⟩
  have htwo := two_mul_announced_le s
  have hle := hfrom.count_le
  have hpayload : u16At (answer.channel.payload answer.value) 0 =
      answer.channel.reported s.samples count := by
    rw [hfrom.value, payload_valueAfter]
  refine ⟨hfrom.value, hfrom.not_older, hle, hpayload, fun htwelve => ?_⟩
  rw [hpayload, reported_eq_invalid htwelve (by omega)]

/-- The second frame is filled while the first one is copied. -/
theorem answers_sampled_overlap :
    ∃ s : State, s.answers.map Answer.value = [0xFFFFFFFF, 0x10002] ∧
      ∃ counts : List ℕ, counts.Pairwise (· ≤ ·) ∧
        List.Forall₂ (fun answer count => answer.Sound s count) s.answers counts := by
  obtain ⟨s, hs, hanswers⟩ := Machine.exists_reachable (M := sampling.restrict Timely)
    (fun s => s.answers.map Answer.value = [0xFFFFFFFF, 0x10002])
    [.call .adc1, .task, .task, .convert 1, .convert 2, .irqHandler, .call .adc2, .task, .task,
      .convert 3, .task, .task, .convert 4, .task, .task, .task, .irqHandler, .task]
    (by decide +kernel)
  exact ⟨s, hanswers, answers_sampled hs⟩

/-- An interrupt that is served too late leaves halves of two pairs. -/
example : ∃ s : State, sampling.Reachable s ∧ s.answers.map Answer.value = [0x50002] :=
  Machine.exists_reachable (M := sampling) (fun s => s.answers.map Answer.value = [0x50002])
    [.convert 1, .convert 2, .irqHandler, .call .adc1, .task, .task, .task, .convert 3,
      .convert 4, .convert 5, .task, .task, .task, .task, .irqHandler, .task] (by decide +kernel)

end SomeIpGateway.AdcSampling
