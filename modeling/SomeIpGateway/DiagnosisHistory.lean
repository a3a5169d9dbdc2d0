import SomeIpGateway.McuDevice
import SomeIpGateway.ServiceDelivery

/-!
# The diagnosis on the screen

What `_handle_frame` appends to the history of a client for the answers of an MCU: the values
of the panel, through the payloads of the answers, the gateway and the client's decoder.
-/
namespace SomeIpGateway.DiagnosisHistory
open ByteAccess StreamScanning FrameFormat PacketCodec PythonCodec PythonText
open McuHandlers McuEncoder McuOutput McuDevice UartInput FrameRouting ServiceDelivery Sessions
open StepMachine

/-! ### Texts -/

/-- `f"{n:03X}"` -/
def format03X (n : ℕ) : Text := ((Nat.toDigits 16 n).map Char.toUpper).leftpad 3 '0'

/-- `f"{n}"` -/
def formatD (n : ℕ) : Text := Nat.toDigits 10 n

/-- `data.hex(" ")` -/
def hexSpaced (data : List UInt8) : Text :=
  List.intercalate [' '] (data.map fun b => (Nat.toDigits 16 b.toNat).leftpad 2 '0')

/-- `_mcu_name` -/
def mcuName (cid : UInt16) : Text := "ECU_0x".toList ++ format03X cid.toNat

/-- The text in front of every diagnosis. -/
def sidText (sid : UInt8) : Text := "SID=0x".toList ++ format02X sid.toNat ++ ": ".toList

def pwmText (sid : UInt8) (duty period : ℕ) : Text :=
  sidText sid ++ "Duty=".toList ++ formatD duty ++ ", Period/Freq=".toList ++ formatD period

/-- With the percentage, which is computed in floating point. -/
def adcText (percent : ℕ → Text) (sid : UInt8) (val : ℕ) : Text :=
  sidText sid ++ "ADC Raw=".toList ++ formatD val ++ ", Percent=".toList ++ percent val ++ ['%']

def pinText (sid : UInt8) (high : Bool) : Text :=
  sidText sid ++ "PinState=".toList ++ (if high then "High" else "Low").toList

/-- `_diag_to_text` -/
def diagToText (percent : ℕ → Text) (sid : UInt8) (payload : List UInt8) : Text :=
  if (sid = 0x20 ∨ sid = 0x21) ∧ 2 ≤ payload.length then
    pwmText sid (u8At payload 0).toNat (u8At payload 1).toNat
  else if (sid = 0x22 ∨ sid = 0x23) ∧ 2 ≤ payload.length then
    adcText percent sid (u16At payload 0).toNat
  else if (sid = 0x24 ∨ sid = 0x25 ∨ sid = 0x26) ∧ payload ≠ [] then
    pinText sid (u8At payload 0 ≠ 0)
  else sidText sid ++ "Payload=".toList ++ hexSpaced payload

/-- `DIAG_SIDS` -/
def diagSids : List UInt8 := [0x20, 0x21, 0x22, 0x23, 0x24, 0x25, 0x26]

/-- What `_handle_frame` appends to the history for a frame, behind the time. -/
def historyLine (percent : ℕ → Text) (frame : Frame) : Option Text :=
  if frame.sid = 0x01 then none
  else if frame.sid ∈ diagSids then
    some (mcuName frame.cid ++ ' ' :: diagToText percent frame.sid frame.payload)
  else none

/-- What the panel shows for an accepted diagnostic request. -/
def shown (percent : ℕ → Text) (p : Panel) (inputs : Inputs) (f : BkelFrame) : Option Text :=
  if f.sid = diagPwmOutputValue then some (pwmText f.sid p.dutyShown p.periodShown)
  else if f.sid = diagPwmInputValue then
    inputs.pwmIn.map fun pwm => pwmText f.sid pwm.1.toNat pwm.2.toNat
  else if f.sid = diagAdc1GetValue then
    some (adcText percent f.sid (inputs.adcVal.toNat / 65536))
  else if f.sid = diagAdc2GetValue then
    some (adcText percent f.sid (inputs.adcVal.toNat % 65536))
  else if f.sid = diagGpoPinstate then some (pinText f.sid false)
  else if f.sid = diagGpiPinstate then some (pinText f.sid (inputs.gpioc &&& gpiPin ≠ 0))
  else if f.sid = diagLd2Pinstate then some (pinText f.sid p.lamp)
  else none

/-- The lines for accepted commands one after the other. -/
def shownAll (percent : ℕ → Text) (p : Panel) (inputs : ℕ → Inputs) : List BkelFrame → List Text
  | [] => []
  | f :: frames =>
    (shown percent p (inputs 0) f).toList ++
      shownAll percent (p.after f) (fun n => inputs (n + 1)) frames

/-! ### From the panel to the text -/

section
variable (percent : ℕ → Text)

theorem dutyShown_lt (p : Panel) : p.dutyShown < 256 := by
  have hpos := p.counts_pos
  have hduty := p.duty_le
  rw [Panel.dutyShown, Nat.div_lt_iff_lt_mul hpos]
  calc (p.counts + 1) * p.duty / 100 * 100 ≤ (p.counts + 1) * p.duty := Nat.div_mul_le_self _ _
    _ ≤ (p.counts + 1) * 100 := Nat.mul_le_mul_left _ hduty
    _ < 256 * p.counts := by omega

theorem periodShown_lt (p : Panel) : p.periodShown < 256 := by
  rw [Panel.periodShown]
  omega

theorem toNat_ofNat_of_lt {n : ℕ} (h : n < 256) : (UInt8.ofNat n).toNat = n := by
  rw [UInt8.toNat_ofNat', Nat.mod_eq_of_lt h]

theorem u16At_payload (channel : AdcSampling.Channel) (value : UInt32) :
    u16At (channel.payload value) 0 = channel.adcVal value := u16OfBytes_bytes _

theorem diagToText_pwm {sid : UInt8} (h : sid = 0x20 ∨ sid = 0x21) (duty period : UInt8) :
    diagToText percent sid [duty, period] = pwmText sid duty.toNat period.toNat :=
  if_pos ⟨h, le_rfl⟩

theorem diagToText_adc {sid : UInt8} (h : sid = 0x22 ∨ sid = 0x23)
    (channel : AdcSampling.Channel) (value : UInt32) :
    diagToText percent sid (channel.payload value) =
      adcText percent sid (channel.adcVal value).toNat := by
  have hpwm : ¬ (sid = 0x20 ∨ sid = 0x21) := by rcases h with rfl | rfl <;> decide
  rw [diagToText, if_neg fun hboth => hpwm hboth.1, if_pos ⟨h, le_rfl⟩, u16At_payload]

theorem diagToText_pin {sid : UInt8} (h : sid = 0x24 ∨ sid = 0x25 ∨ sid = 0x26) (b : UInt8) :
    diagToText percent sid [b] = pinText sid (b ≠ 0) := by
  have hpwm : ¬ (sid = 0x20 ∨ sid = 0x21) := by rcases h with rfl | rfl | rfl <;> decide
  have hadc : ¬ (sid = 0x22 ∨ sid = 0x23) := by rcases h with rfl | rfl | rfl <;> decide
  rw [diagToText, if_neg fun hboth => hpwm hboth.1, if_neg fun hboth => hadc hboth.1,
    if_pos ⟨h, by simp⟩, u8At_cons_zero]

/-- The payload of an answer is shown as the value of the panel. -/
theorem diagToText_answer (p : Panel) (inputs : Inputs) (f : BkelFrame) :
    (p.answer inputs f).map (fun c => diagToText percent c.sid c.payload) =
      shown percent p inputs f := by
  unfold Panel.answer shown
  split_ifs with hpwm hin hadc1 hadc2 hgpo hgpi hhigh hld2 hlamp
  · rw [Option.map_some, diagToText_pwm percent (.inl hpwm),
      toNat_ofNat_of_lt (dutyShown_lt p), toNat_ofNat_of_lt (periodShown_lt p)]
  · rw [Option.map_map]
    congr 1
    funext pwm
    exact diagToText_pwm percent (.inr hin) pwm.1 pwm.2
  · rw [Option.map_some, diagToText_adc percent (.inl hadc1), AdcSampling.adcVal_adc1]
  · rw [Option.map_some, diagToText_adc percent (.inr hadc2), AdcSampling.adcVal_adc2]
  · rw [Option.map_some, diagToText_pin percent (.inl hgpo)]
    rfl
  · rw [Option.map_some, diagToText_pin percent (.inr (.inl hgpi)), decide_eq_true hhigh]
    rfl
  · rw [Option.map_some, diagToText_pin percent (.inr (.inl hgpi)), decide_eq_false hhigh]
    rfl
  · rw [Option.map_some, diagToText_pin percent (.inr (.inr hld2)), hlamp]
    rfl
  · rw [Option.map_some, diagToText_pin percent (.inr (.inr hld2)),
      Bool.eq_false_of_not_eq_true hlamp]
    rfl
  · rfl

theorem shownAll_eq (p : Panel) (inputs : ℕ → Inputs) (frames : List BkelFrame) :
    shownAll percent p inputs frames =
      (p.answers inputs frames).map (fun c => diagToText percent c.sid c.payload) := by
  induction frames generalizing p inputs with
  | nil => rfl
  | cons f frames ih =>
    rw [shownAll, Panel.answers, List.map_append, ih, ← diagToText_answer, Option.toList_map]

/-- The panel answers diagnostic requests only. -/
theorem answer_sid {p : Panel} {inputs : Inputs} {f : BkelFrame} {c : Content}
    (h : p.answer inputs f = some c) : c.sid ∈ diagSids := by
  unfold Panel.answer at h
  split_ifs at h
  all_goals
    first
    | obtain rfl := Option.some.inj h
    | obtain ⟨pwm, -, rfl⟩ := Option.map_eq_some_iff.mp h
  all_goals
    change f.sid ∈ diagSids
    rw [‹f.sid = _›]
    decide

theorem answers_sid {p : Panel} {inputs : ℕ → Inputs} {frames : List BkelFrame} :
    ∀ c ∈ p.answers inputs frames, c.sid ∈ diagSids := by
  induction frames generalizing p inputs with
  | nil => intro c hc; cases hc
  | cons f frames ih =>
    intro c hc
    rcases List.mem_append.mp hc with hc | hc
    · exact answer_sid (Option.mem_toList.mp hc)
    · exact ih c hc

/-! ### From the frames to the lines -/

/-- The line for an answer of a node. -/
def answerLine (node : UInt16) (c : Content) : Text :=
  mcuName node ++ ' ' :: diagToText percent c.sid c.payload

/-- From frames of a node the client appends a line for each answer. -/
theorem historyLine_frames {node : UInt16} (hnode : node.toNat < 4096) {frames : List BkelFrame}
    (hfrom : ∀ f ∈ frames, FromNode node f) (hsids : ∀ c ∈ answersIn frames, c.sid ∈ diagSids) :
    (frames.map frameOf).filterMap (historyLine percent) =
      (answersIn frames).map (answerLine percent node) := by
  induction frames with
  | nil => rfl
  | cons f frames ih =>
    obtain ⟨seq, hcid⟩ := (hfrom f List.mem_cons_self).cid
    have hnext : (frameOf f).cid = node := by
      rw [← cid_cidOf hnode seq, ← hcid]
      rfl
    have hrest (hsids : ∀ c ∈ answersIn frames, c.sid ∈ diagSids) :=
      ih (fun g hg => hfrom g (List.mem_cons_of_mem f hg)) hsids
    by_cases hadvert : f.sid = serviceAdvertise
    · have hnone : historyLine percent (frameOf f) = none := if_pos hadvert
      have hskip : answersIn (f :: frames) = answersIn frames := by
        simp [answersIn, hadvert]
      rw [hskip] at hsids ⊢
      rw [List.map_cons, List.filterMap_cons_none hnone, hrest hsids]
    · have hkept : answersIn (f :: frames) = contentOf f :: answersIn frames := by
        simp [answersIn, hadvert]
      rw [hkept] at hsids ⊢
      have hsid : f.sid ∈ diagSids := hsids _ List.mem_cons_self
      have hline : historyLine percent (frameOf f) =
          some (answerLine percent node (contentOf f)) := by
        rw [historyLine, if_neg (show (frameOf f).sid ≠ 0x01 from hadvert),
          if_pos (show (frameOf f).sid ∈ diagSids from hsid), hnext]
        rfl
      rw [List.map_cons, List.filterMap_cons_some hline, List.map_cons,
        hrest fun c hc => hsids c (List.mem_cons_of_mem _ hc)]

/-- What stands in a client's history at any time are answers of the panel to commands that the
MCU has accepted and executed, with the values it had then, each at most once and in their order:
whatever other sessions do, and however the bytes are cut on their way. No accepted command
restarts the MCU, what its tasks send goes out one after the other, and the gateway's terminal
reads the frames as they are sent. -/
theorem history_of_panel {packet : McuDispatch.CommonPacket} {m : McuDispatch.State}
    (hm : (McuDispatch.mcu packet).Reachable m)
    (hreset : ∀ f ∈ m.handled.filter Admitted, ¬ Resets f) (inputs : ℕ → Inputs) (uid : Uid)
    {sent : List (Bool × Sending)} (hsent : Merges sent (Device.init.runAll inputs m.log).2)
    {flags : InputFlags}
    (hpass : ∀ f ∈ items (packetParser.drain (lineBytes uid {} (sent.map Prod.snd))).1,
      flags.uartInit.Passes (frameBytes f))
    {s : State} (hs : routing.Reachable s)
    (hline : s.line <+: flags.uartInit.input (lineBytes uid {} (sent.map Prod.snd)))
    {cid : UInt16} {session : Session} (hsession : s.manager.findSession cid = some session)
    {received : List PythonReader.Received} (hopen : PythonReader.StaysOpen received)
    (hbytes : PythonReader.bytesOf received <+: session.transport.txQueue.flatten) :
    ∃ done, Executed m done ∧
      ((PythonReader.connected.readerLoop received).incoming.filterMap
        (historyLine percent)).Sublist
          ((shownAll percent Panel.init inputs (done.filter Admitted)).map
            fun text => mcuName (CidState.node uid {}) ++ ' ' :: text) := by
  have hinv := inv_of_reachable hs
  have hnode : (CidState.node uid {}).toNat < 4096 := (fresh_node_range uid 0).2
  obtain ⟨frames, done, hcarries, hdone, hanswers⟩ := carries_panel hm hreset inputs uid hsent
  rw [hcarries.found_sent] at hpass
  -- what was handed over are the first of the frames, and the session heard some of these
  have hhanded : s.handed <+: frames := by
    have hfront := packetParser.items_of_front hline
    rw [hinv.parsed, hcarries.found_all hpass] at hfront
    exact (List.prefix_append _ _).trans hfront
  obtain ⟨heard, hqueued, hsome, -⟩ := hinv.heard cid session hsession
  have hsub : heard.Sublist s.handed := hsome.trans (List.drop_sublist _ _)
  have hencodable : ∀ f ∈ heard, Encodable f := fun f hf =>
    hinv.encodable (List.mem_append_left _ (hsub.subset hf))
  have hstream : PythonReader.bytesOf received <+: heard.flatMap frameBytes := by
    rwa [hqueued, ← List.flatMap_def] at hbytes
  have hincoming := (incoming_of_front hencodable hopen hstream).sublist
  have hall : ((frames.map frameOf).filterMap (historyLine percent)) =
      (answersIn frames).map (answerLine percent (CidState.node uid {})) := by
    refine historyLine_frames percent hnode hcarries.from_node fun c hc => ?_
    rw [hanswers] at hc
    exact answers_sid c hc
  have hlines : (shownAll percent Panel.init inputs (done.filter Admitted)).map
      (fun text => mcuName (CidState.node uid {}) ++ ' ' :: text) =
        (frames.map frameOf).filterMap (historyLine percent) := by
    rw [hall, hanswers, shownAll_eq, List.map_map]
    rfl
  refine ⟨done, hdone, ?_⟩
  rw [hlines]
  exact (hincoming.trans ((hsub.trans hhanded.sublist).map frameOf)).filterMap _

end

/-- The lamp is switched on and asked for by one of two clients, which is shown that it is; the
terminal changes the end of the text that the MCU prints. -/
theorem history_of_panel_lamp :
    ∃ (s : State) (session : Session), s.manager.findSession 7 = some session ∧
      ((PythonReader.connected.readerLoop
        [.chunk session.transport.txQueue.flatten]).incoming.filterMap
          (historyLine fun _ => [])).Sublist ["ECU_0x007 SID=0x26: PinState=High".toList] ∧
      session.transport.txQueue.flatten.length = 9 := by
  let uid : Uid := ⟨1, 2, 4⟩
  let frames : List BkelFrame := [⟨0x10, 1, 1, 7, [1]⟩, ⟨0x26, 1, 0, 7, []⟩]
  let sent := (Device.init.runAll (fun _ => {}) (frames.filterMap expectedRun)).2
  let line := InputFlags.linux.uartInit.input (lineBytes uid {} sent)
  obtain ⟨m, hm, hcommand, hsendData, hrpc, hhandled, hlog⟩ :=
    Machine.exists_reachable (M := McuDispatch.mcu McuDispatch.stalePacket)
      (fun m => m.ready .command = false ∧ m.ready .sendData = false ∧ m.ready .rpc = false ∧
        m.handled = frames ∧ m.log = frames.filterMap expectedRun)
      (List.flatten [[.run .sendData, .run .rpc], frames.map .arrive,
        List.replicate 5 (.run .command), List.replicate 7 (.run .rpc),
        List.replicate 5 (.run .command), List.replicate 5 (.run .sendData)])
      (by decide +kernel)
  obtain ⟨s, hs, hline, hqueue⟩ := Machine.exists_reachable (M := routing)
    (fun s => s.line = line ∧
      (s.manager.findSession 7).any (fun session => session.transport.txQueue.flatten.length = 9))
    [.addSession 7 "10.0.0.7", .addSession 9 "10.0.0.9",
      .forwardToMcu 7 ⟨0x26, 1, 0, 7, []⟩, .read line, .onFrame] (by decide +kernel)
  obtain ⟨session, hsession, hlen⟩ := (Option.any_eq_true _ _).mp hqueue
  have hmerges : Merges (sent.map (true, ·)) (Device.init.runAll (fun _ => {}) m.log).2 := by
    rw [hlog]
    exact ⟨by simp [sent, List.filter_map, Function.comp_def], by simp⟩
  have hmarked : (sent.map (true, ·)).map Prod.snd = sent := by simp [Function.comp_def]
  have hreturn : ∀ f ∈ items (packetParser.drain (lineBytes uid {} sent)).1,
      0x0D ∉ frameBytes f := by decide +kernel
  have hopen : PythonReader.StaysOpen [.chunk session.transport.txQueue.flatten] := by
    have hne : session.transport.txQueue.flatten ≠ [] :=
      List.ne_nil_of_length_pos (by simp [of_decide_eq_true hlen])
    simpa [PythonReader.StaysOpen] using hne
  have hidle : m.Idle := fun t ht => by cases t <;> first | assumption | exact (ht rfl).elim
  obtain ⟨done, hdone, hhistory⟩ := history_of_panel (fun _ => []) hm (by rw [hhandled]; decide) (fun _ => {})
    uid hmerges (fun f hf => InputFlags.passes_linux (hreturn f (hmarked ▸ hf))) hs
    (by rw [hmarked, hline]) hsession hopen (by simp [PythonReader.bytesOf])
  rw [hdone.at_rest hidle, hhandled] at hhistory
  exact ⟨s, session, hsession, hhistory.trans (by decide +kernel), of_decide_eq_true hlen⟩

end SomeIpGateway.DiagnosisHistory
