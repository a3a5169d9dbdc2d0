import SomeIpGateway.McuEncoder
import SomeIpGateway.ServiceDiscovery
import SomeIpGateway.UartInput

/-!
# What the MCU writes to its lines

The advertisements of `AppService_SendAdvertise`, the answers of the `AppSendDiag` functions
and the texts that `printf` brings to the same lines, one after the other. Every byte of a
text is ASCII and no SOF, so that the gateway finds the frames in between.
-/
namespace SomeIpGateway.McuOutput
open ByteAccess StreamScanning FrameFormat PacketCodec McuEncoder ServiceDiscovery UartInput
open McuTransmit (serviceAdvertisePayload)

/-- `SERVICE_ADVERTISE`. -/
def serviceAdvertise : UInt8 := 0x01

/-- `P_DATA_TYPE_CHAR`. -/
def pDataTypeChar : UInt8 := 0x03

/-- `sizeof(tx_buf)` in `AppService_SendAdvertise`. -/
def txBufSize : ℕ := 256

/-- The loop of `AppService_SendAdvertise`: the bytes handed to `BKEL_UART_Tx`, and the state of
`make_cid`. A frame that is not built is left out. -/
def sendAdvertise (uid : Uid) : List String → List UInt8 → CidState → List UInt8 × CidState
  | [], _, st => ([], st)
  | text :: texts, txBuf, st =>
    let payload := utf8 text.toList
    let (packetLen, txBuf, st) := McuEncoder.buildFrame uid st txBuf txBufSize serviceAdvertise
      pDataTypeChar payload (UInt16.ofNat payload.length)
    let (rest, st) := sendAdvertise uid texts txBuf st
    (if packetLen = 0 then rest else txBuf.take packetLen ++ rest, st)

/-- What a task sends: the table, with what `tx_buf` contains before; a frame of its own; or a
text. -/
inductive Sending where
  | advertise (txBuf : List UInt8)
  | answer (call : BuildCall)
  | text (bytes : List UInt8)

namespace Sending

/-- The bytes sent, and the state of `make_cid` behind them. -/
def bytes (uid : Uid) (st : CidState) : Sending → List UInt8 × CidState
  | advertise txBuf => sendAdvertise uid serviceAdvertisePayload txBuf st
  | answer call =>
    let (frameLen, outBuf, st) := call.run uid st
    (outBuf.take frameLen, st)
  | text bytes => (bytes, st)

/-- An answer is no advertisement and not too long for the gateway, and a text is ASCII. -/
def Proper : Sending → Prop
  | advertise txBuf => txBuf.length = txBufSize
  | answer call => call.sid ≠ serviceAdvertise ∧ call.payloadLen.toNat ≤ bkelMaxPayload
  | text bytes => ∀ b ∈ bytes, b < 0x80

instance : ∀ x : Sending, Decidable x.Proper
  | advertise txBuf => inferInstanceAs (Decidable (txBuf.length = txBufSize))
  | answer call =>
    inferInstanceAs
      (Decidable (call.sid ≠ serviceAdvertise ∧ call.payloadLen.toNat ≤ bkelMaxPayload))
  | text bytes => List.decidableBAll (fun b => b < 0x80) bytes

end Sending

/-- What is sent one after the other. -/
def lineBytes (uid : Uid) : CidState → List Sending → List UInt8
  | _, [] => []
  | st, x :: rest => (x.bytes uid st).1 ++ lineBytes uid (x.bytes uid st).2 rest

/-! ### The frames in it -/

/-- The advertisement of a text. -/
def advert (node : UInt16) (seq : ℕ) (text : String) : BkelFrame :=
  ⟨serviceAdvertise, pDataTypeChar, UInt16.ofNat (utf8 text.toList).length, cidOf node seq,
    utf8 text.toList⟩

/-- A frame of a node, which advertises an entry of the table if it advertises. -/
structure FromNode (node : UInt16) (f : BkelFrame) : Prop where
  wellFormed : f.WellFormed
  dlc_le : f.dlc.toNat ≤ bkelMaxPayload
  cid : ∃ seq, f.cid = cidOf node seq
  advert : f.sid = serviceAdvertise →
    ∃ text ∈ serviceAdvertisePayload, ∃ seq, f = advert node seq text

/-- The frames that the gateway finds in some bytes, with anything behind them, if its terminal
reads these frames as they are. -/
structure Carries (node : UInt16) (bytes : List UInt8) (frames : List BkelFrame) : Prop where
  from_node : ∀ f ∈ frames, FromNode node f
  found : ∀ flags : InputFlags, (∀ f ∈ frames, flags.Passes (frameBytes f)) → ∀ more,
    items (packetParser.drain (flags.input bytes ++ more)).1 =
      frames ++ items (packetParser.drain more).1

section Carries
variable {node : UInt16}

theorem Carries.append {a b : List UInt8} {f g : List BkelFrame} (ha : Carries node a f)
    (hb : Carries node b g) : Carries node (a ++ b) (f ++ g) where
  from_node x hx := by
    rcases List.mem_append.mp hx with hx | hx
    · exact ha.from_node x hx
    · exact hb.from_node x hx
  found flags hpass more := by
    rw [InputFlags.input_append, List.append_assoc,
      ha.found flags fun x hx => hpass x (List.mem_append_left g hx),
      hb.found flags fun x hx => hpass x (List.mem_append_right f hx), List.append_assoc]

variable {bytes : List UInt8} {frames : List BkelFrame}

/-- With nothing behind them. -/
theorem Carries.found_all (h : Carries node bytes frames) {flags : InputFlags}
    (hpass : ∀ f ∈ frames, flags.Passes (frameBytes f)) :
    items (packetParser.drain (flags.input bytes)).1 = frames := by
  have hfound := h.found flags hpass []
  rw [List.append_nil] at hfound
  simpa using hfound

/-- As they are sent. -/
theorem Carries.found_sent (h : Carries node bytes frames) :
    items (packetParser.drain bytes).1 = frames := by
  have hfound := h.found_all fun f _ => InputFlags.passes_raw (frameBytes f)
  rwa [(InputFlags.passes_raw bytes).input_eq] at hfound

theorem carries_nil (node : UInt16) : Carries node [] [] where
  from_node f hf := by cases hf
  found flags _ more := rfl

theorem carries_frame {f : BkelFrame} (hf : FromNode node f) :
    Carries node (frameBytes f) [f] where
  from_node g hg := List.mem_singleton.mp hg ▸ hf
  found flags hpass more := by
    have hlook : packetParser.look (frameBytes f ++ more) = .take (frameBytes f).length f :=
      parseBody_frameBytes hf.wellFormed hf.dlc_le more
    rw [(hpass f (List.mem_singleton_self f)).input_eq, packetParser.drain_of_take hlook,
      List.drop_left, items_cons_some]
    rfl

/-- A text is passed over, or waits for what comes behind it. -/
theorem items_drain_text {text : List UInt8} (h : ∀ b ∈ text, b < 0x80) (more : List UInt8) :
    items (packetParser.drain (text ++ more)).1 = items (packetParser.drain more).1 := by
  induction text with
  | nil => rfl
  | cons b text ih =>
    have hb : b ≠ sofDataValue := by
      rintro rfl
      exact absurd (h sofDataValue (by simp)) (by decide)
    rw [List.cons_append, ← ih (fun c hc => h c (by simp [hc]))]
    rcases Nat.lt_or_ge (b :: (text ++ more)).length 5 with hshort | hlong
    · have hwait {buf : List UInt8} (hbuf : buf.length < 5) :
          items (packetParser.drain buf).1 = [] := by
        have hlook : packetParser.look buf = .wait := if_pos hbuf
        rw [packetParser.drain_of_wait hlook]
        rfl
      have hmore : (text ++ more).length < 5 := by
        rw [List.length_cons] at hshort
        omega
      rw [hwait hshort, hwait hmore]
    · have hlook : packetParser.look (b :: (text ++ more)) = .skip := by
        have hsof : u8At (b :: (text ++ more)) 0 = b := rfl
        have henough : ¬ (b :: (text ++ more)).length < bkelSofSize + bkelHdrSize :=
          not_lt.mpr hlong
        change parseBody _ = _
        rw [parseBody, if_neg henough, hsof, if_pos hb]
      rw [packetParser.drain_of_skip hlook, items_cons_none]
      rfl

theorem carries_text (node : UInt16) {text : List UInt8} (h : ∀ b ∈ text, b < 0x80) :
    Carries node text [] where
  from_node f hf := by cases hf
  found _ _ more := items_drain_text (InputFlags.input_ascii h) more

/-- A terminal as Linux sets it up changes an answer with the CID 0x010D, which is lost. -/
example : items (packetParser.drain
    (InputFlags.linux.uartInit.input (frameBytes ⟨0x26, 1, 1, 0x010D, [1]⟩))).1 = [] := by
  decide +kernel

end Carries

/-- What a frame says: all but its CID. -/
structure Content where
  sid : UInt8
  type : UInt8
  payload : List UInt8
  deriving Repr, DecidableEq

def contentOf (f : BkelFrame) : Content := ⟨f.sid, f.type, f.payload⟩

/-- The answer among what is sent, if there is room for it. -/
def Sending.answered : Sending → Option Content
  | answer call => if call.Fits then some ⟨call.sid, call.type, call.payload⟩ else none
  | _ => none

/-- The frames that are no advertisements. -/
def answersIn (frames : List BkelFrame) : List Content :=
  (frames.filter (·.sid ≠ serviceAdvertise)).map contentOf

theorem answersIn_append (frames more : List BkelFrame) :
    answersIn (frames ++ more) = answersIn frames ++ answersIn more := by
  simp [answersIn]

/-- A call sends its frame, or nothing for lack of room. -/
theorem carries_call {uid : Uid} {st : CidState} {node : UInt16} {call : BuildCall}
    (hsid : call.sid ≠ serviceAdvertise)
    (hframe : FromNode node (call.frame (makeCid uid st).1)) :
    ∃ frames, Carries node ((call.run uid st).2.1.take (call.run uid st).1) frames ∧
      (call.run uid st).2.2.node uid = st.node uid ∧
      answersIn frames = (Sending.answer call).answered.toList := by
  by_cases hfits : call.Fits
  · rw [call.run_of_fits uid st hfits]
    have hlen : (frameBytes (call.frame (makeCid uid st).1)).length = call.payloadLen.toNat + 8 :=
      length_frameBytes (call.frame_wellFormed _)
    refine ⟨[call.frame (makeCid uid st).1], ?_, (makeCid_spec uid st).2.1, ?_⟩
    · rw [List.take_left' hlen]
      exact carries_frame hframe
    · simp [answersIn, Sending.answered, hfits, hsid, contentOf, BuildCall.frame]
  · rw [call.run_of_not_fits uid st hfits]
    refine ⟨[], carries_nil node, rfl, ?_⟩
    simp [answersIn, Sending.answered, hfits]

/-- Every entry of the table fits into `tx_buf`. -/
theorem entry_fits :
    ∀ text ∈ serviceAdvertisePayload, (utf8 text.toList).length + 8 ≤ txBufSize := by
  decide

theorem carries_sendAdvertise (uid : Uid) {texts : List String}
    (htexts : ∀ text ∈ texts, text ∈ serviceAdvertisePayload) {txBuf : List UInt8}
    (hbuf : txBuf.length = txBufSize) (st : CidState) :
    ∃ frames, Carries (st.node uid) (sendAdvertise uid texts txBuf st).1 frames ∧
      frames.map BkelFrame.payload = texts.map (fun text => utf8 text.toList) ∧
      (∀ f ∈ frames, f.sid = serviceAdvertise) ∧
      (sendAdvertise uid texts txBuf st).2.node uid = st.node uid := by
  induction texts generalizing txBuf st with
  | nil => exact ⟨[], carries_nil _, rfl, by simp, rfl⟩
  | cons text texts ih =>
    have hmem := htexts text (by simp)
    have hlen := entry_fits text hmem
    have hsmall : (UInt16.ofNat (utf8 text.toList).length).toNat = (utf8 text.toList).length := by
      rw [UInt16.toNat_ofNat', Nat.mod_eq_of_lt]
      rw [txBufSize] at hlen
      omega
    let call : BuildCall :=
      ⟨txBuf, txBufSize, serviceAdvertise, pDataTypeChar, utf8 text.toList,
        UInt16.ofNat (utf8 text.toList).length, hbuf.ge, hsmall.symm⟩
    have hfits : call.Fits := by
      change (UInt16.ofNat _).toNat + 8 ≤ txBufSize
      rwa [hsmall]
    obtain ⟨hcid, hnode, -⟩ := makeCid_spec uid st
    have hframe : call.frame (makeCid uid st).1 =
        advert (st.node uid) (st.seq4.toNat + 1) text := by
      rw [hcid]
      rfl
    have hfrom : FromNode (st.node uid) (advert (st.node uid) (st.seq4.toNat + 1) text) := by
      refine ⟨hsmall.symm, ?_, ⟨_, rfl⟩, fun _ => ⟨text, hmem, _, rfl⟩⟩
      rw [txBufSize] at hlen
      change (UInt16.ofNat _).toNat ≤ 256
      omega
    have hsize : (frameBytes (advert (st.node uid) (st.seq4.toNat + 1) text)).length =
        call.payloadLen.toNat + 8 := length_frameBytes hsmall.symm
    have hrun : McuEncoder.buildFrame uid st txBuf txBufSize serviceAdvertise pDataTypeChar
        (utf8 text.toList) (UInt16.ofNat (utf8 text.toList).length) =
        (call.payloadLen.toNat + 8, frameBytes (advert (st.node uid) (st.seq4.toNat + 1) text) ++
          txBuf.drop (call.payloadLen.toNat + 8), (makeCid uid st).2) := by
      rw [← hframe]
      exact call.run_of_fits uid st hfits
    have hkept : (frameBytes (advert (st.node uid) (st.seq4.toNat + 1) text) ++
        txBuf.drop (call.payloadLen.toNat + 8)).length = txBufSize := by
      have hroom : call.payloadLen.toNat + 8 ≤ txBufSize := hfits
      rw [List.length_append, hsize, List.length_drop, hbuf]
      omega
    obtain ⟨frames, hcarries, hpayloads, hsids, hnode'⟩ :=
      ih (fun t ht => htexts t (by simp [ht])) hkept (makeCid uid st).2
    rw [hnode] at hcarries hnode'
    have hzero : ¬ call.payloadLen.toNat + 8 = 0 := by omega
    simp only [sendAdvertise, hrun, hzero, if_false, List.take_left' hsize]
    refine ⟨_ :: frames, (carries_frame hfrom).append hcarries, ?_, ?_, hnode'⟩
    · rw [List.map_cons, List.map_cons, hpayloads]
      rfl
    · intro f hf
      rcases List.mem_cons.mp hf with rfl | hf
      · rfl
      · exact hsids f hf

theorem carries_bytes (uid : Uid) {x : Sending} (h : x.Proper) (st : CidState) :
    ∃ frames, Carries (st.node uid) (x.bytes uid st).1 frames ∧
      (x.bytes uid st).2.node uid = st.node uid ∧ answersIn frames = x.answered.toList := by
  cases x with
  | advertise txBuf =>
    obtain ⟨frames, hcarries, -, hsids, hnode⟩ := carries_sendAdvertise uid (fun _ h => h) h st
    refine ⟨frames, hcarries, hnode, ?_⟩
    have hnone : frames.filter (·.sid ≠ serviceAdvertise) = [] :=
      List.filter_eq_nil_iff.mpr fun f hf => by simp [hsids f hf]
    rw [answersIn, hnone]
    rfl
  | answer call =>
    have hframe : FromNode (st.node uid) (call.frame (makeCid uid st).1) :=
      ⟨call.frame_wellFormed _, h.2, ⟨_, (makeCid_spec uid st).1⟩, fun hsid => (h.1 hsid).elim⟩
    exact carries_call h.1 hframe
  | text bytes => exact ⟨[], carries_text _ h, rfl, rfl⟩

/-- Whatever is sent one after the other, the gateway finds the frames of it, among them the
answers, and what is sent next is sent under the same node id. -/
theorem carries_lineBytes (uid : Uid) {sendings : List Sending} (h : ∀ x ∈ sendings, x.Proper)
    (st : CidState) : ∃ frames st', Carries (st.node uid) (lineBytes uid st sendings) frames ∧
      st'.node uid = st.node uid ∧ (∀ rest, lineBytes uid st (sendings ++ rest) =
        lineBytes uid st sendings ++ lineBytes uid st' rest) ∧
      answersIn frames = sendings.filterMap Sending.answered := by
  induction sendings generalizing st with
  | nil => exact ⟨[], st, carries_nil _, rfl, fun _ => rfl, rfl⟩
  | cons x sendings ih =>
    obtain ⟨frames, hcarries, hnode, hanswer⟩ := carries_bytes uid (h x (by simp)) st
    obtain ⟨more, st', hmore, hnode', hrest, hanswers⟩ :=
      ih (fun y hy => h y (by simp [hy])) (x.bytes uid st).2
    rw [hnode] at hmore hnode'
    refine ⟨frames ++ more, st', hcarries.append hmore, hnode', fun rest => ?_, ?_⟩
    · rw [List.cons_append, lineBytes, lineBytes, hrest, List.append_assoc]
    · rw [answersIn_append, hanswer, hanswers, List.filterMap_cons]
      cases x.answered <;> rfl

end SomeIpGateway.McuOutput
