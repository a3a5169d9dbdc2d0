import SomeIpGateway.FrameRouting
import SomeIpGateway.McuOutput
import SomeIpGateway.PythonReader

/-!
# Advertisements on their way to the screen

The table of the MCU's services, sent as frames of its own between answers and texts, read by
the gateway in any pieces, queued for each session, received by the Python client in any
pieces and kept by it as the names of the services of a node.
-/
namespace SomeIpGateway.ServiceDelivery
open StreamScanning FrameFormat PacketCodec PythonCodec PythonText ServiceDiscovery
open McuEncoder McuOutput UartInput FrameRouting Sessions StepMachine
open McuTransmit (serviceAdvertisePayload)

/-! ### The table -/

/-- The services by SID, as the table names them. -/
def serviceTable : List (ℤ × String) :=
  [(0x10, "RPC_LD2_Control"), (0x11, "RPC_MCU_Reset"), (0x12, "RPC_SPI_Read"),
    (0x13, "RPC_PWM_SetOut"), (0x20, "DIAG_PWM_Output_Value"), (0x21, "DIAG_PWM_Input_Value"),
    (0x22, "DIAG_ADC1_GetValue"), (0x23, "DIAG_ADC2_GetValue"), (0x24, "DIAG_GPO_PinState"),
    (0x25, "DIAG_GPI_PinState"), (0x26, "DIAG_LD2_PinState")]

theorem tableParts_sid :
    tableParts.filterMap Part.sid = serviceTable.map Prod.fst := by decide

/-- Parts that name a service once name it so at last. -/
theorem lastName_of_same {parts : List Part} {sid : ℤ} {name : Text}
    (hsome : ∃ p ∈ parts, p.nameFor sid = some name)
    (hsame : ∀ p ∈ parts, p.nameFor sid = none ∨ p.nameFor sid = some name) :
    lastName parts sid = some name := by
  obtain ⟨p, hp, hname⟩ := hsome
  have hmem : name ∈ parts.filterMap (Part.nameFor sid) := List.mem_filterMap.mpr ⟨p, hp, hname⟩
  have hlast := List.getLast?_eq_some_getLast (List.ne_nil_of_mem hmem)
  obtain ⟨q, hq, hlastName⟩ := List.mem_filterMap.mp (List.getLast_mem (List.ne_nil_of_mem hmem))
  rcases hsame q hq with hnone | hsome
  · rw [hnone] at hlastName
    cases hlastName
  · rw [lastName, hlast, ← hlastName, hsome]

/-- Each entry of the table gives its SID the name that it is listed with. -/
theorem tableParts_names : ∀ e ∈ serviceTable,
    (∃ p ∈ tableParts, p.nameFor e.1 = some e.2.toList) ∧
      ∀ p ∈ tableParts, p.nameFor e.1 = none ∨ p.nameFor e.1 = some e.2.toList := by decide

/-- From all entries of the table, in any order and any number of times, the table is read
back. -/
theorem readBack_table {parts : List Part} (hsub : ∀ p ∈ parts, p ∈ tableParts)
    (hall : ∀ p ∈ tableParts, p ∈ parts) (sid : ℤ) :
    readBack parts sid none = (serviceTable.lookup sid).map String.toList := by
  cases hlookup : serviceTable.lookup sid with
  | some name =>
    have hmem : (sid, name) ∈ serviceTable := by
      obtain ⟨before, after, htable, -⟩ := List.lookup_eq_some_iff.mp hlookup
      simp [htable]
    obtain ⟨⟨p, hp, hname⟩, hsame⟩ := tableParts_names _ hmem
    rw [readBack, lastName_of_same ⟨p, hall p hp, hname⟩ (fun q hq => hsame q (hsub q hq))]
    rfl
  | none =>
    have hnot : ¬ Listed parts sid := by
      intro hlisted
      obtain ⟨p, hp, hsid⟩ := List.mem_map.mp hlisted
      have hkey : sid ∈ serviceTable.map Prod.fst := by
        rw [← tableParts_sid]
        exact List.mem_filterMap.mpr ⟨p, hsub p hp, hsid⟩
      obtain ⟨⟨key, name⟩, hmem, rfl⟩ := List.mem_map.mp hkey
      have hne := List.lookup_eq_none_iff.mp hlookup _ hmem
      simp at hne
    rw [readBack, lastName_of_not_listed hnot, if_neg hnot]
    rfl

theorem tableParts_nodup : (tableParts.map Part.text).Nodup := by decide

theorem utf8_injective : Function.Injective utf8 :=
  Function.LeftInverse.injective (decodeUtf8_utf8 (fun _ => []))

/-- Payloads that are texts of the table are those of parts of it. -/
theorem exists_parts {payloads : List (List UInt8)}
    (h : ∀ x ∈ payloads, ∃ p ∈ tableParts, x = utf8 p.text) :
    ∃ parts : List Part, (∀ p ∈ parts, p ∈ tableParts) ∧
      payloads = parts.map (utf8 ∘ Part.text) := by
  induction payloads with
  | nil => exact ⟨[], by simp, rfl⟩
  | cons x payloads ih =>
    obtain ⟨p, hp, rfl⟩ := h x (by simp)
    obtain ⟨parts, hparts, rfl⟩ := ih (fun y hy => h y (by simp [hy]))
    refine ⟨p :: parts, fun q hq => ?_, rfl⟩
    rcases List.mem_cons.mp hq with rfl | hq
    · exact hp
    · exact hparts q hq

/-! ### The client -/

/-- What the client makes of a frame of the gateway. -/
def frameOf (f : BkelFrame) : Frame := decoded (f, FrameFormat.calcCrc8 (crcSpan f))

theorem look_frameBytes {f : BkelFrame} (h : Encodable f) (more : List UInt8) :
    clientScanner.look (frameBytes f ++ more) =
      .take (frameBytes f).length (f, FrameFormat.calcCrc8 (crcSpan f)) := by
  have hle : bkelMaxPayload ≤ maxPayload := by decide
  exact CandidateScan.candidate_framed le_rfl h.1 (h.2.trans hle) _ more

/-- The client decodes the gateway's frames, however they are cut. -/
theorem incoming_frames {frames : List BkelFrame} (h : ∀ f ∈ frames, Encodable f)
    {received : List PythonReader.Received} (hopen : PythonReader.StaysOpen received)
    (hbytes : PythonReader.bytesOf received = frames.flatMap frameBytes) :
    (PythonReader.connected.readerLoop received).incoming = frames.map frameOf := by
  have hchunks : (PythonReader.chunksOf received).flatten = frames.flatMap frameBytes := by
    rw [← PythonReader.bytesOf_eq, hbytes]
  rw [PythonReader.incoming_eq hopen, clientScanner.feedPaused_flatMap frameBytes
    (fun f => (f, FrameFormat.calcCrc8 (crcSpan f))) frames PythonReader.halts_stable
    (fun f hf => look_frameBytes (h f hf)) hchunks]
  simp [frameOf, Function.comp_def]

/-- From the front of the gateway's stream it decodes the first of the frames. -/
theorem incoming_of_front {frames : List BkelFrame} (h : ∀ f ∈ frames, Encodable f)
    {received : List PythonReader.Received}
    (hopen : PythonReader.StaysOpen received)
    (hbytes : PythonReader.bytesOf received <+: frames.flatMap frameBytes) :
    (PythonReader.connected.readerLoop received).incoming <+: frames.map frameOf := by
  have hdrain := clientScanner.drain_flatMap frameBytes
    (fun f => (f, FrameFormat.calcCrc8 (crcSpan f))) frames
    (fun f hf => look_frameBytes (h f hf)) []
  have hall : items (clientScanner.drain (frames.flatMap frameBytes)).1 =
      frames.map fun f => (f, FrameFormat.calcCrc8 (crcSpan f)) := by
    rw [List.append_nil] at hdrain
    simp [hdrain]
  have hfront := (clientScanner.items_of_front hbytes).map decoded
  rw [hall, List.map_map, ← PythonReader.incoming_append hopen] at hfront
  exact (List.prefix_append _ _).trans hfront

theorem cid_cidOf {node : UInt16} (hnode : node.toNat < 4096) (seq : ℕ) :
    (cidOf node seq >>> 4) &&& 0x0FFF = node := by
  have hseq : seq % 16 < 2 ^ 4 := Nat.mod_lt _ (by decide)
  have hor := Nat.two_pow_add_eq_or_of_lt hseq node.toNat
  have hmask := Nat.and_two_pow_sub_one_eq_mod ((node.toNat * 16 + seq % 16) / 16) 12
  have hcid : (cidOf node seq).toNat = node.toNat * 16 + seq % 16 := by
    have hshift : node.toNat * 16 % 65536 = 2 ^ 4 * node.toNat := by omega
    have hsmall : seq % 16 % 65536 = seq % 16 := by omega
    calc (cidOf node seq).toNat = node.toNat * 16 % 65536 ||| seq % 16 % 65536 := by
          simp [cidOf, Nat.shiftLeft_eq]
      _ = node.toNat * 16 + seq % 16 := by
          rw [hshift, hsmall, ← hor]
          omega
  rw [← UInt16.toNat_inj]
  simp [hcid, Nat.shiftRight_eq_div_pow] at hmask ⊢
  omega

variable (decimal : Char → Option (Fin 10)) (replaced : List UInt8 → Text)

/-- Only advertisements change what is known of the services. -/
theorem foldl_handleFrame_filter (frames : List BkelFrame) (mcus : Std.ExtTreeMap UInt16 McuInfo) :
    (frames.map frameOf).foldl (handleFrame decimal replaced) mcus =
      ((frames.filter IsAdvert).map frameOf).foldl (handleFrame decimal replaced) mcus := by
  induction frames generalizing mcus with
  | nil => rfl
  | cons f frames ih =>
    rw [List.map_cons, List.foldl_cons, ih]
    by_cases hsid : IsAdvert f
    · simp [hsid]
    · have hskip : handleFrame decimal replaced mcus (frameOf f) = mcus := if_neg hsid
      simp [hsid, hskip]

/-- From advertisements of a node that include every entry of the table, a client knows the
services of the node. -/
theorem services_of_adverts {node : UInt16} (hnode : node.toNat < 4096)
    {frames : List BkelFrame} (hfrom : ∀ f ∈ frames, IsAdvert f → FromNode node f)
    (hall : ∀ text ∈ serviceAdvertisePayload, ∃ f ∈ frames.filter IsAdvert,
      f.payload = utf8 text.toList) (sid : ℤ) :
    (servicesOf ((frames.map frameOf).foldl (handleFrame decimal replaced) ∅) node)[sid]? =
      (serviceTable.lookup sid).map String.toList := by
  have htext {text : String} (ht : text ∈ serviceAdvertisePayload) :
      ∃ p ∈ tableParts, p.text = text.toList := by
    have hmem : text.toList ∈ tableParts.map Part.text := by
      rw [tableParts_text]
      exact List.mem_map_of_mem ht
    exact List.mem_map.mp hmem
  have hadvert : ∀ f ∈ frames.filter IsAdvert, ∃ text ∈ serviceAdvertisePayload, ∃ seq,
      f = advert node seq text := by
    intro f hf
    obtain ⟨hmem, hsid⟩ := List.mem_filter.mp hf
    exact (hfrom f hmem (of_decide_eq_true hsid)).advert (of_decide_eq_true hsid)
  have hpayloads : ∀ x ∈ (frames.filter IsAdvert).map BkelFrame.payload,
      ∃ p ∈ tableParts, x = utf8 p.text := by
    intro x hx
    obtain ⟨f, hf, rfl⟩ := List.mem_map.mp hx
    obtain ⟨text, ht, seq, rfl⟩ := hadvert f hf
    obtain ⟨p, hp, heq⟩ := htext ht
    exact ⟨p, hp, congrArg utf8 heq.symm⟩
  obtain ⟨parts, hsub, hparts⟩ := exists_parts hpayloads
  have hcomplete : ∀ p ∈ tableParts, p ∈ parts := by
    intro p hp
    have hmem : p.text ∈ serviceAdvertisePayload.map String.toList := by
      rw [← tableParts_text]
      exact List.mem_map_of_mem hp
    obtain ⟨text, ht, heq⟩ := List.mem_map.mp hmem
    obtain ⟨f, hf, hpayload⟩ := hall text ht
    have hin : f.payload ∈ parts.map (utf8 ∘ Part.text) := hparts ▸ List.mem_map_of_mem hf
    obtain ⟨q, hq, hqf⟩ := List.mem_map.mp hin
    have hsame : q.text = p.text := utf8_injective (hqf.trans (hpayload.trans (congrArg utf8 heq)))
    exact List.inj_on_of_nodup_map tableParts_nodup (hsub q hq) hp hsame ▸ hq
  have hreadable : ∀ p ∈ parts, p.Readable := fun p hp => tableParts_readable p (hsub p hp)
  have hnodes : ∀ f ∈ (frames.filter IsAdvert).map frameOf, f.sid = 0x01 ∧ f.cid = node := by
    intro f hf
    obtain ⟨g, hg, rfl⟩ := List.mem_map.mp hf
    obtain ⟨text, -, seq, rfl⟩ := hadvert g hg
    exact ⟨rfl, cid_cidOf hnode seq⟩
  have htexts : ((frames.filter IsAdvert).map frameOf).map Frame.payload =
      parts.map (utf8 ∘ Part.text) := by
    rw [List.map_map]
    exact hparts
  rw [foldl_handleFrame_filter, frames_lookup decimal replaced hreadable hnodes htexts]
  exact readBack_table hsub hcomplete sid

/-! ### From the MCU to the screen -/

/-- A client whose session was added before a round of advertisements began knows, once it has
received what is queued for it, exactly the services of the table: whatever answers and texts
the MCU sends before and after it, however the bytes are cut on their way, and whatever the
other sessions do. What the MCU sends goes out one after the other, and the gateway's terminal
reads the frames as they are sent. -/
theorem services_shown {s : State} (h : routing.Reachable s) {uid : Uid}
    {before after : List Sending} {txBuf : List UInt8}
    (hproper : ∀ x ∈ before ++ .advertise txBuf :: after, x.Proper) {flags : InputFlags}
    (hline : s.line =
      flags.uartInit.input (lineBytes uid {} (before ++ .advertise txBuf :: after)))
    (hpass : ∀ f ∈ items (packetParser.drain
        (lineBytes uid {} (before ++ .advertise txBuf :: after))).1,
      flags.uartInit.Passes (frameBytes f))
    (hfound : s.found = []) {cid : UInt16} {session : Session}
    (hsession : s.manager.findSession cid = some session)
    (hjoined : s.joined cid ≤ (items (packetParser.drain (lineBytes uid {} before)).1).length)
    {received : List PythonReader.Received} (hopen : PythonReader.StaysOpen received)
    (hbytes : PythonReader.bytesOf received = session.transport.txQueue.flatten) (sid : ℤ) :
    (servicesOf ((PythonReader.connected.readerLoop received).incoming.foldl
      (handleFrame decimal replaced) ∅) (CidState.node uid {}))[sid]? =
        (serviceTable.lookup sid).map String.toList := by
  have hinv := inv_of_reachable h
  have hnode : (CidState.node uid {}).toNat < 4096 := (fresh_node_range uid 0).2
  have hproperBefore : ∀ x ∈ before, x.Proper := fun x hx => hproper x (by simp [hx])
  have hproperAfter : ∀ x ∈ after, x.Proper := fun x hx => hproper x (by simp [hx])
  -- the frames on the line: those before the round, those of the round, those behind it
  obtain ⟨fBefore, st, hcBefore, hst, hsplit, -⟩ := carries_lineBytes uid hproperBefore {}
  have hbuf : txBuf.length = txBufSize := hproper (.advertise txBuf) (by simp)
  obtain ⟨fRound, hcRound, hpayloads, hsids, hst'⟩ :=
    carries_sendAdvertise uid (fun _ ht => ht) hbuf st
  obtain ⟨fAfter, -, hcAfter, -, -, -⟩ :=
    carries_lineBytes uid hproperAfter (sendAdvertise uid serviceAdvertisePayload txBuf st).2
  rw [hst'] at hcAfter
  rw [hst] at hcRound hcAfter
  have hcarries := hcBefore.append (hcRound.append hcAfter)
  have hall : Carries (CidState.node uid {})
      (lineBytes uid {} (before ++ .advertise txBuf :: after))
      (fBefore ++ (fRound ++ fAfter)) := by
    rw [hsplit]
    exact hcarries
  rw [hall.found_sent] at hpass
  have hhanded : s.handed = fBefore ++ (fRound ++ fAfter) := by
    have hparsed := hinv.parsed
    rw [hfound, List.append_nil, hline, hall.found_all hpass] at hparsed
    exact hparsed.symm
  have hcount : (items (packetParser.drain (lineBytes uid {} before)).1).length =
      fBefore.length := by rw [hcBefore.found_sent]
  -- what the session was sent of them
  obtain ⟨frames, hqueued, hsome, hadverts⟩ := hinv.heard cid session hsession
  have hsince : ∀ f ∈ fRound, f ∈ s.handed.drop (s.joined cid) := by
    intro f hf
    rw [hhanded, List.drop_append_of_le_length (by omega)]
    simp [hf]
  have hmem : ∀ f ∈ frames, f ∈ s.handed := fun f hf => List.mem_of_mem_drop (hsome.subset hf)
  have hencodable : ∀ f ∈ frames, Encodable f := fun f hf =>
    hinv.encodable (List.mem_append_left _ (hmem f hf))
  have hstream : PythonReader.bytesOf received = frames.flatMap frameBytes := by
    rw [hbytes, hqueued, List.flatMap_def]
  rw [incoming_frames hencodable hopen hstream]
  refine services_of_adverts decimal replaced hnode (fun f hf _ => ?_) (fun text ht => ?_) sid
  · exact hall.from_node f (hhanded ▸ hmem f hf)
  · have hpayload : utf8 text.toList ∈ fRound.map BkelFrame.payload :=
      hpayloads ▸ List.mem_map_of_mem ht
    obtain ⟨f, hf, hfp⟩ := List.mem_map.mp hpayload
    refine ⟨f, ?_, hfp⟩
    rw [hadverts]
    exact List.mem_filter.mpr ⟨hsince f hf, decide_eq_true (hsids f hf)⟩

/-- The round comes behind a text, whose end the terminal changes, and the gateway reads it in
two pieces. -/
theorem services_shown_round :
    ∃ (s : State) (session : Session), s.manager.findSession 7 = some session ∧
      (servicesOf ((PythonReader.connected.readerLoop
        [.timeout, .chunk session.transport.txQueue.flatten]).incoming.foldl
          (handleFrame (fun _ => none) (fun _ => [])) ∅) 7)[(0x26 : ℤ)]? =
            some "DIAG_LD2_PinState".toList := by
  let uid : Uid := ⟨1, 2, 4⟩
  let sendings : List Sending := [.text [0x4C, 0x44, 0x32, 0x0D, 0x0A]] ++
    .advertise (List.replicate 256 0) :: []
  let line := InputFlags.linux.uartInit.input (lineBytes uid {} sendings)
  obtain ⟨s, hs, hline, hfound, hjoined, hqueue⟩ := Machine.exists_reachable (M := routing)
    (fun s => s.line = line ∧ s.found = [] ∧ s.joined 7 = 0 ∧
      (s.manager.findSession 7).any (fun session => session.transport.txQueue.flatten ≠ []))
    ([.addSession 7 "10.0.0.7", .read (line.take 20), .onFrame, .read (line.drop 20)] ++
      List.replicate 12 .onFrame) (by decide +kernel)
  obtain ⟨session, hsession, hne⟩ := (Option.any_eq_true _ _).mp hqueue
  have hproper : ∀ x ∈ sendings, x.Proper := by decide +kernel
  have hreturn : ∀ f ∈ items (packetParser.drain (lineBytes uid {} sendings)).1,
      0x0D ∉ frameBytes f := by decide +kernel
  have hopen : PythonReader.StaysOpen [.timeout, .chunk session.transport.txQueue.flatten] := by
    simpa [PythonReader.StaysOpen] using hne
  have hshown := services_shown (fun _ => none) (fun _ => []) hs hproper hline
    (fun f hf => InputFlags.passes_linux (hreturn f hf)) hfound hsession (by simp [hjoined]) hopen
    (by simp [PythonReader.bytesOf]) 0x26
  rw [show CidState.node uid {} = 7 by decide] at hshown
  exact ⟨s, session, hsession, hshown.trans (by decide)⟩

end SomeIpGateway.ServiceDelivery
