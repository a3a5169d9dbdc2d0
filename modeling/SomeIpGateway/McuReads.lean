import SomeIpGateway.LoggedComputations
import SomeIpGateway.McuParser
import SomeIpGateway.McuDispatch
import SomeIpGateway.PausedScanning

/-!
# What the MCU's parser reads

`parse_one_frame` and `parse_packet` once more, with every read of memory logged: the
SOF, the copied header, the CID, the bytes under the CRC, the CRC itself, what
`handle_frame` copies of the payload, and the `memmove` at the end. The values are those
of the unlogged parser. The reads stay within the received bytes unless the scan comes to
a SOF that is the fourth byte from their end.
-/
namespace SomeIpGateway.McuReads
open ByteAccess StreamScanning FrameFormat McuParser McuHandlers LoggedComputations

/-- What `handle_frame` copies of the payload at the pointer. -/
def handleFrame (mem : List UInt8) (payload : ℕ) (f : BkelFrame) : Logged ℕ (List UInt8) :=
  if isValidDlc f.sid f.dlc ∧ 0 < f.dlc.toNat then
    Logged.cells mem payload (McuDispatch.CommonPacket.copyLen f.dlc)
  else pure []

/-- `parse_one_frame`, called with the pointer `buf`. -/
def parseOneFrame (mem : List UInt8) (buf bufLen : ℕ) : Logged ℕ ParseOutcome := do
  let sof ← Logged.cell mem buf 0
  if sof ≠ sofDataValue then pure ⟨.invalid, 1, none⟩
  else if bufLen < bkelHdrSize then pure ⟨.incomplete, 0, none⟩
  else do
    let hdr := readHeader (← Logged.cells mem (buf + bkelSofSize) bkelHdrSize)
    if bkelMaxDlc < hdr.dlc.toNat then pure ⟨.invalid, 1, none⟩
    else
      let frameLen := bkelSofSize + bkelHdrSize + hdr.dlc.toNat + bkelCidSize + bkelCrcSize
      if bufLen < frameLen then pure ⟨.incomplete, 0, none⟩
      else do
        let payload := buf + bkelSofSize + bkelHdrSize
        let cidPtr := payload + hdr.dlc.toNat
        let crcPtr := cidPtr + bkelCidSize
        let cid ← Logged.cells mem cidPtr bkelCidSize
        let span ← Logged.cells mem (buf + bkelSofSize)
          (bkelHdrSize + hdr.dlc.toNat + bkelCidSize)
        let got ← Logged.cell mem crcPtr 0
        if calcCrc8 span ≠ got then pure ⟨.invalid, 1, none⟩
        else do
          let f : BkelFrame := ⟨hdr.sid, hdr.type, hdr.dlc, u16At cid 0,
            (span.drop bkelHdrSize).take hdr.dlc.toNat⟩
          let _ ← handleFrame mem payload f
          pure ⟨.ok, frameLen, some f⟩

/-- Logging the reads changes nothing about the result. -/
theorem value_parseOneFrame (mem : List UInt8) (buf bufLen : ℕ) :
    (parseOneFrame mem buf bufLen).value = McuParser.parseOneFrame (mem.drop buf) bufLen := by
  have hsof : mem.getD buf 0 = u8At (mem.drop buf) 0 := by rw [u8At_drop, Nat.add_zero]; rfl
  have hheader : readHeader ((mem.drop (buf + bkelSofSize)).take bkelHdrSize) =
      readHeader ((mem.drop buf).drop bkelSofSize) := by
    rw [bkelHdrSize, readHeader_take, List.drop_drop]
  simp only [parseOneFrame, McuParser.parseOneFrame, Logged.value_ite, Logged.value_bind,
    Logged.value_cell, Logged.value_cells, Logged.value_pure, hheader, hsof]
  generalize readHeader ((mem.drop buf).drop bkelSofSize) = hdr
  have hcid : u16At ((mem.drop (buf + bkelSofSize + bkelHdrSize + hdr.dlc.toNat)).take
      bkelCidSize) 0 = u16At (((mem.drop buf).drop (bkelSofSize + bkelHdrSize)).drop
        hdr.dlc.toNat) 0 := by
    simp [u16At, u8At_take, bkelCidSize, List.drop_drop, Nat.add_assoc]
  have hcrc : mem.getD (buf + bkelSofSize + bkelHdrSize + hdr.dlc.toNat + bkelCidSize) 0 =
      u8At ((((mem.drop buf).drop (bkelSofSize + bkelHdrSize)).drop hdr.dlc.toNat).drop
        bkelCidSize) 0 := by
    simp [u8At, List.drop_drop, Nat.add_assoc]
  have hpayload : (((((mem.drop (buf + bkelSofSize)).take
      (bkelHdrSize + hdr.dlc.toNat + bkelCidSize))).drop bkelHdrSize).take hdr.dlc.toNat) =
      ((mem.drop buf).drop (bkelSofSize + bkelHdrSize)).take hdr.dlc.toNat := by
    simp only [List.drop_take, List.take_take, List.drop_drop, ← Nat.add_assoc]
    congr 1
    omega
  simp only [hcid, hcrc, hpayload, List.drop_drop]

theorem below_handleFrame (mem : List UInt8) {payload n : ℕ} {f : BkelFrame}
    (h : payload + f.dlc.toNat ≤ n) : (handleFrame mem payload f).Below n := by
  have hcopy : McuDispatch.CommonPacket.copyLen f.dlc ≤ f.dlc.toNat := by
    rw [McuDispatch.CommonPacket.copyLen]
    split_ifs <;> omega
  simp only [handleFrame, Logged.all_ite, Logged.below_cells, Logged.all_pure]
  split_ifs
  exact Or.inr (by omega)

/-- The reads stay below the end of the received bytes unless these are the first four
bytes of a frame. -/
theorem below_parseOneFrame (mem : List UInt8) {buf len : ℕ} (h : buf < len) :
    (parseOneFrame mem buf (len - buf)).Below len ↔
      ¬ (len - buf = 4 ∧ u8At mem buf = sofDataValue) := by
  have hfirst : mem.getD buf 0 = u8At mem buf := rfl
  simp only [parseOneFrame, Logged.all_ite, Logged.all_bind, Logged.below_cell,
    Logged.below_cells, Logged.all_pure, Logged.value_cell, Logged.value_cells, hfirst]
  generalize readHeader ((mem.drop (buf + bkelSofSize)).take bkelHdrSize) = hdr
  have hhdr : bkelHdrSize = 4 := rfl
  have hsize : bkelSofSize = 1 ∧ bkelCidSize = 2 ∧ bkelCrcSize = 1 := ⟨rfl, rfl, rfl⟩
  by_cases hsof : u8At mem buf = sofDataValue
  · rw [if_neg (not_not_intro hsof)]
    by_cases h4 : len - buf < bkelHdrSize
    · rw [if_pos h4]
      exact iff_of_true ⟨h, trivial⟩ fun hcut => by omega
    · rw [if_neg h4]
      by_cases hfour : len - buf = 4
      · exact iff_of_false (fun hall => by omega) (not_not_intro ⟨hfour, hsof⟩)
      · refine iff_of_true ⟨h, Or.inr (by omega), ?_⟩ fun hcut => hfour hcut.1
        split_ifs with hdlc hlen hcrc
        · exact ⟨Or.inr (by omega), Or.inr (by omega), by omega, trivial⟩
        · exact ⟨Or.inr (by omega), Or.inr (by omega), by omega,
            below_handleFrame mem (by dsimp only; omega), trivial⟩
  · rw [if_pos hsof]
    exact iff_of_true ⟨h, trivial⟩ fun hcut => hsof hcut.2

/-- The loop of `parse_packet`. -/
def parseLoop (mem : List UInt8) (len offset : ℕ) : Logged ℕ (List BkelFrame × ℕ) :=
  if offset < len then
    let r := parseOneFrame mem offset (len - offset)
    if _h : r.value.result = .incomplete then ⟨([], offset), r.log⟩
    else
      let rest := parseLoop mem len (offset + r.value.consumed)
      ⟨(r.value.handled.toList ++ rest.value.1, rest.value.2), r.log ++ rest.log⟩
  else pure ([], offset)
termination_by len - offset
decreasing_by
  have hpos := parseOneFrame_consumed_pos
    (show (McuParser.parseOneFrame (mem.drop offset) (len - offset)).result ≠ .incomplete by
      rw [← value_parseOneFrame]
      exact _h)
  rw [← value_parseOneFrame] at hpos
  omega

/-- `parse_packet` on a block of memory and what lies behind it. -/
def parsePacket (buf beyond : List UInt8) (len : ℕ) :
    Logged ℕ (List BkelFrame × List UInt8 × ℕ) := do
  let out ← parseLoop (buf ++ beyond) len 0
  if 0 < out.2 then do
    let moved ← Logged.cells (buf ++ beyond) out.2 (len - out.2)
    pure (out.1, store buf 0 moved, len - out.2)
  else pure (out.1, buf, len)

theorem value_parseLoop (mem : List UInt8) (len offset : ℕ) :
    (parseLoop mem len offset).value = McuParser.parseLoop mem len offset := by
  induction offset using parseLoop.induct mem len with
  | case1 offset hlt r hinc =>
    have hresult := hinc
    rw [value_parseOneFrame] at hresult
    rw [parseLoop, if_pos hlt, dif_pos hinc, McuParser.parseLoop, if_pos hlt, dif_pos hresult]
  | case2 offset hlt r hinc ih =>
    have hresult := hinc
    rw [value_parseOneFrame] at hresult
    rw [parseLoop, if_pos hlt, dif_neg hinc, McuParser.parseLoop, if_pos hlt, dif_neg hresult]
    simp only [r, value_parseOneFrame] at ih
    simp only [value_parseOneFrame, ih]
  | case3 offset hge =>
    rw [parseLoop, if_neg hge, McuParser.parseLoop, if_neg hge]
    rfl

theorem value_parsePacket {buf : List UInt8} (beyond : List UInt8) {len : ℕ}
    (h : len ≤ buf.length) :
    (parsePacket buf beyond len).value = McuParser.parsePacket buf beyond len := by
  have hmoved (offset : ℕ) : ((buf ++ beyond).drop offset).take (len - offset) =
      (buf.drop offset).take (len - offset) := by
    rw [← List.drop_take, ← List.drop_take, List.take_append_of_le_length h]
  simp only [parsePacket, McuParser.parsePacket, Logged.value_bind, Logged.value_ite,
    Logged.value_cells, Logged.value_pure, value_parseLoop, hmoved]

/-- The scan of the received bytes does not come to a SOF that is the fourth byte from
their end. -/
def HeaderWhole (received : List UInt8) : Prop :=
  ∀ rest, grammar.Visits received rest → rest.length = 4 → u8At rest 0 ≠ sofDataValue

/-- In front of the first four bytes of a frame the grammar waits. -/
theorem look_of_cut {rest : List UInt8} (hlen : rest.length = 4)
    (hsof : u8At rest 0 = sofDataValue) : grammar.look rest = .wait := by
  have hne : rest ≠ [] := by rintro rfl; simp at hlen
  have hshort : rest.length < 5 := by omega
  simp [frameScanner, verdict, hsof, hshort]

theorem not_cut_of_look {received : List UInt8} (h : grammar.look received ≠ .wait) :
    ¬ (received.length = 4 ∧ u8At received 0 = sofDataValue) :=
  fun hcut => h (look_of_cut hcut.1 hcut.2)

theorem headerWhole_of_wait {received : List UInt8} (h : grammar.look received = .wait) :
    HeaderWhole received ↔ ¬ (received.length = 4 ∧ u8At received 0 = sofDataValue) := by
  constructor
  · intro hwhole hcut
    exact hwhole received (.refl received) hcut.1 hcut.2
  · intro hcut rest hvisits hlen hsof
    cases hvisits with
    | refl => exact hcut ⟨hlen, hsof⟩
    | skip hlook => rw [h] at hlook; cases hlook
    | take hlook => rw [h] at hlook; cases hlook

theorem headerWhole_of_skip {received : List UInt8} (h : grammar.look received = .skip) :
    HeaderWhole received ↔ HeaderWhole (received.drop 1) := by
  constructor
  · exact fun hwhole rest hvisits => hwhole rest (.skip h hvisits)
  · intro hwhole rest hvisits hlen hsof
    cases hvisits with
    | refl => exact not_cut_of_look (h.trans_ne (by simp)) ⟨hlen, hsof⟩
    | skip _ hvisits => exact hwhole rest hvisits hlen hsof
    | take hlook => rw [h] at hlook; cases hlook

theorem headerWhole_of_take {received : List UInt8} {n : ℕ} {f : BkelFrame}
    (h : grammar.look received = .take n f) :
    HeaderWhole received ↔ HeaderWhole (received.drop n) := by
  constructor
  · exact fun hwhole rest hvisits => hwhole rest (.take h hvisits)
  · intro hwhole rest hvisits hlen hsof
    cases hvisits with
    | refl => exact not_cut_of_look (h.trans_ne (by simp)) ⟨hlen, hsof⟩
    | skip hlook => rw [h] at hlook; cases hlook
    | take hlook hvisits =>
      obtain ⟨rfl, -⟩ := (Verdict.take.injEq ..).mp (h.symm.trans hlook)
      exact hwhole rest hvisits hlen hsof

/-- The loop reads within the received bytes if its first turn does, and the turns after
that one. -/
theorem below_parseLoop_turn (mem : List UInt8) {len offset : ℕ} (hlt : offset < len) :
    (parseLoop mem len offset).Below len ↔
      ¬ (len - offset = 4 ∧ u8At mem offset = sofDataValue) ∧
      ((McuParser.parseOneFrame (mem.drop offset) (len - offset)).result ≠ .incomplete →
        (parseLoop mem len (offset +
          (McuParser.parseOneFrame (mem.drop offset) (len - offset)).consumed)).Below len) := by
  rw [← below_parseOneFrame mem hlt, ← value_parseOneFrame]
  rw [parseLoop, if_pos hlt]
  dsimp only
  split_ifs with hinc
  · simp only [hinc, ne_eq, not_true_eq_false, false_implies, and_true]
    rfl
  · simp only [Logged.Below, Logged.All, List.mem_append, or_imp, forall_and, ne_eq, hinc,
      not_false_eq_true, true_implies]

/-- The loop of `parse_packet`, started behind bytes already consumed, reads within the
received bytes exactly if no header is cut. -/
theorem below_parseLoop (done received beyond : List UInt8) :
    (parseLoop (done ++ (received ++ beyond)) (done.length + received.length)
      done.length).Below (done.length + received.length) ↔ HeaderWhole received := by
  induction hn : received.length using Nat.strong_induction_on generalizing done received with
  | h k ih =>
    subst hn
    have next (m : ℕ) (hm : 0 < m) (hle : m ≤ received.length) :
        (parseLoop (done ++ (received ++ beyond)) (done.length + received.length)
          (done.length + m)).Below (done.length + received.length) ↔
            HeaderWhole (received.drop m) := by
      have h := ih (received.drop m).length (by rw [List.length_drop]; omega)
        (done ++ received.take m) (received.drop m) rfl
      rw [List.length_append, List.length_take_of_le hle, List.append_assoc,
        ← List.append_assoc (received.take m), List.take_append_drop, List.length_drop] at h
      rwa [show done.length + m + (received.length - m) = done.length + received.length by omega]
        at h
    by_cases hne : received = []
    · subst hne
      have hwait := headerWhole_of_wait grammar.look_nil
      rw [parseLoop, if_neg (by simp), hwait]
      simp
    · have hpos := List.length_pos_of_ne_nil hne
      have hlen : done.length + received.length - done.length = received.length := by omega
      have hfirst : u8At (done ++ (received ++ beyond)) done.length = u8At received 0 := by
        rw [← u8At_append_left hpos beyond]
        exact u8At_append_right done (received ++ beyond) 0
      rw [below_parseLoop_turn _ (by omega), List.drop_left, hlen, hfirst,
        parseOneFrame_eq hne beyond]
      cases hv : verdict bkelMaxDlc received with
      | wait =>
        rw [headerWhole_of_wait hv, and_iff_left_iff_imp]
        intro hcut hresult
        dsimp only at hresult
        split_ifs at hresult with hheader
        · have hsof := (of_verdict_wait hv hne).1
          exact absurd ⟨hheader.1, hsof⟩ hcut
        · exact absurd rfl hresult
      | skip =>
        have hcut := not_cut_of_look (hv.trans_ne (by simp))
        rw [headerWhole_of_skip hv, and_iff_right hcut, ← next 1 (by omega) (by omega)]
        exact forall_prop_of_true (by simp)
      | take n f =>
        have hcut := not_cut_of_look (hv.trans_ne (by simp))
        rw [headerWhole_of_take hv, and_iff_right hcut,
          ← next n (grammar.take_pos hv) (grammar.take_le hv)]
        exact forall_prop_of_true (by simp)

theorem below_parsePacket (received stale beyond : List UInt8) :
    (parsePacket (received ++ stale) beyond received.length).Below received.length ↔
      HeaderWhole received := by
  have hloop := below_parseLoop [] received (stale ++ beyond)
  simp only [List.nil_append, List.length_nil, Nat.zero_add, ← List.append_assoc] at hloop
  simp only [parsePacket, Logged.all_bind, Logged.all_ite, Logged.below_cells,
    Logged.all_pure, hloop, and_iff_left_iff_imp]
  intro _
  -- the `memmove` reads what is left of the received bytes
  split_ifs
  exact ⟨by omega, trivial⟩

theorem visits_rest (buf : List UInt8) : grammar.Visits buf (grammar.drain buf).2 := by
  induction buf using grammar.drain_induction with
  | wait buf h => rw [grammar.drain_of_wait h]; exact .refl buf
  | skip buf h ih => rw [grammar.drain_of_skip h]; exact .skip h ih
  | take buf n f h ih => rw [grammar.drain_of_take h]; exact .take h ih

/-- Where no header is cut, `parse_packet` keeps what the grammar leaves. -/
theorem HeaderWhole.kept_eq {received : List UInt8} (h : HeaderWhole received)
    (beyond : List UInt8) : kept received beyond = (grammar.drain received).2 := by
  rw [kept, if_neg]
  intro hcut
  have hne : (grammar.drain received).2 ≠ [] := by
    intro hnil
    have h4 := hcut.1
    rw [hnil] at h4
    cases h4
  exact h _ (visits_rest received) hcut.1 (of_verdict_wait (grammar.look_rest received) hne).1

/-- What holds of a call of `parse_packet` on a buffer and a number of received bytes: every
read is of a received byte, and another buffer with the same received bytes, whatever lies
behind either, gives the same frames, the same length and the same remaining bytes. -/
structure ReadsReceived (buf beyond : List UInt8) (len : ℕ) : Prop where
  below : (parsePacket buf beyond len).Below len
  same : ∀ buf' beyond', buf'.length = rxBufSize → buf'.take len = buf.take len →
    (parsePacket buf' beyond' len).value.1 = (parsePacket buf beyond len).value.1 ∧
    (parsePacket buf' beyond' len).value.2.2 = (parsePacket buf beyond len).value.2.2 ∧
    (parsePacket buf' beyond' len).value.2.1.take (parsePacket buf' beyond' len).value.2.2 =
      (parsePacket buf beyond len).value.2.1.take (parsePacket buf beyond len).value.2.2

/-- The result of `parse_packet` where no header is cut. -/
theorem HeaderWhole.parsePacket_eq {buf : List UInt8} {len : ℕ} (hlen : len ≤ buf.length)
    (h : HeaderWhole (buf.take len)) (beyond : List UInt8) :
    (parsePacket buf beyond len).value.1 = items (grammar.drain (buf.take len)).1 ∧
    (parsePacket buf beyond len).value.2.2 = (grammar.drain (buf.take len)).2.length ∧
    (parsePacket buf beyond len).value.2.1.take (parsePacket buf beyond len).value.2.2 =
      (grammar.drain (buf.take len)).2 := by
  have heq := McuParser.parsePacket_eq (buf.take len) (buf.drop len) beyond
  rw [List.take_append_drop, List.length_take_of_le hlen, h.kept_eq] at heq
  have htake := take_store (Nat.zero_le buf.length) (grammar.drain (buf.take len)).2
  rw [Nat.zero_add, List.take_zero, List.nil_append] at htake
  rw [value_parsePacket beyond hlen, heq]
  exact ⟨rfl, rfl, htake⟩

/-- `parse_packet` looks at received bytes only, and so never past the end of `rx_buf`,
exactly if the scan of these bytes does not come to a SOF that is the fourth from their
end. -/
theorem reads_received_iff {buf : List UInt8} {len : ℕ} (hbuf : buf.length = rxBufSize)
    (hlen : len ≤ rxBufSize) (beyond : List UInt8) :
    ReadsReceived buf beyond len ↔ HeaderWhole (buf.take len) := by
  have hle : len ≤ buf.length := hlen.trans_eq hbuf.symm
  have hbelow := below_parsePacket (buf.take len) (buf.drop len) beyond
  rw [List.take_append_drop, List.length_take_of_le hle] at hbelow
  constructor
  · exact fun h => hbelow.mp h.below
  · intro hwhole
    refine ⟨hbelow.mpr hwhole, fun buf' beyond' hbuf' hsame => ?_⟩
    have hle' : len ≤ buf'.length := hlen.trans_eq hbuf'.symm
    obtain ⟨hframes, hrest, hbytes⟩ := hwhole.parsePacket_eq hle beyond
    rw [← hsame] at hwhole
    obtain ⟨hframes', hrest', hbytes'⟩ := hwhole.parsePacket_eq hle' beyond'
    rw [hsame] at hframes' hrest' hbytes'
    exact ⟨hframes'.trans hframes.symm, hrest'.trans hrest.symm, hbytes'.trans hbytes.symm⟩

/-- Five bytes of a frame in front of old ones are read without looking at these. -/
theorem reads_received_iff_header :
    ReadsReceived ([0xAA, 0x24, 1, 8, 0] ++ List.replicate 507 0xFF) [] 5 :=
  (reads_received_iff (by decide +kernel) (by decide) []).mpr
    ((headerWhole_of_wait (by decide +kernel)).mpr (by decide +kernel))

/-- With four bytes of a frame received, the high byte of its DLC is read from behind them. -/
theorem header_read_past_received :
    ∃ buf : List UInt8, buf.length = rxBufSize ∧ ¬ ReadsReceived buf [] 4 := by
  refine ⟨[0xAA, 0x24, 1, 8, 0] ++ List.replicate 507 0, by decide +kernel, ?_⟩
  intro h
  have hread : 4 ∈ (parsePacket ([0xAA, 0x24, 1, 8, 0] ++ List.replicate 507 0) [] 4).log := by
    decide +kernel
  exact lt_irrefl 4 (h.below 4 hread)

end SomeIpGateway.McuReads
