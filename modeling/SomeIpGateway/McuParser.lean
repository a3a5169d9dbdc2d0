import SomeIpGateway.PacketCodec

/-!
# The MCU's parser

`parse_one_frame`, `parse_packet` and the receive loop of `f_handleCommandTask`.
The header test of `parse_one_frame` passes with four bytes although the DLC ends
at the fifth, so what follows the received bytes in memory takes part in the
decision. The 512 bytes of `rx_buf` are therefore kept whole, and so is the memory
behind them.
-/
namespace SomeIpGateway.McuParser
open ByteAccess StreamScanning FrameFormat

/-- `BKEL_MAX_DLC` of the MCU. -/
def bkelMaxDlc : ℕ := 500

/-- `sizeof(rx_buf)`. -/
def rxBufSize : ℕ := 512

/-- `BKEL_PARSE_RESULT_e`. -/
inductive ParseResult where
  | ok
  | incomplete
  | invalid
  deriving Repr, DecidableEq

/-- What `parse_one_frame` returns, stores in `*consumed` and passes to `handle_frame`. -/
structure ParseOutcome where
  result : ParseResult
  consumed : ℕ
  handled : Option BkelFrame
  deriving Repr, DecidableEq

/-- `parse_one_frame`. The pointer is the whole memory from `buf` on; only the
first `bufLen` bytes have been received. -/
def parseOneFrame (buf : List UInt8) (bufLen : ℕ) : ParseOutcome :=
  if u8At buf 0 ≠ sofDataValue then ⟨.invalid, 1, none⟩
  else if bufLen < bkelHdrSize then ⟨.incomplete, 0, none⟩
  else
    let hdr := readHeader (buf.drop bkelSofSize)
    if bkelMaxDlc < hdr.dlc.toNat then ⟨.invalid, 1, none⟩
    else
      let frameLen := bkelSofSize + bkelHdrSize + hdr.dlc.toNat + bkelCidSize + bkelCrcSize
      if bufLen < frameLen then ⟨.incomplete, 0, none⟩
      else
        let payload := buf.drop (bkelSofSize + bkelHdrSize)
        let cidPtr := payload.drop hdr.dlc.toNat
        let crcPtr := cidPtr.drop bkelCidSize
        let cid := u16At cidPtr 0
        let expected := calcCrc8 ((buf.drop bkelSofSize).take
          (bkelHdrSize + hdr.dlc.toNat + bkelCidSize))
        let got := u8At crcPtr 0
        if expected ≠ got then ⟨.invalid, 1, none⟩
        else ⟨.ok, frameLen, some ⟨hdr.sid, hdr.type, hdr.dlc, cid, payload.take hdr.dlc.toNat⟩⟩

/-- The parser at its limit on the DLC, were it to wait for the whole header. -/
abbrev grammar : Scanner UInt8 BkelFrame := frameScanner bkelMaxDlc

/-- Four bytes of a frame are there, and the fifth, left in memory from earlier,
makes the DLC exceed the limit. -/
def HeaderCut (received beyond : List UInt8) : Prop :=
  received.length = 4 ∧ bkelMaxDlc < dlcAt (received ++ beyond)

instance (received beyond : List UInt8) : Decidable (HeaderCut received beyond) :=
  inferInstanceAs (Decidable (_ ∧ _))

theorem HeaderCut.iff_bytes {received beyond : List UInt8} :
    HeaderCut received beyond ↔ received.length = 4 ∧
      bkelMaxDlc < (u16OfBytes (u8At received 3) (u8At beyond 0)).toNat := by
  refine and_congr_right fun h4 => ?_
  have hhigh := u8At_append_right received beyond 0
  rw [h4] at hhigh
  rw [dlcAt, u16At, u8At_append_left (by omega), hhigh]

/-- `parse_one_frame`, read off the offsets of the frame format. -/
theorem parseOneFrame_unfold (buf : List UInt8) (bufLen : ℕ) :
    parseOneFrame buf bufLen =
      if u8At buf 0 ≠ sofDataValue then ⟨.invalid, 1, none⟩
      else if bufLen < 4 then ⟨.incomplete, 0, none⟩
      else if bkelMaxDlc < dlcAt buf then ⟨.invalid, 1, none⟩
      else if bufLen < dlcAt buf + 8 then ⟨.incomplete, 0, none⟩
      else if crcMatches buf then ⟨.ok, dlcAt buf + 8, some (frameAt buf)⟩
      else ⟨.invalid, 1, none⟩ := by
  have hlen : 1 + 4 + (u16At buf 3).toNat + 2 + 1 = dlcAt buf + 8 := by rw [dlcAt]; omega
  have hspan : 4 + (u16At buf 3).toNat + 2 = dlcAt buf + 6 := by rw [dlcAt]; omega
  have hcid : u16At ((buf.drop 5).drop (u16At buf 3).toNat) 0 = u16At buf (5 + dlcAt buf) := by
    simp [u16At, u8At_drop, dlcAt, Nat.add_assoc]
  have hcrc : u8At (((buf.drop 5).drop (u16At buf 3).toNat).drop 2) 0 =
      u8At buf (dlcAt buf + 7) := by
    simp only [u8At_drop, dlcAt]
    congr 1
    omega
  simp only [parseOneFrame, bkelSofSize, bkelHdrSize, bkelCidSize, bkelCrcSize, readHeader_drop,
    Nat.reduceAdd, hlen, hspan, hcid, hcrc, crcMatches, ne_eq, ite_not, eq_comm (a := calcCrc8 _)]
  rfl

/-- `parse_one_frame` decides as the grammar does on the received bytes, except
that it rejects a cut header where the grammar waits. -/
theorem parseOneFrame_eq {received : List UInt8} (hne : received ≠ []) (beyond : List UInt8) :
    parseOneFrame (received ++ beyond) received.length =
      match verdict bkelMaxDlc received with
      | .wait => if HeaderCut received beyond then ⟨.invalid, 1, none⟩ else ⟨.incomplete, 0, none⟩
      | .skip => ⟨.invalid, 1, none⟩
      | .take n f => ⟨.ok, n, some f⟩ := by
  have h0 := u8At_append_left (List.length_pos_of_ne_nil hne) beyond
  rw [parseOneFrame_unfold, h0]
  by_cases hsof : u8At received 0 = sofDataValue
  · by_cases h5 : received.length < 5
    · have hwait : verdict bkelMaxDlc received = .wait := by simp [verdict, hsof, h5]
      have hshort : received.length < dlcAt (received ++ beyond) + 8 := by omega
      simp only [hwait, hsof, HeaderCut, ne_eq, not_true_eq_false, if_false, hshort, if_true]
      by_cases h4 : received.length < 4
      · simp [h4, Nat.ne_of_lt h4]
      · simp [show received.length = 4 by omega]
    · have hd := dlcAt_append (Nat.le_of_not_lt h5) beyond
      have h4 : ¬ received.length < 4 := by omega
      simp only [verdict, hne, hsof, h5, h4, hd, ne_eq, not_true_eq_false, if_false]
      by_cases hdlc : bkelMaxDlc < dlcAt received
      · simp [hdlc]
      · by_cases hlen : received.length < dlcAt received + 8
        · simp [hdlc, hlen, HeaderCut, hd]
        · have hfit := Nat.le_of_not_lt hlen
          simp only [hdlc, hlen, if_false, crcMatches_append hfit, frameAt_append hfit]
          by_cases hcrc : crcMatches received <;> simp [hcrc]
  · simp [verdict, hne, hsof]

theorem parseOneFrame_consumed_pos {buf : List UInt8} {bufLen : ℕ}
    (h : (parseOneFrame buf bufLen).result ≠ .incomplete) :
    0 < (parseOneFrame buf bufLen).consumed := by
  rw [parseOneFrame_unfold] at h ⊢
  split_ifs at h ⊢ <;> simp_all

/-- The loop of `parse_packet` over the memory from `buf` on: the frames handled
and the final offset. -/
def parseLoop (buf : List UInt8) (len offset : ℕ) : List BkelFrame × ℕ :=
  if offset < len then
    let r := parseOneFrame (buf.drop offset) (len - offset)
    if _h : r.result = .incomplete then ([], offset)
    else
      let rest := parseLoop buf len (offset + r.consumed)
      (r.handled.toList ++ rest.1, rest.2)
  else ([], offset)
termination_by len - offset
decreasing_by
  have := parseOneFrame_consumed_pos _h
  omega

/-- What `parse_packet` keeps of the received bytes: what the grammar leaves, or,
behind a cut header, what it leaves of the three bytes after the rejected SOF. -/
def kept (received beyond : List UInt8) : List UInt8 :=
  let rest := (grammar.drain received).2
  if HeaderCut rest beyond then (grammar.drain (rest.drop 1)).2 else rest

/-- The number of bytes that the frames handled take up on the wire. -/
def handledBytes (frames : List BkelFrame) : ℕ := (frames.map BkelFrame.size).sum

@[simp] theorem handledBytes_append (a b : List BkelFrame) :
    handledBytes (a ++ b) = handledBytes a + handledBytes b := by simp [handledBytes]

@[simp] theorem handledBytes_cons (f : BkelFrame) (frames : List BkelFrame) :
    handledBytes (f :: frames) = f.size + handledBytes frames := by simp [handledBytes]

/-- The bytes of the frames found and the bytes left fit in the input. -/
theorem size_drain_le (buf : List UInt8) :
    handledBytes (items (grammar.drain buf).1) + (grammar.drain buf).2.length ≤ buf.length := by
  induction buf using grammar.drain_induction with
  | wait buf h => simp [grammar.drain_of_wait h, handledBytes]
  | skip buf h ih =>
    have hlt := grammar.length_drop_of_skip h
    rw [grammar.drain_of_skip h, items_cons_none]
    dsimp only
    omega
  | take buf n f h ih =>
    obtain ⟨hacc, rfl, rfl⟩ := of_verdict_take h
    have hc := hacc.complete
    have hsize : (frameAt buf).size = dlcAt buf + 8 := rfl
    rw [List.length_drop] at ih
    rw [grammar.drain_of_take h, items_cons_some, handledBytes_cons, hsize]
    dsimp only
    omega

theorem size_pos (f : BkelFrame) : 8 ≤ f.size := Nat.le_add_left 8 _

theorem items_drain_short {buf : List UInt8} (h : buf.length < 8) :
    items (grammar.drain buf).1 = [] := by
  have hsize := size_drain_le buf
  cases hi : items (grammar.drain buf).1 with
  | nil => rfl
  | cons f fs =>
    have hf := size_pos f
    rw [hi, handledBytes_cons] at hsize
    omega

theorem drain_suffix (buf : List UInt8) : (grammar.drain buf).2 <:+ buf :=
  ⟨_, grammar.erased_drain buf⟩

theorem kept_suffix (received beyond : List UInt8) : kept received beyond <:+ received := by
  rw [kept]
  split_ifs
  · exact (drain_suffix _).trans ((List.drop_suffix 1 _).trans (drain_suffix received))
  · exact drain_suffix received

theorem kept_of_short {received beyond : List UInt8} (h : received.length < 4) :
    kept received beyond = (grammar.drain received).2 := by
  have hle := (drain_suffix received).length_le
  rw [kept, if_neg]
  rintro ⟨h4, -⟩
  omega

/-- A cut header costs at least one byte. -/
theorem length_kept_lt {received beyond : List UInt8}
    (h : HeaderCut (grammar.drain received).2 beyond) :
    (kept received beyond).length < (grammar.drain received).2.length := by
  have hle := (drain_suffix ((grammar.drain received).2.drop 1)).length_le
  have h4 := h.1
  rw [List.length_drop] at hle
  rw [kept, if_pos h]
  omega

/-- The loop of `parse_packet`, started behind bytes already consumed. -/
theorem parseLoop_eq (done received beyond : List UInt8) :
    parseLoop (done ++ (received ++ beyond)) (done.length + received.length) done.length =
      (items (grammar.drain received).1,
        done.length + (received.length - (kept received beyond).length)) := by
  induction hn : received.length using Nat.strong_induction_on generalizing done received with
  | h k ih =>
    subst hn
    -- one turn that consumes a prefix leads to the loop behind that prefix
    have next (m : ℕ) (hm : 0 < m) (hle : m ≤ received.length) :
        parseLoop (done ++ (received ++ beyond)) (done.length + received.length)
          (done.length + m) = (items (grammar.drain (received.drop m)).1,
            done.length + (received.length - (kept (received.drop m) beyond).length)) := by
      have hkept := (kept_suffix (received.drop m) beyond).length_le
      have h := ih (received.drop m).length (by rw [List.length_drop]; omega)
        (done ++ received.take m) (received.drop m) rfl
      rw [List.length_append, List.length_take_of_le hle] at h
      rw [List.append_assoc, ← List.append_assoc (received.take m), List.take_append_drop] at h
      rw [List.length_drop] at h hkept
      rw [show done.length + m + (received.length - m) = done.length + received.length by omega]
        at h
      rw [h]
      congr 1
      omega
    by_cases hne : received = []
    · subst hne
      rw [parseLoop]
      simp
    · have hpos := List.length_pos_of_ne_nil hne
      have hone := parseOneFrame_eq hne beyond
      rw [parseLoop, if_pos (by omega)]
      simp only [List.drop_left, Nat.add_sub_cancel_left, hone]
      cases hv : verdict bkelMaxDlc received with
      | wait =>
        have hdrain : grammar.drain received = ([], received) := grammar.drain_of_wait hv
        by_cases hcut : HeaderCut received beyond
        · have h4 := hcut.1
          have hshort : (received.drop 1).length < 4 := by rw [List.length_drop]; omega
          have hkept : kept received beyond = kept (received.drop 1) beyond := by
            rw [kept_of_short hshort, kept, hdrain, if_pos hcut]
          have hitems := items_drain_short (lt_trans hshort (by decide : 4 < 8))
          simp [-List.drop_one, hcut, next 1 (by omega) (by omega), hdrain, hkept, hitems]
        · simp [hcut, hdrain, kept]
      | skip =>
        have hdrain := grammar.drain_of_skip hv
        have hkept : kept received beyond = kept (received.drop 1) beyond := by
          simp only [kept, hdrain]
        simp [-List.drop_one, next 1 (by omega) (by omega), hdrain, hkept]
      | take n f =>
        have hdrain := grammar.drain_of_take hv
        have hkept : kept received beyond = kept (received.drop n) beyond := by
          simp only [kept, hdrain]
        simp [next n (grammar.take_pos hv) (grammar.take_le hv), hdrain, hkept]

/-- `parse_packet` on a block of memory and what lies behind it: the frames
handled, the block after the `memmove`, and the new `*len`. -/
def parsePacket (buf beyond : List UInt8) (len : ℕ) : List BkelFrame × List UInt8 × ℕ :=
  let (handled, offset) := parseLoop (buf ++ beyond) len 0
  if 0 < offset then
    (handled, store buf 0 ((buf.drop offset).take (len - offset)), len - offset)
  else (handled, buf, len)

theorem parsePacket_eq (received stale beyond : List UInt8) :
    parsePacket (received ++ stale) beyond received.length =
      (items (grammar.drain received).1,
        store (received ++ stale) 0 (kept received (stale ++ beyond)),
        (kept received (stale ++ beyond)).length) := by
  have hloop := parseLoop_eq [] received (stale ++ beyond)
  simp only [List.nil_append, List.length_nil, Nat.zero_add, ← List.append_assoc] at hloop
  obtain ⟨front, hfront⟩ := kept_suffix received (stale ++ beyond)
  generalize hk : kept received (stale ++ beyond) = rest at hloop hfront ⊢
  subst hfront
  rw [List.length_append, Nat.add_sub_cancel] at hloop
  simp only [parsePacket, List.length_append, hloop, Nat.add_sub_cancel_left]
  split_ifs with hpos
  · simp [List.append_assoc]
  · have hnil : front = [] := List.eq_nil_of_length_eq_zero (by omega)
    simp [hnil, store]

/-- The static variables of `f_handleCommandTask`. -/
structure CommandTask where
  rxBuf : List UInt8
  rxLen : ℕ
  size : rxBuf.length = rxBufSize
  fits : rxLen ≤ rxBufSize

namespace CommandTask

/-- Zero-initialised statics. -/
def init : CommandTask := ⟨List.replicate rxBufSize 0, 0, List.length_replicate, Nat.zero_le _⟩

/-- The bytes received and not yet parsed. -/
def held (st : CommandTask) : List UInt8 := st.rxBuf.take st.rxLen

theorem length_held (st : CommandTask) : st.held.length = st.rxLen := by
  rw [held, List.length_take, st.size, Nat.min_eq_left st.fits]

end CommandTask

theorem parsePacket_fits {buf : List UInt8} {len : ℕ} (h : len ≤ buf.length)
    (beyond : List UInt8) :
    (parsePacket buf beyond len).2.1.length = buf.length ∧
      (parsePacket buf beyond len).2.2 ≤ buf.length := by
  have hlen : (buf.take len).length = len := List.length_take_of_le h
  have heq := parsePacket_eq (buf.take len) (buf.drop len) beyond
  have hkept := (kept_suffix (buf.take len) (buf.drop len ++ beyond)).length_le
  rw [List.take_append_drop, hlen] at heq
  rw [hlen] at hkept
  rw [heq]
  exact ⟨length_store (by omega), by dsimp only; omega⟩

/-- One turn of the loop of `f_handleCommandTask`: the chunk received into `temp`
and the memory behind `rx_buf` at that moment. -/
def receive (st : CommandTask) (temp beyond : List UInt8) : List BkelFrame × CommandTask :=
  if 0 < temp.length then
    if h : rxBufSize < st.rxLen + temp.length then
      ([], { st with rxLen := 0, fits := Nat.zero_le _ })
    else
      let rxBuf := store st.rxBuf st.rxLen temp
      have hsize : rxBuf.length = rxBufSize :=
        (length_store (by rw [st.size]; omega)).trans st.size
      have hfits := parsePacket_fits (show st.rxLen + temp.length ≤ rxBuf.length by omega) beyond
      let out := parsePacket rxBuf beyond (st.rxLen + temp.length)
      (out.1, ⟨out.2.1, out.2.2, hfits.1.trans hsize, hfits.2.trans_eq hsize⟩)
  else ([], st)

/-- Successive turns of the loop: every call of `handle_frame`, and the statics. -/
def run (beyond : ℕ → List UInt8) (st : CommandTask) :
    List (List UInt8) → List BkelFrame × CommandTask
  | [] => ([], st)
  | temp :: chunks =>
    let first := receive st temp (beyond 0)
    let rest := run (fun i => beyond (i + 1)) first.2 chunks
    (first.1 ++ rest.1, rest.2)

theorem run_append (beyond : ℕ → List UInt8) (st : CommandTask) (a b : List (List UInt8)) :
    run beyond st (a ++ b) =
      ((run beyond st a).1 ++ (run (fun i => beyond (a.length + i)) (run beyond st a).2 b).1,
        (run (fun i => beyond (a.length + i)) (run beyond st a).2 b).2) := by
  induction a generalizing beyond st with
  | nil => simp [run]
  | cons temp a ih =>
    simp only [List.cons_append, run, ih, List.length_cons, List.append_assoc]
    simp only [Nat.add_assoc, Nat.add_comm 1]

/-- What one turn does with a chunk that does not overflow the buffer. -/
theorem receive_eq (st : CommandTask) {temp : List UInt8} (hpos : 0 < temp.length)
    (hroom : st.rxLen + temp.length ≤ rxBufSize) (beyond : List UInt8) :
    let stale := st.rxBuf.drop (st.rxLen + temp.length)
    let rest := kept (st.held ++ temp) (stale ++ beyond)
    (receive st temp beyond).1 = items (grammar.drain (st.held ++ temp)).1 ∧
    (receive st temp beyond).2.rxBuf = store (st.held ++ temp ++ stale) 0 rest ∧
    (receive st temp beyond).2.rxLen = rest.length := by
  have hlen : (st.held ++ temp).length = st.rxLen + temp.length := by
    rw [List.length_append, st.length_held]
  have hout := parsePacket_eq (st.held ++ temp) (st.rxBuf.drop (st.rxLen + temp.length)) beyond
  have hstore : store st.rxBuf st.rxLen temp =
      st.held ++ temp ++ st.rxBuf.drop (st.rxLen + temp.length) := rfl
  rw [hlen, ← hstore] at hout
  simp only [receive, if_pos hpos, dif_neg (not_lt.mpr hroom), hout]
  exact ⟨trivial, rfl, trivial⟩

theorem receive_overflow (st : CommandTask) {temp : List UInt8} (hpos : 0 < temp.length)
    (hroom : rxBufSize < st.rxLen + temp.length) (beyond : List UInt8) :
    (receive st temp beyond).1 = [] ∧ (receive st temp beyond).2.rxLen = 0 := by
  simp [receive, hpos, hroom]

/-! ### Byte accounting -/

/-- No turn creates bytes. -/
theorem receive_size_le (st : CommandTask) (temp beyond : List UInt8) :
    handledBytes (receive st temp beyond).1 + (receive st temp beyond).2.rxLen ≤
      st.rxLen + temp.length := by
  by_cases hpos : 0 < temp.length
  · by_cases hroom : st.rxLen + temp.length ≤ rxBufSize
    · obtain ⟨hh, -, hl⟩ := receive_eq st hpos hroom beyond
      have hsize := size_drain_le (st.held ++ temp)
      have hk : (kept (st.held ++ temp) (st.rxBuf.drop (st.rxLen + temp.length) ++ beyond)).length ≤
          (grammar.drain (st.held ++ temp)).2.length := by
        by_cases hcut : HeaderCut (grammar.drain (st.held ++ temp)).2
            (st.rxBuf.drop (st.rxLen + temp.length) ++ beyond)
        · exact (length_kept_lt hcut).le
        · rw [kept, if_neg hcut]
      rw [List.length_append, st.length_held] at hsize
      rw [hh, hl]
      omega
    · obtain ⟨hh, hl⟩ := receive_overflow st hpos (not_le.mp hroom) beyond
      rw [hh, hl]
      exact Nat.zero_le _
  · simp [receive, hpos, handledBytes]

theorem run_size_le (beyond : ℕ → List UInt8) (st : CommandTask) (chunks : List (List UInt8)) :
    handledBytes (run beyond st chunks).1 + (run beyond st chunks).2.rxLen ≤
      st.rxLen + chunks.flatten.length := by
  induction chunks generalizing beyond st with
  | nil => simp [run, handledBytes]
  | cons temp chunks ih =>
    have hfirst := receive_size_le st temp (beyond 0)
    have hrest := ih (fun i => beyond (i + 1)) (receive st temp (beyond 0)).2
    simp only [run, handledBytes_append, List.flatten_cons, List.length_append]
    omega

end SomeIpGateway.McuParser
