import SomeIpGateway.FrameFormat

/-!
# The gateway's encoder and parser

`PacketEncoder::build_frame` and `PacketParser::push`/`parse`. The parser keeps
unread bytes in `rxBuffer` and repeats the body of one loop; its log records
every erased byte, with the frame handed to `onFrame` where one was. The
reference scan walks over positions of the whole stream instead.
-/
namespace SomeIpGateway.PacketCodec
open ByteAccess StreamScanning FrameFormat

/-- `BKEL_MAX_PAYLOAD` of the gateway. -/
def bkelMaxPayload : ℕ := 256

/-- `PacketEncoder::build_frame`. A null payload pointer is `none`; otherwise the
pointer is the list of the bytes it points to. -/
def buildFrame (sid type : UInt8) (payload : Option (List UInt8)) (payloadLen cid : UInt16) :
    List UInt8 :=
  if bkelMaxPayload < payloadLen.toNat then []
  else if 0 < payloadLen.toNat ∧ payload = none then []
  else
    let out := [sofDataValue]
    let out := out ++ [sid, type, lowByte payloadLen, highByte payloadLen]
    let out := out ++ (payload.getD []).take payloadLen.toNat
    let out := out ++ [lowByte cid, highByte cid]
    let crc := calcCrc8 ((out.drop bkelSofSize).take
      (bkelHdrSize + payloadLen.toNat + bkelCidSize))
    out ++ [crc]

theorem buildFrame_eq_frameBytes {f : BkelFrame} (hf : f.WellFormed)
    (hmax : f.dlc.toNat ≤ bkelMaxPayload) :
    buildFrame f.sid f.type (some f.payload) f.dlc f.cid = frameBytes f := by
  have hl := length_crcSpan hf
  have hp : f.payload.take f.dlc.toNat = f.payload :=
    List.take_of_length_le (le_of_eq hf)
  have hspan : (crcSpan f).take (bkelHdrSize + f.dlc.toNat + bkelCidSize) = crcSpan f :=
    List.take_of_length_le (by rw [hl, bkelHdrSize, bkelCidSize]; omega)
  simp only [buildFrame, if_neg (not_lt.mpr hmax), reduceCtorEq, and_false, if_false,
    Option.getD_some, hp]
  rw [show [sofDataValue] ++ [f.sid, f.type, lowByte f.dlc, highByte f.dlc] ++ f.payload ++
    [lowByte f.cid, highByte f.cid] = sofDataValue :: crcSpan f by simp [crcSpan]]
  rw [bkelSofSize, List.drop_succ_cons, List.drop_zero, hspan]
  rfl

theorem buildFrame_too_long (sid type : UInt8) (payload : Option (List UInt8))
    {payloadLen : UInt16} (cid : UInt16) (h : bkelMaxPayload < payloadLen.toNat) :
    buildFrame sid type payload payloadLen cid = [] := if_pos h

/-- The body of the loop of `PacketParser::parse`. To wait is to leave the loop,
to skip is to erase the first byte, and to take is to pass the frame to `onFrame`
and erase its bytes. -/
def parseBody (rxBuffer : List UInt8) : Verdict BkelFrame :=
  if rxBuffer.length < bkelSofSize + bkelHdrSize then .wait
  else if u8At rxBuffer 0 ≠ sofDataValue then .skip
  else
    let hdr := readHeader (rxBuffer.drop bkelSofSize)
    if bkelMaxPayload < hdr.dlc.toNat then .skip
    else
      let frameLen := bkelSofSize + bkelHdrSize + hdr.dlc.toNat + bkelCidSize + bkelCrcSize
      if rxBuffer.length < frameLen then .wait
      else
        let receivedCrc := u8At rxBuffer (frameLen - 1)
        let expectedCrc := calcCrc8 ((rxBuffer.drop bkelSofSize).take
          (bkelHdrSize + hdr.dlc.toNat + bkelCidSize))
        if receivedCrc ≠ expectedCrc then .skip
        else .take frameLen
          { sid := hdr.sid
            type := hdr.type
            dlc := hdr.dlc
            cid := u16At rxBuffer (bkelSofSize + bkelHdrSize + hdr.dlc.toNat)
            payload := (rxBuffer.drop (bkelSofSize + bkelHdrSize)).take hdr.dlc.toNat }

/-- With five bytes the loop decides as the grammar does; with fewer it waits. -/
theorem parseBody_eq (rxBuffer : List UInt8) :
    parseBody rxBuffer =
      if rxBuffer.length < 5 then .wait else verdict bkelMaxPayload rxBuffer := by
  by_cases h5 : rxBuffer.length < 5
  · simp [parseBody, bkelSofSize, bkelHdrSize, h5]
  · have hne : rxBuffer ≠ [] := by rintro rfl; simp at h5
    have hlen : 1 + 4 + (u16At rxBuffer 3).toNat + 2 + 1 = dlcAt rxBuffer + 8 := by
      rw [dlcAt]; omega
    have hspan : 4 + (u16At rxBuffer 3).toNat + 2 = dlcAt rxBuffer + 6 := by rw [dlcAt]; omega
    simp only [parseBody, verdict, bkelSofSize, bkelHdrSize, bkelCidSize, bkelCrcSize,
      readHeader_drop, hlen, hspan, hne, h5, if_false, Nat.reduceAdd, Nat.add_succ_sub_one]
    rfl

/-- The parser's loop as a scanner: its decisions are final. -/
def packetParser : Scanner UInt8 BkelFrame where
  look := parseBody
  look_nil := by simp [parseBody_eq]
  take_pos := by
    intro buf n f h
    rw [parseBody_eq] at h
    split_ifs at h
    exact (frameScanner bkelMaxPayload).take_pos h
  take_le := by
    intro buf n f h
    rw [parseBody_eq] at h
    split_ifs at h
    exact (frameScanner bkelMaxPayload).take_le h
  final := by
    intro buf more h
    by_cases h5 : buf.length < 5
    · simp [parseBody_eq, h5] at h
    · have hmore : ¬ (buf ++ more).length < 5 := by rw [List.length_append]; omega
      rw [parseBody_eq, if_neg h5] at h
      rw [parseBody_eq, parseBody_eq, if_neg h5, if_neg hmore, verdict_append more h]

/-- `PacketParser::parse`: the log of erased bytes and the buffer it leaves. -/
def parse (rxBuffer : List UInt8) : List (Piece UInt8 BkelFrame) × List UInt8 :=
  packetParser.drain rxBuffer

/-- `PacketParser::push`. -/
def push (rxBuffer data : List UInt8) : List (Piece UInt8 BkelFrame) × List UInt8 :=
  parse (rxBuffer ++ data)

def pushAll (rxBuffer : List UInt8) (chunks : List (List UInt8)) :
    List (Piece UInt8 BkelFrame) × List UInt8 := packetParser.feed rxBuffer chunks

theorem parseBody_take {buf : List UInt8} {n : ℕ} {f : BkelFrame}
    (h : parseBody buf = .take n f) :
    Accepted bkelMaxPayload buf ∧ n = dlcAt buf + 8 ∧ f = frameAt buf := by
  rw [parseBody_eq] at h
  split_ifs at h
  exact of_verdict_take h

/-- A delivered frame is well formed, within the limit, and encodes to exactly
the bytes erased for it. -/
theorem parse_item {buf : List UInt8} {p : Piece UInt8 BkelFrame} (hp : p ∈ (parse buf).1)
    {f : BkelFrame} (hf : p.item = some f) :
    f.WellFormed ∧ f.dlc.toNat ≤ bkelMaxPayload ∧ p.symbols = frameBytes f := by
  rcases packetParser.pieces_drain buf p hp with ⟨hnone, -⟩ | ⟨sub, n, x, hlook, hx, hsym⟩
  · rw [hnone] at hf
    cases hf
  · obtain ⟨hacc, rfl, rfl⟩ := parseBody_take hlook
    obtain ⟨hwf, hbytes⟩ := frameBytes_frameAt hacc
    have he : frameAt sub = f := Option.some.inj (hx.symm.trans hf)
    rw [← he, hsym, hbytes]
    exact ⟨hwf, hacc.dlc_le, rfl⟩

theorem parseBody_frameBytes {f : BkelFrame} (hf : f.WellFormed)
    (hmax : f.dlc.toNat ≤ bkelMaxPayload) (more : List UInt8) :
    parseBody (frameBytes f ++ more) = .take (frameBytes f).length f := by
  have hl : ¬ (frameBytes f ++ more).length < 5 := by
    rw [List.length_append, length_frameBytes hf, BkelFrame.size]
    omega
  rw [parseBody_eq, if_neg hl, verdict_frameBytes hf hmax]

/-- A stream of frames is delivered frame by frame, however it is cut. -/
theorem pushAll_frames {α : Type*} (frame : α → BkelFrame) (xs : List α)
    (h : ∀ x ∈ xs, (frame x).WellFormed ∧ (frame x).dlc.toNat ≤ bkelMaxPayload)
    {chunks : List (List UInt8)}
    (hchunks : chunks.flatten = xs.flatMap (fun x => frameBytes (frame x))) :
    items (pushAll [] chunks).1 = xs.map frame ∧ (pushAll [] chunks).2 = [] := by
  have hd := packetParser.drain_flatMap (fun x => frameBytes (frame x)) frame xs
    (fun x hx more => parseBody_frameBytes (h x hx).1 (h x hx).2 more) []
  rw [List.append_nil] at hd
  rw [pushAll, packetParser.feed_nil_eq_drain, hchunks, hd]
  simp

/-! ### The receive buffer -/

/-- What `rxBuffer` may hold between two pushes: less than a header, or the start of
a frame of permitted length that is not all there. -/
def Pending (rxBuffer : List UInt8) : Prop :=
  rxBuffer.length < bkelSofSize + bkelHdrSize ∨
    u8At rxBuffer 0 = sofDataValue ∧ dlcAt rxBuffer ≤ bkelMaxPayload ∧
      rxBuffer.length < dlcAt rxBuffer + 8

theorem Pending.length_le {rxBuffer : List UInt8} (h : Pending rxBuffer) :
    rxBuffer.length ≤ 263 := by
  simp only [Pending, bkelSofSize, bkelHdrSize, bkelMaxPayload] at h
  omega

theorem pending_of_wait {rxBuffer : List UInt8} (h : parseBody rxBuffer = .wait) :
    Pending rxBuffer := by
  rw [parseBody_eq] at h
  by_cases h5 : rxBuffer.length < 5
  · exact Or.inl h5
  · rw [if_neg h5] at h
    have hne : rxBuffer ≠ [] := by rintro rfl; simp at h5
    obtain ⟨hsof, hhdr | ⟨hdlc, hlen⟩⟩ := of_verdict_wait h hne
    · exact absurd hhdr h5
    · exact Or.inr ⟨hsof, hdlc, hlen⟩

theorem length_parse_le (rxBuffer : List UInt8) :
    (parse rxBuffer).1.length + (parse rxBuffer).2.length ≤ rxBuffer.length := by
  induction rxBuffer using packetParser.drain_induction with
  | wait buf h => simp [parse, packetParser.drain_of_wait h]
  | skip buf h ih =>
    have hlt := packetParser.length_drop_of_skip h
    rw [parse] at ih ⊢
    rw [packetParser.drain_of_skip h, List.length_cons]
    dsimp only
    omega
  | take buf n f h ih =>
    have hlt := packetParser.length_drop_of_take h
    rw [parse] at ih ⊢
    rw [packetParser.drain_of_take h, List.length_cons]
    dsimp only
    omega

/-- After any pushes `rxBuffer` is pending, hence short. The bytes pushed are those erased
and then those kept, each turn of the loop erased at least one byte, and what was erased are
single skipped bytes and the delivered frames. -/
theorem rxBuffer_pending (chunks : List (List UInt8)) :
    (Pending (pushAll [] chunks).2 ∧ (pushAll [] chunks).2.length ≤ 263) ∧
    (erased (pushAll [] chunks).1 ++ (pushAll [] chunks).2 = chunks.flatten ∧
      (pushAll [] chunks).1.length + (pushAll [] chunks).2.length ≤ chunks.flatten.length) ∧
    ∀ p ∈ (pushAll [] chunks).1, (p.item = none ∧ p.symbols.length = 1) ∨
      ∃ f, p.item = some f ∧ f.WellFormed ∧ f.dlc.toNat ≤ bkelMaxPayload ∧
        p.symbols = frameBytes f := by
  have hfeed : pushAll [] chunks = parse chunks.flatten :=
    packetParser.feed_nil_eq_drain chunks
  rw [hfeed]
  have hpending := pending_of_wait (packetParser.look_rest chunks.flatten)
  refine ⟨⟨hpending, hpending.length_le⟩,
    ⟨packetParser.erased_drain chunks.flatten, length_parse_le chunks.flatten⟩, ?_⟩
  intro p hp
  rcases packetParser.pieces_drain chunks.flatten p hp with hskip | ⟨sub, n, f, -, hf, -⟩
  · exact Or.inl hskip
  · exact Or.inr ⟨f, hf, parse_item hp hf⟩

/-! ### The reference scan -/

/-- What the reference scan decides at a position of the stream: at a SOF whose
DLC, length and CRC are right there is a frame; a position that cannot be decided
for lack of bytes ends the scan; any other position is passed over. -/
def candidateAt (s : List UInt8) (p : ℕ) : Verdict BkelFrame :=
  if s.length ≤ p then .wait
  else if u8At s p ≠ 0xAA then .skip
  else if s.length ≤ p + 4 then .wait
  else
    let dlc := (u16At s (p + 3)).toNat
    if 256 < dlc then .skip
    else if s.length < p + (dlc + 8) then .wait
    else if u8At s (p + (dlc + 7)) ≠ calcCrc8 ((s.drop (p + 1)).take (dlc + 6)) then .skip
    else .take (dlc + 8)
      { sid := u8At s (p + 1)
        type := u8At s (p + 2)
        dlc := u16At s (p + 3)
        cid := u16At s (p + (5 + dlc))
        payload := (s.drop (p + 5)).take dlc }

theorem candidateAt_eq (s : List UInt8) (p : ℕ) :
    candidateAt s p = verdict bkelMaxPayload (s.drop p) := by
  have hdlc : u16At (s.drop p) 3 = u16At s (p + 3) := by simp [u16At, u8At_drop, Nat.add_assoc]
  have hcid (k : ℕ) : u16At (s.drop p) k = u16At s (p + k) := by
    simp [u16At, u8At_drop, Nat.add_assoc]
  by_cases hp : s.length ≤ p
  · simp [candidateAt, verdict, hp, List.drop_eq_nil_of_le hp]
  · have hne : s.drop p ≠ [] := by rw [Ne, List.drop_eq_nil_iff]; exact hp
    have h4 : (s.length - p < 5) ↔ s.length ≤ p + 4 := by omega
    have h8 : (s.length - p < (u16At s (p + 3)).toNat + 8) ↔
        s.length < p + ((u16At s (p + 3)).toNat + 8) := by omega
    simp only [candidateAt, verdict, crcMatches, frameAt, dlcAt, hcid, u8At_drop, hne, hp,
      List.drop_drop, List.length_drop, h4, h8, if_false, Nat.add_zero]
    rfl

/-- The reference scan of a whole stream from a position on. -/
def referenceScan (s : List UInt8) (p : ℕ) : List BkelFrame :=
  match _h : candidateAt s p with
  | .wait => []
  | .skip => referenceScan s (p + 1)
  | .take n f => f :: referenceScan s (p + n)
termination_by s.length - p
decreasing_by
  · have hlt := (frameScanner bkelMaxPayload).length_drop_of_skip
      ((candidateAt_eq s p).symm.trans _h)
    simp only [List.length_drop] at hlt
    omega
  · have hlt := (frameScanner bkelMaxPayload).length_drop_of_take
      ((candidateAt_eq s p).symm.trans _h)
    simp only [List.length_drop] at hlt
    omega

theorem referenceScan_eq_items (s : List UInt8) (p : ℕ) :
    referenceScan s p = items ((frameScanner bkelMaxPayload).drain (s.drop p)).1 := by
  induction p using referenceScan.induct (s := s) with
  | case1 p h =>
    rw [referenceScan, (frameScanner _).drain_of_wait ((candidateAt_eq s p).symm.trans h)]
    split <;> simp_all
  | case2 p h ih =>
    rw [referenceScan, (frameScanner _).drain_of_skip ((candidateAt_eq s p).symm.trans h)]
    split <;> simp_all
  | case3 p n f h ih =>
    rw [referenceScan, (frameScanner _).drain_of_take ((candidateAt_eq s p).symm.trans h)]
    split <;> simp_all

/-- The parser finds the frames of the grammar: waiting for a whole header before
looking at the first byte does not change them. -/
theorem items_parse (buf : List UInt8) :
    items (parse buf).1 = items ((frameScanner bkelMaxPayload).drain buf).1 := by
  apply (frameScanner bkelMaxPayload).items_eq_of_patient packetParser 5
  · intro buf h
    exact (parseBody_eq buf).trans (if_neg (not_lt.mpr h))
  · intro buf h
    exact (parseBody_eq buf).trans (if_pos h)
  · intro buf n f h
    have := (of_verdict_take h).1.complete
    omega

theorem push_append (rxBuffer a b : List UInt8) :
    push rxBuffer (a ++ b) =
      ((push rxBuffer a).1 ++ (push (push rxBuffer a).2 b).1, (push (push rxBuffer a).2 b).2) := by
  rw [push, ← List.append_assoc]
  exact packetParser.drain_append (rxBuffer ++ a) b

/-- However a stream is cut into pushes, the frames delivered are those of the
reference scan of the whole, and cutting one push in two changes nothing. -/
theorem pushAll_follows_grammar :
    (∀ chunks : List (List UInt8),
      items (pushAll [] chunks).1 = referenceScan chunks.flatten 0) ∧
    ∀ rxBuffer a b : List UInt8,
      items (push rxBuffer (a ++ b)).1 =
        items (push rxBuffer a).1 ++ items (push (push rxBuffer a).2 b).1 ∧
      (push rxBuffer (a ++ b)).2 = (push (push rxBuffer a).2 b).2 := by
  constructor
  · intro chunks
    rw [referenceScan_eq_items, List.drop_zero, ← items_parse, pushAll,
      packetParser.feed_nil_eq_drain]
    rfl
  · intro rxBuffer a b
    rw [push_append, items_append]
    exact ⟨rfl, rfl⟩

end SomeIpGateway.PacketCodec
