import SomeIpGateway.PausedScanning
import SomeIpGateway.PythonCodec
import SomeIpGateway.PacketCodec

/-!
# The Python client's reader

`TcpClient._reader_loop`: what a call of `recv` gives is added to a buffer, and
`try_decode` is called until it returns `None`. Timeouts are passed over; an empty chunk
and an error end the loop.
-/
namespace SomeIpGateway.PythonReader
open ByteAccess StreamScanning FrameFormat PacketCodec CandidateScan PythonCodec

theorem tryDecode_shorter {buffer rest : List UInt8} {frame : Frame}
    (h : tryDecode buffer = (some frame, rest)) : rest.length < buffer.length := by
  induction buffer with
  | nil => cases h
  | cons a buffer ih =>
    by_cases ha : a = sofDataValue
    · have hsof : u8At (a :: buffer) 0 = sofDataValue := ha
      rw [tryDecode_sof hsof] at h
      split at h
      · cases h
      · cases h
      · next n x hlook =>
        obtain ⟨-, rfl⟩ := Prod.mk.inj h
        exact clientScanner.length_drop_of_take hlook
    · rw [tryDecode_skip ha] at h
      exact (ih h).trans (by simp)

/-- The inner loop: the frames decoded, and the buffer that is left. -/
def decodeAll (buf : List UInt8) : List Frame × List UInt8 :=
  match _h : tryDecode buf with
  | (none, rest) => ([], rest)
  | (some frame, rest) =>
    let tail := decodeAll rest
    (frame :: tail.1, tail.2)
termination_by buf.length
decreasing_by exact tryDecode_shorter _h

theorem decodeAll_of_none {buf rest : List UInt8} (h : tryDecode buf = (none, rest)) :
    decodeAll buf = ([], rest) := by
  rw [decodeAll]
  split <;> simp_all

theorem decodeAll_of_some {buf rest : List UInt8} {frame : Frame}
    (h : tryDecode buf = (some frame, rest)) :
    decodeAll buf = (frame :: (decodeAll rest).1, (decodeAll rest).2) := by
  rw [decodeAll]
  split <;> simp_all

theorem decodeAll_skip {a : UInt8} (ha : a ≠ sofDataValue) (buf : List UInt8) :
    decodeAll (a :: buf) = decodeAll buf := by
  have hskip := tryDecode_skip ha buf
  rcases h : tryDecode buf with ⟨_ | frame, rest⟩
  · rw [decodeAll_of_none h, decodeAll_of_none (hskip.trans h)]
  · rw [decodeAll_of_some h, decodeAll_of_some (hskip.trans h)]

/-- The inner loop reads the scan, and stops early at a DLC that is too large. -/
theorem decodeAll_eq (buf : List UInt8) :
    decodeAll buf =
      ((items (clientScanner.drainPaused halts buf).1).map decoded,
        (clientScanner.drainPaused halts buf).2) := by
  induction buf using clientScanner.drain_induction with
  | wait buf h =>
    rw [clientScanner.drainPaused_of_wait h]
    apply decodeAll_of_none
    by_cases hsof : u8At buf 0 = sofDataValue
    · rw [tryDecode_sof hsof, show candidate 8 maxPayload buf = .wait from h]
    · cases buf with
      | nil => rfl
      | cons a buf =>
        have ha : a ≠ sofDataValue := hsof
        simp [clientScanner, candidateScanner, candidate, ha] at h
  | skip buf h ih =>
    by_cases hsof : u8At buf 0 = sofDataValue
    · rw [clientScanner.drainPaused_of_halt h (by simp [halts, hsof])]
      apply decodeAll_of_none
      rw [tryDecode_sof hsof, show candidate 8 maxPayload buf = .skip from h]
    · rw [clientScanner.drainPaused_of_skip h (by simp [halts, hsof]), items_cons_none, ← ih]
      cases buf with
      | nil => rfl
      | cons a buf => exact decodeAll_skip hsof buf
  | take buf n x h ih =>
    have hsof := (of_candidate_take h).1.sof
    have htry : tryDecode buf = (some (decoded x), buf.drop n) := by
      rw [tryDecode_sof hsof, show candidate 8 maxPayload buf = .take n x from h]
    rw [clientScanner.drainPaused_of_take h, decodeAll_of_some htry, ih, items_cons_some,
      List.map_cons]

/-- What a call of `recv` may give. -/
inductive Received where
  | chunk (data : List UInt8)
  | timeout
  | osError (exc : String)
  deriving Repr, DecidableEq

/-- What the loop reads and changes of a `TcpClient`, with its buffer. -/
structure TcpClient where
  running : Bool := true
  buf : List UInt8 := []
  incoming : List Frame := []
  status : List String := []
  deriving Repr, DecidableEq

namespace TcpClient

/-- One turn of the loop. -/
def readerTurn (c : TcpClient) (r : Received) : TcpClient :=
  if c.running = false then c
  else
    match r with
    | .chunk data =>
      if data = [] then
        { c with running := false, status := c.status ++ ["Connection closed by peer"] }
      else
        let decoded := decodeAll (c.buf ++ data)
        { c with buf := decoded.2, incoming := c.incoming ++ decoded.1 }
    | .timeout => c
    | .osError exc => { c with running := false, status := c.status ++ ["Socket error: " ++ exc] }

/-- `_reader_loop`. -/
def readerLoop (c : TcpClient) (received : List Received) : TcpClient :=
  received.foldl readerTurn c

end TcpClient

/-- The bytes received. -/
def bytesOf (received : List Received) : List UInt8 :=
  received.flatMap fun
    | .chunk data => data
    | _ => []

/-- The connection stays open: chunks that are not empty, and timeouts. -/
def StaysOpen (received : List Received) : Prop :=
  ∀ r ∈ received, r = .timeout ∨ ∃ data, data ≠ [] ∧ r = .chunk data

/-- The chunks among what is received. -/
def chunksOf (received : List Received) : List (List UInt8) :=
  received.filterMap fun
    | .chunk data => some data
    | _ => none

theorem bytesOf_eq (received : List Received) : bytesOf received = (chunksOf received).flatten := by
  induction received with
  | nil => rfl
  | cons r received ih => cases r <;> simp_all [bytesOf, chunksOf]

/-- On a connection that stays open the loop feeds the scan chunk by chunk. -/
theorem readerLoop_eq (c : TcpClient) (hrunning : c.running = true) {received : List Received}
    (h : StaysOpen received) :
    c.readerLoop received =
      { c with
        buf := (clientScanner.feedPaused halts c.buf (chunksOf received)).2
        incoming := c.incoming ++
          (items (clientScanner.feedPaused halts c.buf (chunksOf received)).1).map decoded } := by
  induction received generalizing c with
  | nil => simp [TcpClient.readerLoop, chunksOf, Scanner.feedPaused]
  | cons r received ih =>
    have hrest : StaysOpen received := fun q hq => h q (List.mem_cons_of_mem r hq)
    rw [TcpClient.readerLoop, List.foldl_cons]
    rcases h r List.mem_cons_self with rfl | ⟨data, hdata, rfl⟩
    · have hturn : c.readerTurn .timeout = c := by simp [TcpClient.readerTurn, hrunning]
      rw [hturn]
      exact ih c hrunning hrest
    · have hturn : c.readerTurn (.chunk data) =
          { c with
            buf := (decodeAll (c.buf ++ data)).2
            incoming := c.incoming ++ (decodeAll (c.buf ++ data)).1 } := by
        simp [TcpClient.readerTurn, hrunning, hdata]
      have hlater := ih (c.readerTurn (.chunk data)) (by rw [hturn]; exact hrunning) hrest
      rw [hturn, TcpClient.readerLoop] at hlater
      rw [hturn, hlater]
      simp [chunksOf, Scanner.feedPaused, decodeAll_eq]

/-- A client that has just connected. -/
def connected : TcpClient := {}

/-- The first byte of a buffer does not change when more is received. -/
theorem halts_stable {buf : List UInt8} (more : List UInt8)
    (h : clientScanner.look buf = .skip) : halts (buf ++ more) = halts buf := by
  have hpos := List.length_pos_of_ne_nil (clientScanner.ne_nil_of_skip h)
  rw [halts, halts, u8At_append_left hpos]

/-! ### Well-formed streams -/

/-- What may be sent to the client: a packet of its own codec, or one of the gateway. -/
inductive Sent where
  | encoded (r : Request)
  | built (sid type : UInt8) (payload : List UInt8) (cid : UInt16)
  deriving Repr, DecidableEq

namespace Sent

def packet : Sent → Except CodecError (List UInt8)
  | .encoded r => r.encode
  | .built sid type payload cid =>
    .ok (buildFrame sid type (some payload) (UInt16.ofNat payload.length) cid)

/-- The limit of the encoder. -/
def Fits : Sent → Prop
  | .encoded r => r.payload.length ≤ 4096
  | .built _ _ payload _ => payload.length ≤ 256

instance (x : Sent) : Decidable x.Fits := by
  cases x <;> exact inferInstanceAs (Decidable (_ ≤ _))

/-- The frame that the client should decode from the bytes of a packet. -/
def expected (x : Sent) (raw : List UInt8) : Frame :=
  match x with
  | .encoded r => ⟨r.sid, r.dataType, r.payload, rawCid r.cid r.seq, raw.getLastD 0, raw⟩
  | .built sid type payload cid => ⟨sid, type, payload, cid, raw.getLastD 0, raw⟩

/-- What is sent, as a frame with its last byte. -/
def content : Sent → BkelFrame × UInt8
  | .encoded r => (r.frame, r.checksum)
  | .built sid type payload cid =>
    (⟨sid, type, UInt16.ofNat payload.length, cid, payload⟩,
      calcCrc8 (crcSpan ⟨sid, type, UInt16.ofNat payload.length, cid, payload⟩))

theorem content_admissible {x : Sent} (h : x.Fits) :
    x.content.1.WellFormed ∧ x.content.1.dlc.toNat ≤ maxPayload := by
  cases x with
  | encoded r => exact ⟨Request.frame_wellFormed h, (Request.frame_dlc h).trans_le h⟩
  | built sid type payload cid =>
    have hlen : payload.length ≤ 256 := h
    simp only [content, BkelFrame.WellFormed, UInt16.toNat_ofNat', maxPayload]
    omega

theorem packet_eq {x : Sent} (h : x.Fits) :
    x.packet = .ok (framed x.content.1 x.content.2) := by
  cases x with
  | encoded r => exact Request.encode_eq h
  | built sid type payload cid =>
    have hlen : payload.length ≤ 256 := h
    have hwf := (content_admissible h).1
    have hmax : (content (.built sid type payload cid)).1.dlc.toNat ≤ bkelMaxPayload :=
      hwf.symm.trans_le hlen
    have hbytes := buildFrame_eq_frameBytes hwf hmax
    rw [content] at hbytes
    rw [packet, hbytes, content, frameBytes]

theorem expected_eq (x : Sent) :
    x.expected (framed x.content.1 x.content.2) = decoded x.content := by
  have hlast : (framed x.content.1 x.content.2).getLastD 0 = x.content.2 := by
    rw [framed, ← List.cons_append, List.getLastD_concat]
  cases x with
  | encoded r =>
    rw [expected, hlast]
    rfl
  | built sid type payload cid =>
    rw [expected, hlast]
    rfl

theorem packets_eq {sent : List Sent} (h : ∀ x ∈ sent, x.Fits) :
    sent.mapM packet = .ok (sent.map fun x => framed x.content.1 x.content.2) := by
  induction sent with
  | nil => rfl
  | cons x sent ih =>
    rw [List.mapM_cons, packet_eq (h x List.mem_cons_self),
      ih fun y hy => h y (List.mem_cons_of_mem x hy)]
    rfl

end Sent

theorem cid_rawCid (cid seq : ℤ) :
    (((rawCid cid seq >>> 4) &&& 0x0FFF).toNat : ℤ) = cid % 4096 := by
  have hraw := rawCid_toNat cid seq
  rw [UInt16.toNat_and, UInt16.toNat_shiftRight, hraw,
    show (0x0FFF : UInt16).toNat = 2 ^ 12 - 1 from rfl, Nat.and_two_pow_sub_one_eq_mod,
    Nat.shiftRight_eq_div_pow, show (4 : UInt16).toNat % 16 = 4 from rfl]
  omega

theorem seq_rawCid (cid seq : ℤ) : ((rawCid cid seq &&& 0x000F).toNat : ℤ) = seq % 16 := by
  have hraw := rawCid_toNat cid seq
  rw [UInt16.toNat_and, hraw, show (0x000F : UInt16).toNat = 2 ^ 4 - 1 from rfl,
    Nat.and_two_pow_sub_one_eq_mod]
  omega

/-- Frames of either encoder are decoded exactly, in order, however the stream is cut, and
nothing is left in the buffer; the CID and the sequence number that were encoded are read
back. -/
theorem stream_decoded (sent : List Sent) (h : ∀ x ∈ sent, x.Fits) :
    (∃ packets, sent.mapM Sent.packet = .ok packets ∧
      ∀ received, StaysOpen received → bytesOf received = packets.flatten →
        connected.readerLoop received =
          { connected with incoming := List.zipWith Sent.expected sent packets, buf := [] }) ∧
    ∀ r raw, (((Sent.encoded r).expected raw).cid.toNat : ℤ) = r.cid % 4096 ∧
      (((Sent.encoded r).expected raw).seq.toNat : ℤ) = r.seq % 16 := by
  refine ⟨⟨_, Sent.packets_eq h, fun received hopen hbytes => ?_⟩, fun r raw =>
    ⟨cid_rawCid r.cid r.seq, seq_rawCid r.cid r.seq⟩⟩
  have hflat : (chunksOf received).flatten =
      sent.flatMap fun x => framed x.content.1 x.content.2 := by
    rw [← bytesOf_eq, hbytes, List.flatMap_def]
  have hfeed := clientScanner.feedPaused_flatMap (fun x => framed x.content.1 x.content.2)
    Sent.content sent halts_stable ?_ hflat
  · have hframes : List.zipWith Sent.expected sent
        (sent.map fun x => framed x.content.1 x.content.2) =
        (sent.map Sent.content).map decoded := by
      rw [List.zipWith_map_right, List.zipWith_self, List.map_map]
      exact List.map_congr_left fun x _ => Sent.expected_eq x
    rw [readerLoop_eq connected rfl hopen, hframes]
    simp [connected, hfeed]
  · intro x hx more
    obtain ⟨hwf, hmax⟩ := Sent.content_admissible (h x hx)
    exact candidate_framed le_rfl hwf hmax x.content.2 more

/-- A packet of the client's own codec and one of the gateway, with SOFs in the payloads. -/
theorem stream_decoded_two :
    (∃ packets, [Sent.encoded ⟨0x20, 1, [0xAA], 0x123, -1⟩,
        .built 0x21 2 [0xAA, 0x07] 0x0070].mapM Sent.packet = .ok packets ∧
      ∀ received, StaysOpen received → bytesOf received = packets.flatten →
        connected.readerLoop received =
          { connected with
            incoming := List.zipWith Sent.expected [Sent.encoded ⟨0x20, 1, [0xAA], 0x123, -1⟩,
              .built 0x21 2 [0xAA, 0x07] 0x0070] packets, buf := [] }) ∧
    ∀ r raw, (((Sent.encoded r).expected raw).cid.toNat : ℤ) = r.cid % 4096 ∧
      (((Sent.encoded r).expected raw).seq.toNat : ℤ) = r.seq % 16 :=
  stream_decoded _ (by decide)

/-! ### Streams of any kind -/

/-- `recv(2048)`. -/
def recvSize : ℕ := 2048

/-- No chunk is longer than a call of `recv` may return. -/
def FromRecv (received : List Received) : Prop :=
  ∀ data, Received.chunk data ∈ received → data.length ≤ recvSize

/-- Ways of receiving one string of bytes: all leave the same frames on the queue, and
`try_decode` has no further frame in the buffer. -/
def CuttingImmaterial (ways : List Received → Prop) (s : List UInt8) : Prop :=
  (∀ received received', StaysOpen received → StaysOpen received' → ways received →
    ways received' → bytesOf received = s → bytesOf received' = s →
    (connected.readerLoop received).incoming = (connected.readerLoop received').incoming) ∧
  ∀ received, StaysOpen received → ways received → bytesOf received = s →
    (tryDecode (connected.readerLoop received).buf).1 = none

/-- A header whose DLC is too large. -/
def Oversized (buf : List UInt8) : Prop :=
  8 ≤ buf.length ∧ u8At buf 0 = sofDataValue ∧ maxPayload < dlcAt buf

/-- Behind no oversized header that the scan comes to stands a candidate, other than
behind one that is cut short. -/
def NoneBehindOversized (s : List UInt8) : Prop :=
  ∀ rest, clientScanner.Visits s rest → Oversized rest → NoCandidate maxPayload (rest.drop 1)

theorem oversized_iff (buf : List UInt8) :
    Oversized buf ↔ clientScanner.look buf = .skip ∧ halts buf = true := by
  have hlook : clientScanner.look buf = candidate 8 maxPayload buf := rfl
  rw [Oversized, hlook, candidate, halts, beq_iff_eq]
  by_cases hsof : u8At buf 0 = sofDataValue
  · have hne : buf ≠ [] := by
      rintro rfl
      exact absurd hsof (by decide)
    simp only [hne, hsof, if_false, ne_eq, not_true_eq_false, true_and, and_true]
    split_ifs <;> simp <;> omega
  · simp [hsof]

theorem noneBehindOversized_iff (s : List UInt8) :
    NoneBehindOversized s ↔ clientScanner.NothingBehindHalt halts s := by
  have hitems (buf : List UInt8) :
      items (clientScanner.drain buf).1 = [] ↔ NoCandidate maxPayload buf :=
    items_eq_nil_iff (by omega) le_rfl buf
  constructor
  · intro h rest hvisits hskip hhalt
    exact (hitems _).mpr (h rest hvisits ((oversized_iff rest).mpr ⟨hskip, hhalt⟩))
  · intro h rest hvisits hover
    obtain ⟨hskip, hhalt⟩ := (oversized_iff rest).mp hover
    exact (hitems _).mp (h rest hvisits hskip hhalt)

theorem tryDecode_eq_none {buf : List UInt8} (h : items (clientScanner.drain buf).1 = []) :
    (tryDecode buf).1 = none := by
  rcases htry : tryDecode buf with ⟨_ | frame, rest⟩
  · rfl
  · have hall := (decodeAll_of_some htry).symm.trans (decodeAll_eq buf)
    have hpaused := clientScanner.drainPaused_append_drain halts buf []
    rw [List.append_nil, List.append_nil] at hpaused
    rw [← hpaused, items_append] at h
    rw [(List.append_eq_nil_iff.mp h).1] at hall
    cases congrArg Prod.fst hall

/-- One more byte behind a buffer that waits or is shorter than a header leaves one again:
an oversized header is complete with its last byte, so a halt leaves less than a header. -/
theorem quiet_of_byte {rest : List UInt8}
    (h : clientScanner.look rest = .wait ∨ rest.length < 8) (b : UInt8) :
    clientScanner.look (clientScanner.drainPaused halts (rest ++ [b])).2 = .wait ∨
      (clientScanner.drainPaused halts (rest ++ [b])).2.length < 8 := by
  by_cases hlen : rest.length < 8
  · apply (clientScanner.drainPaused_stops halts (rest ++ [b])).imp_right
    intro hlt
    rw [List.length_append, List.length_singleton] at hlt
    omega
  · -- a candidate whose DLC is within the limit: it is completed, or waits on
    have hwait : candidate 8 maxPayload rest = .wait := h.resolve_right hlen
    have hne : rest ≠ [] := by
      rintro rfl
      exact hlen (by simp)
    obtain ⟨hsof, hmax, hcut⟩ := (candidate_eq_wait (not_lt.mp hlen) hne).mp hwait
    have hdlc := dlcAt_append (show 5 ≤ rest.length by omega) [b]
    cases hlook : clientScanner.look (rest ++ [b]) with
    | wait => exact Or.inl ((clientScanner.drainPaused_of_wait hlook).symm ▸ hlook)
    | skip =>
      have hover := (oversized_iff (rest ++ [b])).mpr ⟨hlook, by
        rw [halts, u8At_append_left (by omega), hsof, beq_self_eq_true]⟩
      rw [Oversized, hdlc] at hover
      omega
    | take n x =>
      obtain ⟨-, hn, -⟩ := of_candidate_take hlook
      have hall : (rest ++ [b]).drop n = [] := by
        apply List.drop_eq_nil_of_le
        rw [hn, hdlc, List.length_append, List.length_singleton]
        omega
      rw [clientScanner.drainPaused_of_take hlook, hall,
        clientScanner.drainPaused_of_wait clientScanner.look_nil]
      exact Or.inl clientScanner.look_nil

/-- A buffer that waits or is shorter than a header holds no candidate. -/
theorem items_of_quiet {rest : List UInt8}
    (h : clientScanner.look rest = .wait ∨ rest.length < 8) :
    items (clientScanner.drain rest).1 = [] := by
  rcases h with hwait | hlen
  · rw [clientScanner.drain_of_wait hwait]
    rfl
  · apply (items_eq_nil_iff (by omega) le_rfl rest).mpr
    intro i hc
    have hcomplete := hc.complete
    rw [List.length_drop] at hcomplete
    omega

/-- Byte by byte, nothing is missed. -/
theorem items_feed_bytes (s : List UInt8) {rest : List UInt8}
    (h : clientScanner.look rest = .wait ∨ rest.length < 8) :
    items (clientScanner.drain
      (clientScanner.feedPaused halts rest (s.map fun b => [b])).2).1 = [] := by
  induction s generalizing rest with
  | nil => exact items_of_quiet h
  | cons b s ih => exact ih (quiet_of_byte h b)

/-- The bytes one by one. -/
def byByte (s : List UInt8) : List Received := s.map fun b => .chunk [b]

theorem staysOpen_byByte (s : List UInt8) : StaysOpen (byByte s) := by
  intro r hr
  obtain ⟨b, -, rfl⟩ := List.mem_map.mp hr
  exact Or.inr ⟨[b], by simp, rfl⟩

theorem fromRecv_byByte (s : List UInt8) : FromRecv (byByte s) := by
  intro data hdata
  obtain ⟨b, -, hb⟩ := List.mem_map.mp hdata
  cases hb
  rw [List.length_singleton, recvSize]
  omega

theorem chunksOf_byByte (s : List UInt8) : chunksOf (byByte s) = s.map fun b => [b] := by
  simp [chunksOf, byByte, List.filterMap_map]

theorem bytesOf_byByte (s : List UInt8) : bytesOf (byByte s) = s := by
  rw [bytesOf_eq, chunksOf_byByte]
  induction s with
  | nil => rfl
  | cons b s ih => rw [List.map_cons, List.flatten_cons, ih, List.singleton_append]

theorem incoming_eq {received : List Received} (hopen : StaysOpen received) :
    (connected.readerLoop received).incoming =
      (items (clientScanner.feedPaused halts [] (chunksOf received)).1).map decoded := by
  rw [readerLoop_eq connected rfl hopen]
  rfl

theorem buf_eq {received : List Received} (hopen : StaysOpen received) :
    (connected.readerLoop received).buf =
      (clientScanner.feedPaused halts [] (chunksOf received)).2 := by
  rw [readerLoop_eq connected rfl hopen]
  rfl

/-- What the loop has found, followed by what the scan finds in its buffer. -/
theorem incoming_append {received : List Received} (hopen : StaysOpen received) :
    (connected.readerLoop received).incoming ++
        (items (clientScanner.drain (connected.readerLoop received).buf).1).map decoded =
      (items (clientScanner.drain (bytesOf received)).1).map decoded := by
  rw [incoming_eq hopen, buf_eq hopen, ← List.map_append, ← items_append,
    clientScanner.feedPaused_append_drain halts [] (chunksOf received), List.nil_append,
    bytesOf_eq]

/-- Where nothing is behind an oversized header, cutting does not matter. -/
theorem cuttingImmaterial_of_none {s : List UInt8} (h : NoneBehindOversized s)
    (ways : List Received → Prop) : CuttingImmaterial ways s := by
  have hquiet {received : List Received} (hopen : StaysOpen received)
      (hbytes : bytesOf received = s) :
      items (clientScanner.drain (connected.readerLoop received).buf).1 = [] := by
    rw [noneBehindOversized_iff, ← hbytes, bytesOf_eq, ← List.nil_append (List.flatten _)] at h
    rw [buf_eq hopen]
    exact h.feedPaused halts_stable clientScanner.look_nil
  have hall {received : List Received} (hopen : StaysOpen received)
      (hbytes : bytesOf received = s) :
      (connected.readerLoop received).incoming = (items (clientScanner.drain s).1).map decoded := by
    rw [← hbytes, ← incoming_append hopen, hquiet hopen hbytes, List.map_nil, List.append_nil]
  constructor
  · intro received received' hopen hopen' _ _ hbytes hbytes'
    rw [hall hopen hbytes, hall hopen' hbytes']
  · intro received hopen _ hbytes
    exact tryDecode_eq_none (hquiet hopen hbytes)

/-- Where a frame is behind an oversized header, all at once finds less than byte by byte. -/
theorem none_of_cuttingImmaterial {s : List UInt8} {ways : List Received → Prop}
    (honce : ways [.chunk s]) (hbytewise : ways (byByte s)) (h : CuttingImmaterial ways s) :
    NoneBehindOversized s := by
  rw [noneBehindOversized_iff, clientScanner.nothingBehindHalt_iff]
  by_cases hs : s = []
  · rw [hs, clientScanner.drainPaused_of_wait clientScanner.look_nil, clientScanner.drain_nil]
    rfl
  · have hopen : StaysOpen [.chunk s] := by
      intro r hr
      rw [List.mem_singleton] at hr
      exact Or.inr ⟨s, hs, hr⟩
    have hbytes : bytesOf [.chunk s] = s := by simp [bytesOf]
    have hopen' := staysOpen_byByte s
    have hbytes' := bytesOf_byByte s
    have hsame := h.1 _ _ hopen hopen' honce hbytewise hbytes hbytes'
    have hall := incoming_append hopen
    have hall' := incoming_append hopen'
    have hquiet : items (clientScanner.drain (connected.readerLoop (byByte s)).buf).1 = [] := by
      rw [buf_eq hopen', chunksOf_byByte]
      exact items_feed_bytes s (Or.inl clientScanner.look_nil)
    rw [hbytes, hsame] at hall
    rw [hbytes', hquiet, List.map_nil, List.append_nil] at hall'
    rw [hall', List.append_right_eq_self, List.map_eq_nil_iff, buf_eq hopen] at hall
    simpa [chunksOf, Scanner.feedPaused] using hall

/-- Cutting does not matter exactly where nothing is behind an oversized header. With the
chunks as long as `recv` allows, this is so for every stream that fits into one chunk, and
the condition is enough for any other. -/
theorem cuttingImmaterial_iff (s : List UInt8) :
    (CuttingImmaterial (fun _ => True) s ↔ NoneBehindOversized s) ∧
      (NoneBehindOversized s → CuttingImmaterial FromRecv s) ∧
      (s.length ≤ recvSize → CuttingImmaterial FromRecv s → NoneBehindOversized s) := by
  refine ⟨⟨?_, ?_⟩, ?_, ?_⟩
  · exact none_of_cuttingImmaterial trivial trivial
  · exact fun h => cuttingImmaterial_of_none h _
  · exact fun h => cuttingImmaterial_of_none h _
  · intro hlen
    apply none_of_cuttingImmaterial
    · intro data hdata
      rw [List.mem_singleton] at hdata
      cases hdata
      exact hlen
    · exact fromRecv_byByte s

/-- An oversized header in front of a frame: the frame stays in the buffer if both come in
one chunk, and is on the queue if they come in two. -/
theorem frame_stuck_behind_oversized :
    ¬ CuttingImmaterial FromRecv ([0xAA, 0x20, 0x01, 0x01, 0x10, 0x00, 0x00, 0x00] ++
      frameBytes ⟨0x20, 1, 0, 0x0070, []⟩) := by
  intro h
  have hsame := h.1
    [.chunk ([0xAA, 0x20, 0x01, 0x01, 0x10, 0x00, 0x00, 0x00] ++
      frameBytes ⟨0x20, 1, 0, 0x0070, []⟩)]
    [.chunk [0xAA, 0x20, 0x01, 0x01, 0x10, 0x00, 0x00, 0x00],
      .chunk (frameBytes ⟨0x20, 1, 0, 0x0070, []⟩)]
    (by simp [StaysOpen]) (by simp [StaysOpen, frameBytes, framed])
    (by simp [FromRecv, frameBytes, framed, crcSpan, recvSize])
    (by simp [FromRecv, frameBytes, framed, crcSpan, recvSize])
    (by simp [bytesOf]) (by simp [bytesOf])
  have hdiffer : (connected.readerLoop [.chunk ([0xAA, 0x20, 0x01, 0x01, 0x10, 0x00, 0x00, 0x00] ++
      frameBytes ⟨0x20, 1, 0, 0x0070, []⟩)]).incoming ≠
      (connected.readerLoop [.chunk [0xAA, 0x20, 0x01, 0x01, 0x10, 0x00, 0x00, 0x00],
        .chunk (frameBytes ⟨0x20, 1, 0, 0x0070, []⟩)]).incoming := by decide +kernel
  exact hdiffer hsame

end SomeIpGateway.PythonReader
