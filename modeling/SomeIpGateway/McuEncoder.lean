import SomeIpGateway.PacketCodec

/-!
# The MCU's encoder

`build_frame` of `BKEL_APP_protocol.c` writes a frame into the caller's buffer
and draws its CID from `make_cid`, whose static variables are threaded through as
state. The main result carries a list of calls through to the gateway's parser.
-/
namespace SomeIpGateway.McuEncoder
open ByteAccess StreamScanning FrameFormat PacketCodec

def crc8Poly : UInt8 := 0x07

/-- One turn of the bit loop of the MCU's `calc_crc8`. -/
def crcBit (crc : UInt8) : UInt8 :=
  if crc &&& 0x80 ≠ 0 then (crc <<< 1) ^^^ crc8Poly else crc <<< 1

/-- `calc_crc8` of `BKEL_APP_crc.h`. -/
def calcCrc8 (data : List UInt8) : UInt8 :=
  data.foldl (fun crc byte => crcBit^[8] (crc ^^^ byte)) 0x00

/-- Both ends compute the same CRC. -/
theorem calcCrc8_eq : calcCrc8 = FrameFormat.calcCrc8 := rfl

/-- The unique device identifier, read as three words from `UID_BASE`. -/
structure Uid where
  u0 : UInt32
  u1 : UInt32
  u2 : UInt32

/-- The static variables of `BKEL_APP_cid.c`. -/
structure CidState where
  nodeId : UInt16 := 0
  init : Bool := false
  seq4 : UInt8 := 0
  deriving Repr, DecidableEq

/-- `make_node_id_12bit`. -/
def makeNodeId12bit (uid : Uid) : UInt16 := ((uid.u0 ^^^ uid.u1 ^^^ uid.u2) &&& 0x0FFF).toUInt16

/-- `next_seq4`. -/
def nextSeq4 (seq4 : UInt8) : UInt8 := (seq4 + 1) &&& 0x0F

/-- `make_cid`. -/
def makeCid (uid : Uid) (st : CidState) : UInt16 × CidState :=
  let st :=
    if !st.init then
      let nodeId := makeNodeId12bit uid
      let nodeId := if nodeId = 0 then 1 else nodeId
      { st with nodeId := nodeId, init := true }
    else st
  let seq := nextSeq4 st.seq4
  ((st.nodeId <<< 4) ||| seq.toUInt16, { st with seq4 := seq })

/-- The node id that the next call of `make_cid` uses. -/
def CidState.node (uid : Uid) (st : CidState) : UInt16 :=
  if !st.init then if makeNodeId12bit uid = 0 then 1 else makeNodeId12bit uid else st.nodeId

/-- The CID made of a node id and a sequence number. -/
def cidOf (node : UInt16) (seq : ℕ) : UInt16 := (node <<< 4) ||| UInt16.ofNat (seq % 16)

theorem nextSeq4_toNat (seq4 : UInt8) : (nextSeq4 seq4).toNat = (seq4.toNat + 1) % 16 := by
  have h := Nat.and_two_pow_sub_one_eq_mod ((seq4.toNat + 1) % 256) 4
  simp only [Nat.reducePow, Nat.reduceSub] at h
  simp [nextSeq4, h]

/-- A call of `make_cid` uses the node id and the next sequence number, keeps the
node id and moves the sequence number on by one modulo 16. -/
theorem makeCid_spec (uid : Uid) (st : CidState) :
    (makeCid uid st).1 = cidOf (st.node uid) (st.seq4.toNat + 1) ∧
    (makeCid uid st).2.node uid = st.node uid ∧
    (makeCid uid st).2.seq4.toNat = (st.seq4.toNat + 1) % 16 := by
  have hseq : (nextSeq4 st.seq4).toUInt16 = UInt16.ofNat ((st.seq4.toNat + 1) % 16) := by
    rw [← nextSeq4_toNat]
    simp
  cases hi : st.init <;>
    simp [makeCid, CidState.node, cidOf, hi, hseq, nextSeq4_toNat]

/-- A node id drawn from the device identifier is a non-zero 12-bit number. -/
theorem fresh_node_range (uid : Uid) (seq4 : UInt8) :
    let node := CidState.node uid { seq4 := seq4 }
    0 < node.toNat ∧ node.toNat < 4096 := by
  have hmask : (makeNodeId12bit uid).toNat < 4096 := by
    have h := Nat.and_two_pow_sub_one_eq_mod ((uid.u0 ^^^ uid.u1 ^^^ uid.u2).toNat) 12
    simp only [Nat.reducePow, Nat.reduceSub] at h
    simp only [makeNodeId12bit, UInt32.toNat_toUInt16, UInt32.toNat_and, UInt32.reduceToNat, h]
    omega
  simp only [CidState.node, Bool.not_false, if_true]
  split_ifs with hz
  · exact ⟨by decide, by decide⟩
  · have hne : (makeNodeId12bit uid).toNat ≠ 0 := fun h => hz (UInt16.toNat_inj.mp h)
    exact ⟨by omega, hmask⟩

/-- `build_frame`: the returned length, the buffer and the CID state. The payload
pointer is the list of the bytes it points to. -/
def buildFrame (uid : Uid) (st : CidState) (outBuf : List UInt8) (outBufSize : ℕ)
    (sid type : UInt8) (payload : List UInt8) (payloadLen : UInt16) :
    ℕ × List UInt8 × CidState :=
  let totalLen := 1 + bkelHdrSize + payloadLen.toNat + bkelCidSize + bkelCrcSize
  if outBufSize < totalLen then (0, outBuf, st)
  else
    let hdr : BkelDataFrameHeader := ⟨sid, type, payloadLen⟩
    let offset := 0
    let outBuf := store outBuf offset [sofDataValue]
    let offset := offset + 1
    let outBuf := store outBuf offset (headerBytes hdr)
    let offset := offset + bkelHdrSize
    let outBuf := store outBuf offset (payload.take payloadLen.toNat)
    let offset := offset + payloadLen.toNat
    let (cid, st) := makeCid uid st
    let outBuf := store outBuf offset [lowByte cid, highByte cid]
    let offset := offset + bkelCidSize
    let crc := calcCrc8 ((outBuf.drop 1).take (offset - 1))
    let outBuf := store outBuf offset [crc]
    let offset := offset + 1
    (offset, outBuf, st)

/-- One call of `build_frame`: the caller's buffer is at least as large as the
size it states, and the payload pointer covers the payload length. -/
structure BuildCall where
  outBuf : List UInt8
  outBufSize : ℕ
  sid : UInt8
  type : UInt8
  payload : List UInt8
  payloadLen : UInt16
  buf_covers : outBufSize ≤ outBuf.length
  payload_covers : payload.length = payloadLen.toNat

namespace BuildCall

def run (c : BuildCall) (uid : Uid) (st : CidState) : ℕ × List UInt8 × CidState :=
  buildFrame uid st c.outBuf c.outBufSize c.sid c.type c.payload c.payloadLen

/-- Whether the stated buffer size leaves room for the frame. -/
def Fits (c : BuildCall) : Prop := c.payloadLen.toNat + 8 ≤ c.outBufSize

instance (c : BuildCall) : Decidable c.Fits := inferInstanceAs (Decidable (_ ≤ _))

/-- The frame the call is asked to build, with a given CID. -/
def frame (c : BuildCall) (cid : UInt16) : BkelFrame :=
  ⟨c.sid, c.type, c.payloadLen, cid, c.payload⟩

theorem frame_wellFormed (c : BuildCall) (cid : UInt16) : (c.frame cid).WellFormed :=
  c.payload_covers

theorem run_of_not_fits (c : BuildCall) (uid : Uid) (st : CidState) (h : ¬ c.Fits) :
    c.run uid st = (0, c.outBuf, st) := by
  have hlt : c.outBufSize < 1 + bkelHdrSize + c.payloadLen.toNat + bkelCidSize + bkelCrcSize := by
    simp only [Fits, bkelHdrSize, bkelCidSize, bkelCrcSize] at *
    omega
  rw [run, buildFrame, if_pos hlt]

/-- A call with room writes the frame to the front of the buffer, leaves the rest
of it alone and returns the frame's length. -/
theorem run_of_fits (c : BuildCall) (uid : Uid) (st : CidState) (h : c.Fits) :
    c.run uid st =
      (c.payloadLen.toNat + 8,
        frameBytes (c.frame (makeCid uid st).1) ++ c.outBuf.drop (c.payloadLen.toNat + 8),
        (makeCid uid st).2) := by
  have hge : ¬ c.outBufSize < 1 + bkelHdrSize + c.payloadLen.toNat + bkelCidSize + bkelCrcSize := by
    simp only [Fits, bkelHdrSize, bkelCidSize, bkelCrcSize] at *
    omega
  have hp : c.payload.take c.payloadLen.toNat = c.payload :=
    List.take_of_length_le (le_of_eq c.payload_covers)
  generalize hmk : makeCid uid st = made
  have hspan : [sofDataValue] ++ headerBytes ⟨c.sid, c.type, c.payloadLen⟩ ++ c.payload ++
      [lowByte made.1, highByte made.1] = sofDataValue :: crcSpan (c.frame made.1) := by
    simp [crcSpan, headerBytes, frame]
  have hl : (crcSpan (c.frame made.1)).length = c.payloadLen.toNat + 6 :=
    length_crcSpan (c.frame_wellFormed made.1)
  -- the buffer after each store, with the written part in front
  have w1 : store c.outBuf 0 [sofDataValue] = [sofDataValue] ++ c.outBuf.drop 1 :=
    store_written (show ([] : List UInt8).length = 0 from rfl)
  have w2 : store ([sofDataValue] ++ c.outBuf.drop 1) 1 (headerBytes ⟨c.sid, c.type, c.payloadLen⟩)
      = [sofDataValue] ++ headerBytes ⟨c.sid, c.type, c.payloadLen⟩ ++ c.outBuf.drop 5 :=
    store_written rfl
  have w3 : store ([sofDataValue] ++ headerBytes ⟨c.sid, c.type, c.payloadLen⟩ ++
      c.outBuf.drop 5) 5 c.payload = [sofDataValue] ++ headerBytes ⟨c.sid, c.type, c.payloadLen⟩ ++
      c.payload ++ c.outBuf.drop (5 + c.payloadLen.toNat) := by
    rw [store_written (by rfl), c.payload_covers]
  have w4 : store ([sofDataValue] ++ headerBytes ⟨c.sid, c.type, c.payloadLen⟩ ++ c.payload ++
      c.outBuf.drop (5 + c.payloadLen.toNat)) (5 + c.payloadLen.toNat)
      [lowByte made.1, highByte made.1] = sofDataValue :: crcSpan (c.frame made.1) ++
      c.outBuf.drop (5 + c.payloadLen.toNat + 2) := by
    rw [store_written (by simp [headerBytes, c.payload_covers]; omega), hspan]
    rfl
  have w5 : store (sofDataValue :: crcSpan (c.frame made.1) ++
      c.outBuf.drop (5 + c.payloadLen.toNat + 2)) (5 + c.payloadLen.toNat + 2)
      [calcCrc8 (crcSpan (c.frame made.1))] = frameBytes (c.frame made.1) ++
      c.outBuf.drop (5 + c.payloadLen.toNat + 2 + 1) := by
    rw [store_written (by simp [hl]; omega)]
    simp [frameBytes, framed, calcCrc8_eq]
  have hcrc : ((sofDataValue :: crcSpan (c.frame made.1) ++
      c.outBuf.drop (5 + c.payloadLen.toNat + 2)).drop 1).take (5 + c.payloadLen.toNat + 2 - 1) =
      crcSpan (c.frame made.1) := by
    rw [List.cons_append, List.drop_succ_cons, List.drop_zero, List.take_left' (by rw [hl]; omega)]
  have hlen : 5 + c.payloadLen.toNat + 2 + 1 = c.payloadLen.toNat + 8 := by omega
  rw [run, buildFrame, if_neg hge]
  simp only [bkelHdrSize, bkelCidSize, hp, Nat.zero_add, hmk, Nat.reduceAdd, w1, w2, w3, w4, hcrc,
    w5, hlen]

end BuildCall

/-- The bytes of a list of calls, each handing on the front of its buffer that
the returned length counts. -/
def sentBytes (uid : Uid) : CidState → List BuildCall → List UInt8
  | _, [] => []
  | st, c :: calls =>
    let (frameLen, outBuf, st) := c.run uid st
    outBuf.take frameLen ++ sentBytes uid st calls

/-- The frames a list of calls should deliver: one for every call that has room,
the sequence number going up by one from each of them to the next. -/
def expectedFrames (node : UInt16) : ℕ → List BuildCall → List BkelFrame
  | _, [] => []
  | seq, c :: calls =>
    if c.Fits then c.frame (cidOf node (seq + 1)) :: expectedFrames node (seq + 1) calls
    else expectedFrames node seq calls

theorem expectedFrames_congr (node : UInt16) (calls : List BuildCall) {a b : ℕ}
    (h : a % 16 = b % 16) : expectedFrames node a calls = expectedFrames node b calls := by
  induction calls generalizing a b with
  | nil => rfl
  | cons c calls ih =>
    have hs : (a + 1) % 16 = (b + 1) % 16 := by omega
    simp only [expectedFrames, cidOf, hs, ih h, ih hs]

theorem sentBytes_eq (uid : Uid) (st : CidState) (calls : List BuildCall) :
    sentBytes uid st calls =
      (expectedFrames (st.node uid) st.seq4.toNat calls).flatMap frameBytes := by
  induction calls generalizing st with
  | nil => rfl
  | cons c calls ih =>
    by_cases hfit : c.Fits
    · obtain ⟨hcid, hnode, hseq⟩ := makeCid_spec uid st
      have hlen : (frameBytes (c.frame (makeCid uid st).1)).length = c.payloadLen.toNat + 8 :=
        length_frameBytes (c.frame_wellFormed _)
      rw [hcid] at hlen
      simp only [sentBytes, expectedFrames, c.run_of_fits uid st hfit, if_pos hfit, ih, hnode,
        List.flatMap_cons, hcid, List.take_left' hlen]
      rw [expectedFrames_congr _ _ (show (makeCid uid st).2.seq4.toNat % 16 =
        (st.seq4.toNat + 1) % 16 by rw [hseq, Nat.mod_mod])]
    · simp only [sentBytes, expectedFrames, c.run_of_not_fits uid st hfit, if_neg hfit, ih,
        List.take_zero, List.nil_append]

theorem expectedFrames_wellFormed (node : UInt16) (seq : ℕ) (calls : List BuildCall)
    (hlen : ∀ c ∈ calls, c.payloadLen.toNat ≤ bkelMaxPayload) :
    ∀ f ∈ expectedFrames node seq calls, f.WellFormed ∧ f.dlc.toNat ≤ bkelMaxPayload := by
  induction calls generalizing seq with
  | nil => simp [expectedFrames]
  | cons c calls ih =>
    have htail := fun seq => ih seq (fun d hd => hlen d (by simp [hd]))
    intro f hf
    rw [expectedFrames] at hf
    split_ifs at hf
    · rcases List.mem_cons.mp hf with rfl | hf
      · exact ⟨c.frame_wellFormed _, hlen c (by simp)⟩
      · exact htail _ f hf
    · exact htail _ f hf

/-- Every call either refuses for lack of room, changing nothing, or writes just
the frame; and the frames of a list of calls, cut in any way, reach the gateway's
`onFrame` once each, in order and with the content the calls gave them. -/
theorem built_frames_decoded (uid : Uid) (st : CidState) (calls : List BuildCall)
    (hlen : ∀ c ∈ calls, c.payloadLen.toNat ≤ 256) (chunks : List (List UInt8))
    (hchunks : chunks.flatten = sentBytes uid st calls) :
    (∀ (c : BuildCall) (st : CidState),
      if c.outBufSize < c.payloadLen.toNat + 8 then c.run uid st = (0, c.outBuf, st)
      else (c.run uid st).1 = c.payloadLen.toNat + 8 ∧
        (c.run uid st).2.1.length = c.outBuf.length ∧
        (c.run uid st).2.1.drop (c.payloadLen.toNat + 8) =
          c.outBuf.drop (c.payloadLen.toNat + 8)) ∧
    items (pushAll [] chunks).1 = expectedFrames (st.node uid) st.seq4.toNat calls := by
  constructor
  · intro c st
    split_ifs with hroom
    · exact c.run_of_not_fits uid st (not_le.mpr hroom)
    · have hfit : c.Fits := not_lt.mp hroom
      have hcov := c.buf_covers
      have hwf := length_frameBytes (c.frame_wellFormed (makeCid uid st).1)
      have hsize : (c.frame (makeCid uid st).1).size = c.payloadLen.toNat + 8 := rfl
      rw [c.run_of_fits uid st hfit]
      refine ⟨rfl, ?_, ?_⟩
      · rw [List.length_append, hwf, hsize, List.length_drop]
        rw [BuildCall.Fits] at hfit
        omega
      · rw [List.drop_left' (hwf.trans hsize)]
  · rw [sentBytes_eq] at hchunks
    have h := pushAll_frames id _ (expectedFrames_wellFormed (st.node uid) st.seq4.toNat calls hlen)
      hchunks
    rw [h.1, List.map_id]

/-- Two calls, the second without room, pushed in two pieces. -/
theorem built_frames_decoded_pair :
    items (pushAll [] [[0xAA, 0x24, 0x01], [1, 0, 7, 0x16, 0, 0xA0]]).1 =
      [⟨0x24, 0x01, 1, 0x16, [7]⟩] := by
  have h := (built_frames_decoded ⟨0, 0, 0⟩ ⟨1, true, 5⟩
    [⟨List.replicate 9 0, 9, 0x24, 0x01, [7], 1, by decide, by decide⟩,
      ⟨[0], 1, 0x25, 0x01, [1], 1, by decide, by decide⟩] (by decide)
    [[0xAA, 0x24, 0x01], [1, 0, 7, 0x16, 0, 0xA0]] (by decide +kernel)).2
  rw [h]
  decide +kernel

end SomeIpGateway.McuEncoder
