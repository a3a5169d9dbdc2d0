import SomeIpGateway.ByteAccess
import SomeIpGateway.StreamScanning

/-!
# The frame on the wire

`SOF(1) | SID(1) | TYPE(1) | DLC(2) | PAYLOAD(N) | CID(2) | CRC8(1)`, with DLC and
CID low byte first and the CRC over everything between the SOF and itself. This
module states what a frame is, independently of the two encoders and the two
parsers: the bytes of a frame, and the verdict on a buffer that may begin with
one. `frameScanner` is the grammar that the parsers are compared with.
-/
namespace SomeIpGateway.FrameFormat
open ByteAccess StreamScanning

/-- Start of frame, `SOF_DATA_VALUE` on both sides. -/
def sofDataValue : UInt8 := 0xAA
def bkelSofSize : ℕ := 1
def bkelHdrSize : ℕ := 4
def bkelCidSize : ℕ := 2
def bkelCrcSize : ℕ := 1

/-- `BKEL_Frame` at the gateway; the argument list of `handle_frame` at the MCU. -/
structure BkelFrame where
  sid : UInt8
  type : UInt8
  dlc : UInt16
  cid : UInt16
  payload : List UInt8
  deriving Repr, DecidableEq

/-- The packed header struct that both sides declare. -/
structure BkelDataFrameHeader where
  sid : UInt8
  type : UInt8
  dlc : UInt16
  deriving Repr, DecidableEq

/-- `memcpy` of a packed header from a pointer. -/
def readHeader (mem : List UInt8) : BkelDataFrameHeader := ⟨u8At mem 0, u8At mem 1, u16At mem 2⟩

theorem readHeader_drop (mem : List UInt8) (k : ℕ) :
    readHeader (mem.drop k) = ⟨u8At mem k, u8At mem (k + 1), u16At mem (k + 2)⟩ := by
  simp only [readHeader, u16At, u8At_drop, Nat.add_zero, Nat.add_assoc, Nat.reduceAdd]

theorem readHeader_take (mem : List UInt8) : readHeader (mem.take 4) = readHeader mem := by
  simp [readHeader, u16At, u8At_take]

/-- The bytes of a packed header. -/
def headerBytes (hdr : BkelDataFrameHeader) : List UInt8 :=
  [hdr.sid, hdr.type, lowByte hdr.dlc, highByte hdr.dlc]

/-- One turn of the bit loop of `calc_crc8`. -/
def crcBit (crc : UInt8) : UInt8 :=
  if crc &&& 0x80 ≠ 0 then (crc <<< 1) ^^^ 0x07 else crc <<< 1

/-- One turn of the byte loop of `calc_crc8`. -/
def crcByte (crc data : UInt8) : UInt8 := crcBit^[8] (crc ^^^ data)

/-- `calc_crc8` of `PacketEncoder.hpp`. -/
def calcCrc8 (data : List UInt8) : UInt8 := data.foldl crcByte 0x00

namespace BkelFrame

/-- The DLC counts the payload bytes. -/
def WellFormed (f : BkelFrame) : Prop := f.payload.length = f.dlc.toNat

instance (f : BkelFrame) : Decidable f.WellFormed := inferInstanceAs (Decidable (_ = _))

/-- The number of bytes of the frame on the wire. -/
def size (f : BkelFrame) : ℕ := f.dlc.toNat + 8

end BkelFrame

/-- The bytes the CRC covers. -/
def crcSpan (f : BkelFrame) : List UInt8 :=
  [f.sid, f.type, lowByte f.dlc, highByte f.dlc] ++ f.payload ++ [lowByte f.cid, highByte f.cid]

/-- The bytes of a frame that carries the given last byte. -/
def framed (f : BkelFrame) (crc : UInt8) : List UInt8 := sofDataValue :: (crcSpan f ++ [crc])

/-- The bytes of a frame on the wire. -/
def frameBytes (f : BkelFrame) : List UInt8 := framed f (calcCrc8 (crcSpan f))

theorem length_crcSpan {f : BkelFrame} (hf : f.WellFormed) :
    (crcSpan f).length = f.dlc.toNat + 6 := by
  simp only [crcSpan, List.length_append, List.length_cons, List.length_nil]
  rw [show f.payload.length = f.dlc.toNat from hf]
  omega

theorem length_framed {f : BkelFrame} (hf : f.WellFormed) (crc : UInt8) :
    (framed f crc).length = f.size := by
  simp [framed, length_crcSpan hf, BkelFrame.size]

theorem length_frameBytes {f : BkelFrame} (hf : f.WellFormed) :
    (frameBytes f).length = f.size := length_framed hf _

/-- The DLC of a frame that starts at the pointer. -/
def dlcAt (buf : List UInt8) : ℕ := (u16At buf 3).toNat

/-- The content of a frame that starts at the pointer. -/
def frameAt (buf : List UInt8) : BkelFrame where
  sid := u8At buf 1
  type := u8At buf 2
  dlc := u16At buf 3
  cid := u16At buf (5 + dlcAt buf)
  payload := (buf.drop 5).take (dlcAt buf)

/-- Whether the byte behind a frame that starts at the pointer is its CRC. -/
def crcMatches (buf : List UInt8) : Prop :=
  u8At buf (dlcAt buf + 7) = calcCrc8 ((buf.drop 1).take (dlcAt buf + 6))

instance (buf : List UInt8) : Decidable (crcMatches buf) := inferInstanceAs (Decidable (_ = _))

/-- The grammar: what stands at the front of a buffer, for a given limit on the DLC. -/
def verdict (limit : ℕ) (buf : List UInt8) : Verdict BkelFrame :=
  if buf = [] then .wait
  else if u8At buf 0 ≠ sofDataValue then .skip
  else if buf.length < 5 then .wait
  else if limit < dlcAt buf then .skip
  else if buf.length < dlcAt buf + 8 then .wait
  else if ¬ crcMatches buf then .skip
  else .take (dlcAt buf + 8) (frameAt buf)

theorem dlcAt_append {buf : List UInt8} (h : 5 ≤ buf.length) (more : List UInt8) :
    dlcAt (buf ++ more) = dlcAt buf := by
  rw [dlcAt, dlcAt, u16At_append_left (by omega)]

theorem frameAt_append {buf : List UInt8} (h : dlcAt buf + 8 ≤ buf.length)
    (more : List UInt8) : frameAt (buf ++ more) = frameAt buf := by
  have hd := dlcAt_append (show 5 ≤ buf.length by omega) more
  simp only [frameAt, hd]
  rw [u8At_append_left (by omega), u8At_append_left (by omega), u16At_append_left (by omega),
    u16At_append_left (by omega), List.drop_append_of_le_length (by omega),
    List.take_append_of_le_length (by rw [List.length_drop]; omega)]

theorem crcMatches_append {buf : List UInt8} (h : dlcAt buf + 8 ≤ buf.length)
    (more : List UInt8) : crcMatches (buf ++ more) ↔ crcMatches buf := by
  have hd := dlcAt_append (show 5 ≤ buf.length by omega) more
  simp only [crcMatches, hd]
  rw [u8At_append_left (by omega), List.drop_append_of_le_length (by omega),
    List.take_append_of_le_length (by rw [List.length_drop]; omega)]

/-- What has to hold for a frame to be taken off the front. -/
structure Accepted (limit : ℕ) (buf : List UInt8) : Prop where
  complete : dlcAt buf + 8 ≤ buf.length
  sof : u8At buf 0 = sofDataValue
  dlc_le : dlcAt buf ≤ limit
  crc : crcMatches buf

theorem verdict_of_accepted {limit : ℕ} {buf : List UInt8} (h : Accepted limit buf) :
    verdict limit buf = .take (dlcAt buf + 8) (frameAt buf) := by
  have hc := h.complete
  have hd := h.dlc_le
  have hne : buf ≠ [] := by rintro rfl; simp at hc
  simp only [verdict, hne, h.sof, h.crc, if_false, not_true_eq_false, ne_eq]
  rw [if_neg (by omega), if_neg (by omega), if_neg (by omega)]

theorem of_verdict_take {limit : ℕ} {buf : List UInt8} {n : ℕ} {f : BkelFrame}
    (h : verdict limit buf = .take n f) :
    Accepted limit buf ∧ n = dlcAt buf + 8 ∧ f = frameAt buf := by
  simp only [verdict] at h
  split_ifs at h with hne hsof hhdr hdlc hlen hcrc
  simp only [Verdict.take.injEq] at h
  exact ⟨⟨by omega, by simpa using hsof, by omega, by simpa using hcrc⟩, h.1.symm, h.2.symm⟩

/-- The grammar waits only in front of the start of a frame that is not all there. -/
theorem of_verdict_wait {limit : ℕ} {buf : List UInt8} (h : verdict limit buf = .wait)
    (hne : buf ≠ []) :
    u8At buf 0 = sofDataValue ∧
      (buf.length < 5 ∨ dlcAt buf ≤ limit ∧ buf.length < dlcAt buf + 8) := by
  simp only [verdict, if_neg hne] at h
  split_ifs at h with hsof hhdr hdlc hlen hcrc
  · exact ⟨by simpa using hsof, Or.inl hhdr⟩
  · exact ⟨by simpa using hsof, Or.inr ⟨not_lt.mp hdlc, hlen⟩⟩

/-- Input behind the buffer does not change a verdict that was not to wait. -/
theorem verdict_append {limit : ℕ} {buf : List UInt8} (more : List UInt8)
    (h : verdict limit buf ≠ .wait) : verdict limit (buf ++ more) = verdict limit buf := by
  have hne : buf ≠ [] := by rintro rfl; simp [verdict] at h
  have h0 : u8At (buf ++ more) 0 = u8At buf 0 :=
    u8At_append_left (List.length_pos_of_ne_nil hne) more
  by_cases hsof : u8At buf 0 = sofDataValue
  · have hhdr : 5 ≤ buf.length := by
      by_contra hlt
      simp [verdict, hsof, show buf.length < 5 by omega] at h
    have hd := dlcAt_append hhdr more
    by_cases hdlc : limit < dlcAt buf
    · simp [verdict, hne, h0, hsof, hd, hdlc, show ¬ buf.length < 5 by omega,
        show ¬ buf.length + more.length < 5 by omega]
    · have hlen : dlcAt buf + 8 ≤ buf.length := by
        by_contra hlt
        simp [verdict, hsof, hdlc, show buf.length < dlcAt buf + 8 by omega] at h
      simp only [verdict, h0, hd, crcMatches_append hlen, frameAt_append hlen, hne,
        List.length_append, List.append_eq_nil_iff, false_and, if_false]
      rw [if_neg (by omega : ¬ buf.length + more.length < 5),
        if_neg (by omega : ¬ buf.length + more.length < dlcAt buf + 8),
        if_neg (by omega : ¬ buf.length < 5), if_neg (by omega : ¬ buf.length < dlcAt buf + 8)]
  · simp [verdict, hne, h0, hsof]

/-- The grammar as a scanner. -/
def frameScanner (limit : ℕ) : Scanner UInt8 BkelFrame where
  look := verdict limit
  look_nil := by simp [verdict]
  take_pos := by
    intro buf n f h
    have := (of_verdict_take h).2.1
    omega
  take_le := by
    intro buf n f h
    obtain ⟨ha, rfl, -⟩ := of_verdict_take h
    exact ha.complete
  final := fun more h => verdict_append more h

/-! ### Round trips -/

/-- The bytes of a frame, spelled out up to the payload. -/
theorem framed_append (f : BkelFrame) (crc : UInt8) (more : List UInt8) :
    framed f crc ++ more = sofDataValue :: f.sid :: f.type :: lowByte f.dlc :: highByte f.dlc ::
      (f.payload ++ (lowByte f.cid :: highByte f.cid :: crc :: more)) := by
  simp [framed, crcSpan]

@[simp] theorem dlcAt_framed (f : BkelFrame) (crc : UInt8) (more : List UInt8) :
    dlcAt (framed f crc ++ more) = f.dlc.toNat := by
  rw [framed_append, dlcAt, u16At]
  simp

theorem frameAt_framed {f : BkelFrame} (hf : f.WellFormed) (crc : UInt8) (more : List UInt8) :
    frameAt (framed f crc ++ more) = f := by
  have hd := dlcAt_framed f crc more
  simp only [frameAt, hd, ← show f.payload.length = f.dlc.toNat from hf]
  rw [framed_append, show 5 + f.payload.length = f.payload.length + 1 + 1 + 1 + 1 + 1 by omega,
    u16At, u16At]
  have h0 := u8At_append_right f.payload (lowByte f.cid :: highByte f.cid :: crc :: more) 0
  have h1 := u8At_append_right f.payload (lowByte f.cid :: highByte f.cid :: crc :: more) 1
  simp only [Nat.add_zero] at h0
  simp [h0, h1]

/-- The check compares the last byte with the CRC of the span. -/
theorem crcMatches_framed {f : BkelFrame} (hf : f.WellFormed) (crc : UInt8)
    (more : List UInt8) : crcMatches (framed f crc ++ more) ↔ crc = calcCrc8 (crcSpan f) := by
  have hl := length_crcSpan hf
  have hs : framed f crc ++ more = sofDataValue :: (crcSpan f ++ (crc :: more)) := by
    simp [framed]
  have hk := u8At_append_right (crcSpan f) (crc :: more) 0
  simp only [Nat.add_zero, hl, u8At_cons_zero] at hk
  rw [crcMatches, dlcAt_framed, hs, u8At_cons_succ, hk, List.drop_succ_cons, List.drop_zero,
    List.take_left' hl]

/-- A well-formed frame within the limit is accepted, whatever follows it. -/
theorem accepted_frameBytes {limit : ℕ} {f : BkelFrame} (hf : f.WellFormed)
    (hlimit : f.dlc.toNat ≤ limit) (more : List UInt8) :
    Accepted limit (frameBytes f ++ more) where
  complete := by
    rw [List.length_append, length_frameBytes hf, frameBytes, dlcAt_framed, BkelFrame.size]
    omega
  sof := by simp [frameBytes, framed]
  dlc_le := by rwa [frameBytes, dlcAt_framed]
  crc := (crcMatches_framed hf _ more).mpr rfl

/-- Decoding undoes encoding: the grammar takes exactly the frame. -/
theorem verdict_frameBytes {limit : ℕ} {f : BkelFrame} (hf : f.WellFormed)
    (hlimit : f.dlc.toNat ≤ limit) (more : List UInt8) :
    verdict limit (frameBytes f ++ more) = .take (frameBytes f).length f := by
  rw [verdict_of_accepted (accepted_frameBytes hf hlimit more), length_frameBytes hf, frameBytes,
    frameAt_framed hf, dlcAt_framed, BkelFrame.size]

/-- A buffer that starts with the SOF and is long enough for its DLC starts with
the bytes of some frame, up to the last byte. -/
theorem exists_framed {buf : List UInt8} (hsof : u8At buf 0 = sofDataValue)
    (h : dlcAt buf + 8 ≤ buf.length) :
    ∃ f crc more, f.WellFormed ∧ buf = framed f crc ++ more := by
  rcases buf with _ | ⟨sof, _ | ⟨sid, _ | ⟨type, _ | ⟨d0, _ | ⟨d1, rest⟩⟩⟩⟩⟩
  case cons.cons.cons.cons.cons =>
    have hdlc : dlcAt (sof :: sid :: type :: d0 :: d1 :: rest) = (u16OfBytes d0 d1).toNat := by
      simp [dlcAt, u16At]
    rw [hdlc] at h
    simp only [List.length_cons] at h
    rcases hr : rest.drop (u16OfBytes d0 d1).toNat with _ | ⟨c0, _ | ⟨c1, _ | ⟨crc, more⟩⟩⟩
    case cons.cons.cons =>
      refine ⟨⟨sid, type, u16OfBytes d0 d1, u16OfBytes c0 c1,
        rest.take (u16OfBytes d0 d1).toNat⟩, crc, more, ?_, ?_⟩
      · simp only [BkelFrame.WellFormed, List.length_take]
        omega
      · rw [framed_append]
        simp only [lowByte_u16OfBytes, highByte_u16OfBytes, ← hr, List.take_append_drop]
        rw [← hsof, u8At_cons_zero]
    -- a tail shorter than CID and CRC contradicts the length
    all_goals
      have hl := congrArg List.length hr
      simp only [List.length_drop, List.length_cons, List.length_nil] at hl
      omega
  all_goals
    simp only [List.length_cons, List.length_nil] at h
    omega

/-- Encoding undoes decoding: an accepted frame is well formed and is encoded to
the bytes it was read from. -/
theorem frameBytes_frameAt {limit : ℕ} {buf : List UInt8} (h : Accepted limit buf) :
    (frameAt buf).WellFormed ∧ frameBytes (frameAt buf) = buf.take (dlcAt buf + 8) := by
  obtain ⟨f, crc, more, hf, rfl⟩ := exists_framed h.sof h.complete
  have hcrc := (crcMatches_framed hf crc more).mp h.crc
  have hlen : (framed f crc).length = f.dlc.toNat + 8 := length_framed hf crc
  rw [frameAt_framed hf, dlcAt_framed, List.take_left' hlen, frameBytes, hcrc]
  exact ⟨hf, rfl⟩

end SomeIpGateway.FrameFormat
