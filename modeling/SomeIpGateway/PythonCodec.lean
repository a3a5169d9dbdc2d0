import Mathlib.Data.Int.Bitwise
import SomeIpGateway.CandidateScan

/-!
# The Python client's codec

`FrameCodec` of `protocol.py`. An `int` is an integer without bounds, so that `&`, `|`
and `<<` are those of `Int`; `struct.pack` refuses what does not fit its format.
-/
namespace SomeIpGateway.PythonCodec
open ByteAccess StreamScanning FrameFormat CandidateScan

def headerSize : ℕ := 4
def tailSize : ℕ := 3
def maxPayload : ℕ := 4096

/-! ### Masks of unbounded integers -/

theorem ldiff_mask (k m : ℕ) : Nat.ldiff (2 ^ k - 1) m = 2 ^ k - (m % 2 ^ k + 1) := by
  apply Nat.eq_of_testBit_eq
  intro i
  rw [Nat.testBit_ldiff, Nat.testBit_two_pow_sub_one,
    Nat.testBit_two_pow_sub_succ (Nat.mod_lt m (by positivity)), Nat.testBit_mod_two_pow]
  by_cases hi : i < k <;> simp [hi]

/-- The low bits of an integer, of a negative one too, are its remainder. -/
theorem land_mask (x : ℤ) (k : ℕ) : Int.land x ((2 ^ k - 1 : ℕ) : ℤ) = x % 2 ^ k := by
  cases x with
  | ofNat m =>
    change ((m &&& (2 ^ k - 1) : ℕ) : ℤ) = (m : ℤ) % 2 ^ k
    rw [Nat.and_two_pow_sub_one_eq_mod]
    push_cast
    rfl
  | negSucc m =>
    have hlt := Nat.mod_lt m (show 0 < 2 ^ k by positivity)
    change ((Nat.ldiff (2 ^ k - 1) m : ℕ) : ℤ) = Int.negSucc m % 2 ^ k
    rw [ldiff_mask, Int.negSucc_emod _ (by positivity)]
    push_cast [Nat.cast_sub (show m % 2 ^ k + 1 ≤ 2 ^ k from hlt)]
    ring

/-! ### Encoding -/

inductive CodecError where
  | valueError (message : String)
  /-- `struct.error` -/
  | structError
  deriving Repr, DecidableEq

/-- `struct.pack` of a `B`. -/
def packB (n : ℤ) : Except CodecError (List UInt8) :=
  if 0 ≤ n ∧ n ≤ 255 then .ok [UInt8.ofNat n.toNat] else .error .structError

/-- `struct.pack` of an `H` in little-endian order. -/
def packH (n : ℤ) : Except CodecError (List UInt8) :=
  if 0 ≤ n ∧ n ≤ 65535 then
    .ok [lowByte (UInt16.ofNat n.toNat), highByte (UInt16.ofNat n.toNat)]
  else .error .structError

def crc8Placeholder (data : List UInt8) : UInt8 := data.foldl (· ^^^ ·) 0 &&& 0xFF

/-- `FrameCodec.encode`. -/
def encode (sid dataType : ℤ) (payload : List UInt8) (cid seq : ℤ) :
    Except CodecError (List UInt8) := do
  if maxPayload < payload.length then throw (.valueError "Payload too large")
  let cidRaw := Int.lor (Int.land cid 0x0FFF <<< (4 : ℕ)) (Int.land seq 0x0F)
  let body := (← packB sid) ++ (← packB dataType) ++ (← packH payload.length) ++ payload ++
    (← packH cidRaw)
  let crc := crc8Placeholder (sofDataValue :: body)
  return sofDataValue :: (body ++ [crc])

/-- The CID and the sequence number in one word. -/
def rawCid (cid seq : ℤ) : UInt16 :=
  UInt16.ofNat ((cid % 4096).toNat <<< 4 ||| (seq % 16).toNat)

theorem cidRaw_toNat (cid seq : ℤ) :
    (cid % 4096).toNat <<< 4 ||| (seq % 16).toNat = (cid % 4096).toNat * 16 + (seq % 16).toNat := by
  have hseq : (seq % 16).toNat < 2 ^ 4 := by omega
  rw [← Nat.shiftLeft_add_eq_or_of_lt hseq, Nat.shiftLeft_eq]

theorem rawCid_toNat (cid seq : ℤ) :
    (rawCid cid seq).toNat = (cid % 4096).toNat * 16 + (seq % 16).toNat := by
  rw [rawCid, UInt16.toNat_ofNat', cidRaw_toNat]
  omega

theorem packH_cidRaw (cid seq : ℤ) :
    packH (Int.lor (Int.land cid 0x0FFF <<< (4 : ℕ)) (Int.land seq 0x0F)) =
      .ok [lowByte (rawCid cid seq), highByte (rawCid cid seq)] := by
  have hcid : Int.land cid 0x0FFF = ((cid % 4096).toNat : ℤ) := by
    rw [show (0x0FFF : ℤ) = ((2 ^ 12 - 1 : ℕ) : ℤ) by norm_num, land_mask]
    omega
  have hseq : Int.land seq 0x0F = ((seq % 16).toNat : ℤ) := by
    rw [show (0x0F : ℤ) = ((2 ^ 4 - 1 : ℕ) : ℤ) by norm_num, land_mask]
    omega
  have hor : Int.lor (Int.land cid 0x0FFF <<< (4 : ℕ)) (Int.land seq 0x0F) =
      (((cid % 4096).toNat <<< 4 ||| (seq % 16).toNat : ℕ) : ℤ) := by
    rw [hcid, hseq]
    rfl
  have hrange := cidRaw_toNat cid seq
  rw [hor, packH, if_pos (by omega), Int.toNat_natCast, rawCid]

/-- A request as its caller gives it to `encode`. -/
structure Request where
  sid : UInt8
  dataType : UInt8
  payload : List UInt8
  cid : ℤ
  seq : ℤ
  deriving Repr, DecidableEq

namespace Request

def encode (r : Request) : Except CodecError (List UInt8) :=
  PythonCodec.encode r.sid.toNat r.dataType.toNat r.payload r.cid r.seq

/-- The frame that a request is. -/
def frame (r : Request) : BkelFrame where
  sid := r.sid
  type := r.dataType
  dlc := UInt16.ofNat r.payload.length
  cid := rawCid r.cid r.seq
  payload := r.payload

/-- The last byte that `encode` gives it. -/
def checksum (r : Request) : UInt8 := crc8Placeholder (sofDataValue :: crcSpan r.frame)

theorem frame_dlc {r : Request} (h : r.payload.length ≤ maxPayload) :
    r.frame.dlc.toNat = r.payload.length := by
  rw [maxPayload] at h
  rw [frame, UInt16.toNat_ofNat']
  omega

theorem frame_wellFormed {r : Request} (h : r.payload.length ≤ maxPayload) :
    r.frame.WellFormed := (frame_dlc h).symm

/-- Within the limit, encoding succeeds. -/
theorem encode_eq {r : Request} (h : r.payload.length ≤ maxPayload) :
    r.encode = .ok (framed r.frame r.checksum) := by
  have hB (b : UInt8) : packB (b.toNat : ℤ) = .ok [b] := by
    have := b.toNat_lt
    rw [packB, if_pos (by omega), Int.toNat_natCast, UInt8.ofNat_toNat]
  have hH : packH (r.payload.length : ℤ) =
      .ok [lowByte (UInt16.ofNat r.payload.length), highByte (UInt16.ofNat r.payload.length)] := by
    rw [maxPayload] at h
    rw [packH, if_pos (by omega), Int.toNat_natCast]
  rw [encode, PythonCodec.encode, if_neg (not_lt.mpr h), hB, hB, hH]
  dsimp only
  rw [packH_cidRaw]
  simp [framed, crcSpan, checksum, frame, bind, Except.bind, pure, Except.pure]

theorem admissible {requests : List Request} {limit : ℕ} (hlimit : limit ≤ maxPayload)
    (h : ∀ r ∈ requests, r.payload.length ≤ limit) :
    Admissible limit (requests.map fun r => (r.frame, r.checksum)) := by
  intro x hx
  obtain ⟨r, hr, rfl⟩ := List.mem_map.mp hx
  have hlen := (h r hr).trans hlimit
  exact ⟨frame_wellFormed hlen, (frame_dlc hlen).trans_le (h r hr)⟩

end Request

/-! ### Decoding -/

/-- `Frame`, up to the time of its arrival, which nothing reads. -/
structure Frame where
  sid : UInt8
  dataType : UInt8
  payload : List UInt8
  cidRaw : UInt16
  crc8 : UInt8
  rawPacket : List UInt8
  deriving Repr, DecidableEq

namespace Frame

def cid (f : Frame) : UInt16 := (f.cidRaw >>> 4) &&& 0x0FFF
def seq (f : Frame) : UInt16 := f.cidRaw &&& 0x000F

end Frame

/-- `FrameCodec.try_decode`: the result, and the buffer as it leaves it. -/
def tryDecode (buffer : List UInt8) : Option Frame × List UInt8 :=
  let buffer := buffer.dropWhile (· != sofDataValue)
  if buffer.length < 1 + headerSize + tailSize then (none, buffer)
  else
    let hdr := readHeader (buffer.drop 1)
    let dlc := hdr.dlc.toNat
    if maxPayload < dlc then (none, buffer.drop 1)
    else
      let frameLen := 1 + headerSize + dlc + tailSize
      if buffer.length < frameLen then (none, buffer)
      else
        let raw := buffer.take frameLen
        let payloadStart := 1 + headerSize
        let payload := (raw.drop payloadStart).take dlc
        let cidRaw := u16At ((raw.drop (payloadStart + dlc)).take 2) 0
        let recvCrc := u8At raw (raw.length - 1)
        (some { sid := hdr.sid, dataType := hdr.type, payload, cidRaw, crc8 := recvCrc,
                rawPacket := raw },
          buffer.drop frameLen)

/-- What a candidate is decoded to. -/
def decoded (x : BkelFrame × UInt8) : Frame where
  sid := x.1.sid
  dataType := x.1.type
  payload := x.1.payload
  cidRaw := x.1.cid
  crc8 := x.2
  rawPacket := framed x.1 x.2

/-- The bytes that `try_decode` goes by. -/
def clientScanner : Scanner UInt8 (BkelFrame × UInt8) := candidateScanner 8 maxPayload (by omega)

/-- A SOF whose DLC is too large: `try_decode` erases it and returns `None` all the same. -/
def halts (buf : List UInt8) : Bool := u8At buf 0 == sofDataValue

theorem tryDecode_skip {a : UInt8} (ha : a ≠ sofDataValue) (buffer : List UInt8) :
    tryDecode (a :: buffer) = tryDecode buffer := by
  simp [tryDecode, ha]

theorem dropWhile_sof {buffer : List UInt8} (hsof : u8At buffer 0 = sofDataValue) :
    buffer.dropWhile (· != sofDataValue) = buffer := by
  cases buffer with
  | nil => rfl
  | cons a buffer =>
    obtain rfl : a = sofDataValue := hsof
    simp

/-- The frame built from the bytes of a candidate. -/
theorem tryDecode_framed {f : BkelFrame} (hf : f.WellFormed) (hmax : f.dlc.toNat ≤ maxPayload)
    (crc : UInt8) (more : List UInt8) :
    tryDecode (framed f crc ++ more) = (some (decoded (f, crc)), more) := by
  have hsof : u8At (framed f crc ++ more) 0 = sofDataValue := by simp [framed]
  have hlen : (framed f crc).length = f.dlc.toNat + 8 := length_framed hf crc
  have hsize : 1 + 4 + f.dlc.toNat + 3 = f.dlc.toNat + 8 := by omega
  have hhdr : readHeader ((framed f crc ++ more).drop 1) = ⟨f.sid, f.type, f.dlc⟩ := by
    rw [framed_append]
    simp [readHeader, u16At]
  have hraw : (framed f crc ++ more).take (f.dlc.toNat + 8) = framed f crc := List.take_left' hlen
  have hrest : (framed f crc ++ more).drop (f.dlc.toNat + 8) = more := List.drop_left' hlen
  have hdlc := dlcAt_framed f crc []
  have hat := frameAt_framed hf crc []
  have hlast := u8At_framed hf crc []
  rw [List.append_nil] at hdlc hat hlast
  have hpayload : ((framed f crc).drop 5).take f.dlc.toNat = f.payload := by
    rw [← hdlc]
    exact congrArg BkelFrame.payload hat
  have hcid : u16At (((framed f crc).drop (5 + f.dlc.toNat)).take 2) 0 = f.cid := by
    rw [← hdlc, u16At, u8At_take (by omega), u8At_take (by omega), u8At_drop, u8At_drop]
    exact congrArg BkelFrame.cid hat
  simp only [tryDecode, dropWhile_sof hsof, headerSize, tailSize, hhdr, hsize, hraw, hrest,
    hpayload, hcid, hlen, Nat.reduceAdd, Nat.add_succ_sub_one, hlast]
  rw [if_neg (by rw [List.length_append]; omega), if_neg (by omega),
    if_neg (by rw [List.length_append]; omega)]
  rfl

/-- Behind the leading bytes, `try_decode` decides by the verdict on the buffer. -/
theorem tryDecode_sof {buffer : List UInt8} (hsof : u8At buffer 0 = sofDataValue) :
    tryDecode buffer =
      match candidate 8 maxPayload buffer with
      | .wait => (none, buffer)
      | .skip => (none, buffer.drop 1)
      | .take n x => (some (decoded x), buffer.drop n) := by
  have hne : buffer ≠ [] := by
    rintro rfl
    exact absurd hsof (by decide)
  have hdlc : (u16At buffer 3).toNat = dlcAt buffer := rfl
  have hsize : 1 + 4 + dlcAt buffer + 3 = dlcAt buffer + 8 := by omega
  by_cases hc : Candidate maxPayload buffer
  · obtain ⟨f, crc, more, hf, hmax, rfl⟩ := hc.exists_framed
    rw [candidate_framed le_rfl hf hmax, tryDecode_framed hf hmax]
    simp
  · simp only [tryDecode, dropWhile_sof hsof, candidate, hne, hsof, headerSize, tailSize,
      readHeader_drop, hdlc, hsize, ne_eq, not_true_eq_false, if_false, Nat.reduceAdd]
    split_ifs with h8 hmax hlen
    · rfl
    · rfl
    · rfl
    · exact absurd ⟨by omega, hsof, by omega⟩ hc

end SomeIpGateway.PythonCodec
