import SomeIpGateway.CyclicChecks
import SomeIpGateway.McuParser

/-!
# Error bursts under the frame check

`calc_crc8` is a cyclic redundancy check of width eight with generator `0x07`, fed with
the bits of the bytes from the most significant down. A frame hit by a burst of at most
eight bits that leaves its DLC alone is therefore accepted by neither parser.
-/
namespace SomeIpGateway.CrcBursts
open ByteAccess StreamScanning FrameFormat CyclicChecks

/-- The generator of `calc_crc8` without its leading term. -/
def generator : BitVec 8 := 0x07

theorem generator_constant : generator.getLsbD 0 = true := rfl

/-- The bits of a byte, the most significant first. -/
def bitsOf (b : UInt8) : List Bool := (List.range 8).map fun i => b.toBitVec.getMsbD i

/-- The bits of consecutive bytes. -/
def bits (data : List UInt8) : List Bool := data.flatMap bitsOf

@[simp] theorem length_bitsOf (b : UInt8) : (bitsOf b).length = 8 := by simp [bitsOf]

theorem bitsOf_xor (a b : UInt8) : bitsOf (a ^^^ b) = List.zipWith xor (bitsOf a) (bitsOf b) := by
  simp [bitsOf, List.zipWith_map, List.zipWith_self]

theorem length_bits (data : List UInt8) : (bits data).length = 8 * data.length := by
  induction data with
  | nil => rfl
  | cons b data ih =>
    rw [bits, List.flatMap_cons, List.length_append, length_bitsOf, ← bits, ih, List.length_cons]
    omega

theorem bits_xor {data e : List UInt8} (h : data.length = e.length) :
    bits (List.zipWith (· ^^^ ·) data e) = List.zipWith xor (bits data) (bits e) := by
  induction data generalizing e with
  | nil => simp [bits]
  | cons a data ih =>
    obtain ⟨b, e, rfl⟩ := List.exists_cons_of_length_eq_add_one h.symm
    have hrest := ih (show data.length = e.length by simpa using h)
    simp only [bits, List.zipWith_cons_cons, List.flatMap_cons] at hrest ⊢
    rw [hrest, bitsOf_xor, List.zipWith_append (by simp)]

/-- One turn of the bit loop shifts the register. -/
theorem toBitVec_crcBit (crc : UInt8) :
    (crcBit crc).toBitVec = shift generator crc.toBitVec := by
  obtain ⟨r⟩ := crc
  revert r
  decide +kernel

/-- Eight shifts feed the bits of a byte to an empty register. -/
theorem feedAll_bitsOf (b : UInt8) :
    feedAll generator 0 (bitsOf b) = (shift generator)^[8] b.toBitVec := by
  obtain ⟨r⟩ := b
  revert r
  decide +kernel

/-- One turn of the byte loop feeds the bits of the byte. -/
theorem toBitVec_crcByte (crc data : UInt8) :
    (crcByte crc data).toBitVec = feedAll generator crc.toBitVec (bitsOf data) := by
  have hshifts (x : UInt8) : (crcBit^[8] x).toBitVec = (shift generator)^[8] x.toBitVec :=
    (Function.Semiconj.iterate_right toBitVec_crcBit 8) x
  rw [feedAll_eq_xor, length_bitsOf, feedAll_bitsOf, ← shift_iterate_xor, crcByte, hshifts]
  rfl

/-- `calc_crc8` feeds the bits of the bytes. -/
theorem toBitVec_calcCrc8 (data : List UInt8) :
    (calcCrc8 data).toBitVec = feedAll generator 0 (bits data) := by
  have hfold (crc : UInt8) :
      (data.foldl crcByte crc).toBitVec = feedAll generator crc.toBitVec (bits data) := by
    induction data generalizing crc with
    | nil => rfl
    | cons b data ih =>
      rw [List.foldl_cons, ih, toBitVec_crcByte, bits, bits, List.flatMap_cons, feedAll_append]
  exact hfold 0

/-- The check passes exactly if the register is empty behind the CRC. -/
theorem calcCrc8_concat_eq_zero_iff (data : List UInt8) (crc : UInt8) :
    calcCrc8 (data ++ [crc]) = 0 ↔ calcCrc8 data = crc := by
  have hstep : calcCrc8 (data ++ [crc]) = crcByte (calcCrc8 data) crc := by
    rw [calcCrc8, List.foldl_append]
    rfl
  rw [hstep, ← UInt8.toBitVec_inj, ← UInt8.toBitVec_inj, toBitVec_crcByte, feedAll_eq_xor,
    length_bitsOf, feedAll_bitsOf, ← shift_iterate_xor]
  constructor
  · intro hzero
    have hxor := eq_zero_of_shift_iterate generator generator_constant 8 hzero
    exact BitVec.xor_eq_zero_iff.mp hxor
  · intro hsame
    rw [hsame, BitVec.xor_self]
    rfl

/-- A message with its CRC that is hit by a burst of at most eight bits no longer passes. -/
theorem check_fails_of_burst {data e : List UInt8} {crc : UInt8} (hcrc : calcCrc8 data = crc)
    (hlen : e.length = data.length + 1) (hburst : Burst 8 (bits e)) :
    calcCrc8 (List.zipWith (· ^^^ ·) (data ++ [crc]) e) ≠ 0 := by
  have hsame : (data ++ [crc]).length = e.length := by simp [hlen]
  have hbits : (bits (data ++ [crc])).length = (bits e).length := by
    rw [length_bits, length_bits, hsame]
  have hempty := (calcCrc8_concat_eq_zero_iff data crc).mpr hcrc
  have hdiffer := feedAll_ne_of_burst generator generator_constant 0 hbits hburst
  rw [← bits_xor hsame, ← toBitVec_calcCrc8, ← toBitVec_calcCrc8, hempty] at hdiffer
  exact fun hzero => hdiffer (congrArg UInt8.toBitVec hzero)

/-- The bytes behind the SOF of a frame on the wire, with some of their bits flipped. -/
def flipped (f : BkelFrame) (e : List UInt8) : List UInt8 :=
  List.zipWith (· ^^^ ·) (crcSpan f ++ [calcCrc8 (crcSpan f)]) e

/-- An error on the bytes behind the SOF of a frame: at least one flipped bit, all within
eight consecutive bits, and none in the two bytes of the DLC. -/
structure ShortBurst (f : BkelFrame) (e : List UInt8) : Prop where
  length : e.length = f.dlc.toNat + 7
  burst : Burst 8 (bits e)
  dlc : u8At e 2 = 0 ∧ u8At e 3 = 0

section Flipped
variable {f : BkelFrame} {e : List UInt8}

theorem length_flipped (hf : f.WellFormed) (h : ShortBurst f e) :
    (flipped f e).length = f.dlc.toNat + 7 := by
  simp [flipped, length_crcSpan hf, h.length]

/-- The changed bytes fail the check. -/
theorem crc_detects (hf : f.WellFormed) (h : ShortBurst f e) :
    calcCrc8 ((flipped f e).take (f.dlc.toNat + 6)) ≠ u8At (flipped f e) (f.dlc.toNat + 6) := by
  have hlen := length_flipped hf h
  have hlast : f.dlc.toNat + 6 < (flipped f e).length := by omega
  have hsplit : flipped f e =
      (flipped f e).take (f.dlc.toNat + 6) ++ [u8At (flipped f e) (f.dlc.toNat + 6)] := by
    rw [u8At, List.getD_eq_getElem?_getD, List.getElem?_eq_getElem hlast, Option.getD_some,
      ← List.take_succ_eq_append_getElem hlast, List.take_of_length_le (by omega)]
  rw [Ne, ← calcCrc8_concat_eq_zero_iff, ← hsplit]
  exact check_fails_of_burst rfl (by rw [h.length, length_crcSpan hf]) h.burst

theorem u8At_flipped (hf : f.WellFormed) (h : ShortBurst f e) {i : ℕ}
    (hi : i < f.dlc.toNat + 6) : u8At (flipped f e) i = u8At (crcSpan f) i ^^^ u8At e i := by
  have hspan : i < (crcSpan f).length := by rwa [length_crcSpan hf]
  have he : i < e.length := by rw [h.length]; omega
  simp [u8At, flipped, List.getD_eq_getElem?_getD, List.getElem?_zipWith,
    List.getElem?_append_left hspan, List.getElem?_eq_getElem hspan, List.getElem?_eq_getElem he]

/-- The changed bytes still announce the length they had. -/
theorem dlcAt_flipped (hf : f.WellFormed) (h : ShortBurst f e) (more : List UInt8) :
    dlcAt (sofDataValue :: (flipped f e ++ more)) = f.dlc.toNat := by
  have hlen := length_flipped hf h
  have hlow : u8At (flipped f e) 2 = lowByte f.dlc := by
    rw [u8At_flipped hf h (by omega), h.dlc.1]
    exact UInt8.xor_zero
  have hhigh : u8At (flipped f e) 3 = highByte f.dlc := by
    rw [u8At_flipped hf h (by omega), h.dlc.2]
    exact UInt8.xor_zero
  rw [dlcAt, u16At, u8At_cons_succ, u8At_cons_succ, u8At_append_left (by omega),
    u8At_append_left (by omega), hlow, hhigh, u16OfBytes_bytes]

theorem not_crcMatches (hf : f.WellFormed) (h : ShortBurst f e) (more : List UInt8) :
    ¬ crcMatches (sofDataValue :: (flipped f e ++ more)) := by
  have hlen := length_flipped hf h
  rw [crcMatches, dlcAt_flipped hf h, u8At_cons_succ, u8At_append_left (by omega),
    List.drop_succ_cons, List.drop_zero, List.take_append_of_le_length (by omega)]
  exact (crc_detects hf h).symm

/-- The gateway's parser takes no frame at the SOF, however much has arrived. -/
theorem parseBody_flipped (hf : f.WellFormed) (h : ShortBurst f e) {more buf : List UInt8}
    (hbuf : buf <+: sofDataValue :: (flipped f e ++ more)) (n : ℕ) (g : BkelFrame) :
    PacketCodec.parseBody buf ≠ .take n g := by
  intro htake
  obtain ⟨rest, hrest⟩ := hbuf
  have hfinal := PacketCodec.packetParser.final rest (htake.trans_ne (by simp))
  obtain ⟨haccepted, -, -⟩ := PacketCodec.parseBody_take (hfinal.trans htake)
  rw [hrest] at haccepted
  exact not_crcMatches hf h more haccepted.crc

/-- The MCU's parser takes no frame at the SOF, however much has arrived. -/
theorem parseOneFrame_flipped (hf : f.WellFormed) (h : ShortBurst f e) (more : List UInt8)
    (bufLen : ℕ) :
    let out := McuParser.parseOneFrame (sofDataValue :: (flipped f e ++ more)) bufLen
    out.result ≠ .ok ∧ out.handled = none := by
  have hcrc := not_crcMatches hf h more
  rw [McuParser.parseOneFrame_unfold]
  split_ifs <;> simp

end Flipped

theorem bits_zeros (n : ℕ) : ∀ b ∈ bits (List.replicate n 0), b = false := by
  intro b hb
  obtain ⟨byte, hbyte, hbit⟩ := List.mem_flatMap.mp hb
  rw [List.eq_of_mem_replicate hbyte] at hbit
  simpa [bitsOf] using hbit

theorem true_mem_bitsOf {x : UInt8} (h : x ≠ 0) : true ∈ bitsOf x := by
  obtain ⟨r⟩ := x
  revert r
  decide +kernel

/-- An error confined to one byte is a burst of at most eight bits. -/
theorem burst_of_byte (i : ℕ) {x : UInt8} (h : x ≠ 0) (j : ℕ) :
    Burst 8 (bits (List.replicate i 0 ++ x :: List.replicate j 0)) := by
  have hsplit : bits (List.replicate i 0 ++ x :: List.replicate j 0) =
      bits (List.replicate i 0) ++ (bitsOf x ++ bits (List.replicate j 0)) := by
    simp [bits]
  rw [hsplit]
  exact burst_of_window (by simp) (true_mem_bitsOf h) (bits_zeros i) (bits_zeros j)

/-- Every error burst of at most eight bits that spares the DLC is detected: the changed
bytes fail the check, and neither parser takes a frame at that SOF, whatever follows and
however much of it has arrived. Any error confined to one byte is such a burst. -/
theorem bursts_detected {f : BkelFrame} (hf : f.WellFormed) :
    (∀ e, ShortBurst f e →
      calcCrc8 ((flipped f e).take (f.dlc.toNat + 6)) ≠ u8At (flipped f e) (f.dlc.toNat + 6) ∧
      (∀ more buf n g, buf <+: sofDataValue :: (flipped f e ++ more) →
        PacketCodec.parseBody buf ≠ .take n g) ∧
      ∀ more bufLen,
        (McuParser.parseOneFrame (sofDataValue :: (flipped f e ++ more)) bufLen).result ≠ .ok ∧
        (McuParser.parseOneFrame (sofDataValue :: (flipped f e ++ more)) bufLen).handled = none) ∧
    ∀ i x j, x ≠ 0 → Burst 8 (bits (List.replicate i 0 ++ x :: List.replicate j 0)) := by
  refine ⟨fun e h => ⟨crc_detects hf h, ?_, ?_⟩, fun i x j hx => burst_of_byte i hx j⟩
  · exact fun more buf n g hbuf => parseBody_flipped hf h hbuf n g
  · exact fun more bufLen => parseOneFrame_flipped hf h more bufLen

/-- Two flipped bits on either side of a byte boundary of a frame are detected. -/
theorem bursts_detected_boundary :
    calcCrc8 ((flipped ⟨0x24, 1, 1, 0x10, [7]⟩ [0, 0, 0, 0, 1, 0x80, 0, 0]).take 7) ≠
      u8At (flipped ⟨0x24, 1, 1, 0x10, [7]⟩ [0, 0, 0, 0, 1, 0x80, 0, 0]) 7 := by
  have hburst : Burst 8 (List.replicate 39 false ++ ([true, true] ++ List.replicate 23 false)) :=
    burst_of_window (by decide) (by decide) (by decide) (by decide)
  exact ((bursts_detected (f := ⟨0x24, 1, 1, 0x10, [7]⟩) rfl).1 [0, 0, 0, 0, 1, 0x80, 0, 0]
    ⟨rfl, hburst, by decide⟩).1

end SomeIpGateway.CrcBursts
