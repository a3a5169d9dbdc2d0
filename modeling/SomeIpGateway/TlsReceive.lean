import SomeIpGateway.CandidateScan
import SomeIpGateway.PacketCodec
import SomeIpGateway.StreamReading

/-!
# The TLS transport's receive loop

`TlsTransport::readAll` and `rxLoop` over any reader of the connection's bytes. The loop
reads the fields of one frame after the other and never goes back, so it is in step with
the stream only as long as the stream is frames end to end.
-/
namespace SomeIpGateway.TlsReceive
open ByteAccess StreamScanning StreamReading FrameFormat PacketCodec CandidateScan

/-- The arguments of one call of `forwardToMcu`, with the two bytes of the frame that the
loop reads and drops. -/
structure Forwarded where
  cid : UInt16
  sof : UInt8
  frame : BkelFrame
  crc : UInt8
  deriving Repr, DecidableEq

section Loop
variable {σ : Type*} (R : Reader σ UInt8) (cid : UInt16)

/-- The payload is read only if the DLC announces one. -/
def readPayload (s : σ) (dlc : ℕ) : Option (List UInt8 × σ) :=
  if 0 < dlc then R.readAll s dlc else some ([], s)

theorem readPayload_eq (s : σ) (dlc : ℕ) : readPayload R s dlc = R.readAll s dlc := by
  rw [readPayload]
  split_ifs with h
  · rfl
  · obtain rfl : dlc = 0 := by omega
    rw [Reader.readAll, dif_pos rfl]

/-- The body of the loop of `rxLoop`, where `none` is to break. -/
def rxFrame (s : σ) : Option (Forwarded × σ) := do
  let (sof, s) ← R.readAll s bkelSofSize
  let (hdr, s) ← R.readAll s bkelHdrSize
  let hdr := readHeader hdr
  if bkelMaxPayload < hdr.dlc.toNat then none
  else
    let (payload, s) ← readPayload R s hdr.dlc.toNat
    let (pktCid, s) ← R.readAll s bkelCidSize
    let (crc, s) ← R.readAll s bkelCrcSize
    let frame :=
      { sid := hdr.sid, type := hdr.type, dlc := hdr.dlc, cid := u16At pktCid 0, payload }
    some (⟨cid, u8At sof 0, frame, u8At crc 0⟩, s)

/-- Where the loop breaks: the stream ends inside the frame, or the DLC is too large. -/
def BreaksAt (buf : List UInt8) : Prop :=
  buf.length < 5 ∨ bkelMaxPayload < dlcAt buf ∨ buf.length < dlcAt buf + 8

/-- What the loop makes of the bytes ahead, whatever the first of them is. -/
def forwardedAt (buf : List UInt8) : Forwarded :=
  ⟨cid, u8At buf 0, frameAt buf, u8At buf (dlcAt buf + 7)⟩

theorem rxFrame_eq_some {s t : σ} {x : Forwarded} (h : rxFrame R cid s = some (x, t)) :
    ¬ BreaksAt (R.remaining s) ∧ x = forwardedAt cid (R.remaining s) ∧
      R.remaining t = (R.remaining s).drop (dlcAt (R.remaining s) + 8) := by
  simp only [rxFrame, readPayload_eq, Option.bind_eq_bind, Option.bind_eq_some_iff] at h
  obtain ⟨⟨sof, s₁⟩, hsof, ⟨hdr, s₂⟩, hhdr, h⟩ := h
  obtain ⟨hlen₁, rfl, hrest₁⟩ := R.readAll_eq_some hsof
  obtain ⟨hlen₂, rfl, hrest₂⟩ := R.readAll_eq_some hhdr
  simp only [hrest₁, bkelSofSize, bkelHdrSize, readHeader_take, readHeader_drop, List.drop_drop,
    List.length_drop, Nat.reduceAdd] at h hrest₂ hlen₁ hlen₂
  split_ifs at h with hmax
  simp only [Option.bind_eq_some_iff] at h
  obtain ⟨⟨payload, s₃⟩, hpayload, ⟨pktCid, s₄⟩, hcid, ⟨crc, s₅⟩, hcrc, h⟩ := h
  obtain ⟨hlen₃, rfl, hrest₃⟩ := R.readAll_eq_some hpayload
  obtain ⟨hlen₄, rfl, hrest₄⟩ := R.readAll_eq_some hcid
  obtain ⟨hlen₅, rfl, hrest₅⟩ := R.readAll_eq_some hcrc
  obtain ⟨rfl, rfl⟩ := Prod.mk.inj (Option.some.inj h)
  simp only [hrest₂, hrest₃, hrest₄, hrest₅, bkelCidSize, bkelCrcSize, List.drop_drop,
    List.length_drop] at hlen₃ hlen₄ hlen₅ ⊢
  refine ⟨?_, ?_, ?_⟩
  · rw [BreaksAt, dlcAt]
    omega
  · simp [forwardedAt, frameAt, dlcAt, u16At, u8At_take, u8At_drop]
    congr 1
    omega
  · rw [dlcAt]
    congr 1
    omega

theorem rxFrame_of_not_breaksAt {s : σ} (h : ¬ BreaksAt (R.remaining s)) :
    ∃ x t, rxFrame R cid s = some (x, t) := by
  simp only [BreaksAt, not_or, not_lt, dlcAt] at h
  obtain ⟨h5, hmax, hlen⟩ := h
  have hlen₁ : 1 ≤ (R.remaining s).length := by omega
  obtain ⟨s₁, hsof, hrest₁⟩ := R.readAll_of_le hlen₁
  have hlen₂ : 4 ≤ (R.remaining s₁).length := by rw [hrest₁, List.length_drop]; omega
  obtain ⟨s₂, hhdr, hrest₂⟩ := R.readAll_of_le hlen₂
  rw [hrest₁, List.drop_drop] at hrest₂
  have hlen₃ : (u16At (R.remaining s) 3).toNat ≤ (R.remaining s₂).length := by
    rw [hrest₂, List.length_drop]; omega
  obtain ⟨s₃, hpayload, hrest₃⟩ := R.readAll_of_le hlen₃
  rw [hrest₂, List.drop_drop] at hrest₃
  have hlen₄ : 2 ≤ (R.remaining s₃).length := by rw [hrest₃, List.length_drop]; omega
  obtain ⟨s₄, hcid, hrest₄⟩ := R.readAll_of_le hlen₄
  rw [hrest₃, List.drop_drop] at hrest₄
  have hlen₅ : 1 ≤ (R.remaining s₄).length := by rw [hrest₄, List.length_drop]; omega
  obtain ⟨s₅, hcrc, -⟩ := R.readAll_of_le hlen₅
  simp [rxFrame, readPayload_eq, bkelSofSize, bkelHdrSize, bkelCidSize, bkelCrcSize, hsof, hhdr,
    hrest₁, readHeader_take, readHeader_drop, not_lt.mpr hmax, hpayload, hcid, hcrc,
    -List.drop_one]

/-- `rxLoop`: the calls of `forwardToMcu`. `running_` falls only in `stop`, which ends the
reads as well. -/
def rxLoop (s : σ) : List Forwarded :=
  match _h : rxFrame R cid s with
  | none => []
  | some (x, t) => x :: rxLoop t
termination_by (R.remaining s).length
decreasing_by
  obtain ⟨hgoes, -, hrest⟩ := rxFrame_eq_some R cid _h
  simp only [BreaksAt, not_or, not_lt] at hgoes
  rw [hrest, List.length_drop]
  omega

theorem rxLoop_of_breaksAt {s : σ} (h : BreaksAt (R.remaining s)) : rxLoop R cid s = [] := by
  rw [rxLoop]
  split
  · rfl
  · next hx => exact absurd h (rxFrame_eq_some R cid hx).1

theorem rxLoop_of_not_breaksAt {s : σ} (h : ¬ BreaksAt (R.remaining s)) :
    ∃ t, rxLoop R cid s = forwardedAt cid (R.remaining s) :: rxLoop R cid t ∧
      R.remaining t = (R.remaining s).drop (dlcAt (R.remaining s) + 8) := by
  obtain ⟨x, t, hx⟩ := rxFrame_of_not_breaksAt R cid h
  obtain ⟨-, rfl, hrest⟩ := rxFrame_eq_some R cid hx
  refine ⟨t, ?_, hrest⟩
  rw [rxLoop]
  split
  · next hnone =>
    rw [hx] at hnone
    cases hnone
  · next y u hy =>
    obtain ⟨rfl, rfl⟩ := Prod.mk.inj (Option.some.inj (hx.symm.trans hy))
    rfl

/-- Induction along the turns of the loop. -/
theorem rxLoop_induction {P : σ → Prop}
    (breaks : ∀ s, BreaksAt (R.remaining s) → P s)
    (turn : ∀ s, ¬ BreaksAt (R.remaining s) →
      (∀ t, R.remaining t = (R.remaining s).drop (dlcAt (R.remaining s) + 8) → P t) → P s)
    (s : σ) : P s := by
  induction hn : (R.remaining s).length using Nat.strong_induction_on generalizing s with
  | h n ih =>
    by_cases h : BreaksAt (R.remaining s)
    · exact breaks s h
    · apply turn s h
      intro t ht
      simp only [BreaksAt, not_or, not_lt] at h
      apply ih (R.remaining t).length _ t rfl
      rw [ht, List.length_drop]
      omega

/-! ### Streams in step -/

theorem not_breaksAt_framed {f : BkelFrame} (hf : f.WellFormed)
    (hmax : f.dlc.toNat ≤ bkelMaxPayload) (crc : UInt8) (more : List UInt8) :
    ¬ BreaksAt (framed f crc ++ more) := by
  have hlen := length_framed hf crc
  rw [BkelFrame.size] at hlen
  rw [BreaksAt, dlcAt_framed, List.length_append, hlen]
  omega

theorem forwardedAt_framed {f : BkelFrame} (hf : f.WellFormed) (crc : UInt8)
    (more : List UInt8) : forwardedAt cid (framed f crc ++ more) = ⟨cid, sofDataValue, f, crc⟩ := by
  rw [forwardedAt, frameAt_framed hf, dlcAt_framed, u8At_framed hf]
  simp [framed]

/-- Frames end to end are forwarded one by one, and what follows is read from its start. -/
theorem rxLoop_frames {xs : List (BkelFrame × UInt8)} (hxs : Admissible bkelMaxPayload xs)
    {s : σ} {tail : List UInt8} (hs : R.remaining s = framesBytes xs ++ tail) :
    ∃ t, R.remaining t = tail ∧
      rxLoop R cid s = xs.map (fun x => ⟨cid, sofDataValue, x.1, x.2⟩) ++ rxLoop R cid t := by
  induction xs generalizing s with
  | nil => exact ⟨s, by simpa [framesBytes] using hs, rfl⟩
  | cons x xs ih =>
    obtain ⟨hf, hmax⟩ := hxs x List.mem_cons_self
    rw [framesBytes, List.flatMap_cons, List.append_assoc] at hs
    obtain ⟨t, hloop, ht⟩ := rxLoop_of_not_breaksAt R cid (s := s)
      (by rw [hs]; exact not_breaksAt_framed hf hmax x.2 _)
    have hlen : (framed x.1 x.2).length = x.1.dlc.toNat + 8 := length_framed hf x.2
    rw [hs, dlcAt_framed, List.drop_left' hlen] at ht
    obtain ⟨u, hu, hrest⟩ := ih (fun y hy => hxs y (List.mem_cons_of_mem x hy)) ht
    refine ⟨u, hu, ?_⟩
    rw [hloop, hs, forwardedAt_framed cid hf, hrest]
    rfl

/-- With a tail that breaks the loop, the frames are all that is forwarded. -/
theorem rxLoop_frames_tail {xs : List (BkelFrame × UInt8)} (hxs : Admissible bkelMaxPayload xs)
    {s : σ} {tail : List UInt8} (hs : R.remaining s = framesBytes xs ++ tail)
    (htail : BreaksAt tail) :
    rxLoop R cid s = xs.map (fun x => ⟨cid, sofDataValue, x.1, x.2⟩) := by
  obtain ⟨t, ht, hloop⟩ := rxLoop_frames R cid hxs hs
  rw [hloop, rxLoop_of_breaksAt R cid (ht ▸ htail), List.append_nil]

/-- A loop that has taken nothing but the SOF for a first byte has read frames end to end. -/
theorem exists_frames_of_sof (s : σ) (hsof : ∀ x ∈ rxLoop R cid s, x.sof = sofDataValue) :
    ∃ xs tail, R.remaining s = framesBytes xs ++ tail ∧ Admissible bkelMaxPayload xs ∧
      BreaksAt tail := by
  induction s using rxLoop_induction R with
  | breaks s h => exact ⟨[], R.remaining s, rfl, by simp [Admissible], h⟩
  | turn s h ih =>
    obtain ⟨t, hloop, ht⟩ := rxLoop_of_not_breaksAt R cid h
    rw [hloop, List.forall_mem_cons] at hsof
    simp only [BreaksAt, not_or, not_lt] at h
    have hcandidate : Candidate bkelMaxPayload (R.remaining s) := ⟨h.2.2, hsof.1, h.2.1⟩
    obtain ⟨f, crc, more, hf, hmax, hbytes⟩ := hcandidate.exists_framed
    have hlen : (framed f crc).length = f.dlc.toNat + 8 := length_framed hf crc
    obtain ⟨xs, tail, hrest, hxs, htail⟩ := ih t ht hsof.2
    rw [ht, hbytes, dlcAt_framed, List.drop_left' hlen] at hrest
    refine ⟨(f, crc) :: xs, tail, ?_, ?_, htail⟩
    · rw [hbytes, hrest, framesBytes, framesBytes, List.flatMap_cons, List.append_assoc]
    · exact List.forall_mem_cons.mpr ⟨⟨hf, hmax⟩, hxs⟩

/-! ### The documented resynchronisation -/

/-- The frames of the scan that skips every byte other than the SOF, and one byte at a SOF
whose DLC is too large. -/
def resyncScan (s : List UInt8) : List BkelFrame :=
  (items ((candidateScanner 5 bkelMaxPayload le_rfl).drain s).1).map Prod.fst

/-- The loop forwards the frames of the scan, and each of them began with the SOF. -/
def FollowsScan (s : σ) : Prop :=
  (rxLoop R cid s).map Forwarded.frame = resyncScan (R.remaining s) ∧
    ∀ x ∈ rxLoop R cid s, x.sof = 0xAA

instance (s : σ) : Decidable (FollowsScan R cid s) := inferInstanceAs (Decidable (_ ∧ _))

/-- Frames end to end, and behind them a tail in which the loop breaks at once and no
candidate stands other than behind one that is cut short. -/
def InStep (s : List UInt8) : Prop :=
  ∃ xs tail, s = framesBytes xs ++ tail ∧ Admissible bkelMaxPayload xs ∧ BreaksAt tail ∧
    NoCandidate bkelMaxPayload tail

theorem resyncScan_framesBytes {xs : List (BkelFrame × UInt8)}
    (hxs : Admissible bkelMaxPayload xs) (tail : List UInt8) :
    resyncScan (framesBytes xs ++ tail) = xs.map Prod.fst ++ resyncScan tail := by
  rw [resyncScan, items_framesBytes le_rfl (by omega) hxs, List.map_append, resyncScan]

theorem resyncScan_eq_nil (s : List UInt8) :
    resyncScan s = [] ↔ NoCandidate bkelMaxPayload s := by
  rw [resyncScan, List.map_eq_nil_iff]
  exact items_eq_nil_iff le_rfl (by omega) s

/-- The loop, which skips no byte, follows the rules exactly on the streams that never call
for a byte to be skipped in front of a frame. -/
theorem followsScan_iff (s : σ) : FollowsScan R cid s ↔ InStep (R.remaining s) := by
  constructor
  · rintro ⟨hframes, hsof⟩
    obtain ⟨xs, tail, hs, hxs, htail⟩ := exists_frames_of_sof R cid s hsof
    refine ⟨xs, tail, hs, hxs, htail, ?_⟩
    rw [rxLoop_frames_tail R cid hxs hs htail, hs, resyncScan_framesBytes hxs, List.map_map]
      at hframes
    rw [← resyncScan_eq_nil]
    exact List.append_right_eq_self.mp hframes.symm
  · rintro ⟨xs, tail, hs, hxs, htail, hnone⟩
    have hloop := rxLoop_frames_tail R cid hxs hs htail
    constructor
    · rw [hloop, hs, resyncScan_framesBytes hxs, (resyncScan_eq_nil tail).mpr hnone,
        List.append_nil, List.map_map]
      rfl
    · intro x hx
      rw [hloop] at hx
      obtain ⟨y, -, rfl⟩ := List.mem_map.mp hx
      rfl

end Loop

/-- One stray byte in front of a request: the loop forwards a frame that starts with the
stray byte, and the request is lost. -/
theorem stray_byte_forwarded :
    ¬ FollowsScan (records UInt8) 7 [0x00 :: frameBytes ⟨0x20, 1, 0, 0x0070, []⟩] := by
  decide +kernel

end SomeIpGateway.TlsReceive
