import SomeIpGateway.FrameFormat

/-!
# The scan that does not look at the CRC

Two receivers of the system drop the last byte of a frame unread: the gateway's side
towards its clients and the Python client. Their frames are the candidates: a SOF with a
DLC within the limit and all the bytes it announces. A scanner may ask for more than the
five bytes up to the DLC before it looks at the DLC.
-/
namespace SomeIpGateway.CandidateScan
open ByteAccess StreamScanning FrameFormat

/-- The verdict on a buffer: a candidate comes with its last byte. -/
def candidate (header limit : ℕ) (buf : List UInt8) : Verdict (BkelFrame × UInt8) :=
  if buf = [] then .wait
  else if u8At buf 0 ≠ sofDataValue then .skip
  else if buf.length < header then .wait
  else if limit < dlcAt buf then .skip
  else if buf.length < dlcAt buf + 8 then .wait
  else .take (dlcAt buf + 8) (frameAt buf, u8At buf (dlcAt buf + 7))

/-- What has to hold for a candidate to be taken off the front. -/
structure Candidate (limit : ℕ) (buf : List UInt8) : Prop where
  complete : dlcAt buf + 8 ≤ buf.length
  sof : u8At buf 0 = sofDataValue
  dlc_le : dlcAt buf ≤ limit

theorem candidate_of {header limit : ℕ} (hheader : header ≤ 8) {buf : List UInt8}
    (h : Candidate limit buf) :
    candidate header limit buf =
      .take (dlcAt buf + 8) (frameAt buf, u8At buf (dlcAt buf + 7)) := by
  have hc := h.complete
  have hd := h.dlc_le
  have hne : buf ≠ [] := by rintro rfl; simp at hc
  simp only [candidate, hne, h.sof, if_false, not_true_eq_false, ne_eq]
  rw [if_neg (by omega), if_neg (by omega), if_neg (by omega)]

theorem of_candidate_take {header limit : ℕ} {buf : List UInt8} {n : ℕ} {x : BkelFrame × UInt8}
    (h : candidate header limit buf = .take n x) :
    Candidate limit buf ∧ n = dlcAt buf + 8 ∧
      x = (frameAt buf, u8At buf (dlcAt buf + 7)) := by
  simp only [candidate] at h
  split_ifs at h with hne hsof hhdr hdlc hlen
  obtain ⟨rfl, rfl⟩ := (Verdict.take.injEq ..).mp h
  exact ⟨⟨by omega, by simpa using hsof, by omega⟩, rfl, rfl⟩

/-- Input behind the buffer does not change a verdict that was not to wait. -/
theorem candidate_append {header limit : ℕ} (hheader : 5 ≤ header) {buf : List UInt8}
    (more : List UInt8) (h : candidate header limit buf ≠ .wait) :
    candidate header limit (buf ++ more) = candidate header limit buf := by
  have hne : buf ≠ [] := by rintro rfl; simp [candidate] at h
  have h0 : u8At (buf ++ more) 0 = u8At buf 0 :=
    u8At_append_left (List.length_pos_of_ne_nil hne) more
  by_cases hsof : u8At buf 0 = sofDataValue
  · have hhdr : header ≤ buf.length := by
      by_contra hlt
      simp [candidate, hsof, show buf.length < header by omega] at h
    have hd := dlcAt_append (show 5 ≤ buf.length by omega) more
    by_cases hdlc : limit < dlcAt buf
    · simp [candidate, hne, h0, hsof, hd, hdlc, show ¬ buf.length < header by omega,
        show ¬ buf.length + more.length < header by omega]
    · have hlen : dlcAt buf + 8 ≤ buf.length := by
        by_contra hlt
        simp [candidate, hsof, hdlc, show buf.length < dlcAt buf + 8 by omega] at h
      simp only [candidate, h0, hd, frameAt_append hlen, hne, List.length_append,
        List.append_eq_nil_iff, false_and, if_false]
      rw [if_neg (by omega : ¬ buf.length + more.length < header),
        if_neg (by omega : ¬ buf.length + more.length < dlcAt buf + 8),
        if_neg (by omega : ¬ buf.length < header), if_neg (by omega : ¬ buf.length < dlcAt buf + 8),
        u8At_append_left (by omega)]
  · simp [candidate, hne, h0, hsof]

/-- The scan for candidates. -/
def candidateScanner (header limit : ℕ) (hheader : 5 ≤ header) :
    Scanner UInt8 (BkelFrame × UInt8) where
  look := candidate header limit
  look_nil := by simp [candidate]
  take_pos := by
    intro buf n x h
    have := (of_candidate_take h).2.1
    omega
  take_le := by
    intro buf n x h
    obtain ⟨hc, rfl, -⟩ := of_candidate_take h
    exact hc.complete
  final := fun more h => candidate_append hheader more h

/-! ### Streams without a frame -/

/-- A candidate that the end of the stream cuts short. -/
def CutShort (limit : ℕ) (buf : List UInt8) : Prop :=
  u8At buf 0 = sofDataValue ∧ dlcAt buf ≤ limit ∧ buf.length < dlcAt buf + 8

/-- Every candidate stands behind one that is cut short. -/
def NoCandidate (limit : ℕ) (s : List UInt8) : Prop :=
  ∀ i, Candidate limit (s.drop i) → ∃ j < i, CutShort limit (s.drop j)

theorem candidate_eq_wait {header limit : ℕ} {buf : List UInt8} (hlen : header ≤ buf.length)
    (hne : buf ≠ []) : candidate header limit buf = .wait ↔ CutShort limit buf := by
  rw [candidate, if_neg hne, if_neg (not_lt.mpr hlen), CutShort]
  split_ifs with hsof hdlc hshort
  · simp [hsof]
  · simp only [false_iff]
    omega
  · simp only [true_iff]
    exact ⟨by simpa using hsof, by omega, hshort⟩
  · simp only [false_iff]
    omega

/-- Whether the scan finds anything, read off the stream. -/
theorem items_eq_nil_iff {header limit : ℕ} (hlow : 5 ≤ header) (hhigh : header ≤ 8)
    (s : List UInt8) :
    items ((candidateScanner header limit hlow).drain s).1 = [] ↔ NoCandidate limit s := by
  have hwait {i j : ℕ} (hij : j < i) (hc : Candidate limit (s.drop i)) :
      candidate header limit (s.drop j) = .wait ↔ CutShort limit (s.drop j) := by
    have hlen := hc.complete
    rw [List.length_drop] at hlen
    apply candidate_eq_wait
    · rw [List.length_drop]
      omega
    · rw [Ne, List.drop_eq_nil_iff]
      omega
  rw [Scanner.items_drain_eq_nil]
  constructor
  · intro hall i hc
    obtain ⟨j, hj, hw⟩ := hall i _ _ (candidate_of hhigh hc)
    exact ⟨j, hj, (hwait hj hc).mp hw⟩
  · intro hall i n x hi
    obtain ⟨hc, -, -⟩ := of_candidate_take hi
    obtain ⟨j, hj, hcut⟩ := hall i hc
    exact ⟨j, hj, (hwait hj hc).mpr hcut⟩

/-! ### Frames are candidates -/

theorem u8At_framed {f : BkelFrame} (hf : f.WellFormed) (crc : UInt8) (more : List UInt8) :
    u8At (framed f crc ++ more) (f.dlc.toNat + 7) = crc := by
  have hk := u8At_append_right (crcSpan f) (crc :: more) 0
  rw [Nat.add_zero, length_crcSpan hf, u8At_cons_zero] at hk
  rw [framed, List.cons_append, List.append_assoc]
  exact hk

theorem candidate_of_framed {limit : ℕ} {f : BkelFrame} (hf : f.WellFormed)
    (hlimit : f.dlc.toNat ≤ limit) (crc : UInt8) (more : List UInt8) :
    Candidate limit (framed f crc ++ more) where
  complete := by
    rw [List.length_append, length_framed hf, dlcAt_framed, BkelFrame.size]
    omega
  sof := by simp [framed]
  dlc_le := by rwa [dlcAt_framed]

/-- A frame within the limit is taken whatever its last byte is. -/
theorem candidate_framed {header limit : ℕ} (hheader : header ≤ 8) {f : BkelFrame}
    (hf : f.WellFormed) (hlimit : f.dlc.toNat ≤ limit) (crc : UInt8) (more : List UInt8) :
    candidate header limit (framed f crc ++ more) = .take (framed f crc).length (f, crc) := by
  rw [candidate_of hheader (candidate_of_framed hf hlimit crc more), frameAt_framed hf,
    dlcAt_framed, u8At_framed hf, length_framed hf, BkelFrame.size]

/-- The bytes of frames with their last bytes, end to end. -/
def framesBytes (xs : List (BkelFrame × UInt8)) : List UInt8 :=
  xs.flatMap fun x => framed x.1 x.2

/-- Frames that a receiver with the given limit takes. -/
def Admissible (limit : ℕ) (xs : List (BkelFrame × UInt8)) : Prop :=
  ∀ x ∈ xs, x.1.WellFormed ∧ x.1.dlc.toNat ≤ limit

/-- Frames end to end are found one by one. -/
theorem drain_framesBytes {header limit : ℕ} (hlow : 5 ≤ header) (hhigh : header ≤ 8)
    {xs : List (BkelFrame × UInt8)} (hxs : Admissible limit xs) (tail : List UInt8) :
    (candidateScanner header limit hlow).drain (framesBytes xs ++ tail) =
      (xs.map (fun x => ⟨framed x.1 x.2, some x⟩) ++
        ((candidateScanner header limit hlow).drain tail).1,
        ((candidateScanner header limit hlow).drain tail).2) := by
  apply Scanner.drain_flatMap
  intro x hx more
  obtain ⟨hf, hlimit⟩ := hxs x hx
  exact candidate_framed hhigh hf hlimit x.2 more

theorem items_framesBytes {header limit : ℕ} (hlow : 5 ≤ header) (hhigh : header ≤ 8)
    {xs : List (BkelFrame × UInt8)} (hxs : Admissible limit xs) (tail : List UInt8) :
    items ((candidateScanner header limit hlow).drain (framesBytes xs ++ tail)).1 =
      xs ++ items ((candidateScanner header limit hlow).drain tail).1 := by
  rw [drain_framesBytes hlow hhigh hxs, items_append, items_map_some, List.map_id']

/-- A candidate is a frame with some last byte. -/
theorem Candidate.exists_framed {limit : ℕ} {buf : List UInt8} (h : Candidate limit buf) :
    ∃ f crc more, f.WellFormed ∧ f.dlc.toNat ≤ limit ∧ buf = framed f crc ++ more := by
  obtain ⟨f, crc, more, hf, rfl⟩ := FrameFormat.exists_framed h.sof h.complete
  exact ⟨f, crc, more, hf, by simpa using h.dlc_le, rfl⟩

end SomeIpGateway.CandidateScan
