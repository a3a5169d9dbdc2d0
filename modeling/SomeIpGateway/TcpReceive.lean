import SomeIpGateway.TcpFloodGuard
import SomeIpGateway.TlsReceive

/-!
# The plain TCP transport's receive loop

`TcpTransport::rxLoop` reads each field with one `recv` that waits for all of it, and runs
the flood guard between the SOF and the header of every frame. What it forwards is what the
TLS transport forwards from the same bytes, up to the frame at which the guard bans.
-/
namespace SomeIpGateway.TcpReceive
open ByteAccess StreamReading FrameFormat PacketCodec TlsReceive FixedWindow
open TcpFloodGuard TcpFloodGuard.TcpTransport

/-- `recv` with `MSG_WAITALL`, where `none` is that it returned less than it was asked for. -/
def recv (s : List UInt8) (n : ℕ) : Option (List UInt8 × List UInt8) :=
  (whole UInt8).readExactly s n

/-- The payload is read only if the DLC announces one. -/
def recvPayload (s : List UInt8) (dlc : ℕ) : Option (List UInt8 × List UInt8) :=
  if 0 < dlc then recv s dlc else some ([], s)

/-- The turn of the loop behind the guard, where `none` is to break. -/
def rxFields (cid : UInt16) (sof : List UInt8) (s : List UInt8) :
    Option (Forwarded × List UInt8) := do
  let (hdr, s) ← recv s bkelHdrSize
  let hdr := readHeader hdr
  if bkelMaxPayload < hdr.dlc.toNat then none
  else
    let (payload, s) ← recvPayload s hdr.dlc.toNat
    let (pktCid, s) ← recv s bkelCidSize
    let (crc, s) ← recv s bkelCrcSize
    let frame :=
      { sid := hdr.sid, type := hdr.type, dlc := hdr.dlc, cid := u16At pktCid 0, payload }
    some (⟨cid, u8At sof 0, frame, u8At crc 0⟩, s)

/-- A read of the whole stream is one `recv`, unless nothing is asked for. -/
theorem recv_eq_readAll {n : ℕ} (hn : 0 < n) (s : List UInt8) :
    recv s n = (whole UInt8).readAll s n := by
  rcases Nat.lt_or_ge s.length n with hlt | hle
  · rw [(whole UInt8).readAll_of_lt (s := s) hlt, recv]
    by_contra hsome
    obtain ⟨⟨got, t⟩, hread⟩ := Option.ne_none_iff_exists'.mp hsome
    exact absurd ((whole UInt8).readExactly_eq_some hread).1 (not_le.mpr hlt)
  · obtain ⟨t, hread, rfl⟩ := (whole UInt8).readAll_of_le (s := s) hle
    rw [hread, recv, whole_readExactly hn hle]
    rfl

/-- Without the guard a turn is one of the TLS transport's. -/
theorem rxFrame_whole (cid : UInt16) (s : List UInt8) :
    rxFrame (whole UInt8) cid s = (recv s bkelSofSize).bind (fun r => rxFields cid r.1 r.2) := by
  have hpayload (t : List UInt8) (dlc : ℕ) :
      recvPayload t dlc = readPayload (whole UInt8) t dlc := by
    rw [recvPayload, readPayload]
    split_ifs with hdlc
    · exact recv_eq_readAll hdlc t
    · rfl
  simp only [rxFrame, rxFields, hpayload, recv_eq_readAll (show 0 < bkelSofSize by decide),
    recv_eq_readAll (show 0 < bkelHdrSize by decide),
    recv_eq_readAll (show 0 < bkelCidSize by decide),
    recv_eq_readAll (show 0 < bkelCrcSize by decide)]
  rfl

theorem rxFields_shorter {cid : UInt16} {s t u : List UInt8} {sof : List UInt8} {x : Forwarded}
    (hsof : recv s bkelSofSize = some (sof, t)) (h : rxFields cid sof t = some (x, u)) :
    u.length < s.length := by
  have hframe : rxFrame (whole UInt8) cid s = some (x, u) := by
    rw [rxFrame_whole, hsof]
    exact h
  obtain ⟨hgoes, -, hrest⟩ := rxFrame_eq_some (whole UInt8) cid hframe
  simp only [BreaksAt, not_or, not_lt] at hgoes
  have hlen := congrArg List.length hrest
  rw [List.length_drop] at hlen
  change 5 ≤ s.length ∧ _ at hgoes
  change u.length = s.length - _ at hlen
  omega

/-- `rxLoop` on a connection that is not stopped, with the times at which the SOFs are read:
the calls of `forwardToMcu`, and whether the sender is banned at the end. -/
def rxLoop (cid : UInt16) (tr : TcpTransport) (times : ℕ → ℕ) (s : List UInt8) :
    List Forwarded × Bool :=
  match _hsof : recv s bkelSofSize with
  | none => ([], false)
  | some (sof, t) =>
    if (tr.guard (times 0)).1 then ([], true)
    else
      match _hfields : rxFields cid sof t with
      | none => ([], false)
      | some (x, u) =>
        let rest := rxLoop cid (tr.guard (times 0)).2 (fun i => times (i + 1)) u
        (x :: rest.1, rest.2)
termination_by s.length
decreasing_by exact rxFields_shorter _hsof _hfields

instance (s : List UInt8) : Decidable (BreaksAt s) := inferInstanceAs (Decidable (_ ∨ _ ∨ _))

/-- How many SOFs the stream makes the loop read, as long as the guard lets it. -/
def sofsRead (s : List UInt8) : ℕ :=
  if s = [] then 0
  else if BreaksAt s then 1
  else 1 + sofsRead (s.drop (dlcAt s + 8))
termination_by s.length
decreasing_by
  have hpos := List.length_pos_of_ne_nil ‹s ≠ []›
  rw [List.length_drop]
  omega

theorem recv_sof {s : List UInt8} (hs : s ≠ []) :
    recv s bkelSofSize = some (s.take 1, s.drop 1) :=
  whole_readExactly (by decide) (List.length_pos_of_ne_nil hs)

theorem rxFields_of_breaksAt (cid : UInt16) {s : List UInt8} (hs : s ≠ []) (h : BreaksAt s) :
    rxFields cid (s.take 1) (s.drop 1) = none := by
  have hframe : rxFrame (whole UInt8) cid s = none := by
    by_contra hsome
    obtain ⟨⟨x, t⟩, hx⟩ := Option.ne_none_iff_exists'.mp hsome
    exact (rxFrame_eq_some (whole UInt8) cid hx).1 h
  rwa [rxFrame_whole, recv_sof hs] at hframe

theorem rxFields_of_not_breaksAt (cid : UInt16) {s : List UInt8} (hs : s ≠ [])
    (h : ¬ BreaksAt s) : rxFields cid (s.take 1) (s.drop 1) =
      some (forwardedAt cid s, s.drop (dlcAt s + 8)) := by
  obtain ⟨x, t, hx⟩ := rxFrame_of_not_breaksAt (whole UInt8) cid (s := s) h
  obtain ⟨-, rfl, ht⟩ := rxFrame_eq_some (whole UInt8) cid hx
  rw [rxFrame_whole, recv_sof hs] at hx
  obtain rfl : t = s.drop (dlcAt s + 8) := ht
  exact hx

theorem rxLoop_nil (cid : UInt16) (tr : TcpTransport) (times : ℕ → ℕ) :
    rxLoop cid tr times [] = ([], false) := by
  rw [rxLoop]
  rfl

theorem rxLoop_of_ne_nil (cid : UInt16) (tr : TcpTransport) (times : ℕ → ℕ) {s : List UInt8}
    (hs : s ≠ []) : rxLoop cid tr times s =
      if (tr.guard (times 0)).1 then ([], true)
      else if BreaksAt s then ([], false)
      else
        (forwardedAt cid s :: (rxLoop cid (tr.guard (times 0)).2 (fun i => times (i + 1))
            (s.drop (dlcAt s + 8))).1,
          (rxLoop cid (tr.guard (times 0)).2 (fun i => times (i + 1))
            (s.drop (dlcAt s + 8))).2) := by
  rw [rxLoop]
  split
  · next hnone =>
    rw [recv_sof hs] at hnone
    cases hnone
  · next sof t hsome =>
    rw [recv_sof hs] at hsome
    obtain ⟨rfl, rfl⟩ := Prod.mk.inj (Option.some.inj hsome)
    by_cases hban : (tr.guard (times 0)).1 = true
    · rw [if_pos hban, if_pos hban]
    · rw [if_neg hban, if_neg hban]
      by_cases hbreak : BreaksAt s
      · rw [if_pos hbreak]
        split
        · rfl
        · next x u hx =>
          rw [rxFields_of_breaksAt cid hs hbreak] at hx
          cases hx
      · rw [if_neg hbreak]
        split
        · next hx =>
          rw [rxFields_of_not_breaksAt cid hs hbreak] at hx
          cases hx
        · next x u hx =>
          rw [rxFields_of_not_breaksAt cid hs hbreak] at hx
          obtain ⟨rfl, rfl⟩ := Prod.mk.inj (Option.some.inj hx)
          rfl

/-- What the TLS transport forwards depends on the bytes, not on the reads. -/
theorem rxLoop_eq_whole {σ : Type*} (R : Reader σ UInt8) (cid : UInt16) (s : σ) :
    TlsReceive.rxLoop R cid s = TlsReceive.rxLoop (whole UInt8) cid (R.remaining s) := by
  induction s using rxLoop_induction R with
  | breaks s h =>
    rw [rxLoop_of_breaksAt R cid h]
    exact (rxLoop_of_breaksAt (whole UInt8) cid (s := R.remaining s) h).symm
  | turn s h ih =>
    obtain ⟨t, hloop, hrest⟩ := rxLoop_of_not_breaksAt R cid h
    obtain ⟨u, hwhole, hu⟩ := rxLoop_of_not_breaksAt (whole UInt8) cid (s := R.remaining s) h
    change u = _ at hu
    rw [hloop, hwhole, ih t hrest, hrest, hu]
    rfl

/-- The times at which the SOFs of the stream are read. -/
def arrivals (times : ℕ → ℕ) (s : List UInt8) : List ℕ := (List.range (sofsRead s)).map times

theorem arrivals_nil (times : ℕ → ℕ) : arrivals times [] = [] := by
  rw [arrivals, sofsRead, if_pos rfl]
  rfl

theorem arrivals_of_breaksAt (times : ℕ → ℕ) {s : List UInt8} (hs : s ≠ []) (h : BreaksAt s) :
    arrivals times s = [times 0] := by
  rw [arrivals, sofsRead, if_neg hs, if_pos h]
  rfl

theorem arrivals_of_not_breaksAt (times : ℕ → ℕ) {s : List UInt8} (hs : s ≠ [])
    (h : ¬ BreaksAt s) : arrivals times s =
      times 0 :: arrivals (fun i => times (i + 1)) (s.drop (dlcAt s + 8)) := by
  rw [arrivals, sofsRead, if_neg hs, if_neg h, Nat.add_comm, List.range_succ_eq_map,
    List.map_cons, List.map_map]
  rfl

/-- The loop forwards what the TLS transport forwards, or the frames in front of the one for
which the guard bans. -/
theorem rxLoop_eq (cid : UInt16) (tr : TcpTransport) (times : ℕ → ℕ) (s : List UInt8) :
    (tr.bannedAt (arrivals times s) = none →
      rxLoop cid tr times s = (TlsReceive.rxLoop (whole UInt8) cid s, false)) ∧
    ∀ i, tr.bannedAt (arrivals times s) = some i →
      rxLoop cid tr times s = ((TlsReceive.rxLoop (whole UInt8) cid s).take i, true) := by
  induction hn : s.length using Nat.strong_induction_on generalizing s tr times with
  | h n ih =>
    by_cases hs : s = []
    · subst hs
      have hends : TlsReceive.rxLoop (whole UInt8) cid [] = [] :=
        rxLoop_of_breaksAt (whole UInt8) cid (s := []) (by decide)
      rw [arrivals_nil, rxLoop_nil, hends]
      exact ⟨fun _ => rfl, fun i hi => by cases hi⟩
    rw [rxLoop_of_ne_nil cid tr times hs]
    by_cases hbreak : BreaksAt s
    · have hends := rxLoop_of_breaksAt (whole UInt8) cid (s := s) hbreak
      rw [arrivals_of_breaksAt times hs hbreak, hends, bannedAt, bannedAt]
      split_ifs with hban
      · exact ⟨fun hnone => (by cases hnone), fun i _ => (by rw [List.take_nil])⟩
      · exact ⟨fun _ => rfl, fun i hi => by cases hi⟩
    · obtain ⟨t, hloop, ht⟩ := rxLoop_of_not_breaksAt (whole UInt8) cid (s := s) hbreak
      obtain rfl : t = s.drop (dlcAt s + 8) := ht
      have hpos := List.length_pos_of_ne_nil hs
      obtain ⟨hnone, hsome⟩ := ih (s.drop (dlcAt s + 8)).length (by rw [List.length_drop]; omega)
        (tr.guard (times 0)).2 (fun i => times (i + 1)) _ rfl
      rw [arrivals_of_not_breaksAt times hs hbreak, hloop, bannedAt]
      split_ifs with hban
      · refine ⟨fun h => (by cases h), fun i hi => ?_⟩
        obtain rfl := Option.some.inj hi
        rfl
      · constructor
        · intro h
          rw [hnone (Option.map_eq_none_iff.mp h)]
          rfl
        · intro i hi
          obtain ⟨j, hj, rfl⟩ := Option.map_eq_some_iff.mp hi
          rw [hsome j hj, List.take_succ_cons]
          rfl

theorem length_arrivals (times : ℕ → ℕ) (s : List UInt8) :
    (arrivals times s).length = sofsRead s := by
  rw [arrivals, List.length_map, List.length_range]

theorem getElem?_arrivals (times : ℕ → ℕ) {s : List UInt8} {i : ℕ} (hi : i < sofsRead s) :
    (arrivals times s)[i]? = some (times i) := by
  rw [arrivals, List.getElem?_map, List.getElem?_range hi]
  rfl

/-- The arrivals from one on, as a stretch of them. -/
theorem arrivals_split (times : ℕ → ℕ) {s : List UInt8} {i n : ℕ} (h : i + n ≤ sofsRead s) :
    ∃ before rest, arrivals times s = before ++ (List.range' i n).map times ++ rest := by
  obtain ⟨k, hk⟩ := Nat.exists_eq_add_of_le h
  refine ⟨(List.range' 0 i).map times, (List.range' (i + n) k).map times, ?_⟩
  have hfirst := List.range'_append_1 (s := 0) (m := i) (n := n)
  have hall := List.range'_append_1 (s := 0) (m := i + n) (n := k)
  rw [Nat.zero_add] at hfirst hall
  rw [arrivals, hk, List.range_eq_range', ← hall, ← hfirst, List.map_append, List.map_append]

theorem pairwise_arrivals {start : ℕ} {times : ℕ → ℕ} (hmono : Monotone times)
    (hstart : start ≤ times 0) (s : List UInt8) :
    (start :: arrivals times s).Pairwise (· ≤ ·) := by
  refine List.pairwise_cons.mpr ⟨fun t ht => ?_, ?_⟩
  · obtain ⟨i, -, rfl⟩ := List.mem_map.mp ht
    exact hstart.trans (hmono (Nat.zero_le i))
  · rw [arrivals, List.pairwise_map]
    exact List.pairwise_lt_range.imp (fun h => hmono h.le)

/-- Over plain TCP a client's frames are forwarded exactly as over TLS, however the records
cut them up, unless the guard bans it: then those in front of the frame banned for are, and
the SOF of that frame and of the hundred before it were read within less than 5000 ms. And of
201 SOFs read within less than 5000 ms, the last is never passed. -/
theorem plain_follows_tls {σ : Type*} (R : Reader σ UInt8) (cid : UInt16) {start : ℕ}
    {times : ℕ → ℕ} (hmono : Monotone times) (hstart : start ≤ times 0) (s : σ) :
    ((rxLoop cid (enterLoop start) times (R.remaining s)).2 = false →
      (rxLoop cid (enterLoop start) times (R.remaining s)).1 = TlsReceive.rxLoop R cid s) ∧
    ((rxLoop cid (enterLoop start) times (R.remaining s)).2 = true →
      ∃ i < sofsRead (R.remaining s), 100 ≤ i ∧ times i < times (i - 100) + 5000 ∧
        (rxLoop cid (enterLoop start) times (R.remaining s)).1 =
          (TlsReceive.rxLoop R cid s).take i) ∧
    ∀ i, i + 200 < sofsRead (R.remaining s) → times (i + 200) < times i + 5000 →
      (rxLoop cid (enterLoop start) times (R.remaining s)).2 = true := by
  rw [rxLoop_eq_whole R]
  generalize R.remaining s = bytes
  obtain ⟨hnone, hsome⟩ := rxLoop_eq cid (enterLoop start) times bytes
  have hsorted := pairwise_arrivals hmono hstart bytes
  cases hban : (enterLoop start).bannedAt (arrivals times bytes) with
  | none =>
    rw [hnone hban]
    refine ⟨fun _ => rfl, fun h => (Bool.false_ne_true h).elim, fun i hi hnear => ?_⟩
    obtain ⟨before, rest, hsplit⟩ :=
      arrivals_split times (s := bytes) (i := i) (n := 201) (by omega)
    have hburst : ∀ t ∈ (List.range' i 201).map times,
        times i ≤ t ∧ t ≤ times (i + 200) := by
      intro t ht
      obtain ⟨j, hj, rfl⟩ := List.mem_map.mp ht
      rw [List.mem_range'_1] at hj
      exact ⟨hmono hj.1, hmono (by omega)⟩
    have hlen : 2 * 100 < ((List.range' i 201).map times).length := by
      rw [List.length_map, List.length_range']
      decide
    have hnear' : ∀ a ∈ (List.range' i 201).map times, ∀ b ∈ (List.range' i 201).map times,
        a < b + 5000 := by
      intro a ha b hb
      have hle := (hburst a ha).2
      have hge := (hburst b hb).1
      omega
    have htrip : ∃ k, trip 5000 100 ⟨0, start⟩
        (before ++ (List.range' i 201).map times ++ rest) = some k ∧ _ :=
      trip_by_end_of_burst start hlen hnear' rest
    obtain ⟨k, hk, -⟩ := htrip
    rw [bannedAt_eq_trip, hsplit] at hban
    exact absurd (hban.symm.trans hk) (by simp)
  | some i =>
    rw [hsome i hban]
    refine ⟨fun h => (Bool.false_ne_true h.symm).elim, fun _ => ?_, fun _ _ _ => rfl⟩
    rw [bannedAt_eq_trip] at hban
    obtain ⟨old, recent, now, rest, hsplit, hlen, hrecent, hnear⟩ :=
      burst_of_trip (by decide) hsorted hban
    obtain ⟨first, recent, rfl⟩ := List.exists_cons_of_length_eq_add_one hrecent
    have hlt : i < sofsRead bytes := by
      rw [← length_arrivals times, hsplit, List.length_append, hlen, List.length_cons]
      omega
    rw [List.length_append, hrecent] at hlen
    have hnow : times i = now := by
      have hget := getElem?_arrivals times hlt
      rw [hsplit, List.getElem?_append_right (by simp at hrecent ⊢; omega)] at hget
      simpa [show i - (old.length + (recent.length + 1)) = 0 by simp at hrecent; omega]
        using hget.symm
    have hfirst : times (i - 100) = first := by
      have hget := getElem?_arrivals times (show i - 100 < sofsRead bytes by omega)
      rw [hsplit, List.append_assoc, List.getElem?_append_right (by omega)] at hget
      simpa [show i - 100 - old.length = 0 by omega] using hget.symm
    refine ⟨i, hlt, by omega, ?_, rfl⟩
    rw [hnow, hfirst]
    exact hnear now (by simp) first (by simp)

/-- A request in two TLS records, and the same bytes over plain TCP. -/
theorem plain_follows_tls_request :
    (rxLoop 7 (enterLoop 0) (fun i => i) [0xAA, 0x20, 1, 0, 0, 0x70, 0, 0]).1 =
      TlsReceive.rxLoop (records UInt8) 7 [[0xAA, 0x20, 1], [0, 0, 0x70, 0, 0]] :=
  (plain_follows_tls (records UInt8) 7 (fun _ _ h => h) le_rfl
    [[0xAA, 0x20, 1], [0, 0, 0x70, 0, 0]]).1 (by decide +kernel)

end SomeIpGateway.TcpReceive
