import SomeIpGateway.McuParser

/-!
# The receive loop on a stream of frames

The gateway's frames reach `f_handleCommandTask` in chunks. Where a frame starts,
how far `rx_buf` is filled and which byte of the stream was last stored at an index
of it are functions of the frames and the chunks alone; they say exactly when every
frame is handled.
-/
namespace SomeIpGateway.McuChunking
open ByteAccess StreamScanning FrameFormat McuParser

/-- Where in a stream of frames the frame starts that the given byte belongs to. -/
def frameStart : List BkelFrame → ℕ → ℕ
  | [], _ => 0
  | f :: frames, n => if n < f.size then 0 else f.size + frameStart frames (n - f.size)

/-- A prefix of a stream of frames parses into the frames it completes, and leaves
the bytes of the frame it breaks off in. -/
theorem drain_prefix {frames : List BkelFrame}
    (h : ∀ f ∈ frames, f.WellFormed ∧ f.dlc.toNat ≤ 256) {n : ℕ}
    (hn : n ≤ (frames.flatMap frameBytes).length) :
    (grammar.drain ((frames.flatMap frameBytes).take n)).2 =
        ((frames.flatMap frameBytes).take n).drop (frameStart frames n) ∧
      frameStart frames n ≤ n ∧ n < frameStart frames n + 264 := by
  induction frames generalizing n with
  | nil =>
    obtain rfl : n = 0 := by simpa using hn
    simp [frameStart]
  | cons f frames ih =>
    obtain ⟨hwf, hdlc⟩ := h f (by simp)
    have hsize := length_frameBytes hwf
    have htake (more : List UInt8) :
        grammar.look (frameBytes f ++ more) = .take (frameBytes f).length f :=
      verdict_frameBytes hwf (hdlc.trans (by decide)) more
    rw [List.flatMap_cons, List.length_append, hsize] at hn
    rw [List.flatMap_cons, frameStart]
    split_ifs with hlt
    · -- a part of a frame leaves no choice but to wait
      have hwait : verdict bkelMaxDlc ((frameBytes f ++ frames.flatMap frameBytes).take n) =
          .wait := by
        by_contra hne
        have hfin := verdict_append ((frameBytes f ++ frames.flatMap frameBytes).drop n) hne
        rw [List.take_append_drop] at hfin
        replace hfin := (htake _).symm.trans hfin
        have hle := grammar.take_le hfin.symm
        rw [List.length_take, hsize] at hle
        omega
      have hmax : f.size ≤ 264 := Nat.add_le_add_right hdlc 8
      rw [grammar.drain_of_wait hwait]
      exact ⟨rfl, Nat.zero_le _, by omega⟩
    · obtain ⟨hrest, hle, hlt⟩ := ih (fun g hg => h g (by simp [hg])) (n := n - f.size) (by omega)
      have hsplit : (frameBytes f ++ frames.flatMap frameBytes).take n =
          frameBytes f ++ (frames.flatMap frameBytes).take (n - f.size) := by
        rw [List.take_append, hsize, List.take_of_length_le (by omega)]
      rw [hsplit, grammar.drain_of_take (htake _), List.drop_left, hrest, ← List.drop_drop,
        List.drop_left' hsize]
      exact ⟨rfl, by omega, by omega⟩

/-- A stream of frames parses into exactly these frames. -/
theorem drain_frames {frames : List BkelFrame}
    (h : ∀ f ∈ frames, f.WellFormed ∧ f.dlc.toNat ≤ 256) :
    items (grammar.drain (frames.flatMap frameBytes)).1 = frames ∧
      (grammar.drain (frames.flatMap frameBytes)).2 = [] := by
  have hd := grammar.drain_flatMap frameBytes id frames (fun f hf more =>
    verdict_frameBytes (h f hf).1 ((h f hf).2.trans (by decide)) more) []
  rw [List.append_nil] at hd
  rw [hd]
  simp

theorem length_flatMap_frameBytes {frames : List BkelFrame}
    (h : ∀ f ∈ frames, f.WellFormed ∧ f.dlc.toNat ≤ 256) :
    (frames.flatMap frameBytes).length = handledBytes frames := by
  rw [List.length_flatMap, handledBytes, List.map_congr_left]
  exact fun f hf => length_frameBytes (h f hf).1

/-- The number of bytes in the first chunks. -/
def cut (chunks : List (List UInt8)) (i : ℕ) : ℕ := (chunks.take i).flatten.length

/-- How far `rx_buf` is filled while a chunk is parsed, the bytes before it having
been parsed up to the frame they break off in. -/
def fill (frames : List BkelFrame) (chunks : List (List UInt8)) (i : ℕ) : ℕ :=
  cut chunks (i + 1) - frameStart frames (cut chunks i)

/-- The byte of the stream last stored at an index of `rx_buf` that the given
number of chunks leave behind the unparsed bytes; zero when there was none. -/
def lastStored (frames : List BkelFrame) (chunks : List (List UInt8)) (p : ℕ) : ℕ → UInt8
  | 0 => 0
  | i + 1 =>
    if p < fill frames chunks i then
      u8At chunks.flatten (frameStart frames (cut chunks i) + p)
    else lastStored frames chunks p i

/-- Where a chunk ends on the first four bytes of a frame, the DLC made of the
fourth of them and of the byte last stored behind it is within the limit. -/
def HeaderCutSafe (frames : List BkelFrame) (chunks : List (List UInt8)) (i : ℕ) : Prop :=
  cut chunks (i + 1) = frameStart frames (cut chunks (i + 1)) + 4 →
    (u16OfBytes (u8At chunks.flatten (cut chunks (i + 1) - 1))
      (lastStored frames chunks (fill frames chunks i) i)).toNat ≤ bkelMaxDlc

instance (frames : List BkelFrame) (chunks : List (List UInt8)) (i : ℕ) :
    Decidable (HeaderCutSafe frames chunks i) := inferInstanceAs (Decidable (_ → _))

/-- Frames of the gateway's encoder, cut into what `xStreamBufferReceive` returns. -/
structure Sent (frames : List BkelFrame) (chunks : List (List UInt8)) : Prop where
  wellFormed : ∀ f ∈ frames, f.WellFormed ∧ f.dlc.toNat ≤ 256
  stream : chunks.flatten = frames.flatMap (fun f =>
    PacketCodec.buildFrame f.sid f.type (some f.payload) f.dlc f.cid)
  chunk_size : ∀ temp ∈ chunks, 1 ≤ temp.length ∧ temp.length ≤ 64

theorem Sent.flatten_eq {frames : List BkelFrame} {chunks : List (List UInt8)}
    (h : Sent frames chunks) : chunks.flatten = frames.flatMap frameBytes := by
  rw [h.stream]
  apply List.flatMap_congr
  exact fun f hf => PacketCodec.buildFrame_eq_frameBytes (h.wellFormed f hf).1 (h.wellFormed f hf).2

section Cuts
variable {frames : List BkelFrame} {chunks : List (List UInt8)}

theorem cut_succ {i : ℕ} (hi : i < chunks.length) :
    cut chunks (i + 1) = cut chunks i + chunks[i].length := by
  rw [cut, cut, List.take_succ_eq_append_getElem hi, List.flatten_append, List.length_append,
    List.flatten_singleton]

theorem take_cut (i : ℕ) : chunks.flatten.take (cut chunks i) = (chunks.take i).flatten := by
  have h : (chunks.take i ++ chunks.drop i).flatten = chunks.flatten := by
    rw [List.take_append_drop]
  rw [← h, List.flatten_append, cut, List.take_left]

theorem cut_le (chunks : List (List UInt8)) (i : ℕ) : cut chunks i ≤ chunks.flatten.length := by
  rw [cut, ← take_cut]
  exact List.length_take_le' _ _

/-- What the grammar leaves of the first chunks. -/
theorem Sent.drain_cut (h : Sent frames chunks) (i : ℕ) :
    (grammar.drain (chunks.take i).flatten).2 =
        (chunks.flatten.take (cut chunks i)).drop (frameStart frames (cut chunks i)) ∧
      frameStart frames (cut chunks i) ≤ cut chunks i ∧
      cut chunks i < frameStart frames (cut chunks i) + 264 := by
  have hle := cut_le chunks i
  rw [← take_cut]
  rw [h.flatten_eq] at hle ⊢
  exact drain_prefix h.wellFormed hle

/-- The statics after some turns without a rejected header: what has been handled
and held is what the grammar finds in the bytes received, and every later byte of
`rx_buf` is the one last stored there. -/
structure Tracks (frames : List BkelFrame) (chunks : List (List UInt8)) (i : ℕ)
    (out : List BkelFrame × CommandTask) : Prop where
  handled : out.1 = items (grammar.drain (chunks.take i).flatten).1
  held : out.2.held = (grammar.drain (chunks.take i).flatten).2
  stored : ∀ p, out.2.rxLen ≤ p → p < rxBufSize →
    u8At out.2.rxBuf p = lastStored frames chunks p i

theorem tracks_init : Tracks frames chunks 0 ([], CommandTask.init) where
  handled := by simp
  held := by simp [CommandTask.held, CommandTask.init]
  stored p _ hp := by
    simp [CommandTask.init, u8At, List.getD_eq_getElem?_getD, hp, lastStored]

variable {i : ℕ} {out : List BkelFrame × CommandTask}

theorem Tracks.rxLen_eq (h : Tracks frames chunks i out) (hs : Sent frames chunks) :
    out.2.rxLen = cut chunks i - frameStart frames (cut chunks i) := by
  have hle := cut_le chunks i
  rw [← out.2.length_held, h.held, (hs.drain_cut i).1, List.length_drop,
    List.length_take_of_le hle]

/-- The bytes held and the next chunk, as a piece of the stream. -/
theorem Tracks.received_eq (h : Tracks frames chunks i out) (hs : Sent frames chunks)
    (hi : i < chunks.length) :
    out.2.held ++ chunks[i] =
        (chunks.flatten.take (cut chunks (i + 1))).drop (frameStart frames (cut chunks i)) ∧
      out.2.rxLen + chunks[i].length = fill frames chunks i := by
  obtain ⟨hrest, hle, -⟩ := hs.drain_cut i
  have hlen : (chunks.take i).flatten.length = cut chunks i := rfl
  constructor
  · rw [h.held, hrest, take_cut, take_cut, List.take_succ_eq_append_getElem hi,
      List.flatten_append, List.flatten_singleton, List.drop_append_of_le_length (by omega)]
  · rw [h.rxLen_eq hs, fill, cut_succ hi]
    omega

/-- What is left after the next chunk, by the grammar. -/
theorem Tracks.drain_next (h : Tracks frames chunks i out) (hi : i < chunks.length) :
    items (grammar.drain (chunks.take (i + 1)).flatten).1 =
        out.1 ++ items (grammar.drain (out.2.held ++ chunks[i])).1 ∧
      (grammar.drain (chunks.take (i + 1)).flatten).2 =
        (grammar.drain (out.2.held ++ chunks[i])).2 := by
  rw [List.take_succ_eq_append_getElem hi, List.flatten_append, List.flatten_singleton,
    grammar.drain_append, items_append, h.handled, h.held]
  exact ⟨rfl, rfl⟩

theorem Tracks.room (h : Tracks frames chunks i out) (hs : Sent frames chunks)
    (hi : i < chunks.length) : out.2.rxLen + chunks[i].length < rxBufSize := by
  have hlt := (hs.drain_cut i).2.2
  have hle := (hs.chunk_size chunks[i] (List.getElem_mem hi)).2
  rw [h.rxLen_eq hs, rxBufSize]
  omega

/-- A chunk of the stream meets a cut header exactly where the condition fails. -/
theorem Tracks.headerCut_iff (h : Tracks frames chunks i out) (hs : Sent frames chunks)
    (hi : i < chunks.length) (beyond : List UInt8) :
    HeaderCut (grammar.drain (out.2.held ++ chunks[i])).2
        (out.2.rxBuf.drop (out.2.rxLen + chunks[i].length) ++ beyond) ↔
      ¬ HeaderCutSafe frames chunks i := by
  have hroom := h.room hs hi
  obtain ⟨-, hfill⟩ := h.received_eq hs hi
  obtain ⟨hrest, hle, -⟩ := hs.drain_cut (i + 1)
  have hcut := cut_le chunks (i + 1)
  rw [← (h.drain_next hi).2, HeaderCut.iff_bytes, HeaderCutSafe, Classical.not_imp, not_le]
  have hlen : (grammar.drain (chunks.take (i + 1)).flatten).2.length = 4 ↔
      cut chunks (i + 1) = frameStart frames (cut chunks (i + 1)) + 4 := by
    rw [hrest, List.length_drop, List.length_take_of_le hcut]
    omega
  rw [hlen]
  refine and_congr_right fun h4 => ?_
  have hlow : u8At (grammar.drain (chunks.take (i + 1)).flatten).2 3 =
      u8At chunks.flatten (cut chunks (i + 1) - 1) := by
    rw [hrest, u8At_drop, u8At_take (by omega)]
    congr 1
    omega
  have hhigh : u8At (out.2.rxBuf.drop (out.2.rxLen + chunks[i].length) ++ beyond) 0 =
      lastStored frames chunks (fill frames chunks i) i := by
    rw [u8At_append_left (by rw [List.length_drop, out.2.size]; omega), u8At_drop,
      Nat.add_zero, hfill]
    exact h.stored _ (by omega) (by omega)
  rw [hlow, hhigh]

/-- A turn whose chunk does not end in a cut header keeps the statics on track. -/
theorem Tracks.receive (h : Tracks frames chunks i out) (hs : Sent frames chunks)
    (hi : i < chunks.length) (hsafe : HeaderCutSafe frames chunks i) (beyond : List UInt8) :
    Tracks frames chunks (i + 1)
      (out.1 ++ (McuParser.receive out.2 chunks[i] beyond).1,
        (McuParser.receive out.2 chunks[i] beyond).2) := by
  have hroom := h.room hs hi
  obtain ⟨hreceived, hfill⟩ := h.received_eq hs hi
  obtain ⟨hitems, hrest⟩ := h.drain_next hi
  have hpos : 0 < chunks[i].length := (hs.chunk_size chunks[i] (List.getElem_mem hi)).1
  obtain ⟨hout, hbuf, hlen⟩ := receive_eq out.2 hpos hroom.le beyond
  have hkept : kept (out.2.held ++ chunks[i])
      (out.2.rxBuf.drop (out.2.rxLen + chunks[i].length) ++ beyond) =
      (grammar.drain (out.2.held ++ chunks[i])).2 := by
    rw [kept, if_neg (not_not.mpr hsafe ∘ (h.headerCut_iff hs hi beyond).mp)]
  have hle := (drain_suffix (out.2.held ++ chunks[i])).length_le
  have hreclen : (out.2.held ++ chunks[i]).length = fill frames chunks i := by
    rw [List.length_append, out.2.length_held, hfill]
  have hstream (p : ℕ) (hp : p < fill frames chunks i) : u8At (out.2.held ++ chunks[i]) p =
      u8At chunks.flatten (frameStart frames (cut chunks i) + p) := by
    rw [hreceived, u8At_drop, u8At_take]
    rw [fill] at hp
    omega
  rw [hkept] at hbuf hlen
  refine ⟨by rw [hitems, hout], ?_, ?_⟩
  · rw [CommandTask.held, hbuf, hlen, hrest, store]
    simp
  · intro p hp hsize
    dsimp only at hp ⊢
    rw [hlen] at hp
    rw [hbuf, lastStored, store, List.take_zero, List.nil_append, Nat.zero_add]
    obtain ⟨q, rfl⟩ := Nat.exists_eq_add_of_le hp
    rw [u8At_append_right, u8At_drop]
    split_ifs with hlt
    · rw [u8At_append_left (by omega), hstream _ hlt]
    · obtain ⟨r, hr⟩ := Nat.exists_eq_add_of_le (not_lt.mp hlt)
      rw [hr, ← hreclen, u8At_append_right, u8At_drop, hreclen, hfill]
      exact h.stored _ (by omega) (by omega)

/-- The statics stay on track as long as no chunk meets a cut header. -/
theorem tracks_run (hs : Sent frames chunks) (beyond : ℕ → List UInt8) {n : ℕ}
    (hn : n ≤ chunks.length) (hsafe : ∀ i < n, HeaderCutSafe frames chunks i) :
    Tracks frames chunks n (run beyond CommandTask.init (chunks.take n)) := by
  induction n with
  | zero => exact tracks_init
  | succ n ih =>
    have hn' : n < chunks.length := hn
    have h := ih hn'.le (fun i hi => hsafe i (by omega))
    have hstep := h.receive hs hn' (hsafe n (Nat.lt_succ_self n)) (beyond (chunks.take n).length)
    rw [List.take_succ_eq_append_getElem hn', run_append]
    simpa only [run, List.append_nil, Nat.add_zero] using hstep

/-- A chunk that meets a cut header loses bytes. -/
theorem Tracks.receive_lossy (h : Tracks frames chunks i out) (hs : Sent frames chunks)
    (hi : i < chunks.length) (hcut : ¬ HeaderCutSafe frames chunks i) (beyond : List UInt8) :
    handledBytes (McuParser.receive out.2 chunks[i] beyond).1 +
        (McuParser.receive out.2 chunks[i] beyond).2.rxLen <
      out.2.rxLen + chunks[i].length := by
  have hpos : 0 < chunks[i].length := (hs.chunk_size chunks[i] (List.getElem_mem hi)).1
  obtain ⟨hout, -, hlen⟩ := receive_eq out.2 hpos (h.room hs hi).le beyond
  have hlt := length_kept_lt ((h.headerCut_iff hs hi beyond).mpr hcut)
  have hsize := size_drain_le (out.2.held ++ chunks[i])
  rw [List.length_append, out.2.length_held] at hsize
  rw [hout, hlen]
  omega

/-- The receive loop handles exactly the frames sent and keeps nothing back, if
and only if no chunk ends on the first four bytes of a frame in front of a byte
that, taken as the high byte of the DLC, exceeds the limit. -/
theorem frames_received_iff (hs : Sent frames chunks) (beyond : ℕ → List UInt8) :
    ((run beyond CommandTask.init chunks).1 = frames ∧
        (run beyond CommandTask.init chunks).2.rxLen = 0) ↔
      ∀ i < chunks.length, HeaderCutSafe frames chunks i := by
  have hflat := hs.flatten_eq
  constructor
  · rintro ⟨hframes, -⟩
    by_contra hbad
    simp only [not_forall] at hbad
    -- the first chunk with a cut header loses a byte, and no later chunk makes up for it
    obtain ⟨hi, hcut⟩ := Nat.find_spec hbad
    have hfirst (j : ℕ) (hj : j < Nat.find hbad) : HeaderCutSafe frames chunks j := by
      by_contra hunsafe
      exact Nat.find_min hbad hj ⟨hj.trans hi, hunsafe⟩
    have htracks := tracks_run hs beyond hi.le hfirst
    generalize Nat.find hbad = i at hi hcut htracks
    have hsplit : chunks = chunks.take i ++ ([chunks[i]] ++ chunks.drop (i + 1)) := by
      rw [List.singleton_append, List.getElem_cons_drop, List.take_append_drop]
    have hlossy := htracks.receive_lossy hs hi hcut (beyond ((chunks.take i).length + 0))
    have hbefore := run_size_le beyond CommandTask.init (chunks.take i)
    have hafter := run_size_le (fun k => beyond ((chunks.take i).length + ([chunks[i]].length + k)))
      (receive (run beyond CommandTask.init (chunks.take i)).2 chunks[i]
        (beyond ((chunks.take i).length + 0))).2 (chunks.drop (i + 1))
    have hbytes : chunks.flatten.length =
        (chunks.take i).flatten.length +
          (chunks[i].length + (chunks.drop (i + 1)).flatten.length) := by
      conv_lhs => rw [hsplit]
      simp only [List.flatten_append, List.length_append, List.flatten_singleton]
    have hrun := congrArg handledBytes hframes
    conv_lhs at hrun => rw [hsplit, run_append, run_append]
    simp only [run, handledBytes_append, List.append_nil] at hrun
    rw [← length_flatMap_frameBytes hs.wellFormed, ← hflat] at hrun
    have hzero : CommandTask.init.rxLen = 0 := rfl
    omega
  · intro hsafe
    have h := tracks_run hs beyond le_rfl hsafe
    rw [List.take_length] at h
    obtain ⟨hitems, hrest⟩ := drain_frames hs.wellFormed
    refine ⟨?_, ?_⟩
    · rw [h.handled, List.take_length, hflat, hitems]
    · rw [← CommandTask.length_held, h.held, List.take_length, hflat, hrest, List.length_nil]

/-- Three frames cut inside the second and inside the payload of the first arrive. -/
theorem frames_received_iff_three :
    (run (fun _ => []) CommandTask.init
      [[0xAA, 0x24, 1, 8, 0, 0], [0, 0, 0, 0, 0, 0, 255, 0x10, 0, 103, 0xAA, 0x25],
        [1, 0, 0, 0x11, 0, 150, 0xAA, 0x26, 1, 0, 0, 0x12, 0, 210]]).1 =
      [⟨0x24, 1, 8, 0x10, [0, 0, 0, 0, 0, 0, 0, 255]⟩, ⟨0x25, 1, 0, 0x11, []⟩,
        ⟨0x26, 1, 0, 0x12, []⟩] :=
  ((frames_received_iff ⟨by decide, by decide +kernel, by decide⟩ (fun _ => [])).mpr
    (by decide +kernel)).1

/-- The third frame is lost when its first four bytes end a chunk in front of the
last payload byte of the first frame, still in `rx_buf`. -/
theorem header_cut_loses_frame :
    ∃ frames chunks, Sent frames chunks ∧
      ¬ ((run (fun _ => []) CommandTask.init chunks).1 = frames ∧
        (run (fun _ => []) CommandTask.init chunks).2.rxLen = 0) :=
  ⟨[⟨0x24, 1, 8, 0x10, [0, 0, 0, 0, 0, 0, 0, 255]⟩, ⟨0x25, 1, 0, 0x11, []⟩,
      ⟨0x26, 1, 0, 0x12, []⟩],
    [[0xAA, 0x24, 1, 8, 0, 0, 0, 0, 0, 0, 0, 0, 255, 0x10, 0, 103],
      [0xAA, 0x25, 1, 0, 0, 0x11, 0, 150, 0xAA, 0x26, 1, 0], [0, 0x12, 0, 210]],
    ⟨by decide, by decide +kernel, by decide⟩, by decide +kernel⟩

end Cuts

end SomeIpGateway.McuChunking
