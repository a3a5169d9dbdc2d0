import SomeIpGateway.McuParser

/-!
# The MCU's receive buffer

How `rx_buf` and `rx_len` of `f_handleCommandTask` develop over any chunks: the turns
of the loop of `parse_packet`, what they leave at the front of the buffer, and when the
overflow check empties a buffer that holds the start of a good frame.
-/
namespace SomeIpGateway.McuBuffer
open ByteAccess StreamScanning FrameFormat McuParser

/-- One turn of the loop of `parse_packet`: the next offset, or none where the loop ends. -/
def loopTurn (buf : List UInt8) (len offset : ℕ) : Option ℕ :=
  if offset < len then
    let r := parseOneFrame (buf.drop offset) (len - offset)
    if r.result = .incomplete then none else some (offset + r.consumed)
  else none

/-- The offsets at which the loop tests its condition, starting from a given one. -/
def LoopOffset (buf : List UInt8) (len : ℕ) : ℕ → ℕ → Prop :=
  Relation.ReflTransGen (fun offset next => loopTurn buf len offset = some next)

theorem parseOneFrame_consumed_le {buf : List UInt8} {bufLen : ℕ} (h : 0 < bufLen) :
    (parseOneFrame buf bufLen).consumed ≤ bufLen := by
  rw [parseOneFrame_unfold]
  split_ifs <;> simp <;> omega

/-- A turn moves the offset on, and not beyond the length. -/
theorem loopTurn_bounds {buf : List UInt8} {len offset next : ℕ}
    (h : loopTurn buf len offset = some next) : offset < next ∧ next ≤ len := by
  simp only [loopTurn] at h
  split_ifs at h with hlt hinc
  obtain rfl := Option.some.inj h
  have hpos := parseOneFrame_consumed_pos hinc
  have hle : (parseOneFrame (buf.drop offset) (len - offset)).consumed ≤ len - offset :=
    parseOneFrame_consumed_le (by omega)
  omega

theorem LoopOffset.le {buf : List UInt8} {len start offset : ℕ} (hstart : start ≤ len)
    (h : LoopOffset buf len start offset) : offset ≤ len := by
  induction h with
  | refl => exact hstart
  | tail _ hturn _ => exact (loopTurn_bounds hturn).2

/-- The offset that `parse_packet` is left with is one its loop reaches and ends at. -/
theorem parseLoop_ends (buf : List UInt8) (len start : ℕ) :
    LoopOffset buf len start (parseLoop buf len start).2 ∧
      loopTurn buf len (parseLoop buf len start).2 = none := by
  induction start using parseLoop.induct buf len with
  | case1 offset hlt r hinc =>
    have hturn : loopTurn buf len offset = none := by
      simp only [loopTurn, if_pos hlt]
      exact if_pos hinc
    rw [parseLoop, if_pos hlt, dif_pos hinc]
    exact ⟨Relation.ReflTransGen.refl, hturn⟩
  | case2 offset hlt r hinc ih =>
    have hturn : loopTurn buf len offset = some (offset + r.consumed) := by
      simp only [loopTurn, if_pos hlt]
      exact if_neg hinc
    rw [parseLoop, if_pos hlt, dif_neg hinc]
    exact ⟨Relation.ReflTransGen.head hturn ih.1, ih.2⟩
  | case3 offset hge =>
    have hturn : loopTurn buf len offset = none := if_neg hge
    rw [parseLoop, if_neg hge]
    exact ⟨Relation.ReflTransGen.refl, hturn⟩

/-- The chunk is neither empty nor thrown away with the buffer. -/
def Appended (st : CommandTask) (n : ℕ) : Prop := 0 < n ∧ ¬ rxBufSize < st.rxLen + n

instance (st : CommandTask) (n : ℕ) : Decidable (Appended st n) :=
  inferInstanceAs (Decidable (_ ∧ _))

/-- The indices of `rx_buf` that the `memcpy` of a turn writes. -/
def copiedCells (st : CommandTask) (n : ℕ) : List ℕ :=
  if Appended st n then List.range' st.rxLen n else []

/-- What is left after a turn that appended its chunk: the received bytes from the offset
on at which `parse_packet` ended. -/
theorem held_receive {st : CommandTask} {temp : List UInt8} (h : Appended st temp.length)
    (beyond : List UInt8) :
    (receive st temp beyond).2.held = (st.held ++ temp).drop
      (parseLoop (store st.rxBuf st.rxLen temp ++ beyond) (st.rxLen + temp.length) 0).2 := by
  have hlen : (st.held ++ temp).length = st.rxLen + temp.length := by
    rw [List.length_append, st.length_held]
  obtain ⟨-, hbuf, hrest⟩ := receive_eq st h.1 (not_lt.mp h.2) beyond
  have hloop := parseLoop_eq [] (st.held ++ temp)
    (st.rxBuf.drop (st.rxLen + temp.length) ++ beyond)
  have hstore : store st.rxBuf st.rxLen temp ++ beyond =
      [] ++ (st.held ++ temp ++ (st.rxBuf.drop (st.rxLen + temp.length) ++ beyond)) := by
    rw [List.nil_append, ← List.append_assoc]
    rfl
  rw [List.length_nil, Nat.zero_add, ← hstore, hlen] at hloop
  have hsuffix := kept_suffix (st.held ++ temp) (st.rxBuf.drop (st.rxLen + temp.length) ++ beyond)
  have htake := take_store (Nat.zero_le (st.held ++ temp ++
    st.rxBuf.drop (st.rxLen + temp.length)).length)
    (kept (st.held ++ temp) (st.rxBuf.drop (st.rxLen + temp.length) ++ beyond))
  rw [Nat.zero_add, List.take_zero, List.nil_append] at htake
  rw [List.suffix_iff_eq_drop, hlen] at hsuffix
  rw [CommandTask.held, hbuf, hrest, htake, hloop, Nat.zero_add]
  exact hsuffix

/-- What the statics hold between two turns: nothing, or less than a whole frame from its
SOF on. -/
def Sound (st : CommandTask) : Prop :=
  st.rxLen = 0 ∨ u8At st.rxBuf 0 = sofDataValue ∧ st.rxLen ≤ 507

/-- What the grammar leaves is empty, or less than a whole frame from its SOF on. -/
theorem rest_bounded (buf : List UInt8) :
    (grammar.drain buf).2 = [] ∨
      u8At (grammar.drain buf).2 0 = sofDataValue ∧ (grammar.drain buf).2.length ≤ 507 := by
  by_cases hne : (grammar.drain buf).2 = []
  · exact Or.inl hne
  · obtain ⟨hsof, hlen⟩ := of_verdict_wait (grammar.look_rest buf) hne
    simp only [bkelMaxDlc] at hlen
    exact Or.inr ⟨hsof, by omega⟩

theorem kept_eq_rest (received beyond : List UInt8) :
    ∃ buf, kept received beyond = (grammar.drain buf).2 := by
  rw [kept]
  split_ifs
  · exact ⟨_, rfl⟩
  · exact ⟨_, rfl⟩

theorem Sound.receive {st : CommandTask} (h : Sound st) (temp beyond : List UInt8) :
    Sound (receive st temp beyond).2 := by
  by_cases hpos : 0 < temp.length
  · by_cases hroom : st.rxLen + temp.length ≤ rxBufSize
    · obtain ⟨-, hbuf, hlen⟩ := receive_eq st hpos hroom beyond
      obtain ⟨buf, hkept⟩ :=
        kept_eq_rest (st.held ++ temp) (st.rxBuf.drop (st.rxLen + temp.length) ++ beyond)
      rw [Sound, hbuf, hlen, hkept]
      rcases rest_bounded buf with hnil | ⟨hsof, hle⟩
      · exact Or.inl (by rw [hnil, List.length_nil])
      · by_cases hnil : (grammar.drain buf).2 = []
        · exact Or.inl (by rw [hnil, List.length_nil])
        · refine Or.inr ⟨?_, hle⟩
          rw [store, List.take_zero, List.nil_append,
            u8At_append_left (List.length_pos_of_ne_nil hnil), hsof]
    · exact Or.inl (receive_overflow st hpos (not_le.mp hroom) beyond).2
  · have hsame : (McuParser.receive st temp beyond).2 = st := by simp [McuParser.receive, hpos]
    rwa [hsame]

theorem Sound.run {st : CommandTask} (h : Sound st) (beyond : ℕ → List UInt8)
    (chunks : List (List UInt8)) : Sound (run beyond st chunks).2 := by
  induction chunks generalizing beyond st with
  | nil => exact h
  | cons temp chunks ih => exact ih (h.receive temp (beyond 0)) _

structure TurnSound (st : CommandTask) (temp beyond : List UInt8) : Prop where
  copy_inside : ∀ i ∈ copiedCells st temp.length, i < rxBufSize
  advances : ∀ offset next, loopTurn (store st.rxBuf st.rxLen temp ++ beyond)
    (st.rxLen + temp.length) offset = some next → offset < next
  offset_le : Appended st temp.length → ∀ offset,
    LoopOffset (store st.rxBuf st.rxLen temp ++ beyond) (st.rxLen + temp.length) 0 offset →
      offset ≤ st.rxLen + temp.length
  ends : Appended st temp.length → ∃ offset,
    LoopOffset (store st.rxBuf st.rxLen temp ++ beyond) (st.rxLen + temp.length) 0 offset ∧
      loopTurn (store st.rxBuf st.rxLen temp ++ beyond) (st.rxLen + temp.length) offset = none ∧
      (receive st temp beyond).2.held = (st.held ++ temp).drop offset

theorem turnSound (st : CommandTask) (temp beyond : List UInt8) : TurnSound st temp beyond where
  copy_inside := by
    intro i hi
    simp only [copiedCells] at hi
    split_ifs at hi with h
    · have hroom := h.2
      rw [List.mem_range'_1] at hi
      omega
    · cases hi
  advances := fun offset next h => (loopTurn_bounds h).1
  offset_le := fun _ offset h => h.le (Nat.zero_le _)
  ends := by
    intro h
    obtain ⟨hreach, hend⟩ := parseLoop_ends (store st.rxBuf st.rxLen temp ++ beyond)
      (st.rxLen + temp.length) 0
    exact ⟨_, hreach, hend, held_receive h beyond⟩

/-- In every turn of every run, whatever bytes lie behind the held ones at its start: the
copy stays inside `rx_buf`, the loop of `parse_packet` ends with an offset within the
length and leaves the bytes behind it, and the statics are sound again. -/
theorem every_turn_sound {start : CommandTask} (hstart : Sound start)
    (beyond : ℕ → List UInt8) (chunks : List (List UInt8)) (temp : List UInt8) :
    TurnSound (run beyond start chunks).2 temp (beyond chunks.length) ∧
      Sound (receive (run beyond start chunks).2 temp (beyond chunks.length)).2 :=
  ⟨turnSound _ temp _, (hstart.run beyond chunks).receive temp _⟩

/-- The task's buffer full of old bytes, with the start of a frame held. -/
theorem every_turn_sound_stale :
    let stale : CommandTask :=
      ⟨List.replicate rxBufSize 0xAA, 3, List.length_replicate, by decide⟩
    (receive (run (fun _ => []) stale [[0x10], [0, 7, 0]]).2 [0xAA, 1] []).2.rxLen ≤ 507 :=
  ((every_turn_sound (Or.inr ⟨rfl, by decide⟩) (fun _ => []) [[0x10], [0, 7, 0]] [0xAA, 1]).2).elim
    (fun h => h.le.trans (by decide)) (fun h => h.2)

/-! ### The overflow check -/

/-- `rx_buf` holds a proper part of a good frame from its first byte on, and the chunk
brings more of it, possibly with the first bytes of what follows. -/
structure Continues (st : CommandTask) (f : BkelFrame) (temp next : List UInt8) : Prop where
  wellFormed : f.WellFormed
  dlc_le : f.dlc.toNat ≤ bkelMaxDlc
  partly : st.rxLen < f.size
  bytes : st.held ++ temp <+: frameBytes f ++ next

/-- How many bytes of a chunk lie behind the end of the frame it continues. -/
def overhang (st : CommandTask) (f : BkelFrame) (temp : List UInt8) : ℕ :=
  st.rxLen + temp.length - f.size

/-- The turn appends the chunk, hands the frames of the extended buffer to `handle_frame`
and keeps what `parse_packet` leaves. -/
def AppendedAndParsed (st : CommandTask) (temp beyond : List UInt8) : Prop :=
  let out := parsePacket (store st.rxBuf st.rxLen temp) beyond (st.rxLen + temp.length)
  (receive st temp beyond).1 = out.1 ∧ (receive st temp beyond).2.rxBuf = out.2.1 ∧
    (receive st temp beyond).2.rxLen = out.2.2

theorem appendedAndParsed {st : CommandTask} {temp : List UInt8} (h : Appended st temp.length)
    (beyond : List UInt8) : AppendedAndParsed st temp beyond := by
  simp only [AppendedAndParsed, receive, if_pos h.1, dif_neg h.2]
  exact ⟨trivial, trivial, trivial⟩

/-- A chunk that completes the frame makes `parse_packet` handle it. -/
theorem Continues.handled {st : CommandTask} {f : BkelFrame} {temp next : List UInt8}
    (h : Continues st f temp next) (hend : f.size ≤ st.rxLen + temp.length)
    (beyond : List UInt8) :
    (parsePacket (store st.rxBuf st.rxLen temp) beyond (st.rxLen + temp.length)).1 ≠ [] := by
  have hlen : (st.held ++ temp).length = st.rxLen + temp.length := by
    rw [List.length_append, st.length_held]
  obtain ⟨more, hmore⟩ : frameBytes f <+: st.held ++ temp := by
    refine List.prefix_of_prefix_length_le (List.prefix_append _ next) h.bytes ?_
    rw [length_frameBytes h.wellFormed, hlen]
    exact hend
  have hparse := parsePacket_eq (st.held ++ temp) (st.rxBuf.drop (st.rxLen + temp.length)) beyond
  have hstore : st.held ++ temp ++ st.rxBuf.drop (st.rxLen + temp.length) =
      store st.rxBuf st.rxLen temp := rfl
  have hlook : grammar.look (frameBytes f ++ more) = .take (frameBytes f).length f :=
    verdict_frameBytes h.wellFormed h.dlc_le more
  have hitems : items (grammar.drain (st.held ++ temp)).1 =
      f :: items (grammar.drain ((st.held ++ temp).drop (frameBytes f).length)).1 := by
    rw [← hmore, grammar.drain_of_take hlook, items_cons_some]
  rw [hlen, hstore] at hparse
  rw [hparse, hitems]
  exact List.cons_ne_nil _ _

/-- A chunk that continues a good frame is appended and parsed exactly if what it brings
behind the frame and the payload together are at most 504 bytes. -/
theorem Continues.appended_iff {st : CommandTask} {f : BkelFrame} {temp next : List UInt8}
    (h : Continues st f temp next) (htemp : 0 < temp.length) (beyond : List UInt8) :
    AppendedAndParsed st temp beyond ↔ f.dlc.toNat + overhang st f temp ≤ 504 := by
  have hdlc := h.dlc_le
  simp only [overhang, BkelFrame.size, bkelMaxDlc] at hdlc ⊢
  constructor
  · intro hparsed
    by_contra hlong
    -- the chunk completes the frame and overflows the buffer, so the frame is not handled
    have hover : rxBufSize < st.rxLen + temp.length := by
      rw [rxBufSize]
      omega
    have hhandled := h.handled (by rw [BkelFrame.size]; omega) beyond
    rw [← hparsed.1, (receive_overflow st htemp hover beyond).1] at hhandled
    exact hhandled rfl
  · intro hfits
    have hpartly := h.partly
    refine appendedAndParsed ⟨htemp, ?_⟩ beyond
    rw [rxBufSize]
    omega

/-- Every chunk of the run that continues a good frame is appended and parsed. -/
def FramesContinued (beyond : ℕ → List UInt8) (chunks : List (List UInt8)) : Prop :=
  ∀ before temp after, chunks = before ++ temp :: after → ∀ f next,
    Continues (run beyond CommandTask.init before).2 f temp next →
      AppendedAndParsed (run beyond CommandTask.init before).2 temp (beyond before.length)

/-- Every chunk of the run that continues a good frame brings so little from behind it that
this and the payload together are at most 504 bytes. -/
def OverhangsFit (beyond : ℕ → List UInt8) (chunks : List (List UInt8)) : Prop :=
  ∀ before temp after, chunks = before ++ temp :: after → ∀ f next,
    Continues (run beyond CommandTask.init before).2 f temp next →
      f.dlc.toNat + overhang (run beyond CommandTask.init before).2 f temp ≤ 504

/-- A last chunk that brings too much from behind the frame it continues is thrown away. -/
theorem not_framesContinued_concat {beyond : ℕ → List UInt8} {chunks : List (List UInt8)}
    {f : BkelFrame} {temp next : List UInt8}
    (h : Continues (run beyond CommandTask.init chunks).2 f temp next) (htemp : 0 < temp.length)
    (hlong : 504 < f.dlc.toNat + overhang (run beyond CommandTask.init chunks).2 f temp) :
    ¬ FramesContinued beyond (chunks ++ [temp]) := by
  intro hcontinued
  have hparsed := hcontinued chunks temp [] rfl f next h
  exact absurd ((h.appended_iff htemp _).mp hparsed) (not_le.mpr hlong)

/-- The overflow check throws away no good frame exactly in the runs in which every overhang
fits. -/
theorem frames_continued_iff (beyond : ℕ → List UInt8) {chunks : List (List UInt8)}
    (hchunks : ∀ temp ∈ chunks, 0 < temp.length) :
    FramesContinued beyond chunks ↔ OverhangsFit beyond chunks := by
  constructor
  · intro h before temp after hsplit f next hcont
    have htemp := hchunks temp (by simp [hsplit])
    exact (hcont.appended_iff htemp _).mp (h before temp after hsplit f next hcont)
  · intro h before temp after hsplit f next hcont
    have htemp := hchunks temp (by simp [hsplit])
    exact (hcont.appended_iff htemp _).mpr (h before temp after hsplit f next hcont)

/-- Two bytes, as the only chunk, are appended whatever frame they begin. -/
theorem frames_continued_iff_first : FramesContinued (fun _ => []) [[0xAA, 0x20]] := by
  refine (frames_continued_iff (fun _ => []) (by decide)).mpr ?_
  intro before temp after hsplit f next hcont
  have hdlc := hcont.dlc_le
  obtain ⟨rfl, rfl, -⟩ : before = [] ∧ temp = [0xAA, 0x20] ∧ after = [] := by
    cases before with
    | nil => simpa [eq_comm] using hsplit
    | cons c before => simp at hsplit
  simp only [bkelMaxDlc] at hdlc
  simp only [overhang, run, CommandTask.init, BkelFrame.size, List.length_cons, List.length_nil]
  omega

def largestFrame : BkelFrame := ⟨0x20, 1, 500, 0, List.replicate 500 0⟩

theorem framed_largestFrame (crc : UInt8) : framed largestFrame crc =
    [0xAA, 0x20, 1, 0xF4, 1] ++ List.replicate 444 0 ++ (List.replicate 58 0 ++ [crc]) := by
  have hpayload : largestFrame.payload = List.replicate 444 0 ++ List.replicate 56 0 :=
    (List.replicate_append_replicate (n := 444) (m := 56)).symm
  have hcid : List.replicate 58 (0 : UInt8) = List.replicate 56 0 ++ [0, 0] :=
    (List.replicate_append_replicate (n := 56) (m := 2)).symm
  rw [framed, crcSpan, hpayload, hcid]
  simp only [List.append_assoc, List.cons_append, List.nil_append]
  rfl

/-- Two frames back to back, the first of the largest length: 59 bytes short of its end, the
last chunk brings five bytes of the second as well and is thrown away with the rest. -/
theorem largest_frame_thrown_away :
    ∃ chunks : List (List UInt8), (∀ c ∈ chunks, 1 ≤ c.length ∧ c.length ≤ 64) ∧
      (∃ g : BkelFrame, g.WellFormed ∧
        chunks.flatten <+: frameBytes largestFrame ++ frameBytes g) ∧
      ¬ FramesContinued (fun _ => []) chunks := by
  let chunks : List (List UInt8) := ([0xAA, 0x20, 1, 0xF4, 1] ++ List.replicate 59 0) ::
    (List.replicate 6 (List.replicate 64 0) ++ [[0]])
  let temp : List UInt8 := List.replicate 58 0 ++ [calcCrc8 (crcSpan largestFrame)] ++
    [0xAA, 0x20, 1, 0, 0]
  have hlen : (run (fun _ => []) CommandTask.init chunks).2.rxLen = 449 := by decide +kernel
  have hheld : (run (fun _ => []) CommandTask.init chunks).2.held =
      [0xAA, 0x20, 1, 0xF4, 1] ++ List.replicate 444 0 := by decide +kernel
  have hframe : frameBytes largestFrame = [0xAA, 0x20, 1, 0xF4, 1] ++ List.replicate 444 0 ++
      (List.replicate 58 0 ++ [calcCrc8 (crcSpan largestFrame)]) := framed_largestFrame _
  have hnext : [0xAA, 0x20, 1, 0, 0] <+: frameBytes ⟨0x20, 1, 0, 0, []⟩ := by decide
  have hcont : Continues (run (fun _ => []) CommandTask.init chunks).2 largestFrame temp
      (frameBytes ⟨0x20, 1, 0, 0, []⟩) := by
    refine ⟨List.length_replicate, by decide, by rw [hlen]; decide, ?_⟩
    rw [hheld, hframe, ← List.append_assoc]
    exact (List.prefix_append_right_inj _).mpr hnext
  have hchunks : chunks.flatten = [0xAA, 0x20, 1, 0xF4, 1] ++ List.replicate 444 0 := by
    decide +kernel
  have hbytes : (chunks ++ [temp]).flatten <+:
      frameBytes largestFrame ++ frameBytes ⟨0x20, 1, 0, 0, []⟩ := by
    rw [List.flatten_append, List.flatten_singleton, hchunks, ← hheld]
    exact hcont.bytes
  refine ⟨chunks ++ [temp], by decide +kernel, ⟨⟨0x20, 1, 0, 0, []⟩, by decide, hbytes⟩,
    not_framesContinued_concat hcont (by decide +kernel) ?_⟩
  rw [overhang, hlen]
  decide +kernel

end SomeIpGateway.McuBuffer
