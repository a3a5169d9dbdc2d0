import SomeIpGateway.StepMachine

/-!
# Buffers written in parts

A writer takes buffers from a queue one after another and hands each to a write that may
accept any part of what it is offered, or fail. Every write that succeeds is followed by the
next part of the same buffer, a failure by the next buffer. The stream that has been accepted
is compared with the buffers that were queued.
-/
namespace SomeIpGateway.PartialWrites
open StepMachine
variable {α : Type*}

/-- A buffer, and how much of it has been written. -/
structure Piece (α : Type*) where
  data : List α
  sent : ℕ
  le : sent ≤ data.length
  deriving DecidableEq

namespace Piece

def fresh (data : List α) : Piece α := ⟨data, 0, Nat.zero_le _⟩

/-- The part that has been written. -/
def written (p : Piece α) : List α := p.data.take p.sent

/-- Nothing is left to write. -/
def Whole (p : Piece α) : Prop := p.sent = p.data.length

instance (p : Piece α) : Decidable p.Whole := inferInstanceAs (Decidable (_ = _))

/-- A write that accepts the next `n` elements: at least one, and no more than there are. -/
def advance (p : Piece α) (n : ℕ) : Option (Piece α) :=
  if h : 0 < n ∧ p.sent + n ≤ p.data.length then some ⟨p.data, p.sent + n, h.2⟩ else none

/-- The elements that such a write accepts. -/
def slice (p : Piece α) (n : ℕ) : List α := (p.data.drop p.sent).take n

theorem advance_eq_some {p q : Piece α} {n : ℕ} (h : p.advance n = some q) :
    0 < n ∧ q.data = p.data ∧ q.sent = p.sent + n ∧ ¬ p.Whole := by
  unfold advance at h
  split_ifs at h with hn
  obtain rfl := Option.some.inj h
  refine ⟨hn.1, rfl, rfl, ?_⟩
  intro hwhole
  have hle := hn.2
  rw [Whole] at hwhole
  omega

theorem written_advance {p q : Piece α} {n : ℕ} (h : p.advance n = some q) :
    q.written = p.written ++ p.slice n := by
  obtain ⟨-, hdata, hsent, -⟩ := advance_eq_some h
  rw [written, hdata, hsent, List.take_add, written, slice]

theorem written_of_whole {p : Piece α} (h : p.Whole) : p.written = p.data := by
  rw [written, h, List.take_length]

end Piece

/-- What a write came to. A failure is recorded with the part of the buffer that had been
written before. -/
inductive WriteResult where
  | accepted (n : ℕ)
  | failed (sent : ℕ)
  deriving Repr, DecidableEq

/-- The queue and the writer's buffer, and the history: the buffers as they were queued, the
pieces that the writer is done with, what was accepted, and the results of the writes. -/
structure Stream (α : Type*) where
  queue : List (List α) := []
  current : Option (Piece α) := none
  queued : List (List α) := []
  done : List (Piece α) := []
  accepted : List α := []
  results : List WriteResult := []

inductive Event (α : Type*) where
  | push (data : List α)
  | pop
  | wrote (n : ℕ)
  | failed
  | finished

namespace Stream

/-- The writer leaves its buffer. -/
def leave (s : Stream α) (p : Piece α) : Stream α :=
  { s with current := none, done := s.done ++ [p] }

def step (s : Stream α) : Event α → Option (Stream α)
  | .push data => some { s with queue := s.queue ++ [data], queued := s.queued ++ [data] }
  | .pop =>
    match s.current, s.queue with
    | none, data :: rest => some { s with queue := rest, current := some (.fresh data) }
    | _, _ => none
  | .wrote n =>
    s.current.bind fun p => (p.advance n).map fun q =>
      { s with
        current := some q
        accepted := s.accepted ++ p.slice n
        results := s.results ++ [.accepted n] }
  | .failed =>
    s.current.bind fun p =>
      if p.Whole then none
      else some { s.leave p with results := s.results ++ [.failed p.sent] }
  | .finished => s.current.bind fun p => if p.Whole then some (s.leave p) else none

/-- The pieces of the stream so far. -/
def pieces (s : Stream α) : List (Piece α) := s.done ++ s.current.toList

end Stream

/-- Nothing is queued and nothing written at first. -/
def writer (α : Type*) : Machine (Stream α) (Event α) := ⟨{}, Stream.step⟩

/-- What each event does, and where it is enabled. -/
inductive StepTo (s : Stream α) : Stream α → Prop where
  | push (data : List α) :
      StepTo s { s with queue := s.queue ++ [data], queued := s.queued ++ [data] }
  | pop {data : List α} {rest : List (List α)} (hcurrent : s.current = none)
      (hqueue : s.queue = data :: rest) :
      StepTo s { s with queue := rest, current := some (.fresh data) }
  | wrote {p q : Piece α} {n : ℕ} (hcurrent : s.current = some p) (hq : p.advance n = some q) :
      StepTo s { s with
        current := some q
        accepted := s.accepted ++ p.slice n
        results := s.results ++ [.accepted n] }
  | failed {p : Piece α} (hcurrent : s.current = some p) (hp : ¬ p.Whole) :
      StepTo s { s.leave p with results := s.results ++ [.failed p.sent] }
  | finished {p : Piece α} (hcurrent : s.current = some p) (hp : p.Whole) :
      StepTo s (s.leave p)

theorem stepTo_of_step {s t : Stream α} {e : Event α} (h : (writer α).step s e = some t) :
    StepTo s t := by
  change s.step e = some t at h
  cases e with
  | push data => exact Option.some.inj h ▸ .push data
  | pop =>
    simp only [Stream.step] at h
    split at h
    · next hcurrent hqueue => exact Option.some.inj h ▸ .pop hcurrent hqueue
    · cases h
  | wrote n =>
    obtain ⟨p, hcurrent, h⟩ := Option.bind_eq_some_iff.mp h
    obtain ⟨q, hq, rfl⟩ := Option.map_eq_some_iff.mp h
    exact .wrote hcurrent hq
  | failed =>
    obtain ⟨p, hcurrent, h⟩ := Option.bind_eq_some_iff.mp h
    split_ifs at h with hp
    exact Option.some.inj h ▸ .failed hcurrent hp
  | finished =>
    obtain ⟨p, hcurrent, h⟩ := Option.bind_eq_some_iff.mp h
    split_ifs at h with hp
    exact Option.some.inj h ▸ .finished hcurrent hp

/-! ### The record of the stream -/

/-- The pieces are the buffers that have left the queue, in its order, and together they
are what was accepted. -/
structure Recorded (s : Stream α) : Prop where
  order : s.pieces.map Piece.data ++ s.queue = s.queued
  accepted : s.accepted = s.pieces.flatMap Piece.written

theorem Stream.pieces_of_current {s : Stream α} {p : Piece α} (h : s.current = some p) :
    s.pieces = s.done ++ [p] := by rw [pieces, h, Option.toList_some]

theorem Stream.pieces_of_no_current {s : Stream α} (h : s.current = none) :
    s.pieces = s.done := by rw [pieces, h, Option.toList_none, List.append_nil]

theorem Stream.pieces_leave {s : Stream α} {p : Piece α} (h : s.current = some p) :
    (s.leave p).pieces = s.pieces := by
  rw [pieces_of_current h]
  exact pieces_of_no_current rfl

theorem Recorded.leave {s : Stream α} {p : Piece α} (h : Recorded s)
    (hcurrent : s.current = some p) : Recorded (s.leave p) where
  order := by
    rw [Stream.pieces_leave hcurrent]
    exact h.order
  accepted := by
    rw [Stream.pieces_leave hcurrent]
    exact h.accepted

theorem Recorded.step {s t : Stream α} (h : Recorded s) (hst : StepTo s t) : Recorded t := by
  cases hst with
  | push data =>
    refine ⟨?_, h.accepted⟩
    rw [← h.order, List.append_assoc]
    rfl
  | pop hcurrent hqueue =>
    have horder := h.order
    have haccepted := h.accepted
    rw [Stream.pieces_of_no_current hcurrent] at horder haccepted
    constructor
    · simpa [Stream.pieces, Piece.fresh, hqueue] using horder
    · simpa [Stream.pieces, Piece.fresh, Piece.written] using haccepted
  | wrote hcurrent hq =>
    have horder := h.order
    have haccepted := h.accepted
    rw [Stream.pieces_of_current hcurrent] at horder haccepted
    constructor
    · simpa [Stream.pieces, (Piece.advance_eq_some hq).2.1] using horder
    · rw [haccepted, Stream.pieces_of_current rfl, List.flatMap_append, List.flatMap_append]
      simp [Piece.written_advance hq]
  | failed hcurrent hp =>
    have hleave := h.leave hcurrent
    exact ⟨hleave.order, hleave.accepted⟩
  | finished hcurrent hp => exact h.leave hcurrent

theorem recorded {s : Stream α} (h : (writer α).Reachable s) : Recorded s :=
  h.invariant ⟨rfl, rfl⟩ fun _ _ _ hs hst => hs.step (stepTo_of_step hst)

/-! ### Failures and what comes after them -/

/-- A buffer that the writer gave up after at least `least` elements. -/
def Piece.GivenUp (least : ℕ) (p : Piece α) : Prop := ¬ p.Whole ∧ least ≤ p.sent

/-- Once a buffer is given up, nothing of a later one is written. -/
def SilentAfter (least : ℕ) (pieces : List (Piece α)) : Prop :=
  pieces.Pairwise fun p q => p.GivenUp least → q.sent = 0

/-- Once a write has failed after at least `least` elements of its buffer, every later
write fails. -/
def Persistent (least : ℕ) (results : List WriteResult) : Prop :=
  results.Pairwise fun r r' => ∀ sent n, r = .failed sent → least ≤ sent → r' ≠ .accepted n

variable {least : ℕ}

theorem silentAfter_concat {pieces : List (Piece α)} {q : Piece α} :
    SilentAfter least (pieces ++ [q]) ↔
      SilentAfter least pieces ∧ ((∃ p ∈ pieces, p.GivenUp least) → q.sent = 0) := by
  simp only [SilentAfter, List.pairwise_append, List.pairwise_singleton, true_and,
    List.mem_singleton, forall_eq]
  constructor
  · rintro ⟨hpieces, hq⟩
    exact ⟨hpieces, fun ⟨p, hp, hup⟩ => hq p hp hup⟩
  · rintro ⟨hpieces, hq⟩
    exact ⟨hpieces, fun p hp hup => hq ⟨p, hp, hup⟩⟩

theorem persistent_concat_accepted {results : List WriteResult} {n : ℕ} :
    Persistent least (results ++ [.accepted n]) ↔
      Persistent least results ∧ ¬ ∃ sent, .failed sent ∈ results ∧ least ≤ sent := by
  simp only [Persistent, List.pairwise_append, List.pairwise_singleton, true_and,
    List.mem_singleton, forall_eq]
  constructor
  · rintro ⟨hresults, hlast⟩
    exact ⟨hresults, fun ⟨sent, hmem, hle⟩ => hlast _ hmem sent n rfl hle rfl⟩
  · rintro ⟨hresults, hlast⟩
    refine ⟨hresults, ?_⟩
    rintro r hr sent m rfl hle -
    exact hlast ⟨sent, hr, hle⟩

theorem persistent_concat_failed {results : List WriteResult} {sent : ℕ} :
    Persistent least (results ++ [.failed sent]) ↔ Persistent least results := by
  simp [Persistent, List.pairwise_append]

/-- The results of the writes tell which buffers were given up, and whether anything was
written after that. -/
structure Told (least : ℕ) (s : Stream α) : Prop where
  givenUp : (∃ p ∈ s.done, p.GivenUp least) ↔ ∃ sent, .failed sent ∈ s.results ∧ least ≤ sent
  silent : SilentAfter least s.pieces ↔ Persistent least s.results

theorem Told.step {s t : Stream α} (h : Told least s) (hst : StepTo s t) : Told least t := by
  obtain ⟨hup, hsilent⟩ := h
  cases hst with
  | push data => exact ⟨hup, hsilent⟩
  | pop hcurrent hqueue =>
    refine ⟨hup, ?_⟩
    rw [Stream.pieces_of_no_current hcurrent] at hsilent
    rw [Stream.pieces_of_current rfl, silentAfter_concat, ← hsilent]
    exact and_iff_left fun _ => rfl
  | wrote hcurrent hq =>
    rw [Stream.pieces_of_current hcurrent, silentAfter_concat] at hsilent
    obtain ⟨hpos, -, hsent, -⟩ := Piece.advance_eq_some hq
    constructor
    · simpa using hup
    · rw [Stream.pieces_of_current rfl, silentAfter_concat, persistent_concat_accepted, ← hup,
        ← hsilent]
      -- the new part is not empty, so that nothing may have been given up before
      constructor
      · rintro ⟨hdone, hq⟩
        have hnone : ¬ ∃ p ∈ s.done, p.GivenUp least := fun hp => by
          have := hq hp
          omega
        exact ⟨⟨hdone, fun hp => absurd hp hnone⟩, hnone⟩
      · rintro ⟨⟨hdone, -⟩, hnone⟩
        exact ⟨hdone, fun hp => absurd hp hnone⟩
  | @failed p hcurrent hp =>
    constructor
    · have hlast : p.GivenUp least ↔ least ≤ p.sent := and_iff_right hp
      simp [Stream.leave, or_and_right, exists_or, hup, hlast]
    · rw [persistent_concat_failed, ← hsilent]
      exact iff_of_eq (congrArg _ (Stream.pieces_leave hcurrent))
  | @finished p hcurrent hp =>
    constructor
    · have hlast : ¬ p.GivenUp least := fun hgiven => hgiven.1 hp
      simp [Stream.leave, or_and_right, exists_or, hup, hlast]
    · rw [Stream.pieces_leave hcurrent]
      exact hsilent

theorem told {s : Stream α} (h : (writer α).Reachable s) : Told least s := by
  refine h.invariant ⟨?_, ?_⟩ fun _ _ _ hs hst => hs.step (stepTo_of_step hst)
  · simp [writer]
  · simp [writer, Stream.pieces, SilentAfter, Persistent]

/-! ### The accepted stream -/

/-- Whole buffers in the order of the queue, the first ones without a gap, and at most a
part of the next. -/
def WholeThenPart (queued : List (List α)) (accepted : List α) : Prop :=
  ∃ whole rest part, queued = whole ++ rest ∧ accepted = whole.flatten ++ part ∧
    part <+: rest.headD []

theorem WholeThenPart.append {queued : List (List α)} {accepted : List α}
    (h : WholeThenPart queued accepted) (more : List (List α)) :
    WholeThenPart (queued ++ more) accepted := by
  obtain ⟨whole, rest, part, rfl, rfl, hpart⟩ := h
  refine ⟨whole, rest ++ more, part, List.append_assoc .., rfl, ?_⟩
  cases rest with
  | nil =>
    obtain rfl := List.prefix_nil.mp hpart
    exact List.nil_prefix
  | cons next rest => exact hpart

/-- Nothing was written of these pieces. -/
theorem flatMap_written_eq_nil {pieces : List (Piece α)} (h : ∀ p ∈ pieces, p.sent = 0) :
    pieces.flatMap Piece.written = [] := by
  rw [List.flatMap_eq_nil_iff]
  intro p hp
  rw [Piece.written, h p hp, List.take_zero]

theorem wholeThenPart_of_silentAfter {pieces : List (Piece α)} (h : SilentAfter 0 pieces) :
    WholeThenPart (pieces.map Piece.data) (pieces.flatMap Piece.written) := by
  induction pieces with
  | nil => exact ⟨[], [], [], rfl, rfl, List.nil_prefix⟩
  | cons p pieces ih =>
    obtain ⟨hp, hpieces⟩ := List.pairwise_cons.mp h
    by_cases hwhole : p.Whole
    · obtain ⟨whole, rest, part, hdata, hwritten, hpart⟩ := ih hpieces
      refine ⟨p.data :: whole, rest, part, ?_, ?_, hpart⟩
      · rw [List.map_cons, hdata, List.cons_append]
      · rw [List.flatMap_cons, hwritten, Piece.written_of_whole hwhole, List.flatten_cons,
          List.append_assoc]
    · have hsilent := flatMap_written_eq_nil fun q hq => hp q hq ⟨hwhole, Nat.zero_le _⟩
      refine ⟨[], (p :: pieces).map Piece.data, p.written, rfl, ?_, List.take_prefix ..⟩
      rw [List.flatMap_cons, hsilent, List.append_nil, List.flatten_nil, List.nil_append]

/-- The pieces of which something was written. -/
def begun (pieces : List (Piece α)) : List (Piece α) := pieces.filter fun p => p.sent ≠ 0

theorem flatMap_written_begun (pieces : List (Piece α)) :
    (begun pieces).flatMap Piece.written = pieces.flatMap Piece.written := by
  induction pieces with
  | nil => rfl
  | cons p pieces ih =>
    by_cases hp : p.sent = 0
    · have hskip : begun (p :: pieces) = begun pieces := by simp [begun, hp]
      rw [hskip, ih, List.flatMap_cons, Piece.written, hp, List.take_zero, List.nil_append]
    · have hkeep : begun (p :: pieces) = p :: begun pieces := by simp [begun, hp]
      rw [hkeep, List.flatMap_cons, List.flatMap_cons, ih]

theorem silentAfter_begun {pieces : List (Piece α)} (h : SilentAfter 1 pieces) :
    SilentAfter 0 (begun pieces) := by
  apply List.pairwise_filter.mpr
  refine h.imp ?_
  intro p q hpq hp _ hgiven
  refine hpq ⟨hgiven.1, ?_⟩
  have hne : p.sent ≠ 0 := by simpa using hp
  omega

/-- The stream is the queued buffers, the first ones without a gap, and at most a part of
the next; no write succeeds after a buffer was given up. -/
structure Complete (s : Stream α) : Prop where
  stream : WholeThenPart s.queued s.accepted
  silent : SilentAfter 0 s.pieces

/-- The same up to whole buffers that are missing: the stream is made of buffers in the order
of the queue, and at most a part of a last one. -/
structure Aligned (s : Stream α) : Prop where
  stream : ∃ kept, kept.Sublist s.queued ∧ WholeThenPart kept s.accepted
  silent : SilentAfter 1 s.pieces

theorem complete_iff {s : Stream α} (h : (writer α).Reachable s) :
    Complete s ↔ Persistent 0 s.results := by
  rw [← (told h).silent]
  refine ⟨Complete.silent, fun hsilent => ⟨?_, hsilent⟩⟩
  rw [← (recorded h).order, (recorded h).accepted]
  exact (wholeThenPart_of_silentAfter hsilent).append _

theorem aligned_iff {s : Stream α} (h : (writer α).Reachable s) :
    Aligned s ↔ Persistent 1 s.results := by
  rw [← (told h).silent]
  refine ⟨Aligned.silent, fun hsilent => ⟨?_, hsilent⟩⟩
  refine ⟨(begun s.pieces).map Piece.data, ?_, ?_⟩
  · rw [← (recorded h).order]
    exact (List.filter_sublist.map _).trans (List.sublist_append_left ..)
  · rw [(recorded h).accepted, ← flatMap_written_begun]
    exact wholeThenPart_of_silentAfter (silentAfter_begun hsilent)

end SomeIpGateway.PartialWrites
