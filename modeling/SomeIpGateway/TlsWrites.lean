import SomeIpGateway.PartialWrites
import SomeIpGateway.PacketCodec
import SomeIpGateway.TlsTransport

/-!
# What the TLS transport's send thread writes

`txLoop` and `sendData` of a `TlsTransport` while the connection is up: `running_` is true and
`ssl_` is not null. Each `SSL_write` is a step of its own, and any number of callers of
`sendData` take their steps between them. A failed `SSL_write` is logged and leaves the inner
loop; the buffers after it are sent.
-/
namespace SomeIpGateway.TlsWrites
open StepMachine PartialWrites TlsTransport

/-- Where the send thread is in `txLoop`. -/
inductive TxPc where
  | loopTest
  | lock
  /-- `txMutex_` is held and the wait predicate is next. -/
  | predicate
  /-- The predicate was false: the mutex is about to be released for the sleep. -/
  | goingToSleep
  | asleep
  | woken
  /-- `txMutex_` is held and the test of the inner loop is next. -/
  | drain
  /-- The test of the write loop is next; the piece is `data` and `totalSent`. -/
  | writing (p : Piece UInt8)
  | relock
  deriving DecidableEq

inductive Owner where
  | tx
  | sender (id : ℕ)
  deriving Repr, DecidableEq

/-- The send thread, the callers of `sendData` and what they share; and the history, which no
step reads. -/
structure State where
  tx : TxPc := .loopTest
  senders : ℕ → SendPc := fun _ => .idle
  txMutex : Option Owner := none
  txQueue : List (List UInt8) := []
  queued : List (List UInt8) := []
  done : List (Piece UInt8) := []
  accepted : List UInt8 := []
  results : List WriteResult := []

inductive Action where
  | tx
  | wrote (n : ℕ)
  | writeFails
  /-- A sleep ends without a notify. -/
  | wakeUp
  | sendData (id : ℕ) (data : List UInt8)
  | sender (id : ℕ)
  deriving Repr, DecidableEq

namespace State

def notifyTx (s : State) : State := if s.tx = .asleep then { s with tx := .woken } else s

/-- Take `txMutex_` if it is free. -/
def acquire (s : State) (owner : Owner) : Option State :=
  if s.txMutex = none then some { s with txMutex := some owner } else none

/-- The buffer is done with: `txLoop` leaves the write loop. -/
def leave (s : State) (p : Piece UInt8) : State := { s with tx := .relock, done := s.done ++ [p] }

def setSender (s : State) (id : ℕ) (pc : SendPc) : State :=
  { s with senders := Function.update s.senders id pc }

/-- The next step of the send thread that is no `SSL_write`. -/
def stepTx (s : State) : Option State :=
  match s.tx with
  | .loopTest => some { s with tx := .lock }
  | .lock => (s.acquire .tx).map fun s => { s with tx := .predicate }
  | .predicate => some { s with tx := if s.txQueue ≠ [] then .drain else .goingToSleep }
  | .goingToSleep => some { s with tx := .asleep, txMutex := none }
  | .asleep => none
  | .woken => (s.acquire .tx).map fun s => { s with tx := .predicate }
  | .drain =>
    match s.txQueue with
    | [] => some { s with tx := .loopTest, txMutex := none }
    | data :: rest => some { s with tx := .writing (.fresh data), txQueue := rest, txMutex := none }
  | .writing p => if p.sent < p.data.length then none else some (s.leave p)
  | .relock => (s.acquire .tx).map fun s => { s with tx := .drain }

/-- `SSL_write` on the rest of the buffer. -/
def stepWrite (s : State) (result : Option ℕ) : Option State :=
  match s.tx with
  | .writing p =>
    if p.sent < p.data.length then
      match result with
      | some n => (p.advance n).map fun q =>
        { s with
          tx := .writing q
          accepted := s.accepted ++ p.slice n
          results := s.results ++ [.accepted n] }
      | none => some { s.leave p with results := s.results ++ [.failed p.sent] }
    else none
  | _ => none

/-- The next step of a caller of `sendData`. -/
def stepSender (s : State) (id : ℕ) : Option State :=
  match s.senders id with
  | .idle => none
  | .lock data => (s.acquire (.sender id)).map fun s => s.setSender id (.push data)
  | .push data =>
    some { s.setSender id .notify with
      txQueue := s.txQueue ++ [data], txMutex := none, queued := s.queued ++ [data] }
  | .notify => some (s.notifyTx.setSender id .idle)

def step (s : State) : Action → Option State
  | .tx => s.stepTx
  | .wrote n => s.stepWrite (some n)
  | .writeFails => s.stepWrite none
  | .wakeUp => if s.tx = .asleep then some { s with tx := .woken } else none
  | .sendData id data => if s.senders id = .idle then some (s.setSender id (.lock data)) else none
  | .sender id => s.stepSender id

end State

def transport : Machine State Action := ⟨{}, State.step⟩

/-! ### The stream of a transport -/

def TxPc.current : TxPc → Option (Piece UInt8)
  | .writing p => some p
  | _ => none

/-- The transport as a queue that is written in parts. -/
def State.view (s : State) : Stream UInt8 where
  queue := s.txQueue
  current := s.tx.current
  queued := s.queued
  done := s.done
  accepted := s.accepted
  results := s.results

theorem acquire_view {s t : State} {owner : Owner} (h : s.acquire owner = some t) :
    t.view = s.view ∧ t.tx = s.tx := by
  unfold State.acquire at h
  split_ifs at h
  obtain rfl := Option.some.inj h
  exact ⟨rfl, rfl⟩

theorem notifyTx_view (s : State) : s.notifyTx.view = s.view := by
  unfold State.notifyTx
  split_ifs with h
  · simp [State.view, h, TxPc.current]
  · rfl

/-- A step of the transport leaves its stream alone or is an event of it. -/
def Follows (s t : State) : Prop :=
  t.view = s.view ∨ ∃ e, (writer UInt8).step s.view e = some t.view

theorem acquire_map_view {s t : State} {pc : TxPc} (hcurrent : s.tx.current = none)
    (hpc : pc.current = none)
    (h : (s.acquire .tx).map (fun s => { s with tx := pc }) = some t) : t.view = s.view := by
  obtain ⟨u, hu, rfl⟩ := Option.map_eq_some_iff.mp h
  rw [← (acquire_view hu).1]
  simp [State.view, hpc, (acquire_view hu).2, hcurrent]

theorem follows_tx {s t : State} (h : s.stepTx = some t) : Follows s t := by
  unfold State.stepTx at h
  cases hpc : s.tx with
  | loopTest =>
    simp only [hpc, Option.some.injEq] at h
    exact .inl (by simp [← h, State.view, hpc, TxPc.current])
  | lock =>
    simp only [hpc] at h
    exact .inl (acquire_map_view (by simp [hpc, TxPc.current]) rfl h)
  | predicate =>
    simp only [hpc, Option.some.injEq] at h
    refine .inl ?_
    rw [← h]
    simp only [State.view, hpc]
    split_ifs <;> rfl
  | goingToSleep =>
    simp only [hpc, Option.some.injEq] at h
    exact .inl (by simp [← h, State.view, hpc, TxPc.current])
  | asleep => simp [hpc] at h
  | woken =>
    simp only [hpc] at h
    exact .inl (acquire_map_view (by simp [hpc, TxPc.current]) rfl h)
  | drain =>
    simp only [hpc] at h
    cases hqueue : s.txQueue with
    | nil =>
      simp only [hqueue, Option.some.injEq] at h
      exact .inl (by simp [← h, State.view, hpc, TxPc.current, hqueue])
    | cons data rest =>
      simp only [hqueue, Option.some.injEq] at h
      refine .inr ⟨.pop, ?_⟩
      simp [← h, writer, Stream.step, State.view, hpc, TxPc.current, hqueue]
  | writing p =>
    simp only [hpc] at h
    split_ifs at h with hrest
    have hwhole : p.Whole := Nat.le_antisymm p.le (Nat.le_of_not_lt hrest)
    refine .inr ⟨.finished, ?_⟩
    simp [← Option.some.inj h, writer, Stream.step, Stream.leave, State.view, State.leave, hpc,
      TxPc.current, hwhole]
  | relock =>
    simp only [hpc] at h
    exact .inl (acquire_map_view (by simp [hpc, TxPc.current]) rfl h)

theorem follows_write {s t : State} (result : Option ℕ) (h : s.stepWrite result = some t) :
    Follows s t := by
  unfold State.stepWrite at h
  cases hpc : s.tx with
  | writing p =>
    simp only [hpc] at h
    split_ifs at h with hrest
    cases result with
    | some n =>
      obtain ⟨q, hq, rfl⟩ := Option.map_eq_some_iff.mp h
      refine .inr ⟨.wrote n, ?_⟩
      simp [writer, Stream.step, State.view, hpc, TxPc.current, hq]
    | none =>
      have hpart : ¬ p.Whole := Nat.ne_of_lt hrest
      refine .inr ⟨.failed, ?_⟩
      simp [← Option.some.inj h, writer, Stream.step, Stream.leave, State.view, State.leave, hpc,
        TxPc.current, hpart]
  | _ => simp [hpc] at h

theorem follows_sender {s t : State} {id : ℕ} (h : s.stepSender id = some t) : Follows s t := by
  unfold State.stepSender at h
  cases hpc : s.senders id with
  | idle => simp [hpc] at h
  | lock data =>
    simp only [hpc] at h
    obtain ⟨u, hu, rfl⟩ := Option.map_eq_some_iff.mp h
    exact .inl (acquire_view hu).1
  | push data =>
    simp only [hpc] at h
    exact .inr ⟨.push data, by rw [← Option.some.inj h]; rfl⟩
  | notify =>
    simp only [hpc] at h
    exact .inl (Option.some.inj h ▸ notifyTx_view s)

theorem follows {s t : State} {a : Action} (h : transport.step s a = some t) : Follows s t := by
  cases a with
  | tx => exact follows_tx h
  | wrote n => exact follows_write (some n) h
  | writeFails => exact follows_write none h
  | wakeUp =>
    change (if s.tx = .asleep then _ else _) = _ at h
    split_ifs at h with hpc
    exact .inl (by simp [← Option.some.inj h, State.view, hpc, TxPc.current])
  | sendData id data =>
    change (if s.senders id = .idle then _ else _) = _ at h
    split_ifs at h
    exact .inl (Option.some.inj h ▸ rfl)
  | sender id => exact follows_sender h

theorem view_reachable {s : State} (h : transport.Reachable s) :
    (writer UInt8).Reachable s.view :=
  h.simulate State.view rfl fun _ _ _ hst => follows hst

/-- The stream is the queued frames without a gap, up to a part of one more, exactly if no
`SSL_write` succeeds after one has failed; and it is made of whole queued frames, up to a part
of a last one, exactly if none succeeds after one has failed inside a frame. -/
theorem stream_iff {s : State} (h : transport.Reachable s) :
    (Complete s.view ↔ Persistent 0 s.results) ∧ (Aligned s.view ↔ Persistent 1 s.results) :=
  ⟨complete_iff (view_reachable h), aligned_iff (view_reachable h)⟩

/-- A request for the diagnosis `sid`, as one caller queues it while the send thread is at its
first step. -/
def queueFrame (sid : UInt8) : List Action :=
  [.sendData 0 (PacketCodec.buildFrame sid 0 (some []) 0 1), .sender 0, .sender 0, .sender 0]

/-- Two frames are queued, and the first is written in parts. -/
def firstPart : List Action :=
  queueFrame 0x20 ++ queueFrame 0x21 ++ [.tx, .tx, .tx, .tx, .wrote 1]

theorem stream_iff_partial_write :
    ∃ s, transport.Reachable s ∧ (s.queued.length = 2 ∧ s.results = [.accepted 1]) ∧
      Complete s.view ∧ Aligned s.view := by
  obtain ⟨s, hreach, hs⟩ := Machine.exists_reachable (M := transport)
    (fun s => s.queued.length = 2 ∧ s.results = [.accepted 1]) firstPart (by decide +kernel)
  refine ⟨s, hreach, hs, ?_, ?_⟩
  · apply (stream_iff hreach).1.mpr
    rw [hs.2]
    exact List.pairwise_singleton ..
  · apply (stream_iff hreach).2.mpr
    rw [hs.2]
    exact List.pairwise_singleton ..

/-- The next write of the first frame fails, and the second frame is sent behind its first
byte. -/
theorem torn_frame_followed :
    ∃ s, transport.Reachable s ∧
      s.accepted = (PacketCodec.buildFrame 0x20 0 (some []) 0 1).take 1 ++
        PacketCodec.buildFrame 0x21 0 (some []) 0 1 ∧
      ¬ Complete s.view ∧ ¬ Aligned s.view := by
  obtain ⟨s, hreach, haccepted, hresults⟩ := Machine.exists_reachable (M := transport)
    (fun s => s.accepted = (PacketCodec.buildFrame 0x20 0 (some []) 0 1).take 1 ++
      PacketCodec.buildFrame 0x21 0 (some []) 0 1 ∧
      s.results = [.accepted 1, .failed 1, .accepted 8])
    (firstPart ++ [.writeFails, .tx, .tx, .wrote 8]) (by decide +kernel)
  have hafter {least : ℕ} (hle : least ≤ 1) : ¬ Persistent least s.view.results := by
    intro h
    change Persistent least s.results at h
    rw [hresults] at h
    exact (List.pairwise_cons.mp (List.pairwise_cons.mp h).2).1 _ (by simp) 1 8 rfl hle rfl
  refine ⟨s, hreach, haccepted, ?_, ?_⟩
  · rw [complete_iff (view_reachable hreach)]
    exact hafter (Nat.zero_le 1)
  · rw [aligned_iff (view_reachable hreach)]
    exact hafter (Nat.le_refl 1)

end SomeIpGateway.TlsWrites
