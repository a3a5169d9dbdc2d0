import SomeIpGateway.StepMachine

/-!
# The TLS transport's send thread and its shutdown

`txLoop`, `sendData` and `stop` of one `TlsTransport`, at the grain at which they
interleave: one step takes the mutex, evaluates the wait predicate, goes to sleep,
pops a buffer, and so on. A notify wakes the thread only if it already sleeps, and
nothing else does. `stop` runs once, in the destructor that `removeSession` reaches
with the manager's mutex held, so that no `sendData` is under way or can begin.
-/
namespace SomeIpGateway.TlsTransport
open StepMachine

/-- Where the send thread is in `txLoop`. -/
inductive TxPc where
  | loopTest
  | lock
  /-- `txMutex_` is held and the wait predicate is next. -/
  | predicate
  /-- The predicate was false: the mutex is about to be released for the sleep. -/
  | goingToSleep
  | asleep
  /-- Notified, and about to take the mutex again. -/
  | woken
  /-- `txMutex_` is held and the test of the inner loop is next. -/
  | drain
  | writing (data : List UInt8)
  | relock
  | done
  deriving Repr, DecidableEq

/-- Where a caller is in `sendData`. -/
inductive SendPc where
  | idle
  | lock (data : List UInt8)
  | push (data : List UInt8)
  | notify
  deriving Repr, DecidableEq

/-- Where the destructor is in `stop`. -/
inductive StopPc where
  | notCalled
  | close
  | notify
  | join
  | returned
  deriving Repr, DecidableEq

inductive Owner where
  | tx
  | sender
  deriving Repr, DecidableEq

structure State where
  tx : TxPc := .loopTest
  sender : SendPc := .idle
  stop : StopPc := .notCalled
  txMutex : Option Owner := none
  txQueue : List (List UInt8) := []
  running : Bool := true
  /-- Whether `ssl_` is not null. -/
  ssl : Bool := true
  written : List (List UInt8) := []
  deriving Repr, DecidableEq

inductive Action where
  | tx
  | writeFails
  | sendData (data : List UInt8)
  | sender
  | stop
  deriving Repr, DecidableEq

namespace State

/-- A notify on `txCv_`. -/
def notifyTx (s : State) : State := if s.tx = .asleep then { s with tx := .woken } else s

/-- Take `txMutex_` if it is free. -/
def acquire (s : State) (owner : Owner) : Option State :=
  if s.txMutex = none then some { s with txMutex := some owner } else none

/-- The next step of the send thread. -/
def stepTx (s : State) : Option State :=
  match s.tx with
  | .loopTest => some { s with tx := if s.running then .lock else .done }
  | .lock => (s.acquire .tx).map fun s => { s with tx := .predicate }
  | .predicate =>
    some { s with tx := if s.txQueue ≠ [] ∨ s.running = false then .drain else .goingToSleep }
  | .goingToSleep => some { s with tx := .asleep, txMutex := none }
  | .asleep => none
  | .woken => (s.acquire .tx).map fun s => { s with tx := .predicate }
  | .drain =>
    match s.txQueue with
    | [] => some { s with tx := .loopTest, txMutex := none }
    | data :: rest => some { s with tx := .writing data, txQueue := rest, txMutex := none }
  | .writing data =>
    some { s with tx := .relock, written := if s.ssl then s.written ++ [data] else s.written }
  | .relock => (s.acquire .tx).map fun s => { s with tx := .drain }
  | .done => none

/-- The next step of the caller of `sendData`. -/
def stepSender (s : State) : Option State :=
  match s.sender with
  | .idle => none
  | .lock data => (s.acquire .sender).map fun s => { s with sender := .push data }
  | .push data =>
    some { s with sender := .notify, txQueue := s.txQueue ++ [data], txMutex := none }
  | .notify => some { s.notifyTx with sender := .idle }

/-- The next step of `stop`. The receive thread, which calls it, is detached. -/
def stepStop (s : State) : Option State :=
  match s.stop with
  | .notCalled =>
    if s.sender = .idle then some { s with stop := .close, running := false } else none
  | .close => some { s with stop := .notify, ssl := false }
  | .notify => some { s.notifyTx with stop := .join }
  | .join => if s.tx = .done then some { s with stop := .returned } else none
  | .returned => none

def step (s : State) : Action → Option State
  | .tx => s.stepTx
  | .writeFails =>
    match s.tx with
    | .writing _ => some { s with tx := .relock }
    | _ => none
  | .sendData data =>
    if s.sender = .idle ∧ s.stop = .notCalled then some { s with sender := .lock data } else none
  | .sender => s.stepSender
  | .stop => s.stepStop

end State

/-- One transport after `start`. -/
def transport : Machine State Action := ⟨{}, State.step⟩

/-- `stop` waits in the join of a send thread that sleeps, and no notify is to come. -/
def Hung (s : State) : Prop := s.stop = .join ∧ s.tx = .asleep ∧ s.sender = .idle

instance (s : State) : Decidable (Hung s) := inferInstanceAs (Decidable (_ ∧ _ ∧ _))

/-- Nothing can happen any more. -/
theorem Hung.stuck {s : State} (h : Hung s) (a : Action) : s.step a = none := by
  obtain ⟨hstop, htx, hsender⟩ := h
  cases a <;>
    simp [State.step, State.stepTx, State.stepSender, State.stepStop, hstop, htx, hsender]

/-- The `notify_all` of `stop` does not fall between the send thread's false
predicate and its sleep. -/
def NotifyInTime (s : State) (a : Action) : Prop :=
  a = .stop → s.stop = .notify → s.tx ≠ .goingToSleep

instance (s : State) (a : Action) : Decidable (NotifyInTime s a) :=
  inferInstanceAs (Decidable (_ → _ → _))

/-! ### The invariant -/

/-- The send thread is inside the part of `txLoop` that holds the mutex. -/
def TxPc.Holds : TxPc → Prop
  | .predicate | .goingToSleep | .drain => True
  | _ => False

def SendPc.Holds : SendPc → Prop
  | .push _ => True
  | _ => False

/-- The mutex excludes its two users; and once `stop` has begun, the flag is down and
no `sendData` is under way. -/
structure Excluded (s : State) : Prop where
  tx : s.txMutex = some .tx ↔ s.tx.Holds
  sender : s.txMutex = some .sender ↔ s.sender.Holds
  flag : s.stop ≠ .notCalled → s.running = false
  quiet : s.stop ≠ .notCalled → s.sender = .idle

theorem acquire_eq_some {s t : State} {owner : Owner} :
    s.acquire owner = some t ↔ s.txMutex = none ∧ { s with txMutex := some owner } = t := by
  unfold State.acquire
  split_ifs with h <;> simp [h]

/-- What each step of the send thread does, and where it is enabled. -/
inductive TxStep (s : State) : State → Prop where
  | loopTest (hpc : s.tx = .loopTest) :
      TxStep s { s with tx := if s.running then .lock else .done }
  | lock (hpc : s.tx = .lock ∨ s.tx = .woken) (hfree : s.txMutex = none) :
      TxStep s { s with tx := .predicate, txMutex := some .tx }
  | predicate (hpc : s.tx = .predicate) :
      TxStep s { s with
        tx := if s.txQueue ≠ [] ∨ s.running = false then .drain else .goingToSleep }
  | sleep (hpc : s.tx = .goingToSleep) : TxStep s { s with tx := .asleep, txMutex := none }
  | drained (hpc : s.tx = .drain) (hempty : s.txQueue = []) :
      TxStep s { s with tx := .loopTest, txMutex := none }
  | pop {data : List UInt8} {rest : List (List UInt8)} (hpc : s.tx = .drain)
      (hqueue : s.txQueue = data :: rest) :
      TxStep s { s with tx := .writing data, txQueue := rest, txMutex := none }
  | write {data : List UInt8} (hpc : s.tx = .writing data) :
      TxStep s
        { s with tx := .relock, written := if s.ssl then s.written ++ [data] else s.written }
  | relock (hpc : s.tx = .relock) (hfree : s.txMutex = none) :
      TxStep s { s with tx := .drain, txMutex := some .tx }

theorem stepTx_cases {s t : State} (hstep : s.stepTx = some t) : TxStep s t := by
  unfold State.stepTx at hstep
  cases hpc : s.tx with
  | loopTest =>
    rw [hpc] at hstep
    obtain rfl := Option.some.inj hstep
    exact TxStep.loopTest hpc
  | predicate =>
    rw [hpc] at hstep
    obtain rfl := Option.some.inj hstep
    exact TxStep.predicate hpc
  | goingToSleep =>
    rw [hpc] at hstep
    obtain rfl := Option.some.inj hstep
    exact TxStep.sleep hpc
  | writing data =>
    rw [hpc] at hstep
    obtain rfl := Option.some.inj hstep
    exact TxStep.write hpc
  | drain =>
    rw [hpc] at hstep
    dsimp only at hstep
    split at hstep
    · next hempty =>
      obtain rfl := Option.some.inj hstep
      exact TxStep.drained hpc hempty
    · next hqueue =>
      obtain rfl := Option.some.inj hstep
      exact TxStep.pop hpc hqueue
  | lock | woken =>
    rw [hpc] at hstep
    obtain ⟨u, hu, rfl⟩ := Option.map_eq_some_iff.mp hstep
    obtain ⟨hfree, rfl⟩ := acquire_eq_some.mp hu
    exact TxStep.lock (by simp [hpc]) hfree
  | relock =>
    rw [hpc] at hstep
    obtain ⟨u, hu, rfl⟩ := Option.map_eq_some_iff.mp hstep
    obtain ⟨hfree, rfl⟩ := acquire_eq_some.mp hu
    exact TxStep.relock hpc hfree
  | asleep | done => simp [hpc] at hstep

namespace Excluded
variable {s t : State}

theorem stepTx (h : Excluded s) (hstep : s.stepTx = some t) : Excluded t := by
  have htx := h.tx
  have hsender := h.sender
  cases stepTx_cases hstep with
  | loopTest hpc | predicate hpc =>
    rw [hpc] at htx
    refine ⟨?_, hsender, h.flag, h.quiet⟩
    dsimp only
    split_ifs <;> simpa [TxPc.Holds] using htx
  | lock _ hfree | relock _ hfree =>
    exact ⟨by simp [TxPc.Holds], by simpa [hfree] using hsender, h.flag, h.quiet⟩
  | sleep hpc | drained hpc | pop hpc =>
    rw [hpc] at htx
    have hheld := htx.mpr trivial
    exact ⟨by simp [TxPc.Holds], by simpa [hheld] using hsender, h.flag, h.quiet⟩
  | write hpc =>
    rw [hpc] at htx
    exact ⟨by simpa [TxPc.Holds] using htx, hsender, h.flag, h.quiet⟩

/-- A notify moves the send thread between two places where it holds no mutex. -/
theorem notifyTx (h : Excluded s) : Excluded s.notifyTx := by
  unfold State.notifyTx
  split_ifs with hpc
  · have htx := h.tx
    rw [hpc] at htx
    exact ⟨by simpa [TxPc.Holds] using htx, h.sender, h.flag, h.quiet⟩
  · exact h

theorem stepSender (h : Excluded s) (hstep : s.stepSender = some t) : Excluded t := by
  have htx := h.tx
  have hsender := h.sender
  have hcalled : s.sender ≠ .idle → s.stop = .notCalled := fun hne => by
    by_contra hstop
    exact hne (h.quiet hstop)
  unfold State.stepSender at hstep
  cases hpc : s.sender with
  | idle => simp [hpc] at hstep
  | lock data =>
    rw [hpc] at hstep hcalled
    obtain ⟨u, hu, rfl⟩ := Option.map_eq_some_iff.mp hstep
    obtain ⟨hfree, rfl⟩ := acquire_eq_some.mp hu
    refine ⟨by simpa [hfree] using htx, by simp [SendPc.Holds], h.flag, ?_⟩
    exact fun hne => absurd (hcalled (by simp)) hne
  | push data =>
    rw [hpc] at hstep hsender hcalled
    obtain rfl := Option.some.inj hstep
    have hheld := hsender.mpr trivial
    refine ⟨by simpa [hheld] using htx, by simp [SendPc.Holds], h.flag, ?_⟩
    exact fun hne => absurd (hcalled (by simp)) hne
  | notify =>
    rw [hpc] at hstep hsender
    obtain rfl := Option.some.inj hstep
    have h' := h.notifyTx
    have hmutex : s.notifyTx.txMutex = s.txMutex := by unfold State.notifyTx; split_ifs <;> rfl
    exact ⟨h'.tx, by simpa [hmutex, SendPc.Holds] using hsender, h'.flag, fun _ => rfl⟩

theorem stepStop (h : Excluded s) (hstep : s.stepStop = some t) : Excluded t := by
  unfold State.stepStop at hstep
  cases hpc : s.stop with
  | notCalled =>
    simp only [hpc] at hstep
    split_ifs at hstep with hidle
    obtain rfl := Option.some.inj hstep
    exact ⟨h.tx, h.sender, fun _ => rfl, fun _ => hidle⟩
  | close =>
    rw [hpc] at hstep
    obtain rfl := Option.some.inj hstep
    exact ⟨h.tx, h.sender, fun _ => h.flag (by simp [hpc]), fun _ => h.quiet (by simp [hpc])⟩
  | notify =>
    rw [hpc] at hstep
    obtain rfl := Option.some.inj hstep
    have h' := h.notifyTx
    have hstop : s.notifyTx.stop = s.stop := by unfold State.notifyTx; split_ifs <;> rfl
    exact ⟨h'.tx, h'.sender, fun _ => h'.flag (by simp [hstop, hpc]),
      fun _ => h'.quiet (by simp [hstop, hpc])⟩
  | join =>
    simp only [hpc] at hstep
    split_ifs at hstep
    obtain rfl := Option.some.inj hstep
    exact ⟨h.tx, h.sender, fun _ => h.flag (by simp [hpc]), fun _ => h.quiet (by simp [hpc])⟩
  | returned => simp [hpc] at hstep

theorem step (h : Excluded s) {a : Action} (hstep : s.step a = some t) : Excluded t := by
  cases a with
  | tx => exact h.stepTx hstep
  | sender => exact h.stepSender hstep
  | stop => exact h.stepStop hstep
  | writeFails =>
    simp only [State.step] at hstep
    cases hpc : s.tx with
    | writing data =>
      rw [hpc] at hstep
      obtain rfl := Option.some.inj hstep
      have htx := h.tx
      rw [hpc] at htx
      exact ⟨by simpa [TxPc.Holds] using htx, h.sender, h.flag, h.quiet⟩
    | _ => simp [hpc] at hstep
  | sendData data =>
    simp only [State.step] at hstep
    split_ifs at hstep with hok
    obtain rfl := Option.some.inj hstep
    have hsender := h.sender
    rw [hok.1] at hsender
    exact ⟨h.tx, by simpa [SendPc.Holds] using hsender, h.flag, fun hne => absurd hok.2 hne⟩

end Excluded

theorem excluded_of_reachable {s : State} (h : transport.Reachable s) : Excluded s :=
  h.invariant ⟨by simp [transport, TxPc.Holds], by simp [transport, SendPc.Holds],
    by simp [transport], by simp [transport]⟩ fun _ _ _ hI hstep => hI.step hstep

/-! ### Stopping in time -/

/-- Behind the `notify_all` of `stop`, the send thread neither sleeps nor is about to. -/
def Awake (s : State) : Prop :=
  s.stop = .join ∨ s.stop = .returned → s.tx ≠ .goingToSleep ∧ s.tx ≠ .asleep

/-- With the flag down, the predicate is true and no step leads towards the sleep. -/
theorem Excluded.stepTx_awake {s t : State} (h : Excluded s) (hstop : s.stop ≠ .notCalled)
    (htx : s.tx ≠ .goingToSleep) (hstep : s.stepTx = some t) :
    t.tx ≠ .goingToSleep ∧ t.tx ≠ .asleep := by
  have hflag := h.flag hstop
  cases stepTx_cases hstep with
  | sleep hpc => exact absurd hpc htx
  | _ => simp [hflag]

theorem notifyTx_awake {s : State} (h : s.tx ≠ .goingToSleep) :
    s.notifyTx.tx ≠ .goingToSleep ∧ s.notifyTx.tx ≠ .asleep := by
  unfold State.notifyTx
  split_ifs with hpc
  · simp
  · exact ⟨h, hpc⟩

theorem stepTx_stop {s t : State} (hstep : s.stepTx = some t) : t.stop = s.stop := by
  cases stepTx_cases hstep <;> rfl

theorem Awake.step {s t : State} (h : Awake s) (hex : Excluded s) {a : Action}
    (hintime : NotifyInTime s a) (hstep : s.step a = some t) : Awake t := by
  cases a with
  | tx =>
    intro hpast
    rw [stepTx_stop hstep] at hpast
    have hcalled : s.stop ≠ .notCalled := by rcases hpast with hp | hp <;> simp [hp]
    exact hex.stepTx_awake hcalled (h hpast).1 hstep
  | writeFails =>
    simp only [State.step] at hstep
    split at hstep
    · obtain rfl := Option.some.inj hstep
      simp [Awake]
    · cases hstep
  | sendData data =>
    simp only [State.step] at hstep
    split_ifs at hstep with hok
    obtain rfl := Option.some.inj hstep
    simp [Awake, hok.2]
  | sender =>
    -- once `stop` has begun, no `sendData` is under way
    have hcalled : s.stop = .notCalled := by
      by_contra hne
      simp [State.step, State.stepSender, hex.quiet hne] at hstep
    have hstop : t.stop = s.stop := by
      simp only [State.step, State.stepSender] at hstep
      split at hstep
      · cases hstep
      · obtain ⟨u, hu, rfl⟩ := Option.map_eq_some_iff.mp hstep
        obtain ⟨-, rfl⟩ := acquire_eq_some.mp hu
        rfl
      · obtain rfl := Option.some.inj hstep
        rfl
      · obtain rfl := Option.some.inj hstep
        unfold State.notifyTx
        split_ifs <;> rfl
    simp [Awake, hstop, hcalled]
  | stop =>
    simp only [State.step, State.stepStop] at hstep
    split at hstep
    · split_ifs at hstep
      obtain rfl := Option.some.inj hstep
      simp [Awake]
    · obtain rfl := Option.some.inj hstep
      simp [Awake]
    · next hpc =>
      obtain rfl := Option.some.inj hstep
      exact fun _ => notifyTx_awake (hintime rfl hpc)
    · split_ifs at hstep with hdone
      obtain rfl := Option.some.inj hstep
      simp [Awake, hdone]
    · cases hstep

theorem excluded_and_awake {s : State} (h : (transport.restrict NotifyInTime).Reachable s) :
    Excluded s ∧ Awake s := by
  refine h.restrict_invariant (I := fun s => Excluded s ∧ Awake s)
    ⟨excluded_of_reachable .init, by simp [Awake, transport]⟩ ?_
  exact fun s a t hI ha hstep => ⟨hI.1.step hstep, hI.2.step hI.1 ha hstep⟩

/-- In every run in which the `notify_all` of `stop` never falls between the send
thread's false predicate and its sleep, `stop` never waits for a sleeping thread. -/
theorem stop_never_hangs {s : State} (h : (transport.restrict NotifyInTime).Reachable s) :
    ¬ Hung s := by
  rintro ⟨hstop, htx, -⟩
  exact ((excluded_and_awake h).2 (Or.inl hstop)).2 htx

/-- A buffer is sent, the thread goes to sleep, and `stop` wakes and joins it. -/
theorem stop_never_hangs_asleep :
    ∃ s, s.stop = .join ∧ s.written = [[0xAA]] ∧ ¬ Hung s := by
  have hrun : (((transport.restrict NotifyInTime).run transport.init
      [.sendData [0xAA], .sender, .sender, .sender, .tx, .tx, .tx, .tx, .tx, .tx, .tx, .tx, .tx,
        .tx, .tx, .stop, .stop, .stop]).map fun s => (s.stop, s.written)) =
      some (.join, [[0xAA]]) := by decide +kernel
  obtain ⟨s, hs, heq⟩ := Option.map_eq_some_iff.mp hrun
  obtain ⟨hstop, hwritten⟩ := Prod.mk.inj heq
  exact ⟨s, hstop, hwritten, stop_never_hangs (Machine.reachable_of_run hs)⟩

/-- The flag is cleared and the notify is sent while the send thread, having found
the predicate false, is not asleep yet: it then sleeps for ever. -/
theorem late_notify_hangs : ∃ s, transport.Reachable s ∧ Hung s := by
  have hrun : transport.run transport.init [.tx, .tx, .tx, .stop, .stop, .stop, .tx] =
      some { tx := .asleep, stop := .join, running := false, ssl := false } := by decide +kernel
  exact ⟨_, Machine.reachable_of_run hrun, rfl, rfl, rfl⟩

/-- The condition is exact: from any state in which the notify comes too early, the
next step of the send thread leaves `stop` hanging. -/
theorem hangs_of_early_notify {s : State} (h : transport.Reachable s) (hstop : s.stop = .notify)
    (htx : s.tx = .goingToSleep) : ∃ t, transport.run s [.stop, .tx] = some t ∧ Hung t := by
  have hidle : s.sender = .idle := (excluded_of_reachable h).quiet (by simp [hstop])
  refine ⟨{ s with tx := .asleep, stop := .join, txMutex := none }, ?_, rfl, rfl, hidle⟩
  simp [Machine.run, transport, State.step, State.stepStop, State.stepTx, State.notifyTx, hstop,
    htx]

/-- How many steps the send thread has left once the flag is down. -/
def remaining (s : State) : ℕ :=
  match s.tx with
  | .done => 0
  | .loopTest => 1
  | .drain => 4 * s.txQueue.length + 2
  | .predicate => 4 * s.txQueue.length + 3
  | .relock => 4 * s.txQueue.length + 4
  | .lock | .woken => 4 * s.txQueue.length + 4
  | .writing _ => 4 * s.txQueue.length + 5
  | .goingToSleep | .asleep => 0

/-- With the flag down and no `sendData` under way, a send thread that does not sleep
has a step, and every step brings it closer to its end. -/
theorem Excluded.stepTx_progress {s : State} (h : Excluded s) (hstop : s.stop ≠ .notCalled)
    (hsleep : s.tx ≠ .goingToSleep ∧ s.tx ≠ .asleep) (hdone : s.tx ≠ .done) :
    ∃ t, s.stepTx = some t ∧ remaining t < remaining s := by
  have hflag := h.flag hstop
  have hsender : s.txMutex ≠ some .sender := by
    rw [Ne, h.sender, h.quiet hstop]
    exact id
  have hfree : ¬ s.tx.Holds → s.txMutex = none := fun hout => by
    cases hm : s.txMutex with
    | none => rfl
    | some owner =>
      cases owner with
      | tx => exact absurd (h.tx.mp hm) hout
      | sender => exact absurd hm hsender
  unfold State.stepTx
  cases hpc : s.tx with
  | loopTest => exact ⟨_, rfl, by simp [remaining, hpc, hflag]⟩
  | predicate => exact ⟨_, rfl, by simp [remaining, hpc, hflag]⟩
  | writing data => exact ⟨_, rfl, by simp [remaining, hpc]⟩
  | drain =>
    cases hq : s.txQueue with
    | nil => exact ⟨_, rfl, by simp [remaining, hpc]⟩
    | cons data rest => exact ⟨_, rfl, by simp [remaining, hpc, hq]; omega⟩
  | lock | woken | relock =>
    rw [hpc] at hfree
    exact ⟨_, by rw [State.acquire, if_pos (hfree id)]; rfl, by simp [remaining, hpc]⟩
  | goingToSleep => exact absurd hpc hsleep.1
  | asleep => exact absurd hpc hsleep.2
  | done => exact absurd hpc hdone

/-- In such runs `stop` not only does not hang: the send thread's own steps lead to its
end, where the join returns. -/
theorem join_returns {s : State} (h : (transport.restrict NotifyInTime).Reachable s)
    (hstop : s.stop = .join) :
    ∃ k t, transport.run s (List.replicate k .tx ++ [.stop]) = some t ∧ t.stop = .returned := by
  induction hn : remaining s using Nat.strong_induction_on generalizing s with
  | h n ih =>
    by_cases hdone : s.tx = .done
    · refine ⟨0, { s with stop := .returned }, ?_, rfl⟩
      simp [Machine.run, transport, State.step, State.stepStop, hstop, hdone]
    · have hinv := excluded_and_awake h
      obtain ⟨t, hstep, hlt⟩ := hinv.1.stepTx_progress (by simp [hstop])
        (hinv.2 (Or.inl hstop)) hdone
      have htx : transport.step s .tx = some t := hstep
      have ht : (transport.restrict NotifyInTime).Reachable t :=
        h.step (Machine.restrict_step.mpr ⟨by simp [NotifyInTime], htx⟩)
      obtain ⟨k, u, hrun, hu⟩ := ih (remaining t) (hn ▸ hlt) ht
        ((stepTx_stop hstep).trans hstop) rfl
      refine ⟨k + 1, u, ?_, hu⟩
      rw [List.replicate_succ, List.cons_append, Machine.run_cons]
      exact (congrArg (Option.bind · _) htx).trans hrun

end SomeIpGateway.TlsTransport
