import Mathlib.Tactic

/-!
# The MCU's tasks

The tasks that `rtos_taskinit` creates, with their priorities, and the rule of
preemptive fixed-priority scheduling: a task runs only while no task of higher
priority is ready. Between ready tasks of equal priority the choice is open.
-/
namespace SomeIpGateway.McuTasks

inductive Task where
  /-- `f_sendPeriodAdvertiseTask` -/
  | advertise
  /-- `f_handleCommandTask` -/
  | command
  /-- `f_sendDataTask` -/
  | sendData
  /-- `f_RPCTask` -/
  | rpc
  deriving Repr, DecidableEq

def bkelTaskPriNormal0 : ℕ := 5 + 0
def bkelTaskPriRealtime1 : ℕ := 10 + 1
def bkelTaskPriRealtime2 : ℕ := 10 + 2

/-- The priorities given in `rtos_taskinit`. -/
def Task.priority : Task → ℕ
  | .advertise => bkelTaskPriNormal0
  | .command => bkelTaskPriRealtime1
  | .sendData => bkelTaskPriRealtime2
  | .rpc => bkelTaskPriRealtime2

theorem Task.forall_iff {P : Task → Prop} :
    (∀ t, P t) ↔ P .advertise ∧ P .command ∧ P .sendData ∧ P .rpc :=
  ⟨fun h => ⟨h _, h _, h _, h _⟩, fun ⟨h1, h2, h3, h4⟩ t => by cases t <;> assumption⟩

instance {P : Task → Prop} [DecidablePred P] : Decidable (∀ t, P t) :=
  decidable_of_iff _ Task.forall_iff.symm

/-- The scheduler may let a task take a step. -/
def MayRun (ready : Task → Bool) (t : Task) : Prop :=
  ready t ∧ ∀ t', ready t' → t'.priority ≤ t.priority

instance (ready : Task → Bool) (t : Task) : Decidable (MayRun ready t) :=
  inferInstanceAs (Decidable (_ ∧ _))

/-- Nothing of higher priority is ready while a task runs. -/
theorem MayRun.not_ready {ready : Task → Bool} {t t' : Task} (h : MayRun ready t)
    (hlt : t.priority < t'.priority) : ready t' = false := by
  by_contra hready
  exact absurd (h.2 t' (by simpa using hready)) (not_le.mpr hlt)

/-- The command task runs only while both tasks that it wakes wait. -/
theorem MayRun.command_alone {ready : Task → Bool} (h : MayRun ready .command) :
    ready .sendData = false ∧ ready .rpc = false :=
  ⟨h.not_ready (by decide), h.not_ready (by decide)⟩

/-- The advertise task runs only while all others wait. -/
theorem MayRun.advertise_alone {ready : Task → Bool} (h : MayRun ready .advertise) :
    ready .command = false ∧ ready .sendData = false ∧ ready .rpc = false :=
  ⟨h.not_ready (by decide), h.not_ready (by decide), h.not_ready (by decide)⟩

end SomeIpGateway.McuTasks
