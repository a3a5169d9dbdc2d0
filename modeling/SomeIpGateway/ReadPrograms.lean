import Mathlib.Tactic

/-!
# Programs that read cells and act

A program reads cells of a memory one at a time and acts on the world; what it does
next may depend on what it has read. Its trace on a memory is all it reads and does.
A program that reads below an index has the same trace on two memories that agree there.
-/
namespace SomeIpGateway.ReadPrograms

inductive Program (β ε : Type*) where
  | halt
  | read (i : ℕ) (next : β → Program β ε)
  | act (e : ε) (next : Program β ε)

inductive Event (β ε : Type*) where
  | read (i : ℕ) (b : β)
  | act (e : ε)
  deriving Repr, DecidableEq

namespace Program
variable {β ε : Type*}

/-- Do the given actions one after another, then go on. -/
def acts (actions : List ε) (next : Program β ε) : Program β ε := actions.foldr act next

/-- All that a program reads and does. -/
def trace (mem : ℕ → β) : Program β ε → List (Event β ε)
  | halt => []
  | read i next => .read i (mem i) :: (next (mem i)).trace mem
  | act e next => .act e :: next.trace mem

/-- The next event, and the program that is left. -/
def step? (mem : ℕ → β) : Program β ε → Option (Event β ε × Program β ε)
  | halt => none
  | read i next => some (.read i (mem i), next (mem i))
  | act e next => some (.act e, next)

/-- The program reads only cells below `n`, whatever it reads there. -/
def ReadsBelow (n : ℕ) : Program β ε → Prop
  | halt => True
  | read i next => i < n ∧ ∀ b, (next b).ReadsBelow n
  | act _ next => next.ReadsBelow n

variable {mem : ℕ → β} {p q : Program β ε}

theorem trace_of_step {e : Event β ε} (h : p.step? mem = some (e, q)) :
    p.trace mem = e :: q.trace mem := by
  cases p with
  | halt => simp [step?] at h
  | read i next =>
    obtain ⟨rfl, rfl⟩ := by simpa [step?] using h
    rfl
  | act a next =>
    obtain ⟨rfl, rfl⟩ := by simpa [step?] using h
    rfl

theorem trace_of_halted (h : p.step? mem = none) : p.trace mem = [] := by
  cases p <;> simp_all [step?, trace]

theorem trace_congr {n : ℕ} (h : p.ReadsBelow n) {mem' : ℕ → β}
    (hmem : ∀ i < n, mem i = mem' i) : p.trace mem = p.trace mem' := by
  induction p with
  | halt => rfl
  | read i next ih => simp only [trace, ← hmem i h.1, ih (mem i) (h.2 _)]
  | act e next ih => simp only [trace, ih h]

/-- What stands in the trace as read is what the cell holds. -/
theorem ReadsBelow.of_mem_trace {n : ℕ} (h : p.ReadsBelow n) {i : ℕ} {b : β}
    (hmem : .read i b ∈ p.trace mem) : i < n ∧ b = mem i := by
  induction p with
  | halt => simp [trace] at hmem
  | read j next ih =>
    rcases List.mem_cons.mp hmem with heq | hrest
    · obtain ⟨rfl, rfl⟩ := Event.read.inj heq
      exact ⟨h.1, rfl⟩
    · exact ih _ (h.2 _) hrest
  | act e next ih =>
    rcases List.mem_cons.mp hmem with heq | hrest
    · cases heq
    · exact ih h hrest

@[simp] theorem readsBelow_acts {n : ℕ} (actions : List ε) :
    (acts actions p).ReadsBelow n ↔ p.ReadsBelow n := by
  induction actions with
  | nil => rfl
  | cons e actions ih => exact ih

theorem length_trace_acts (actions : List ε) :
    ((acts actions p).trace mem).length = actions.length + (p.trace mem).length := by
  induction actions with
  | nil => simp [acts]
  | cons e actions ih =>
    simp only [acts, List.foldr_cons, trace, List.length_cons] at ih ⊢
    omega

end Program
end SomeIpGateway.ReadPrograms
