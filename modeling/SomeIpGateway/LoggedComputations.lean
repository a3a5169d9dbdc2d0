import Mathlib.Tactic

/-!
# Computations that keep a log

A value together with the entries logged on the way to it, such as the indices of the
cells of a memory that were read. A property of the whole log splits along the steps of
the computation.
-/
namespace SomeIpGateway.LoggedComputations

structure Logged (ε α : Type*) where
  value : α
  log : List ε
  deriving Repr, DecidableEq

namespace Logged

instance {ε : Type*} : Monad (Logged ε) where
  pure a := ⟨a, []⟩
  bind m f := ⟨(f m.value).value, m.log ++ (f m.value).log⟩

/-- Every entry of the log has the property. -/
def All {ε α : Type*} (P : ε → Prop) (m : Logged ε α) : Prop := ∀ e ∈ m.log, P e

section Laws
variable {ε : Type*} {α β : Type} {P : ε → Prop}

@[simp] theorem value_pure (a : α) : (pure a : Logged ε α).value = a := rfl

@[simp] theorem value_bind (m : Logged ε α) (f : α → Logged ε β) :
    (m >>= f).value = (f m.value).value := rfl

@[simp] theorem log_pure (a : α) : (pure a : Logged ε α).log = [] := rfl

@[simp] theorem log_bind (m : Logged ε α) (f : α → Logged ε β) :
    (m >>= f).log = m.log ++ (f m.value).log := rfl

@[simp] theorem value_ite (c : Prop) [Decidable c] (m k : Logged ε α) :
    (if c then m else k).value = if c then m.value else k.value := apply_ite value c m k

@[simp] theorem all_pure (a : α) : All P (pure a : Logged ε α) := by simp [All, pure]

@[simp] theorem all_bind (m : Logged ε α) (f : α → Logged ε β) :
    All P (m >>= f) ↔ All P m ∧ All P (f m.value) := by
  simp only [All, bind, List.mem_append, or_imp, forall_and]

@[simp] theorem all_ite (c : Prop) [Decidable c] (m k : Logged ε α) :
    All P (if c then m else k) ↔ if c then All P m else All P k := by
  split_ifs <;> rfl

end Laws

/-! ### Reading a memory -/

section Reading
variable {γ : Type*} (mem : List γ) (i : ℕ)

/-- Read one cell; beyond the memory there is the given value. -/
def cell (c : γ) : Logged ℕ γ := ⟨mem.getD i c, [i]⟩

/-- Read consecutive cells. -/
def cells (k : ℕ) : Logged ℕ (List γ) := ⟨(mem.drop i).take k, List.range' i k⟩

-- not by `rfl`, so that a rewrite of a branch's condition also rewrites its instance
@[simp] theorem value_cell (c : γ) : (cell mem i c).value = mem.getD i c := by rw [cell]

@[simp] theorem value_cells (k : ℕ) : (cells mem i k).value = (mem.drop i).take k := by rw [cells]

/-- Every index read is below `n`. -/
abbrev Below {α : Type*} (n : ℕ) (m : Logged ℕ α) : Prop := m.All (· < n)

@[simp] theorem below_cell {n : ℕ} (c : γ) : Below n (cell mem i c) ↔ i < n := by
  simp [Below, All, cell]

@[simp] theorem below_cells {n : ℕ} (k : ℕ) : Below n (cells mem i k) ↔ k = 0 ∨ i + k ≤ n := by
  simp only [Below, All, cells, List.mem_range'_1]
  constructor
  · intro h
    by_cases hk : k = 0
    · exact Or.inl hk
    · have hlast := h (i + k - 1) (by omega)
      omega
  · intro h j hj
    omega

end Reading
end Logged
end SomeIpGateway.LoggedComputations
