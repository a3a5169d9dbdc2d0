import Mathlib.Tactic

/-!
# Resources and their owners

Open resources are named by values that may be used again once they are closed. They are
owned exactly if every open resource has an owner, every owner's resource is open, and no
two owners share one. Opening, handing over and closing keep this.
-/
namespace SomeIpGateway.ResourceOwnership

/-- Every open resource has one owner, and what is owned is open. -/
structure Owned {κ ρ : Type*} (live : Finset ρ) (owns : κ → Option ρ) : Prop where
  exact_owned : ∀ r, r ∈ live ↔ ∃ k, owns k = some r
  unshared : ∀ {k k' r}, owns k = some r → owns k' = some r → k = k'

namespace Owned
variable {κ ρ : Type*} {live : Finset ρ} {owns : κ → Option ρ}

theorem empty : Owned (∅ : Finset ρ) (fun _ : κ => none) where
  exact_owned := by simp
  unshared := by simp

theorem mem {k : κ} {r : ρ} (h : Owned live owns) (hk : owns k = some r) : r ∈ live :=
  (h.exact_owned r).mpr ⟨k, hk⟩

variable [DecidableEq κ]

/-- An owner that stays as it is. -/
theorem keep (h : Owned live owns) {k : κ} {o : Option ρ} (hk : owns k = o) :
    Owned live (Function.update owns k o) := by
  rw [← hk, Function.update_eq_self]
  exact h

variable [DecidableEq ρ]

/-- A resource that was not open is opened by an owner that had none. -/
theorem acquire (h : Owned live owns) {k : κ} (hk : owns k = none) {r : ρ} (hr : r ∉ live) :
    Owned (insert r live) (Function.update owns k (some r)) where
  exact_owned := by
    intro x
    rw [Finset.mem_insert, h.exact_owned]
    constructor
    · rintro (rfl | ⟨j, hj⟩)
      · exact ⟨k, Function.update_self ..⟩
      · have hne : j ≠ k := by
          rintro rfl
          simp [hk] at hj
        exact ⟨j, by rwa [Function.update_of_ne hne]⟩
    · rintro ⟨j, hj⟩
      by_cases hjk : j = k
      · rw [hjk, Function.update_self] at hj
        exact Or.inl (Option.some.inj hj).symm
      · rw [Function.update_of_ne hjk] at hj
        exact Or.inr ⟨j, hj⟩
  unshared := by
    intro i j x hi hj
    by_cases hik : i = k <;> by_cases hjk : j = k
    · rw [hik, hjk]
    · rw [hik, Function.update_self] at hi
      rw [Function.update_of_ne hjk, ← hi] at hj
      exact absurd (h.mem hj) hr
    · rw [hjk, Function.update_self] at hj
      rw [Function.update_of_ne hik, ← hj] at hi
      exact absurd (h.mem hi) hr
    · rw [Function.update_of_ne hik] at hi
      rw [Function.update_of_ne hjk] at hj
      exact h.unshared hi hj

/-- An owner closes its resource. -/
theorem release (h : Owned live owns) {k : κ} {r : ρ} (hk : owns k = some r) :
    Owned (live.erase r) (Function.update owns k none) where
  exact_owned := by
    intro x
    rw [Finset.mem_erase, h.exact_owned]
    constructor
    · rintro ⟨hne, j, hj⟩
      refine ⟨j, ?_⟩
      rw [Function.update_of_ne]
      · exact hj
      · rintro rfl
        exact hne (Option.some.inj (hj.symm.trans hk))
    · rintro ⟨j, hj⟩
      have hjk : j ≠ k := by
        rintro rfl
        simp at hj
      rw [Function.update_of_ne hjk] at hj
      refine ⟨?_, j, hj⟩
      rintro rfl
      exact hjk (h.unshared hj hk)
  unshared := by
    intro i j x hi hj
    have hne {l : κ} (hl : Function.update owns k none l = some x) : owns l = some x := by
      by_cases hlk : l = k
      · simp [hlk] at hl
      · rwa [Function.update_of_ne hlk] at hl
    exact h.unshared (hne hi) (hne hj)

/-- An owner hands its resource over to one that had none. -/
theorem transfer (h : Owned live owns) {k k' : κ} {r : ρ} (hk : owns k = some r)
    (hk' : owns k' = none) :
    Owned live (Function.update (Function.update owns k none) k' (some r)) := by
  have hr := h.mem hk
  have hreleased := h.release hk
  have hne : k' ≠ k := by
    rintro rfl
    simp [hk] at hk'
  have hacquired := hreleased.acquire (k := k') (by rwa [Function.update_of_ne hne])
    (Finset.notMem_erase r live)
  rwa [Finset.insert_erase hr] at hacquired

end Owned
end SomeIpGateway.ResourceOwnership
