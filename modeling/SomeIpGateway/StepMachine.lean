import Mathlib.Tactic

/-!
# Machines that take labelled steps

A machine is an initial state and a guarded step function: a step gives no state
where its action is not enabled. Restricting a machine to the steps that meet a
condition gives a machine again, so that a result under a condition is a result
about the runs of the restricted machine.
-/
namespace SomeIpGateway.StepMachine

/-- An initial state and a guarded step function. -/
structure Machine (σ α : Type*) where
  init : σ
  step : σ → α → Option σ

namespace Machine
variable {σ α : Type*} (M : Machine σ α)

/-- Take the given actions one after another. -/
def run (s : σ) (actions : List α) : Option σ := actions.foldlM M.step s

/-- The states that enabled actions lead to. -/
inductive Reachable : σ → Prop where
  | init : Reachable M.init
  | step {s t : σ} {a : α} : Reachable s → M.step s a = some t → Reachable t

/-- The machine that takes only the steps that meet a condition. -/
def restrict (allowed : σ → α → Prop) [∀ s a, Decidable (allowed s a)] : Machine σ α where
  init := M.init
  step s a := if allowed s a then M.step s a else none

variable {M}

@[simp] theorem run_nil (s : σ) : M.run s [] = some s := rfl

theorem run_cons (s : σ) (a : α) (actions : List α) :
    M.run s (a :: actions) = (M.step s a).bind (fun t => M.run t actions) := rfl

@[simp] theorem run_singleton (s : σ) (a : α) : M.run s [a] = M.step s a := by
  simp [run]

theorem run_append (s : σ) (first second : List α) :
    M.run s (first ++ second) = (M.run s first).bind (fun t => M.run t second) :=
  List.foldlM_append

theorem restrict_step {allowed : σ → α → Prop} [∀ s a, Decidable (allowed s a)] {s t : σ} {a : α} :
    (M.restrict allowed).step s a = some t ↔ allowed s a ∧ M.step s a = some t := by
  by_cases h : allowed s a <;> simp [restrict, h]

/-- What holds at first and is preserved by every step holds in every reachable state. -/
theorem Reachable.invariant {I : σ → Prop} {s : σ} (h : M.Reachable s) (init : I M.init)
    (step : ∀ s a t, I s → M.step s a = some t → I t) : I s := by
  induction h with
  | init => exact init
  | step _ hst ih => exact step _ _ _ ih hst

/-- What every step preserves, a run preserves. -/
theorem run_preserves {I : σ → Prop} (step : ∀ s a t, I s → M.step s a = some t → I t) {s t : σ}
    {actions : List α} (hs : I s) (hrun : M.run s actions = some t) : I t := by
  induction actions generalizing s with
  | nil =>
    rw [run_nil] at hrun
    exact Option.some.inj hrun ▸ hs
  | cons a actions ih =>
    rw [run_cons] at hrun
    obtain ⟨u, hu, hrest⟩ := Option.bind_eq_some_iff.mp hrun
    exact ih (step s a u hs hu) hrest

/-- A run from the initial state ends in a reachable state. -/
theorem reachable_of_run {t : σ} {actions : List α} (h : M.run M.init actions = some t) :
    M.Reachable t := run_preserves (fun _ _ _ hs hst => hs.step hst) Reachable.init h

/-- What each step of a machine leaves alone or makes by a step of a second machine, all its
runs make by runs of the second. -/
theorem Reachable.simulate {τ β : Type*} {N : Machine τ β} {s : σ} (h : M.Reachable s)
    (view : σ → τ) (init : view M.init = N.init)
    (step : ∀ s a t, M.step s a = some t →
      view t = view s ∨ ∃ b, N.step (view s) b = some (view t)) : N.Reachable (view s) := by
  induction h with
  | init => exact init ▸ .init
  | step _ hst ih =>
    rcases step _ _ _ hst with hsame | ⟨b, hb⟩
    · exact hsame ▸ ih
    · exact ih.step hb

/-- Where some actions have labels and the steps of a second machine repeat them, a run of the
first has a run of the second with the same labels in the same order. -/
theorem exists_run_of_labels {τ β γ : Type*} {N : Machine τ β} (view : σ → τ)
    {label : α → Option γ} {label' : β → Option γ}
    (step : ∀ s a t, M.Reachable s → M.step s a = some t →
      label a = none ∧ view t = view s ∨
        ∃ b, label' b = label a ∧ N.step (view s) b = some (view t))
    {s t : σ} {actions : List α} (hs : M.Reachable s) (hrun : M.run s actions = some t) :
    ∃ bs, N.run (view s) bs = some (view t) ∧ bs.filterMap label' = actions.filterMap label := by
  induction actions generalizing s with
  | nil =>
    obtain rfl := Option.some.inj hrun
    exact ⟨[], rfl, rfl⟩
  | cons a actions ih =>
    rw [run_cons] at hrun
    obtain ⟨u, hu, hrest⟩ := Option.bind_eq_some_iff.mp hrun
    obtain ⟨bs, hbs, hlabels⟩ := ih (hs.step hu) hrest
    rcases step s a u hs hu with ⟨hnone, hsame⟩ | ⟨b, hlabel, hb⟩
    · refine ⟨bs, hsame ▸ hbs, ?_⟩
      rw [List.filterMap_cons_none hnone, hlabels]
    · refine ⟨b :: bs, ?_, ?_⟩
      · rw [run_cons, hb]
        exact hbs
      · rw [List.filterMap_cons, List.filterMap_cons, hlabel, hlabels]

/-- A run that ends in a state with a property shows that one is reachable. -/
theorem exists_reachable (p : σ → Prop) [DecidablePred p] (actions : List α)
    (h : (M.run M.init actions).any (p ·)) : ∃ s, M.Reachable s ∧ p s := by
  obtain ⟨s, hs, hp⟩ := (Option.any_eq_true _ _).mp h
  exact ⟨s, reachable_of_run hs, of_decide_eq_true hp⟩

/-- Actions that bring a measure down can be taken only so often. -/
theorem length_le_of_run {μ : σ → ℕ} {allowed : α → Prop}
    (down : ∀ s a t, allowed a → M.step s a = some t → μ t < μ s) {s t : σ} {actions : List α}
    (hall : ∀ a ∈ actions, allowed a) (hrun : M.run s actions = some t) :
    actions.length ≤ μ s := by
  induction actions generalizing s with
  | nil => exact Nat.zero_le _
  | cons a actions ih =>
    rw [run_cons] at hrun
    obtain ⟨u, hu, hrest⟩ := Option.bind_eq_some_iff.mp hrun
    have hlt := down s a u (hall a (by simp)) hu
    have hle := ih (fun b hb => hall b (by simp [hb])) hrest
    rw [List.length_cons]
    omega

/-- The states of a restricted machine are states of the machine. -/
theorem Reachable.of_restrict {allowed : σ → α → Prop} [∀ s a, Decidable (allowed s a)] {s : σ}
    (h : (M.restrict allowed).Reachable s) : M.Reachable s := by
  induction h with
  | init => exact .init
  | step _ hst ih => exact ih.step (restrict_step.mp hst).2

/-- An invariant of a machine under a condition on its steps. -/
theorem Reachable.restrict_invariant {allowed : σ → α → Prop} [∀ s a, Decidable (allowed s a)]
    {I : σ → Prop} {s : σ} (h : (M.restrict allowed).Reachable s) (init : I M.init)
    (step : ∀ s a t, I s → allowed s a → M.step s a = some t → I t) : I s :=
  h.invariant init (fun s a t hI hst =>
    step s a t hI (restrict_step.mp hst).1 (restrict_step.mp hst).2)

end Machine
end SomeIpGateway.StepMachine
