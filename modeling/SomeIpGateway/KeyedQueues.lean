import Mathlib.Tactic

/-!
# Queues that come and go under keys

Each key has a queue or has none. What was put into a queue and taken from it since its
key was added is its life, kept from the events alone and without looking at the queue.
What was taken, followed by the queue, is at any time what was put.
-/
namespace SomeIpGateway.KeyedQueues

/-- The queues by key. -/
abbrev Queues (κ α : Type*) := κ → Option (List α)

inductive Event (κ α : Type*) where
  | add (k : κ)
  | remove (k : κ)
  | put (k : κ) (x : α)
  | take (k : κ) (x : α)
  deriving Repr, DecidableEq

/-- The key whose queue an event is about. -/
def Event.key {κ α : Type*} : Event κ α → κ
  | .add k | .remove k | .put k _ | .take k _ => k

/-- What has been put into a queue and taken from it. -/
structure Life (α : Type*) where
  put : List α := []
  taken : List α := []
  deriving Repr, DecidableEq

section Lives
variable {κ α : Type*} [DecidableEq κ]

/-- The life of a key after a further event: adding a key that is there changes nothing. -/
def Life.next (k : κ) (life : Option (Life α)) : Event κ α → Option (Life α)
  | .add j => if j = k then some (life.getD {}) else life
  | .remove j => if j = k then none else life
  | .put j x => if j = k then life.map fun l => { l with put := l.put ++ [x] } else life
  | .take j x => if j = k then life.map fun l => { l with taken := l.taken ++ [x] } else life

/-- Events about other keys leave a life as it is. -/
theorem Life.next_of_ne {k : κ} {e : Event κ α} (hk : k ≠ e.key) (life : Option (Life α)) :
    Life.next k life e = life := by
  cases e <;> exact if_neg hk.symm

/-- The current life of a key, from the history of events. -/
def lifeOf (k : κ) (history : List (Event κ α)) : Option (Life α) :=
  history.foldl (Life.next k) none

theorem lifeOf_concat (k : κ) (history : List (Event κ α)) (e : Event κ α) :
    lifeOf k (history ++ [e]) = Life.next k (lifeOf k history) e := by
  rw [lifeOf, List.foldl_concat, lifeOf]

/-- What an event may do to the queues. A take is from the front of a queue. -/
def Follows (q q' : Queues κ α) : Event κ α → Prop
  | .add k => q' = Function.update q k (some ((q k).getD []))
  | .remove k => q' = Function.update q k none
  | .put k x => q' = Function.update q k ((q k).map (· ++ [x]))
  | .take k x => ∃ rest, q k = some (x :: rest) ∧ q' = Function.update q k (some rest)

/-- A life and a queue that belong together. -/
def Matches : Option (Life α) → Option (List α) → Prop
  | none, none => True
  | some life, some queue => life.taken ++ queue = life.put
  | _, _ => False

/-- The history accounts for every queue. -/
def Accounts (history : List (Event κ α)) (q : Queues κ α) : Prop :=
  ∀ k, Matches (lifeOf k history) (q k)

theorem accounts_nil : Accounts ([] : List (Event κ α)) (fun _ => none) := fun _ => trivial

/-- The queues of the other keys stay as they are. -/
theorem Follows.other {q q' : Queues κ α} {e : Event κ α} (h : Follows q q' e) {k : κ}
    (hk : k ≠ e.key) : q' k = q k := by
  cases e with
  | add j | remove j | put j x =>
    obtain rfl := h
    exact Function.update_of_ne hk _ q
  | take j x =>
    obtain ⟨rest, -, rfl⟩ := h
    exact Function.update_of_ne hk _ q

/-- What holds of everything that is put holds of everything that waits. -/
theorem Follows.forall_mem {P : α → Prop} {q q' : Queues κ α} {e : Event κ α}
    (h : Follows q q' e) (hq : ∀ k xs, q k = some xs → ∀ x ∈ xs, P x)
    (hput : ∀ k x, e = .put k x → P x) : ∀ k xs, q' k = some xs → ∀ x ∈ xs, P x := by
  intro k xs hk x hx
  by_cases hkey : k = e.key
  · subst hkey
    cases e with
    | add j =>
      obtain rfl := h
      simp only [Event.key, Function.update_self, Option.some.injEq] at hk
      subst hk
      cases hj : q j with
      | none => simp [hj] at hx
      | some ys => exact hq j ys hj x (by simpa [hj] using hx)
    | remove j =>
      obtain rfl := h
      simp [Event.key] at hk
    | put j y =>
      obtain rfl := h
      simp only [Event.key, Function.update_self, Option.map_eq_some_iff] at hk
      obtain ⟨ys, hj, rfl⟩ := hk
      rcases List.mem_append.mp hx with hold | hnew
      · exact hq j ys hj x hold
      · obtain rfl := List.mem_singleton.mp hnew
        exact hput j x rfl
    | take j y =>
      obtain ⟨rest, hj, rfl⟩ := h
      simp only [Event.key, Function.update_self, Option.some.injEq] at hk
      subst hk
      exact hq j _ hj x (List.mem_cons_of_mem y hx)
  · rw [h.other hkey] at hk
    exact hq k xs hk x hx

/-- One event. -/
theorem Accounts.follow {history : List (Event κ α)} {q q' : Queues κ α} {e : Event κ α}
    (h : Accounts history q) (hnext : Follows q q' e) : Accounts (history ++ [e]) q' := by
  intro k
  have hk := h k
  rw [lifeOf_concat]
  by_cases hkey : k = e.key
  · subst hkey
    cases e with
    | add j =>
      obtain rfl := hnext
      simp only [Event.key, Life.next, Function.update_self, if_true] at hk ⊢
      cases hlife : lifeOf j history <;> cases hq : q j <;> simp_all [Matches]
    | remove j =>
      obtain rfl := hnext
      simp only [Event.key, Life.next, Function.update_self, if_true]
      trivial
    | put j x =>
      obtain rfl := hnext
      simp only [Event.key, Life.next, Function.update_self, if_true] at hk ⊢
      cases hlife : lifeOf j history <;> cases hq : q j <;> simp_all [Matches]
      rw [← hk, List.append_assoc]
    | take j x =>
      obtain ⟨rest, hfront, rfl⟩ := hnext
      simp only [Event.key, Life.next, Function.update_self, if_true] at hk ⊢
      cases hlife : lifeOf j history <;> simp_all [Matches]
  · rwa [hnext.other hkey, Life.next_of_ne hkey]

/-! ### What was put and taken in the current life -/

def putOf (k : κ) (history : List (Event κ α)) : List α := (lifeOf k history).elim [] Life.put

def takenOf (k : κ) (history : List (Event κ α)) : List α := (lifeOf k history).elim [] Life.taken

section Concat
variable (k : κ) (history : List (Event κ α)) (j : κ) (x : α)

@[simp] theorem putOf_add : putOf k (history ++ [.add j]) = putOf k history := by
  rw [putOf, lifeOf_concat, Life.next]
  split_ifs
  · cases hlife : lifeOf k history <;> simp [putOf, hlife]
  · rfl

@[simp] theorem takenOf_add : takenOf k (history ++ [.add j]) = takenOf k history := by
  rw [takenOf, lifeOf_concat, Life.next]
  split_ifs
  · cases hlife : lifeOf k history <;> simp [takenOf, hlife]
  · rfl

@[simp] theorem takenOf_put : takenOf k (history ++ [.put j x]) = takenOf k history := by
  rw [takenOf, lifeOf_concat, Life.next]
  split_ifs
  · cases hlife : lifeOf k history <;> simp [takenOf, hlife]
  · rfl

@[simp] theorem putOf_take : putOf k (history ++ [.take j x]) = putOf k history := by
  rw [putOf, lifeOf_concat, Life.next]
  split_ifs
  · cases hlife : lifeOf k history <;> simp [putOf, hlife]
  · rfl

variable {k j}

theorem takenOf_remove_self : takenOf k (history ++ [.remove k]) = [] := by
  rw [takenOf, lifeOf_concat, Life.next, if_pos rfl]
  rfl

/-- Events about other keys leave what was put and taken as it is. -/
theorem putOf_of_ne {e : Event κ α} (hk : k ≠ e.key) :
    putOf k (history ++ [e]) = putOf k history := by
  rw [putOf, lifeOf_concat, Life.next_of_ne hk, putOf]

theorem takenOf_of_ne {e : Event κ α} (hk : k ≠ e.key) :
    takenOf k (history ++ [e]) = takenOf k history := by
  rw [takenOf, lifeOf_concat, Life.next_of_ne hk, takenOf]

end Concat

namespace Accounts
variable {history : List (Event κ α)} {q : Queues κ α} {k : κ} {queue : List α}

theorem exists_life (h : Accounts history q) (hk : q k = some queue) :
    ∃ life, lifeOf k history = some life ∧ life.taken ++ queue = life.put := by
  have hmatch := h k
  rw [hk] at hmatch
  cases hlife : lifeOf k history with
  | none =>
    rw [hlife] at hmatch
    exact hmatch.elim
  | some life =>
    rw [hlife] at hmatch
    exact ⟨life, rfl, hmatch⟩

theorem life_eq_none (h : Accounts history q) (hk : q k = none) : lifeOf k history = none := by
  have hmatch := h k
  rw [hk] at hmatch
  cases hlife : lifeOf k history with
  | none => rfl
  | some life =>
    rw [hlife] at hmatch
    exact hmatch.elim

/-- What was taken, followed by the queue, is what was put. -/
theorem takenOf_append (h : Accounts history q) (hk : q k = some queue) :
    takenOf k history ++ queue = putOf k history := by
  obtain ⟨life, hlife, heq⟩ := h.exists_life hk
  rw [takenOf, putOf, hlife]
  exact heq

theorem putOf_put (h : Accounts history q) (hk : (q k).isSome) (x : α) :
    putOf k (history ++ [.put k x]) = putOf k history ++ [x] := by
  obtain ⟨queue, hqueue⟩ := Option.isSome_iff_exists.mp hk
  obtain ⟨life, hlife, -⟩ := h.exists_life hqueue
  rw [putOf, putOf, lifeOf_concat, Life.next, if_pos rfl, hlife]
  rfl

theorem takenOf_take (h : Accounts history q) (hk : (q k).isSome) (x : α) :
    takenOf k (history ++ [.take k x]) = takenOf k history ++ [x] := by
  obtain ⟨queue, hqueue⟩ := Option.isSome_iff_exists.mp hk
  obtain ⟨life, hlife, -⟩ := h.exists_life hqueue
  rw [takenOf, takenOf, lifeOf_concat, Life.next, if_pos rfl, hlife]
  rfl

end Accounts
end Lives
end SomeIpGateway.KeyedQueues
