import Mathlib.Tactic

/-!
# Incremental scanning of a stream of symbols

A scanner looks at the unread symbols and either waits for more, skips one
symbol, or takes an item off the front. Its decisions are final: appending later
input never changes a decision that was not to wait. Draining a buffer repeats
the decision until it is to wait, and every erased symbol is kept in the log of
pieces. All results below follow from finality alone, for any alphabet and any
kind of item.
-/
namespace SomeIpGateway.StreamScanning

/-- What a scanner decides about the unread symbols. -/
inductive Verdict (β : Type*) where
  | wait
  | skip
  | take (length : ℕ) (item : β)
  deriving Repr, DecidableEq

/-- A look-ahead function together with the facts that make draining it
terminate and make its decisions independent of later input. -/
structure Scanner (α β : Type*) where
  look : List α → Verdict β
  look_nil : look [] = .wait
  take_pos : ∀ {buf n x}, look buf = .take n x → 0 < n
  take_le : ∀ {buf n x}, look buf = .take n x → n ≤ buf.length
  final : ∀ {buf} (more : List α), look buf ≠ .wait → look (buf ++ more) = look buf

/-- One erased part of the input: a skipped symbol, or an item with its symbols. -/
structure Piece (α β : Type*) where
  symbols : List α
  item : Option β
  deriving Repr, DecidableEq

/-- The items of a log, in order. -/
def items {α β : Type*} (log : List (Piece α β)) : List β := log.filterMap Piece.item

/-- The erased symbols of a log, in order. -/
def erased {α β : Type*} (log : List (Piece α β)) : List α := log.flatMap Piece.symbols

section Logs
variable {α β : Type*}

@[simp] theorem items_nil : items ([] : List (Piece α β)) = [] := rfl

@[simp] theorem items_append (p q : List (Piece α β)) : items (p ++ q) = items p ++ items q := by
  simp [items]

@[simp] theorem items_cons_none (s : List α) (p : List (Piece α β)) :
    items (⟨s, none⟩ :: p) = items p := by simp [items]

@[simp] theorem items_cons_some (s : List α) (x : β) (p : List (Piece α β)) :
    items (⟨s, some x⟩ :: p) = x :: items p := by simp [items]

@[simp] theorem items_map_some {γ : Type*} (f : γ → List α) (g : γ → β) (xs : List γ) :
    items (xs.map (fun x => (⟨f x, some (g x)⟩ : Piece α β))) = xs.map g := by
  induction xs with
  | nil => rfl
  | cons x xs ih => simp [ih]

@[simp] theorem erased_nil : erased ([] : List (Piece α β)) = [] := rfl

@[simp] theorem erased_cons (a : Piece α β) (p : List (Piece α β)) :
    erased (a :: p) = a.symbols ++ erased p := by simp [erased]

@[simp] theorem erased_append (p q : List (Piece α β)) :
    erased (p ++ q) = erased p ++ erased q := by simp [erased]

end Logs

namespace Scanner
variable {α β : Type*} (S : Scanner α β)

theorem ne_nil_of_skip {buf : List α} (h : S.look buf = .skip) : buf ≠ [] := by
  rintro rfl
  rw [S.look_nil] at h
  cases h

theorem length_drop_of_skip {buf : List α} (h : S.look buf = .skip) :
    (buf.drop 1).length < buf.length := by
  have hpos := List.length_pos_of_ne_nil (S.ne_nil_of_skip h)
  rw [List.length_drop]
  omega

theorem length_drop_of_take {buf : List α} {n : ℕ} {x : β} (h : S.look buf = .take n x) :
    (buf.drop n).length < buf.length := by
  have hp := S.take_pos h
  have hl := S.take_le h
  rw [List.length_drop]
  omega

/-- Repeat the decision until it is to wait. Returns the log of erased pieces
and the symbols that are left. -/
def drain (buf : List α) : List (Piece α β) × List α :=
  match _h : S.look buf with
  | .wait => ([], buf)
  | .skip =>
    let tail := drain (buf.drop 1)
    (⟨buf.take 1, none⟩ :: tail.1, tail.2)
  | .take n x =>
    let tail := drain (buf.drop n)
    (⟨buf.take n, some x⟩ :: tail.1, tail.2)
termination_by buf.length
decreasing_by
  · exact S.length_drop_of_skip _h
  · exact S.length_drop_of_take _h

theorem drain_of_wait {buf : List α} (h : S.look buf = .wait) : S.drain buf = ([], buf) := by
  rw [drain]
  split <;> simp_all

theorem drain_of_skip {buf : List α} (h : S.look buf = .skip) :
    S.drain buf =
      (⟨buf.take 1, none⟩ :: (S.drain (buf.drop 1)).1, (S.drain (buf.drop 1)).2) := by
  rw [drain]
  split <;> simp_all

theorem drain_of_take {buf : List α} {n : ℕ} {x : β} (h : S.look buf = .take n x) :
    S.drain buf =
      (⟨buf.take n, some x⟩ :: (S.drain (buf.drop n)).1, (S.drain (buf.drop n)).2) := by
  rw [drain]
  split <;> simp_all

@[simp] theorem drain_nil : S.drain [] = ([], []) := S.drain_of_wait S.look_nil

/-- Induction along the decisions of a drain. -/
theorem drain_induction {P : List α → Prop}
    (wait : ∀ buf, S.look buf = .wait → P buf)
    (skip : ∀ buf, S.look buf = .skip → P (buf.drop 1) → P buf)
    (take : ∀ buf n x, S.look buf = .take n x → P (buf.drop n) → P buf)
    (buf : List α) : P buf := by
  induction hn : buf.length using Nat.strong_induction_on generalizing buf with
  | h k ih =>
    cases h : S.look buf with
    | wait => exact wait buf h
    | skip => exact skip buf h (ih _ (hn ▸ S.length_drop_of_skip h) _ rfl)
    | take n x => exact take buf n x h (ih _ (hn ▸ S.length_drop_of_take h) _ rfl)

/-- Scanners that decide alike on all that may be left of a buffer drain it alike. -/
theorem drain_congr (T : Scanner α β) (buf : List α)
    (h : ∀ rest, rest <:+ buf → S.look rest = T.look rest) : S.drain buf = T.drain buf := by
  have hself := h buf List.suffix_rfl
  have hdrop (n : ℕ) (rest : List α) (hrest : rest <:+ buf.drop n) :
      S.look rest = T.look rest := h rest (hrest.trans (List.drop_suffix n buf))
  induction buf using S.drain_induction with
  | wait buf hw => rw [S.drain_of_wait hw, T.drain_of_wait (hself ▸ hw)]
  | skip buf hs ih =>
    rw [S.drain_of_skip hs, T.drain_of_skip (hself ▸ hs),
      ih (hdrop 1) (hdrop 1 _ List.suffix_rfl) fun n rest hr =>
        hdrop 1 rest (hr.trans (List.drop_suffix n _))]
  | take buf n x ht ih =>
    rw [S.drain_of_take ht, T.drain_of_take (hself ▸ ht),
      ih (hdrop n) (hdrop n _ List.suffix_rfl) fun m rest hr =>
        hdrop n rest (hr.trans (List.drop_suffix m _))]

/-- Nothing is lost: the erased symbols followed by the rest are the input. -/
theorem erased_drain (buf : List α) : erased (S.drain buf).1 ++ (S.drain buf).2 = buf := by
  induction buf using S.drain_induction with
  | wait buf h => simp [S.drain_of_wait h]
  | skip buf h ih =>
    rw [S.drain_of_skip h, erased_cons, List.append_assoc, ih, List.take_append_drop]
  | take buf n x h ih =>
    rw [S.drain_of_take h, erased_cons, List.append_assoc, ih, List.take_append_drop]

/-- Draining stops only where the scanner waits. -/
theorem look_rest (buf : List α) : S.look (S.drain buf).2 = .wait := by
  induction buf using S.drain_induction with
  | wait buf h => simpa [S.drain_of_wait h] using h
  | skip buf h ih => simpa [S.drain_of_skip h] using ih
  | take buf n x h ih => simpa [S.drain_of_take h] using ih

/-- Every erased piece is a single skipped symbol or the symbols of a taken item. -/
theorem pieces_drain (buf : List α) :
    ∀ p ∈ (S.drain buf).1, (p.item = none ∧ p.symbols.length = 1) ∨
      ∃ sub n x, S.look sub = .take n x ∧ p.item = some x ∧ p.symbols = sub.take n := by
  induction buf using S.drain_induction with
  | wait buf h => simp [S.drain_of_wait h]
  | skip buf h ih =>
    rw [S.drain_of_skip h]
    intro p hp
    rcases List.mem_cons.mp hp with rfl | hp
    · have hpos := List.length_pos_of_ne_nil (S.ne_nil_of_skip h)
      exact Or.inl ⟨rfl, by simp; omega⟩
    · exact ih p hp
  | take buf n x h ih =>
    rw [S.drain_of_take h]
    intro p hp
    rcases List.mem_cons.mp hp with rfl | hp
    · exact Or.inr ⟨buf, n, x, h, rfl, rfl⟩
    · exact ih p hp

/-- The scanner passes over all that stands before the first suffix it does not skip, so
it finds no item exactly if it waits at some suffix before any that it takes from. -/
theorem items_drain_eq_nil (buf : List α) :
    items (S.drain buf).1 = [] ↔
      ∀ i n x, S.look (buf.drop i) = .take n x → ∃ j < i, S.look (buf.drop j) = .wait := by
  induction buf using S.drain_induction with
  | wait buf h =>
    rw [S.drain_of_wait h]
    refine ⟨fun _ i n x hi => ⟨0, ?_, h⟩, fun _ => rfl⟩
    by_contra hzero
    obtain rfl : i = 0 := by omega
    rw [List.drop_zero, h] at hi
    cases hi
  | skip buf h ih =>
    rw [S.drain_of_skip h, items_cons_none, ih]
    have hskip (n : ℕ) (x : β) : S.look (buf.drop 0) ≠ .take n x := by simp [h]
    simp only [List.drop_drop, Nat.add_comm 1]
    constructor
    · intro hall i n x hi
      cases i with
      | zero => exact absurd hi (hskip n x)
      | succ i =>
        obtain ⟨j, hj, hwait⟩ := hall i n x hi
        exact ⟨j + 1, by omega, hwait⟩
    · intro hall i n x hi
      obtain ⟨j, hj, hwait⟩ := hall (i + 1) n x hi
      cases j with
      | zero => simp [h] at hwait
      | succ j => exact ⟨j, by omega, hwait⟩
  | take buf n x h ih =>
    rw [S.drain_of_take h, items_cons_some]
    refine ⟨fun hnil => absurd hnil (List.cons_ne_nil _ _), fun hall => ?_⟩
    obtain ⟨j, hj, -⟩ := hall 0 n x h
    omega

/-- Draining a concatenation drains the front, then what the front left
followed by the back. Finality of the decisions is what makes this hold. -/
theorem drain_append (a b : List α) :
    S.drain (a ++ b) =
      ((S.drain a).1 ++ (S.drain ((S.drain a).2 ++ b)).1, (S.drain ((S.drain a).2 ++ b)).2) := by
  induction a using S.drain_induction with
  | wait a h => simp [S.drain_of_wait h]
  | skip a h ih =>
    have hpos := List.length_pos_of_ne_nil (S.ne_nil_of_skip h)
    have hab : S.look (a ++ b) = .skip := by rw [S.final b (by simp [h]), h]
    rw [S.drain_of_skip hab, S.drain_of_skip h, List.drop_append_of_le_length hpos,
      List.take_append_of_le_length hpos, ih]
    rfl
  | take a n x h ih =>
    have hle := S.take_le h
    have hab : S.look (a ++ b) = .take n x := by rw [S.final b (by simp [h]), h]
    rw [S.drain_of_take hab, S.drain_of_take h, List.drop_append_of_le_length hle,
      List.take_append_of_le_length hle, ih]
    rfl

/-- What is found in the front of an input is found first in the input. -/
theorem items_of_front {a b : List α} (h : a <+: b) :
    items (S.drain a).1 <+: items (S.drain b).1 := by
  obtain ⟨c, rfl⟩ := h
  rw [S.drain_append, items_append]
  exact List.prefix_append _ _

/-- Add chunks one after another to what is left, draining after each. -/
def feed (rest : List α) : List (List α) → List (Piece α β) × List α
  | [] => ([], rest)
  | chunk :: chunks =>
    let first := S.drain (rest ++ chunk)
    let tail := feed first.2 chunks
    (first.1 ++ tail.1, tail.2)

/-- However the input is cut, feeding it gives what draining it at once gives. -/
theorem feed_eq_drain (rest : List α) (hrest : S.look rest = .wait) (chunks : List (List α)) :
    S.feed rest chunks = S.drain (rest ++ chunks.flatten) := by
  induction chunks generalizing rest with
  | nil => simp [feed, S.drain_of_wait hrest]
  | cons chunk chunks ih =>
    rw [feed, ih _ (S.look_rest _), List.flatten_cons, ← List.append_assoc,
      S.drain_append (rest ++ chunk)]

theorem feed_nil_eq_drain (chunks : List (List α)) :
    S.feed [] chunks = S.drain chunks.flatten := by
  simpa using S.feed_eq_drain [] S.look_nil chunks

/-- A code whose words the scanner takes off the front of any input is read back
word by word. -/
theorem drain_flatMap {γ : Type*} (code : γ → List α) (value : γ → β) (xs : List γ)
    (h : ∀ x ∈ xs, ∀ more, S.look (code x ++ more) = .take (code x).length (value x))
    (more : List α) :
    S.drain (xs.flatMap code ++ more) =
      (xs.map (fun x => ⟨code x, some (value x)⟩) ++ (S.drain more).1, (S.drain more).2) := by
  induction xs with
  | nil => simp
  | cons x xs ih =>
    have hx := h x (by simp) (xs.flatMap code ++ more)
    have hxs := ih (fun y hy => h y (by simp [hy]))
    rw [List.flatMap_cons, List.append_assoc, S.drain_of_take hx]
    simp [hxs]

/-- A scanner that only waits longer than another, on inputs too short for an
item, finds the same items. -/
theorem items_eq_of_patient (T : Scanner α β) (k : ℕ)
    (hlong : ∀ buf : List α, k ≤ buf.length → T.look buf = S.look buf)
    (hshort : ∀ buf : List α, buf.length < k → T.look buf = .wait)
    (hnone : ∀ buf n x, S.look buf = .take n x → k ≤ buf.length) (buf : List α) :
    items (T.drain buf).1 = items (S.drain buf).1 := by
  induction buf using S.drain_induction with
  | wait buf h =>
    by_cases hk : k ≤ buf.length
    · rw [S.drain_of_wait h, T.drain_of_wait (by rw [hlong buf hk, h])]
    · rw [S.drain_of_wait h, T.drain_of_wait (hshort buf (by omega))]
  | skip buf h ih =>
    rw [S.drain_of_skip h, items_cons_none]
    by_cases hk : k ≤ buf.length
    · rw [T.drain_of_skip (by rw [hlong buf hk, h]), items_cons_none, ih]
    · have hd : (buf.drop 1).length < k := by rw [List.length_drop]; omega
      rw [T.drain_of_wait (hshort buf (by omega)), ← ih, T.drain_of_wait (hshort _ hd)]
  | take buf n x h ih =>
    have hk := hnone buf n x h
    rw [S.drain_of_take h, T.drain_of_take (by rw [hlong buf hk, h]), items_cons_some,
      items_cons_some, ih]

end Scanner
end SomeIpGateway.StreamScanning
