import Mathlib.Tactic

/-!
# Counting arrivals in fixed windows

A counter of arrivals that begins anew with the first arrival after its window is over,
and trips when it exceeds its limit. Windows follow the arrivals and not one another, so
a burst may straddle two of them: tripping takes `limit + 1` arrivals within a window's
time, and `2 * limit + 1` arrivals within that time are sure to trip it, but no fewer.
-/
namespace SomeIpGateway.FixedWindow

/-- The number of arrivals since the window began, and when it began. -/
structure Counter where
  count : ℕ
  since : ℕ
  deriving Repr, DecidableEq

section Counting
variable (window limit : ℕ)

/-- Count an arrival. One after the end of the window begins a new window. -/
def Counter.tick (c : Counter) (now : ℕ) : Counter :=
  if window ≤ now - c.since then ⟨1, now⟩ else ⟨c.count + 1, c.since⟩

/-- The counter after some arrivals. -/
def after (c : Counter) (times : List ℕ) : Counter := times.foldl (Counter.tick window) c

/-- The position of the first arrival that makes the count exceed the limit. -/
def trip (c : Counter) : List ℕ → Option ℕ
  | [] => none
  | now :: times =>
    if limit < (c.tick window now).count then some 0
    else (trip (c.tick window now) times).map (· + 1)

variable {window limit} {c : Counter}

@[simp] theorem after_nil : after window c [] = c := rfl

@[simp] theorem after_cons (now : ℕ) (times : List ℕ) :
    after window c (now :: times) = after window (c.tick window now) times := rfl

theorem after_concat (times : List ℕ) (now : ℕ) :
    after window c (times ++ [now]) = (after window c times).tick window now := by
  simp [after]

theorem Counter.tick_count_le (c : Counter) (window now : ℕ) :
    (c.tick window now).count ≤ c.count + 1 := by
  unfold Counter.tick
  split_ifs
  · exact Nat.le_add_left 1 _
  · exact le_rfl

/-- Arrivals that do not trip the counter are followed by the rest. -/
theorem trip_append {xs : List ℕ} (h : trip window limit c xs = none) (ys : List ℕ) :
    trip window limit c (xs ++ ys) =
      (trip window limit (after window c xs) ys).map (· + xs.length) := by
  induction xs generalizing c with
  | nil => simp
  | cons now xs ih =>
    simp only [trip] at h
    split_ifs at h with hover
    rw [Option.map_eq_none_iff] at h
    rw [List.cons_append, trip, if_neg hover, ih h, after_cons, Option.map_map]
    rfl

theorem trip_append_of_some {xs : List ℕ} {i : ℕ} (h : trip window limit c xs = some i)
    (ys : List ℕ) : trip window limit c (xs ++ ys) = some i := by
  induction xs generalizing c i with
  | nil => simp [trip] at h
  | cons now xs ih =>
    simp only [trip, List.cons_append] at h ⊢
    split_ifs at h ⊢ with hover
    · exact h
    · obtain ⟨j, hj, rfl⟩ := Option.map_eq_some_iff.mp h
      rw [ih hj]
      rfl

/-- The arrival that trips the counter. -/
theorem exists_of_trip {times : List ℕ} {i : ℕ} (h : trip window limit c times = some i) :
    ∃ before now rest, times = before ++ now :: rest ∧ before.length = i ∧
      trip window limit c before = none ∧
      limit < ((after window c before).tick window now).count := by
  induction times generalizing c i with
  | nil => simp [trip] at h
  | cons now times ih =>
    simp only [trip] at h
    split_ifs at h with hover
    · obtain rfl := Option.some.inj h
      exact ⟨[], now, times, rfl, rfl, rfl, hover⟩
    · obtain ⟨j, hj, rfl⟩ := Option.map_eq_some_iff.mp h
      obtain ⟨before, last, rest, rfl, rfl, hnone, hlast⟩ := ih hj
      refine ⟨now :: before, last, rest, rfl, rfl, ?_, hlast⟩
      rw [trip, if_neg hover, hnone]
      rfl

theorem count_le_of_trip {times : List ℕ} (hc : c.count ≤ limit)
    (h : trip window limit c times = none) : (after window c times).count ≤ limit := by
  induction times generalizing c with
  | nil => exact hc
  | cons now times ih =>
    simp only [trip] at h
    split_ifs at h with hover
    exact ih (not_lt.mp hover) (Option.map_eq_none_iff.mp h)

/-! ### Tripping takes a burst -/

/-- The arrivals counted are the last ones, and all fell into the window. -/
theorem counted_in_window (hwindow : 0 < window) {start : ℕ} {times : List ℕ}
    (hsorted : (start :: times).Pairwise (· ≤ ·)) :
    (after window ⟨0, start⟩ times).since ∈ start :: times ∧
    ∃ old recent, times = old ++ recent ∧ recent.length = (after window ⟨0, start⟩ times).count ∧
      ∀ t ∈ recent, (after window ⟨0, start⟩ times).since ≤ t ∧
        t < (after window ⟨0, start⟩ times).since + window := by
  induction times using List.reverseRecOn with
  | nil => exact ⟨List.mem_cons_self, [], [], rfl, rfl, by simp⟩
  | append_singleton times now ih =>
    rw [← List.cons_append, List.pairwise_append] at hsorted
    obtain ⟨hsorted, -, hlast⟩ := hsorted
    obtain ⟨hsince, old, recent, rfl, hcount, hrecent⟩ := ih hsorted
    have hle := hlast _ hsince now List.mem_cons_self
    rw [after_concat, Counter.tick]
    split_ifs with hover
    · refine ⟨by simp, old ++ recent, [now], rfl, rfl, fun t ht => ?_⟩
      obtain rfl := List.mem_singleton.mp ht
      dsimp only
      omega
    · refine ⟨by simp only [List.mem_cons, List.mem_append] at hsince ⊢; tauto,
        old, recent ++ [now], by simp, by simp [hcount], fun t ht => ?_⟩
      rcases List.mem_append.mp ht with ht | ht
      · exact hrecent t ht
      · obtain rfl := List.mem_singleton.mp ht
        exact ⟨hle, by dsimp only; omega⟩

/-- The arrival that trips the counter and the `limit` arrivals before it fall within one
window's time. -/
theorem burst_of_trip (hwindow : 0 < window) {start : ℕ} {times : List ℕ}
    (hsorted : (start :: times).Pairwise (· ≤ ·)) {i : ℕ}
    (h : trip window limit ⟨0, start⟩ times = some i) :
    ∃ old recent now rest, times = old ++ recent ++ now :: rest ∧ (old ++ recent).length = i ∧
      recent.length = limit ∧ ∀ s ∈ recent ++ [now], ∀ t ∈ recent ++ [now], s < t + window := by
  obtain ⟨before, now, rest, rfl, rfl, hnone, hover⟩ := exists_of_trip h
  have hbefore := count_le_of_trip (Nat.zero_le limit) hnone
  have hle := (after window ⟨0, start⟩ before).tick_count_le window now
  have hprefix : start :: (before ++ [now]) <+: start :: (before ++ now :: rest) :=
    ⟨rest, by simp⟩
  obtain ⟨-, old, recent, heq, hcount, hrecent⟩ :=
    counted_in_window hwindow (hsorted.sublist hprefix.sublist)
  rw [after_concat] at hcount hrecent
  rcases List.eq_nil_or_concat recent with rfl | ⟨recent, last, rfl⟩
  · rw [← hcount] at hover
    exact absurd hover (Nat.not_lt_zero limit)
  · rw [List.concat_eq_append, ← List.append_assoc] at heq
    obtain ⟨rfl, hlast⟩ := List.append_inj' heq rfl
    obtain rfl := List.singleton_inj.mp hlast
    rw [List.concat_eq_append] at hcount hrecent
    rw [List.length_append, List.length_singleton] at hcount
    refine ⟨old, recent, now, rest, rfl, rfl, by omega, fun s hs t ht => ?_⟩
    have hs' := (hrecent s hs).2
    have ht' := (hrecent t ht).1
    omega

/-! ### A long burst trips -/

/-- Along a burst the counter counts every arrival, or has begun a window within it and lost
at most `limit` of the arrivals. -/
theorem count_along_burst {burst : List ℕ} (hc : c.count ≤ limit)
    (hnear : ∀ s ∈ burst, ∀ t ∈ burst, s < t + window)
    (hnone : trip window limit c burst = none) :
    (after window c burst).count = c.count + burst.length ∨
      (after window c burst).since ∈ burst ∧
        burst.length ≤ (after window c burst).count + limit := by
  induction burst using List.reverseRecOn with
  | nil => exact Or.inl rfl
  | append_singleton burst now ih =>
    have hprefix : trip window limit c burst = none := by
      by_contra hsome
      obtain ⟨i, hi⟩ := Option.ne_none_iff_exists'.mp hsome
      rw [trip_append_of_some hi] at hnone
      cases hnone
    have hcount := count_le_of_trip hc hprefix
    have hnow : now ∈ burst ++ [now] := by simp
    have hstep := ih (fun s hs t ht => hnear s (by simp [hs]) t (by simp [ht])) hprefix
    rw [after_concat, List.length_append, List.length_singleton, Counter.tick]
    rcases hstep with hall | ⟨hsince, hlost⟩
    · split_ifs with hover
      · exact Or.inr ⟨hnow, by dsimp only; omega⟩
      · exact Or.inl (by dsimp only; omega)
    · have hpos := hnear now hnow now hnow
      have hlt := hnear now hnow _ (List.mem_append_left [now] hsince)
      rw [if_neg (by omega)]
      exact Or.inr ⟨List.mem_append_left _ hsince, by dsimp only; omega⟩

theorem trip_of_burst {burst : List ℕ} (hc : c.count ≤ limit)
    (hlen : 2 * limit < burst.length) (hnear : ∀ s ∈ burst, ∀ t ∈ burst, s < t + window) :
    ∃ i, trip window limit c burst = some i ∧ i < burst.length := by
  cases h : trip window limit c burst with
  | none =>
    have hcount := count_le_of_trip hc h
    rcases count_along_burst hc hnear h with hall | ⟨-, hlost⟩
    · omega
    · omega
  | some i =>
    obtain ⟨before, now, rest, rfl, rfl, -, -⟩ := exists_of_trip h
    exact ⟨_, rfl, by simp⟩

/-- Wherever a burst of more than `2 * limit` arrivals stands, the counter trips on its last
arrival at the latest. -/
theorem trip_by_end_of_burst (start : ℕ) {before burst : List ℕ}
    (hlen : 2 * limit < burst.length) (hnear : ∀ s ∈ burst, ∀ t ∈ burst, s < t + window)
    (rest : List ℕ) :
    ∃ i, trip window limit ⟨0, start⟩ (before ++ burst ++ rest) = some i ∧
      i < before.length + burst.length := by
  cases h : trip window limit ⟨0, start⟩ before with
  | some i =>
    obtain ⟨_, now, later, rfl, rfl, -, -⟩ := exists_of_trip h
    rw [List.append_assoc, trip_append_of_some h]
    exact ⟨_, rfl, by simp; omega⟩
  | none =>
    have hc := count_le_of_trip (Nat.zero_le limit) h
    obtain ⟨i, hi, hlt⟩ := trip_of_burst hc hlen hnear
    refine ⟨i + before.length, ?_, by omega⟩
    rw [List.append_assoc, trip_append h, trip_append_of_some hi]
    rfl

/-! ### A shorter burst may not -/

theorem trip_replicate {now : ℕ} (hlt : now - c.since < window) {n : ℕ}
    (hn : c.count + n ≤ limit) : trip window limit c (List.replicate n now) = none ∧
      after window c (List.replicate n now) = ⟨c.count + n, c.since⟩ := by
  induction n generalizing c with
  | zero => exact ⟨rfl, rfl⟩
  | succ n ih =>
    have htick : c.tick window now = ⟨c.count + 1, c.since⟩ := if_neg (not_le.mpr hlt)
    have hrest := ih (c := ⟨c.count + 1, c.since⟩) hlt (by dsimp only; omega)
    rw [List.replicate_succ, trip, after_cons, htick, hrest.1, hrest.2,
      if_neg (by dsimp only; omega)]
    exact ⟨rfl, by congr 1; dsimp only; omega⟩

/-- `limit` arrivals at the last moment of a window and as many at the first of the next do
not trip the counter. -/
theorem trip_straddle (hwindow : 0 < window) (hlimit : 0 < limit) :
    trip window limit ⟨0, 0⟩
      (List.replicate limit (window - 1) ++ List.replicate limit window) = none := by
  obtain ⟨n, rfl⟩ := Nat.exists_eq_add_one_of_ne_zero hlimit.ne'
  obtain ⟨hfirst, hafter⟩ :
      trip window (n + 1) ⟨0, 0⟩ (List.replicate (n + 1) (window - 1)) = none ∧
      after window ⟨0, 0⟩ (List.replicate (n + 1) (window - 1)) = ⟨0 + (n + 1), 0⟩ :=
    trip_replicate (by dsimp only; omega) (by dsimp only; omega)
  obtain ⟨hsecond, -⟩ : trip window (n + 1) ⟨1, window⟩ (List.replicate n window) = none ∧
      after window ⟨1, window⟩ (List.replicate n window) = ⟨1 + n, window⟩ :=
    trip_replicate (by dsimp only; omega) (by dsimp only; omega)
  have htick : (⟨0 + (n + 1), 0⟩ : Counter).tick window window = ⟨1, window⟩ :=
    if_pos (by dsimp only; omega)
  rw [trip_append hfirst, hafter, List.replicate_succ (n := n) (a := window), trip, htick, hsecond,
    if_neg (by dsimp only; omega)]
  rfl

/-- The arrivals of `trip_straddle` are a burst of `2 * limit` arrivals. -/
theorem straddle_burst (limit : ℕ) (hwindow : 1 < window) :
    let times := List.replicate limit (window - 1) ++ List.replicate limit window
    (0 :: times).Pairwise (· ≤ ·) ∧ times.length = 2 * limit ∧
      ∀ s ∈ times, ∀ t ∈ times, s < t + window := by
  refine ⟨?_, ?_, fun s hs t ht => ?_⟩
  · simp [List.pairwise_append, List.pairwise_replicate]
  · rw [List.length_append, List.length_replicate, List.length_replicate]
    omega
  · rw [List.mem_append, List.mem_replicate, List.mem_replicate] at hs ht
    omega

end Counting
end SomeIpGateway.FixedWindow
