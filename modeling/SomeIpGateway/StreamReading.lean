import Mathlib.Tactic

/-!
# Reading an exact number of symbols

A reader returns some of the next symbols of a stream: at least one where any are left,
and never more than were asked for. Repeating the read until the number is reached
depends on the symbols that are left and on nothing else. A reader of records stops at
the end of a record; one read of it is enough where no record ends inside what is asked
for.
-/
namespace SomeIpGateway.StreamReading

/-- A source of symbols together with the facts that make reading it make progress. -/
structure Reader (σ α : Type*) where
  remaining : σ → List α
  read : σ → ℕ → Option (List α × σ)
  read_nil : ∀ {s n}, 0 < n → read s n = none → remaining s = []
  read_pos : ∀ {s n got t}, 0 < n → read s n = some (got, t) → 0 < got.length
  read_le : ∀ {s n got t}, read s n = some (got, t) → got.length ≤ n
  read_append : ∀ {s n got t}, read s n = some (got, t) → got ++ remaining t = remaining s

namespace Reader
variable {σ α : Type*} (R : Reader σ α)

/-- Read until `len` symbols are there. -/
def readAll (s : σ) (len : ℕ) : Option (List α × σ) :=
  if _hlen : len = 0 then some ([], s)
  else
    match _hread : R.read s len with
    | none => none
    | some (got, t) => (readAll t (len - got.length)).map fun r => (got ++ r.1, r.2)
termination_by len
decreasing_by
  have hpos := R.read_pos (by omega) _hread
  omega

/-- A read that returns something makes progress, and no more than was asked for. -/
theorem read_progress {s t : σ} {n : ℕ} {got : List α} (hpos : 0 < n)
    (hread : R.read s n = some (got, t)) :
    0 < got.length ∧ got.length ≤ n ∧
      (R.remaining s).length = got.length + (R.remaining t).length := by
  refine ⟨R.read_pos hpos hread, R.read_le hread, ?_⟩
  rw [← R.read_append hread, List.length_append]

/-- The next `len` symbols are read, and the rest is left. -/
theorem readAll_of_le {s : σ} {len : ℕ} (h : len ≤ (R.remaining s).length) :
    ∃ t, R.readAll s len = some ((R.remaining s).take len, t) ∧
      R.remaining t = (R.remaining s).drop len := by
  induction len using Nat.strong_induction_on generalizing s with
  | h len ih =>
    rw [readAll]
    by_cases hlen : len = 0
    · exact ⟨s, by simp [hlen]⟩
    · rw [dif_neg hlen]
      have hpos : 0 < len := by omega
      split
      · next hread =>
        rw [R.read_nil hpos hread, List.length_nil] at h
        omega
      · next got t hread =>
        obtain ⟨hgot, hle, hlen⟩ := R.read_progress hpos hread
        obtain ⟨u, hu, hrest⟩ := ih (len - got.length) (by omega) (s := t) (by omega)
        refine ⟨u, ?_, ?_⟩
        · rw [hu, ← R.read_append hread, List.take_append, List.take_of_length_le hle]
          rfl
        · rw [hrest, ← R.read_append hread, List.drop_append, List.drop_eq_nil_of_le hle]
          rfl

/-- A stream that ends too early is reported as ended. -/
theorem readAll_of_lt {s : σ} {len : ℕ} (h : (R.remaining s).length < len) :
    R.readAll s len = none := by
  induction len using Nat.strong_induction_on generalizing s with
  | h len ih =>
    have hpos : 0 < len := by omega
    rw [readAll, dif_neg (by omega)]
    split
    · rfl
    · next got t hread =>
      obtain ⟨hgot, hle, hlen⟩ := R.read_progress hpos hread
      rw [ih (len - got.length) (by omega) (by omega), Option.map_none]

theorem readAll_eq_some {s t : σ} {len : ℕ} {got : List α}
    (h : R.readAll s len = some (got, t)) :
    len ≤ (R.remaining s).length ∧ got = (R.remaining s).take len ∧
      R.remaining t = (R.remaining s).drop len := by
  by_cases hle : len ≤ (R.remaining s).length
  · obtain ⟨u, hu, hrest⟩ := R.readAll_of_le hle
    rw [hu] at h
    obtain ⟨rfl, rfl⟩ := Prod.mk.inj (Option.some.inj h)
    exact ⟨hle, rfl, hrest⟩
  · rw [R.readAll_of_lt (by omega)] at h
    cases h

/-- One read that has to return all the symbols asked for. -/
def readExactly (s : σ) (n : ℕ) : Option (List α × σ) :=
  (R.read s n).bind fun r => if r.1.length = n then some r else none

theorem readExactly_eq_some {s t : σ} {n : ℕ} {got : List α}
    (h : R.readExactly s n = some (got, t)) :
    n ≤ (R.remaining s).length ∧ got = (R.remaining s).take n ∧
      R.remaining t = (R.remaining s).drop n := by
  obtain ⟨⟨got', t'⟩, hread, hlen⟩ := Option.bind_eq_some_iff.mp h
  split_ifs at hlen with hn
  obtain ⟨rfl, rfl⟩ := Prod.mk.inj (Option.some.inj hlen)
  dsimp only at hn
  subst hn
  rw [← R.read_append hread]
  simp

end Reader

/-! ### A stream that is all there -/

/-- A read that waits for all the symbols asked for, or for the end of the stream. -/
def whole (α : Type*) : Reader (List α) α where
  remaining := id
  read s n := if s = [] then none else some (s.take n, s.drop n)
  read_nil := by
    intro s n _ h
    split_ifs at h with hs
    exact hs
  read_pos := by
    intro s n got t hn h
    split_ifs at h with hs
    obtain ⟨rfl, rfl⟩ := Prod.mk.inj (Option.some.inj h)
    have hpos := List.length_pos_of_ne_nil hs
    rw [List.length_take]
    omega
  read_le := by
    intro s n got t h
    split_ifs at h
    obtain ⟨rfl, rfl⟩ := Prod.mk.inj (Option.some.inj h)
    exact List.length_take_le n s
  read_append := by
    intro s n got t h
    split_ifs at h
    obtain ⟨rfl, rfl⟩ := Prod.mk.inj (Option.some.inj h)
    exact List.take_append_drop n s

theorem whole_readExactly {α : Type*} {s : List α} {n : ℕ} (hn : 0 < n) (h : n ≤ s.length) :
    (whole α).readExactly s n = some (s.take n, s.drop n) := by
  have hne : s ≠ [] := by
    rintro rfl
    rw [List.length_nil] at h
    omega
  simp [Reader.readExactly, whole, hne, h]

/-! ### A stream of records -/

/-- A read returns what is left of the first record that is not used up, or less. -/
def readRecord {α : Type*} : List (List α) → ℕ → Option (List α × List (List α))
  | [], _ => none
  | [] :: records, n => readRecord records n
  | (a :: record) :: records, n =>
    some ((a :: record).take n, (a :: record).drop n :: records)

/-- What a read returns is the front of the first record with anything left. -/
theorem readRecord_eq_some {α : Type*} {s t : List (List α)} {n : ℕ} {got : List α}
    (h : readRecord s n = some (got, t)) :
    ∃ a record rest, s.flatten = a :: record ++ rest.flatten ∧
      got = (a :: record).take n ∧ t = (a :: record).drop n :: rest := by
  induction s with
  | nil => cases h
  | cons record rest ih =>
    cases record with
    | nil => exact ih h
    | cons a record =>
      obtain ⟨rfl, rfl⟩ := Prod.mk.inj (Option.some.inj h)
      exact ⟨a, record, rest, rfl, rfl, rfl⟩

/-- The records that are left, the first of which may have been read in part. -/
def records (α : Type*) : Reader (List (List α)) α where
  remaining := List.flatten
  read := readRecord
  read_nil := by
    intro s n _ h
    induction s with
    | nil => rfl
    | cons record rest ih =>
      cases record with
      | nil => exact ih h
      | cons a record => cases h
  read_pos := by
    intro s n got t hn h
    obtain ⟨a, record, rest, -, rfl, -⟩ := readRecord_eq_some h
    rw [List.length_take, List.length_cons]
    omega
  read_le := by
    intro s n got t h
    obtain ⟨a, record, rest, -, rfl, -⟩ := readRecord_eq_some h
    exact List.length_take_le n _
  read_append := by
    intro s n got t h
    obtain ⟨a, record, rest, hs, rfl, rfl⟩ := readRecord_eq_some h
    rw [hs, List.flatten_cons, ← List.append_assoc, List.take_append_drop]

/-- Whether a record ends after the first `p` symbols. -/
def EndsAt {α : Type*} (s : List (List α)) (p : ℕ) : Prop :=
  ∃ k ≤ s.length, (s.take k).flatten.length = p

instance {α : Type*} (s : List (List α)) (p : ℕ) : Decidable (EndsAt s p) :=
  decidable_of_iff (∃ k < s.length + 1, (s.take k).flatten.length = p)
    (by simp [EndsAt])

section EndsAt
variable {α : Type*}

theorem endsAt_cons {record : List α} {s : List (List α)} {p : ℕ} (hp : 0 < p) :
    EndsAt (record :: s) p ↔ ∃ q, EndsAt s q ∧ record.length + q = p := by
  constructor
  · rintro ⟨k, hk, hlen⟩
    cases k with
    | zero =>
      simp at hlen
      omega
    | succ k => exact ⟨_, ⟨k, by simpa using hk, rfl⟩, by simpa using hlen⟩
  · rintro ⟨q, ⟨k, hk, rfl⟩, rfl⟩
    exact ⟨k + 1, by simpa using hk, by simp⟩

theorem endsAt_zero (s : List (List α)) : EndsAt s 0 := ⟨0, Nat.zero_le _, rfl⟩

theorem records_readExactly_cons (a : α) (record : List α) (s : List (List α)) (n : ℕ) :
    (records α).readExactly ((a :: record) :: s) n =
      if n ≤ (a :: record).length then some ((a :: record).take n, (a :: record).drop n :: s)
      else none := by
  have hlen : ((a :: record).take n).length = n ↔ n ≤ (a :: record).length := by
    rw [List.length_take]
    omega
  rw [Reader.readExactly, records]
  simp [readRecord]

/-- One read falls short where a record ends inside of what is asked for. -/
theorem records_readExactly_eq_none {s : List (List α)} {n p : ℕ} (hend : EndsAt s p)
    (hpos : 0 < p) (hlt : p < n) : (records α).readExactly s n = none := by
  induction s with
  | nil => rfl
  | cons record rest ih =>
    obtain ⟨q, hq, hlen⟩ := (endsAt_cons hpos).mp hend
    cases record with
    | nil =>
      have heq : q = p := by simpa using hlen
      exact ih (heq ▸ hq)
    | cons a record => rw [records_readExactly_cons, if_neg (by omega)]

/-- Where no record ends inside of what is asked for, one read returns it all, and the
ends of the records that are left are those that were ahead. -/
theorem records_readExactly {s : List (List α)} {n : ℕ} (hn : 0 < n) (h : n ≤ s.flatten.length)
    (hends : ∀ p, 0 < p → p < n → ¬ EndsAt s p) :
    ∃ t, (records α).readExactly s n = some (s.flatten.take n, t) ∧
      t.flatten = s.flatten.drop n ∧ ∀ p, 0 < p → (EndsAt t p ↔ EndsAt s (n + p)) := by
  induction s with
  | nil =>
    rw [List.flatten_nil, List.length_nil] at h
    omega
  | cons record rest ih =>
    cases record with
    | nil =>
      have hskip (p : ℕ) (hp : 0 < p) : EndsAt ([] :: rest) p ↔ EndsAt rest p := by
        rw [endsAt_cons hp]
        simp
      obtain ⟨t, ht, hflat, hahead⟩ := ih h fun p hp hlt hend =>
        hends p hp hlt ((hskip p hp).mpr hend)
      exact ⟨t, ht, hflat, fun p hp => (hahead p hp).trans (hskip (n + p) (by omega)).symm⟩
    | cons a record =>
      have hle : n ≤ (a :: record).length := by
        by_contra hgt
        exact hends _ (by simp) (not_le.mp hgt)
          ((endsAt_cons (by simp)).mpr ⟨0, endsAt_zero rest, rfl⟩)
      refine ⟨(a :: record).drop n :: rest, ?_, ?_, ?_⟩
      · rw [records_readExactly_cons, if_pos hle, List.flatten_cons,
          List.take_append_of_le_length hle]
      · rw [List.flatten_cons, List.flatten_cons, List.drop_append_of_le_length hle]
      · intro p hp
        rw [endsAt_cons hp, endsAt_cons (by omega), List.length_drop]
        apply exists_congr
        intro q
        rw [show (a :: record).length - n + q = p ↔ (a :: record).length + q = n + p by omega]

/-- A read that returned all it had to tells where no record ends. -/
theorem of_records_readExactly {s t : List (List α)} {n : ℕ} {got : List α} (hn : 0 < n)
    (h : (records α).readExactly s n = some (got, t)) :
    (∀ p, 0 < p → p < n → ¬ EndsAt s p) ∧ ∀ p, 0 < p → (EndsAt t p ↔ EndsAt s (n + p)) := by
  have hends (p : ℕ) (hpos : 0 < p) (hlt : p < n) : ¬ EndsAt s p := by
    intro hend
    rw [records_readExactly_eq_none hend hpos hlt] at h
    cases h
  obtain ⟨u, hu, -, hahead⟩ :=
    records_readExactly hn ((records α).readExactly_eq_some h).1 hends
  obtain ⟨-, rfl⟩ := Prod.mk.inj (Option.some.inj (h.symm.trans hu))
  exact ⟨hends, hahead⟩

end EndsAt
end SomeIpGateway.StreamReading
