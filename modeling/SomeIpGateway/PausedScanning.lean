import SomeIpGateway.StreamScanning

/-!
# A scanner's reader that stops too early

Some readers treat certain skips as a reason to stop until more input comes, although
what they hold may decide more. Such a reader never finds anything the scanner would not
find, but what it has found at a given moment may depend on how the input was cut. It
does not exactly if nothing is ever to be found behind such a skip.
-/
namespace SomeIpGateway.StreamScanning

namespace Scanner
variable {α β : Type*} (S : Scanner α β) (halts : List α → Bool)

/-- Drain a buffer, stopping behind the first skip that halts the reader. -/
def drainPaused (buf : List α) : List (Piece α β) × List α :=
  match _h : S.look buf with
  | .wait => ([], buf)
  | .skip =>
    if halts buf then ([⟨buf.take 1, none⟩], buf.drop 1)
    else
      let tail := drainPaused (buf.drop 1)
      (⟨buf.take 1, none⟩ :: tail.1, tail.2)
  | .take n x =>
    let tail := drainPaused (buf.drop n)
    (⟨buf.take n, some x⟩ :: tail.1, tail.2)
termination_by buf.length
decreasing_by
  · exact S.length_drop_of_skip _h
  · exact S.length_drop_of_take _h

variable {halts}

theorem drainPaused_of_wait {buf : List α} (h : S.look buf = .wait) :
    S.drainPaused halts buf = ([], buf) := by
  rw [drainPaused]
  split <;> simp_all

theorem drainPaused_of_halt {buf : List α} (h : S.look buf = .skip) (hhalt : halts buf = true) :
    S.drainPaused halts buf = ([⟨buf.take 1, none⟩], buf.drop 1) := by
  rw [drainPaused]
  split <;> simp_all

theorem drainPaused_of_skip {buf : List α} (h : S.look buf = .skip) (hhalt : halts buf ≠ true) :
    S.drainPaused halts buf =
      (⟨buf.take 1, none⟩ :: (S.drainPaused halts (buf.drop 1)).1,
        (S.drainPaused halts (buf.drop 1)).2) := by
  rw [drainPaused]
  split <;> simp_all

theorem drainPaused_of_take {buf : List α} {n : ℕ} {x : β} (h : S.look buf = .take n x) :
    S.drainPaused halts buf =
      (⟨buf.take n, some x⟩ :: (S.drainPaused halts (buf.drop n)).1,
        (S.drainPaused halts (buf.drop n)).2) := by
  rw [drainPaused]
  split <;> simp_all

variable (halts)

/-- What the reader has found, followed by what the scanner finds in the rest of the input,
is what the scanner finds in all of it. -/
theorem drainPaused_append_drain (a b : List α) :
    (S.drainPaused halts a).1 ++ (S.drain ((S.drainPaused halts a).2 ++ b)).1 =
      (S.drain (a ++ b)).1 := by
  have hskipped {a : List α} (h : S.look a = .skip) :
      (S.drain (a ++ b)).1 = ⟨a.take 1, none⟩ :: (S.drain (a.drop 1 ++ b)).1 := by
    have hpos := List.length_pos_of_ne_nil (S.ne_nil_of_skip h)
    rw [S.drain_of_skip ((S.final b (by simp [h])).trans h), List.drop_append_of_le_length hpos,
      List.take_append_of_le_length hpos]
  induction a using S.drain_induction with
  | wait a h => simp [S.drainPaused_of_wait h]
  | skip a h ih =>
    by_cases hhalt : halts a = true
    · rw [S.drainPaused_of_halt h hhalt, hskipped h]
      rfl
    · rw [S.drainPaused_of_skip h hhalt, hskipped h, List.cons_append, ih]
  | take a n x h ih =>
    have hle := S.take_le h
    rw [S.drainPaused_of_take h, S.drain_of_take ((S.final b (by simp [h])).trans h),
      List.drop_append_of_le_length hle, List.take_append_of_le_length hle, List.cons_append, ih]

/-- The reader stops where the scanner waits, or has made the buffer shorter. -/
theorem drainPaused_stops (buf : List α) :
    S.look (S.drainPaused halts buf).2 = .wait ∨
      (S.drainPaused halts buf).2.length < buf.length := by
  induction buf using S.drain_induction with
  | wait buf h => simp [S.drainPaused_of_wait h, h]
  | skip buf h ih =>
    have hlt := S.length_drop_of_skip h
    by_cases hhalt : halts buf = true
    · rw [S.drainPaused_of_halt h hhalt]
      exact Or.inr hlt
    · rw [S.drainPaused_of_skip h hhalt]
      exact ih.imp_right (lt_trans · hlt)
  | take buf n x h ih =>
    rw [S.drainPaused_of_take h]
    exact ih.imp_right (lt_trans · (S.length_drop_of_take h))

theorem erased_drainPaused (buf : List α) :
    erased (S.drainPaused halts buf).1 ++ (S.drainPaused halts buf).2 = buf := by
  induction buf using S.drain_induction with
  | wait buf h => simp [S.drainPaused_of_wait h]
  | skip buf h ih =>
    by_cases hhalt : halts buf = true
    · rw [S.drainPaused_of_halt h hhalt, erased_cons, erased_nil, List.append_nil,
        List.take_append_drop]
    · rw [S.drainPaused_of_skip h hhalt, erased_cons, List.append_assoc, ih,
        List.take_append_drop]
  | take buf n x h ih =>
    rw [S.drainPaused_of_take h, erased_cons, List.append_assoc, ih, List.take_append_drop]

/-- Add chunks one after another to what is left, reading on after each. -/
def feedPaused (rest : List α) : List (List α) → List (Piece α β) × List α
  | [] => ([], rest)
  | chunk :: chunks =>
    let first := S.drainPaused halts (rest ++ chunk)
    let tail := feedPaused first.2 chunks
    (first.1 ++ tail.1, tail.2)

theorem feedPaused_append_drain (rest : List α) (chunks : List (List α)) :
    (S.feedPaused halts rest chunks).1 ++ (S.drain (S.feedPaused halts rest chunks).2).1 =
      (S.drain (rest ++ chunks.flatten)).1 := by
  induction chunks generalizing rest with
  | nil => simp [feedPaused]
  | cons chunk chunks ih =>
    rw [feedPaused, List.append_assoc, ih, S.drainPaused_append_drain halts (rest ++ chunk),
      List.flatten_cons, List.append_assoc]

theorem erased_feedPaused (rest : List α) (chunks : List (List α)) :
    erased (S.feedPaused halts rest chunks).1 ++ (S.feedPaused halts rest chunks).2 =
      rest ++ chunks.flatten := by
  induction chunks generalizing rest with
  | nil => simp [feedPaused]
  | cons chunk chunks ih =>
    rw [feedPaused, erased_append, List.append_assoc, ih, ← List.append_assoc,
      S.erased_drainPaused, List.flatten_cons, List.append_assoc]

/-- The suffixes of a buffer that draining it looks at. -/
inductive Visits : List α → List α → Prop where
  | refl (buf : List α) : Visits buf buf
  | skip {buf rest : List α} : S.look buf = .skip → Visits (buf.drop 1) rest → Visits buf rest
  | take {buf rest : List α} {n : ℕ} {x : β} :
    S.look buf = .take n x → Visits (buf.drop n) rest → Visits buf rest

/-- Nothing is to be found behind a skip that halts the reader. -/
def NothingBehindHalt (buf : List α) : Prop :=
  ∀ rest, S.Visits buf rest → S.look rest = .skip → halts rest = true →
    items (S.drain (rest.drop 1)).1 = []

variable {S halts}

theorem Visits.items_drain {buf rest : List α} (h : S.Visits buf rest)
    (hnil : items (S.drain buf).1 = []) : items (S.drain rest).1 = [] := by
  induction h with
  | refl buf => exact hnil
  | skip hlook _ ih =>
    rw [S.drain_of_skip hlook, items_cons_none] at hnil
    exact ih hnil
  | take hlook _ ih =>
    rw [S.drain_of_take hlook, items_cons_some] at hnil
    cases hnil

theorem NothingBehindHalt.drop_one {buf : List α} (h : S.NothingBehindHalt halts buf)
    (hlook : S.look buf = .skip) : S.NothingBehindHalt halts (buf.drop 1) :=
  fun rest hvisits => h rest (.skip hlook hvisits)

theorem NothingBehindHalt.drop_take {buf : List α} {n : ℕ} {x : β}
    (h : S.NothingBehindHalt halts buf) (hlook : S.look buf = .take n x) :
    S.NothingBehindHalt halts (buf.drop n) :=
  fun rest hvisits => h rest (.take hlook hvisits)

variable (S halts)

/-- A reader given all at once misses nothing exactly if nothing is behind a halt. -/
theorem nothingBehindHalt_iff (buf : List α) :
    S.NothingBehindHalt halts buf ↔ items (S.drain (S.drainPaused halts buf).2).1 = [] := by
  induction buf using S.drain_induction with
  | wait buf h =>
    rw [S.drainPaused_of_wait h, S.drain_of_wait h]
    refine iff_of_true ?_ rfl
    intro rest hvisits hskip
    cases hvisits with
    | refl => simp [h] at hskip
    | skip hlook => simp [h] at hlook
    | take hlook => simp [h] at hlook
  | skip buf h ih =>
    by_cases hhalt : halts buf = true
    · rw [S.drainPaused_of_halt h hhalt]
      refine ⟨fun hall => hall buf (.refl buf) h hhalt, fun hnil rest hvisits hskip _ => ?_⟩
      cases hvisits with
      | refl => exact hnil
      | skip _ hvisits =>
        have hrest := hvisits.items_drain hnil
        rwa [S.drain_of_skip hskip, items_cons_none] at hrest
      | take hlook => simp [h] at hlook
    · rw [S.drainPaused_of_skip h hhalt, ← ih]
      refine ⟨fun hall => hall.drop_one h, fun hall rest hvisits hskip hrest => ?_⟩
      cases hvisits with
      | refl => exact absurd hrest hhalt
      | skip _ hvisits => exact hall rest hvisits hskip hrest
      | take hlook => simp [h] at hlook
  | take buf n x h ih =>
    rw [S.drainPaused_of_take h, ← ih]
    refine ⟨fun hall => hall.drop_take h, fun hall rest hvisits hskip hrest => ?_⟩
    cases hvisits with
    | refl => simp [h] at hskip
    | skip hlook => simp [h] at hlook
    | take hlook hvisits =>
      obtain ⟨rfl, -⟩ := (Verdict.take.injEq ..).mp (h.symm.trans hlook)
      exact hall rest hvisits hskip hrest

variable {S halts}

/-- Where nothing is behind a halt, a halted reader has nothing more to find, and any other
waits with the same still true of what it left. -/
theorem NothingBehindHalt.drainPaused {a b : List α}
    (hstable : ∀ {buf : List α} (more : List α), S.look buf = .skip →
      halts (buf ++ more) = halts buf)
    (h : S.NothingBehindHalt halts (a ++ b)) :
    (S.look (S.drainPaused halts a).2 = .wait ∧
      S.NothingBehindHalt halts ((S.drainPaused halts a).2 ++ b)) ∨
    items (S.drain ((S.drainPaused halts a).2 ++ b)).1 = [] := by
  induction a using S.drain_induction with
  | wait a hlook =>
    rw [S.drainPaused_of_wait hlook]
    exact Or.inl ⟨hlook, h⟩
  | skip a hlook ih =>
    have hpos := List.length_pos_of_ne_nil (S.ne_nil_of_skip hlook)
    have hmore : S.look (a ++ b) = .skip := (S.final b (by simp [hlook])).trans hlook
    rw [← List.drop_append_of_le_length hpos] at ih
    by_cases hhalt : halts a = true
    · rw [S.drainPaused_of_halt hlook hhalt, ← List.drop_append_of_le_length hpos]
      exact Or.inr (h _ (.refl _) hmore ((hstable b hlook).trans hhalt))
    · rw [S.drainPaused_of_skip hlook hhalt]
      exact ih (h.drop_one hmore)
  | take a n x hlook ih =>
    have hmore : S.look (a ++ b) = .take n x := (S.final b (by simp [hlook])).trans hlook
    rw [← List.drop_append_of_le_length (S.take_le hlook)] at ih
    rw [S.drainPaused_of_take hlook]
    exact ih (h.drop_take hmore)

theorem items_drain_feedPaused {rest : List α} {chunks : List (List α)}
    (h : items (S.drain (rest ++ chunks.flatten)).1 = []) :
    items (S.drain (S.feedPaused halts rest chunks).2).1 = [] := by
  rw [← S.feedPaused_append_drain, items_append] at h
  exact (List.append_eq_nil_iff.mp h).2

/-- Where nothing is behind a halt, the reader misses nothing, however the input is cut. -/
theorem NothingBehindHalt.feedPaused {rest : List α} {chunks : List (List α)}
    (hstable : ∀ {buf : List α} (more : List α), S.look buf = .skip →
      halts (buf ++ more) = halts buf)
    (hrest : S.look rest = .wait) (h : S.NothingBehindHalt halts (rest ++ chunks.flatten)) :
    items (S.drain (S.feedPaused halts rest chunks).2).1 = [] := by
  induction chunks generalizing rest with
  | nil =>
    rw [Scanner.feedPaused, S.drain_of_wait hrest]
    rfl
  | cons chunk chunks ih =>
    rw [List.flatten_cons, ← List.append_assoc] at h
    rw [Scanner.feedPaused]
    rcases h.drainPaused hstable with ⟨hwait, hlater⟩ | hnil
    · exact ih hwait hlater
    · exact items_drain_feedPaused hnil

variable (S)

/-- A stream of words that the scanner takes off the front of any input never halts the
reader. -/
theorem nothingBehindHalt_flatMap {γ : Type*} (code : γ → List α) (value : γ → β) (xs : List γ)
    (h : ∀ x ∈ xs, ∀ more, S.look (code x ++ more) = .take (code x).length (value x)) :
    S.NothingBehindHalt halts (xs.flatMap code) := by
  rw [nothingBehindHalt_iff]
  induction xs with
  | nil => simp [S.drainPaused_of_wait S.look_nil]
  | cons x xs ih =>
    have hx := h x List.mem_cons_self (xs.flatMap code)
    rw [List.flatMap_cons, S.drainPaused_of_take hx, List.drop_left]
    exact ih fun y hy => h y (List.mem_cons_of_mem x hy)

/-- However a stream of words is cut, the reader takes it word by word and leaves nothing. -/
theorem feedPaused_flatMap {γ : Type*} (code : γ → List α) (value : γ → β) (xs : List γ)
    (hstable : ∀ {buf : List α} (more : List α), S.look buf = .skip →
      halts (buf ++ more) = halts buf)
    (h : ∀ x ∈ xs, ∀ more, S.look (code x ++ more) = .take (code x).length (value x))
    {chunks : List (List α)} (hchunks : chunks.flatten = xs.flatMap code) :
    S.feedPaused halts [] chunks = (xs.map (fun x => ⟨code x, some (value x)⟩), []) := by
  have hquiet : items (S.drain (S.feedPaused halts [] chunks).2).1 = [] := by
    apply NothingBehindHalt.feedPaused hstable S.look_nil
    rw [List.nil_append, hchunks]
    exact S.nothingBehindHalt_flatMap code value xs h
  have hdrain := S.drain_flatMap code value xs h []
  rw [S.drain_nil, List.append_nil, List.append_nil] at hdrain
  have hlog := S.feedPaused_append_drain halts [] chunks
  rw [List.nil_append, hchunks, hdrain] at hlog
  dsimp only at hlog
  -- every piece of the stream is a word, so what is left to find would be one
  have hnil : (S.drain (S.feedPaused halts [] chunks).2).1 = [] := by
    apply List.eq_nil_iff_forall_not_mem.mpr
    intro p hp
    have hword := List.mem_append_right (S.feedPaused halts [] chunks).1 hp
    rw [hlog] at hword
    obtain ⟨x, -, rfl⟩ := List.mem_map.mp hword
    have hnone := List.filterMap_eq_nil_iff.mp hquiet _ hp
    cases hnone
  rw [hnil, List.append_nil] at hlog
  have herased := S.erased_feedPaused halts [] chunks
  rw [hlog, List.nil_append, hchunks] at herased
  have hcode : erased (xs.map fun x => (⟨code x, some (value x)⟩ : Piece α β)) =
      xs.flatMap code := by
    rw [erased, List.flatMap_map]
  rw [hcode, List.append_right_eq_self] at herased
  exact Prod.ext hlog herased

end Scanner
end SomeIpGateway.StreamScanning
