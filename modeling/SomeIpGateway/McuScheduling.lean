import SomeIpGateway.McuQueues

/-!
# The order in which sessions are served

`popNextMcuFrame` looks for a frame from the lowest CID on, each time anew. A session is served
only when those with lower CIDs have nothing left.
-/
namespace SomeIpGateway.McuScheduling
open FrameFormat KeyedQueues Sessions StepMachine

/-- What waits, in the order of the CIDs. -/
def waiting (m : SessionManager) : List (UInt16 × BkelFrame) :=
  m.sessions.toList.flatMap fun entry => entry.2.toMcuQueue.map (entry.1, ·)

/-- The frames of so many calls of `popNextMcuFrame`, and the sessions after them. -/
def popTimes : ℕ → SessionManager → List (UInt16 × BkelFrame) × SessionManager
  | 0, m => ([], m)
  | n + 1, m =>
    match m.popNextMcuFrame with
    | none => popTimes n m
    | some (cid, frame, m') => ((cid, frame) :: (popTimes n m').1, (popTimes n m').2)

/-! ### One pop -/

section Pop
variable {m m' : SessionManager}

theorem lt_of_compare {a b : UInt16} (h : compare a b = .lt) : a < b := by
  exact Std.compare_eq_lt.mp h

theorem ordered_toList (map : Std.ExtTreeMap UInt16 Session) :
    map.toList.Pairwise fun a b => a.1 < b.1 :=
  Std.ExtTreeMap.ordered_keys_toList.imp fun h => lt_of_compare h

/-- The entries of a map, in the order of the keys, are known from what the map holds. -/
theorem toList_eq {map : Std.ExtTreeMap UInt16 Session} {entries : List (UInt16 × Session)}
    (hsorted : entries.Pairwise fun a b => a.1 < b.1)
    (hmem : ∀ cid s, (cid, s) ∈ entries ↔ map[cid]? = some s) : map.toList = entries := by
  have hnodup {l : List (UInt16 × Session)} (h : l.Pairwise fun a b => a.1 < b.1) : l.Nodup :=
    h.imp fun {a b} hlt heq => by simp [heq] at hlt
  have hperm : map.toList.Perm entries := by
    refine (List.perm_ext_iff_of_nodup (hnodup (ordered_toList map)) (hnodup hsorted)).mpr
      fun entry => ?_
    rw [hmem entry.1 entry.2]
    exact Std.ExtTreeMap.mem_toList_iff_getElem?_eq_some
  exact hperm.eq_of_pairwise
    (fun a b _ _ hab hba => absurd (UInt16.lt_trans hab hba) (UInt16.lt_irrefl _))
    (ordered_toList map) hsorted

/-- Replacing a session leaves the entries before and behind it. -/
theorem toList_update {cid : UInt16} {s : Session} {before after : List (UInt16 × Session)}
    (hlist : m.sessions.toList = before ++ (cid, s) :: after) (s' : Session) :
    (m.update cid s').sessions.toList = before ++ (cid, s') :: after := by
  have hkeys := ordered_toList m.sessions
  have hother {k : UInt16} {v : Session} (h : (k, v) ∈ before ++ after) : k ≠ cid := by
    rw [hlist, List.pairwise_append, List.pairwise_cons] at hkeys
    obtain ⟨-, ⟨hafter, -⟩, hbefore⟩ := hkeys
    rintro rfl
    rcases List.mem_append.mp h with hin | hin
    · exact UInt16.lt_irrefl k (hbefore (k, v) hin (k, s) List.mem_cons_self)
    · exact UInt16.lt_irrefl k (hafter (k, v) hin)
  refine toList_eq ?_ fun k v => ?_
  · rw [← List.pairwise_map (f := Prod.fst) (R := (· < ·))] at hkeys ⊢
    rw [hlist] at hkeys
    simpa using hkeys
  · have hget : (m.update cid s').sessions[k]? = if cid = k then some s' else m.findSession k :=
      m.findSession_update cid s' k
    have hold : (k, v) ∈ before ++ (cid, s) :: after ↔ m.findSession k = some v := by
      rw [← hlist]
      exact Std.ExtTreeMap.mem_toList_iff_getElem?_eq_some
    rw [hget]
    split_ifs with hk
    · subst hk
      constructor
      · intro hmem
        rcases List.mem_append.mp hmem with hin | hin
        · exact (hother (List.mem_append_left after hin) rfl).elim
        · rcases List.mem_cons.mp hin with heq | hin
          · rw [(Prod.mk.inj heq).2]
          · exact (hother (List.mem_append_right before hin) rfl).elim
      · intro heq
        rw [Option.some.inj heq]
        exact List.mem_append_right before List.mem_cons_self
    · rw [← hold]
      simp [Ne.symm hk]

/-- A pop takes the first of what waits, and the sessions with lower CIDs have nothing. -/
theorem pop_some {cid : UInt16} {frame : BkelFrame}
    (h : m.popNextMcuFrame = some (cid, frame, m')) :
    waiting m = (cid, frame) :: waiting m' ∧
      ∀ c < cid, ∀ queue, toMcuQueues m c = some queue → queue = [] := by
  obtain ⟨before, ⟨c, s⟩, after, hlist, hpop, hnone⟩ := List.findSome?_eq_some_iff.mp h
  have hempty : ∀ entry ∈ before, entry.2.toMcuQueue = [] := by
    intro entry hentry
    have hentry := hnone entry hentry
    cases hq : entry.2.toMcuQueue with
    | nil => rfl
    | cons frame rest => simp [Session.popMcuFrame, hq] at hentry
  cases hq : s.toMcuQueue with
  | nil => simp [Session.popMcuFrame, hq] at hpop
  | cons first rest =>
    simp only [Session.popMcuFrame, hq, Option.map_some, Option.some.injEq, Prod.mk.injEq] at hpop
    obtain ⟨rfl, rfl, rfl⟩ := hpop
    have hbefore : before.flatMap (fun entry => entry.2.toMcuQueue.map (entry.1, ·)) = [] :=
      List.flatMap_eq_nil_iff.mpr fun entry hentry => by rw [hempty entry hentry, List.map_nil]
    refine ⟨?_, fun k hk queue hqueue => ?_⟩
    · rw [waiting, waiting, toList_update hlist, hlist, List.flatMap_append, List.flatMap_append,
        List.flatMap_cons, List.flatMap_cons, hbefore, hq]
      rfl
    · obtain ⟨session, hsession, rfl⟩ := Option.map_eq_some_iff.mp hqueue
      have hmem : (k, session) ∈ m.sessions.toList :=
        Std.ExtTreeMap.mem_toList_iff_getElem?_eq_some.mpr hsession
      have hordered := ordered_toList m.sessions
      rw [hlist] at hmem hordered
      rcases List.mem_append.mp hmem with hin | hin
      · exact hempty _ hin
      · rcases List.mem_cons.mp hin with heq | hin
        · obtain rfl := (Prod.mk.inj heq).1
          exact (UInt16.lt_irrefl _ hk).elim
        · have hafter := (List.pairwise_cons.mp (List.pairwise_append.mp hordered).2.1).1 _ hin
          exact (UInt16.lt_irrefl _ (UInt16.lt_trans hk hafter)).elim

/-- There is nothing to pop exactly if nothing waits. -/
theorem waiting_of_pop_none (h : m.popNextMcuFrame = none) : waiting m = [] := by
  rw [SessionManager.popNextMcuFrame_eq_none] at h
  refine List.flatMap_eq_nil_iff.mpr fun entry hentry => ?_
  rw [h entry.1 entry.2 (Std.ExtTreeMap.mem_toList_iff_getElem?_eq_some.mp hentry), List.map_nil]

/-- With nothing forwarded in between, the queues are emptied one session after the other. -/
theorem popTimes_eq (n : ℕ) (m : SessionManager) :
    (popTimes n m).1 = (waiting m).take n ∧ waiting (popTimes n m).2 = (waiting m).drop n := by
  induction n generalizing m with
  | zero => exact ⟨rfl, rfl⟩
  | succ n ih =>
    cases hpop : m.popNextMcuFrame with
    | none =>
      have hnone := waiting_of_pop_none hpop
      have hrest := ih m
      simp only [popTimes, hpop]
      rw [hnone] at hrest ⊢
      simpa using hrest
    | some p =>
      obtain ⟨cid, frame, m'⟩ := p
      obtain ⟨hfirst, -⟩ := pop_some hpop
      obtain ⟨hframes, hrest⟩ := ih m'
      simp only [popTimes, hpop]
      rw [hfirst, List.take_succ_cons, List.drop_succ_cons, hframes, hrest]
      exact ⟨rfl, rfl⟩

end Pop

/-! ### Runs -/

/-- Whenever a frame was popped, the sessions with lower CIDs had been served entirely. -/
def LowestFirst (history : List (Event UInt16 BkelFrame)) : Prop :=
  ∀ before cid frame after, history = before ++ .take cid frame :: after →
    ∀ c < cid, takenOf c before = putOf c before

theorem LowestFirst.concat {history : List (Event UInt16 BkelFrame)} (h : LowestFirst history)
    {e : Event UInt16 BkelFrame}
    (htake : ∀ cid frame, e = .take cid frame → ∀ c < cid, takenOf c history = putOf c history) :
    LowestFirst (history ++ [e]) := by
  intro before cid frame after heq
  rcases List.eq_nil_or_concat after with rfl | ⟨rest, last, rfl⟩
  · obtain ⟨rfl, hlast⟩ := List.append_inj' heq rfl
    exact htake cid frame (List.cons.inj hlast).1
  · rw [List.concat_eq_append, ← List.cons_append, ← List.append_assoc] at heq
    exact h before cid frame rest (List.append_inj' heq rfl).1

theorem lowestFirst_step {s t : QueueState} {a : QueueAction}
    (haccounts : Accounts s.history (toMcuQueues s.manager)) (h : LowestFirst s.history)
    (hstep : s.step a = some t) : LowestFirst t.history := by
  cases a with
  | addSession _ _ _ | removeSession _ | forwardToMcu _ _ =>
    obtain rfl := Option.some.inj hstep
    exact h.concat fun cid frame he => by cases he
  | onFrame frame =>
    obtain rfl := Option.some.inj hstep
    exact h
  | popNextMcuFrame out =>
    obtain rfl := Option.some.inj hstep
    dsimp only
    cases hpop : s.manager.popNextMcuFrame with
    | none => simpa using h
    | some p =>
      obtain ⟨cid, frame, m'⟩ := p
      refine h.concat fun k f he c hc => ?_
      obtain ⟨rfl, -⟩ := Event.take.inj he
      cases hqueue : toMcuQueues s.manager c with
      | none => rw [takenOf, putOf, haccounts.life_eq_none hqueue]; rfl
      | some queue =>
        have hnil := (pop_some hpop).2 c hc queue hqueue
        rw [← haccounts.takenOf_append hqueue, hnil, List.append_nil]

/-- Whatever the threads do: no frame is popped from a session while one with a lower CID has
frames waiting, and at any time the next pops give what waits in the order of the CIDs, and of
each session in the order in which it was forwarded. -/
theorem lowest_cid_first {s : QueueState} (h : mcuQueues.Reachable s) :
    LowestFirst s.history ∧
    ∀ n, (popTimes n s.manager).1 = (waiting s.manager).take n ∧
      waiting (popTimes n s.manager).2 = (waiting s.manager).drop n := by
  have hinv : Accounts s.history (toMcuQueues s.manager) ∧ LowestFirst s.history :=
    h.invariant (I := fun s => Accounts s.history (toMcuQueues s.manager) ∧ LowestFirst s.history)
      ⟨accounts_init, fun before _ _ _ heq => by cases before <;> cases heq⟩
      fun _ _ _ hI hstep => ⟨accounts_step hI.1 hstep, lowestFirst_step hI.1 hI.2 hstep⟩
  exact ⟨hinv.2, fun n => popTimes_eq n s.manager⟩

/-- The session with CID 9 waits until the one with CID 7 has nothing left. -/
theorem lowest_cid_first_waits :
    ∃ s : QueueState, LowestFirst s.history ∧ (popTimes 3 s.manager).1 =
      [(7, ⟨0x21, 1, 0, 0x70, []⟩), (7, ⟨0x22, 1, 0, 0x70, []⟩), (9, ⟨0x20, 1, 0, 0x90, []⟩)] := by
  obtain ⟨s, hs, hwaiting⟩ := Machine.exists_reachable (M := mcuQueues)
    (fun s => waiting s.manager =
      [(7, ⟨0x21, 1, 0, 0x70, []⟩), (7, ⟨0x22, 1, 0, 0x70, []⟩), (9, ⟨0x20, 1, 0, 0x90, []⟩)])
    [.addSession 9 "10.0.0.9" {}, .forwardToMcu 9 ⟨0x20, 1, 0, 0x90, []⟩,
      .addSession 7 "10.0.0.7" {}, .forwardToMcu 7 ⟨0x20, 1, 0, 0x70, []⟩,
      .popNextMcuFrame ⟨0, 0, 0, 0, []⟩, .forwardToMcu 7 ⟨0x21, 1, 0, 0x70, []⟩,
      .forwardToMcu 7 ⟨0x22, 1, 0, 0x70, []⟩] (by decide +kernel)
  obtain ⟨hfirst, hpops⟩ := lowest_cid_first hs
  refine ⟨s, hfirst, (hpops 3).1.trans ?_⟩
  rw [hwaiting]
  rfl

end SomeIpGateway.McuScheduling
