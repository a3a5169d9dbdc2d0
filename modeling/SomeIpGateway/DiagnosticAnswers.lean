import SomeIpGateway.TrafficInvariant

/-!
# Answers to diagnostic requests

Without loss, every request is handed exactly one answer, in order, although answers
are matched by SID alone and one session's answer may serve another. With losses, the
entry of an unanswered request can stay at the front of a queue.
-/
namespace SomeIpGateway.DiagnosticTraffic
open FrameFormat Sessions StepMachine

/-! ### Without loss, every request is answered once and in order -/

/-- No answer has been missed and no session is blocked. -/
structure Intact (n : Network) : Prop where
  missed : ∀ c, (n.ledger c).missed = []
  unblocked : ∀ c s, n.manager.findSession c = some s → s.isBlocked = false

theorem afterFrame_isBlocked (f : BkelFrame) (s : Session) :
    (afterFrame f s).isBlocked = s.isBlocked := by
  unfold afterFrame Session.routeUartRx
  dsimp only
  split_ifs <;> rfl

theorem Ledger.deliver_missed (l : Ledger) (c : UInt16) (t : Transit) {before : Option Session}
    (after : Option Session) (h : ∀ s, before = some s → s.isBlocked = false) :
    (l.deliver c t before after).missed = l.missed := by
  rcases before with _ | s
  · rfl
  · rcases after with _ | s'
    · rfl
    · simp only [Ledger.deliver, h s rfl]
      split_ifs <;> simp_all

namespace Intact
variable {n n' : Network}

/-- A new ledger, or an update of one, in which nothing is missed. -/
theorem missed_note (h : Intact n) {cid : UInt16} {l : Ledger} (hl : l.missed = []) (c : UInt16) :
    (Function.update n.ledger cid l c).missed = [] :=
  (Function.forall_update_iff n.ledger (fun _ l => l.missed = [])).mpr ⟨hl, fun c _ => h.missed c⟩ c

theorem unblocked_update (h : Intact n) {cid : UInt16} {s' : Session} (hs' : s'.isBlocked = false)
    (c : UInt16) (s : Session) (hs : (n.manager.update cid s').findSession c = some s) :
    s.isBlocked = false := by
  rw [SessionManager.findSession_update] at hs
  split_ifs at hs
  · exact Option.some.inj hs ▸ hs'
  · exact h.unblocked c s hs

theorem addSession (h : Intact n) {cid : UInt16} {ip : String}
    (hstep : n.step (.addSession cid ip) = some n') : Intact n' := by
  simp only [Network.step] at hstep
  cases hfind : n.manager.findSession cid with
  | some s =>
    simp only [hfind, Option.some.injEq] at hstep
    subst hstep
    exact ⟨h.missed, by simpa [SessionManager.addSession, hfind] using h.unblocked⟩
  | none =>
    simp only [hfind, Option.some.injEq] at hstep
    subst hstep
    refine ⟨h.missed_note rfl, ?_⟩
    simp only [Network.note, SessionManager.addSession, hfind]
    exact h.unblocked_update rfl

theorem forward (h : Intact n) {cid : UInt16} {reqFrame : BkelFrame}
    (hstep : n.step (.forward cid reqFrame) = some n') : Intact n' := by
  have hsession (c : UInt16) (s : Session)
      (hs : (n.manager.forwardToMcu cid reqFrame).findSession c = some s) :
      s.isBlocked = false := by
    rw [SessionManager.findSession_forwardToMcu] at hs
    split_ifs at hs with hc hd
    · obtain ⟨s₀, hfind, rfl⟩ := Option.map_eq_some_iff.mp hs
      exact h.unblocked c s₀ hfind
    · obtain ⟨s₀, hfind, rfl⟩ := Option.map_eq_some_iff.mp hs
      exact h.unblocked c s₀ hfind
    · exact h.unblocked c s hs
  simp only [Network.step] at hstep
  split_ifs at hstep <;> obtain rfl := Option.some.inj hstep
  · exact ⟨h.missed_note (h.missed cid), hsession⟩
  · exact ⟨h.missed, hsession⟩

theorem txPop (h : Intact n) (hstep : n.step .txPop = some n') : Intact n' := by
  simp only [Network.step] at hstep
  split at hstep
  · next cid frame manager _ hpop =>
    obtain ⟨s₀, rest, hfind, -, rfl⟩ := SessionManager.popNextMcuFrame_some hpop
    have hopen : ({ s₀ with toMcuQueue := rest } : Session).isBlocked = false :=
      h.unblocked cid s₀ hfind
    split_ifs at hstep <;> obtain rfl := Option.some.inj hstep
    · exact ⟨h.missed_note (h.missed cid), h.unblocked_update hopen⟩
    · exact ⟨h.missed, h.unblocked_update hopen⟩
  · cases hstep

theorem gatewayTakes (h : Intact n) (hstep : n.step .gatewayTakes = some n') : Intact n' := by
  simp only [Network.step] at hstep
  cases hq : n.toGateway with
  | nil => simp [hq] at hstep
  | cons t rest =>
    simp only [hq, Option.some.injEq] at hstep
    subst hstep
    refine ⟨fun c => ?_, fun c s hs => ?_⟩
    · exact ((n.ledger c).deliver_missed c t _ (h.unblocked c)).trans (h.missed c)
    · simp only [findSession_onFrame, Option.map_eq_some_iff] at hs
      obtain ⟨s₀, hfind, rfl⟩ := hs
      exact (afterFrame_isBlocked _ s₀).trans (h.unblocked c s₀ hfind)

/-- Losing nothing keeps the network intact. -/
theorem step (h : Intact n) {a : Action} (ha : a.Lossless) (hstep : n.step a = some n') :
    Intact n' := by
  cases a with
  | addSession cid ip => exact h.addSession hstep
  | removeSession cid =>
    obtain rfl := Option.some.inj hstep
    refine ⟨h.missed, fun c s hs => ?_⟩
    rw [SessionManager.findSession_removeSession] at hs
    split_ifs at hs
    exact h.unblocked c s hs
  | forward cid reqFrame => exact h.forward hstep
  | txPop => exact h.txPop hstep
  | gatewayTakes => exact h.gatewayTakes hstep
  | txWrite =>
    simp only [Network.step, Option.map_eq_some_iff] at hstep
    obtain ⟨t, -, rfl⟩ := hstep
    split_ifs <;> exact ⟨h.missed, h.unblocked⟩
  | requestDiagnostic sid =>
    obtain rfl := Option.some.inj hstep
    exact ⟨h.missed, h.unblocked⟩
  | mcuAnswers answer =>
    simp only [Network.step] at hstep
    split at hstep
    · split_ifs at hstep
      obtain rfl := Option.some.inj hstep
      exact ⟨h.missed, h.unblocked⟩
    · cases hstep
  | mcuIgnores =>
    simp only [Network.step] at hstep
    split at hstep
    · split_ifs at hstep
      obtain rfl := Option.some.inj hstep
      exact ⟨h.missed, h.unblocked⟩
    · cases hstep
  | mcuAdvertises advert =>
    simp only [Network.step] at hstep
    split_ifs at hstep
    obtain rfl := Option.some.inj hstep
    exact ⟨h.missed, h.unblocked⟩
  | setBlocked | writeFails | lostToMcu | lostToGateway => exact absurd ha id

end Intact

theorem intact_of_reachable {n : Network} (h : losslessNetwork.Reachable n) : Intact n :=
  h.restrict_invariant ⟨fun _ => rfl, by simp [network, SessionManager.findSession]⟩
    fun _ _ _ hI ha hstep => hI.step ha hstep

/-- A strictly increasing list that covers an interval up to its bound ends with it. -/
theorem range'_suffix {is : List ℕ} {h p : ℕ} (hsorted : is.Pairwise (· < ·))
    (hbelow : ∀ i ∈ is, i < p) (hall : ∀ i, h ≤ i → i < p → i ∈ is) :
    List.range' h (p - h) <:+ is := by
  induction is with
  | nil =>
    have hge : p - h = 0 := by
      by_contra hne
      exact List.not_mem_nil (hall h le_rfl (by omega))
    rw [hge]
    exact List.nil_suffix
  | cons a is ih =>
    obtain ⟨ha, hsorted'⟩ := List.pairwise_cons.mp hsorted
    by_cases hlt : a < h
    · refine (ih hsorted' (fun i hi => hbelow i (by simp [hi])) fun i hi hip => ?_).trans
        (List.suffix_cons a is)
      exact (List.mem_cons.mp (hall i hi hip)).resolve_left (by omega)
    · -- the list holds nothing below the interval, so it is the interval
      have hmem (i : ℕ) : i ∈ List.range' h (p - h) ↔ i ∈ a :: is := by
        rw [List.mem_range'_1]
        constructor
        · rintro ⟨hi, hip⟩
          exact hall i hi (by omega)
        · intro hi
          have hip := hbelow i hi
          rcases List.mem_cons.mp hi with rfl | hi
          · omega
          · have := ha i hi
            omega
      have hperm := (List.perm_ext_iff_of_nodup List.nodup_range' hsorted.nodup).mpr hmem
      rw [hperm.eq_of_pairwise (fun _ _ _ _ h1 h2 => absurd h1 (lt_asymm h2))
        List.pairwise_lt_range' hsorted]

theorem map_range'_append_drop {α : Type*} (l : List α) (d : α) (h k : ℕ)
    (hle : h + k ≤ l.length) :
    (List.range' h k).map (fun i => l.getD i d) ++ l.drop (h + k) = l.drop h := by
  induction k generalizing h with
  | zero => simp
  | succ k ih =>
    have hlt : h < l.length := by omega
    have htail := ih (h + 1) (by omega)
    rw [show h + 1 + k = h + (k + 1) by omega] at htail
    rw [List.range'_succ, List.map_cons, List.cons_append, htail, List.drop_eq_getElem_cons hlt,
      List.getD_eq_getElem?_getD, List.getElem?_eq_getElem hlt, Option.getD_some]

/-- The SIDs of a session's requests on their way, the next answer first. -/
def Network.ownSids (n : Network) (c : UInt16) : List UInt8 :=
  (n.pipeline.filter fun t => (t.ownIndex c (n.ledger c).life).isSome).map (·.frame.sid)

/-- The SIDs of a session's requests that have not been answered yet, oldest first:
on their way, or still waiting in the session. -/
def Network.outstanding (n : Network) (c : UInt16) (s : Session) : List UInt8 :=
  n.ownSids c ++ (s.toMcuQueue.map BkelFrame.sid).filter isDiagSid

theorem ownSids_eq {n : Network} (h : Inv n) (c : UInt16) :
    n.ownSids c = (inFlight n.pipeline c (n.ledger c).life).map
      (fun i => (n.ledger c).forwarded.getD i 0) := by
  have hknown := fun t ht i (hi : i ∈ t.ownIndex c (n.ledger c).life) =>
    h.flights.known t ht _ (Transit.ownIndex_eq_some.mp hi) rfl
  rw [Network.ownSids, inFlight]
  generalize n.pipeline = ts at hknown
  induction ts with
  | nil => rfl
  | cons t ts ih =>
    have hts := ih fun u hu => hknown u (List.mem_cons_of_mem _ hu)
    cases ho : t.ownIndex c (n.ledger c).life with
    | none => simpa [ho] using hts
    | some i =>
      have hsid := hknown t (by simp) i ho
      simpa [ho, List.getD_eq_getElem?_getD, hsid] using hts

/-- Without loss, what a session still expects is a suffix of what is outstanding. -/
theorem queue_suffix_outstanding {n : Network} (h : Inv n) {c : UInt16} {s : Session}
    (hs : n.manager.findSession c = some s) (hmissed : (n.ledger c).missed = []) :
    s.requestedSidQueue <:+ n.outstanding c s := by
  have hsession := h.session c s hs
  have hle := hsession.popped_le
  rw [Network.outstanding, hsession.queue_eq, hsession.waiting]
  by_cases hlt : (n.ledger c).popped ≤ (n.ledger c).handed.length
  · obtain ⟨k, hk⟩ := Nat.exists_eq_add_of_le hlt
    rw [hk, ← List.drop_drop]
    exact (List.drop_suffix k _).trans (List.suffix_append _ _)
  · -- the requests popped and not handed an answer are all on their way
    have hall (i : ℕ) (hi : (n.ledger c).handed.length ≤ i) (hip : i < (n.ledger c).popped) :
        i ∈ inFlight n.pipeline c (n.ledger c).life := by
      by_contra hout
      rcases hsession.answered i hip hout with hhanded | ⟨m, hm, -⟩
      · omega
      · rw [hmissed] at hm
        cases hm
    obtain ⟨front, hfront⟩ := range'_suffix (h.flights.sorted c) (h.flights.below c) hall
    have hdrop := map_range'_append_drop (n.ledger c).forwarded 0 (n.ledger c).handed.length
      ((n.ledger c).popped - (n.ledger c).handed.length) (by omega)
    rw [show (n.ledger c).handed.length + ((n.ledger c).popped - (n.ledger c).handed.length) =
      (n.ledger c).popped by omega] at hdrop
    rw [ownSids_eq h c, ← hfront, List.map_append, List.append_assoc, hdrop]
    exact List.suffix_append _ _

/-- In every state reached without loss, the frames handed to a present session have
had the SIDs of its diagnostic requests, in order, and what it still expects is the
rest of them; the rest is no more than its requests still outstanding, so that with
none outstanding each request has been handed exactly one answer. -/
theorem every_request_answered_once {n : Network} (h : losslessNetwork.Reachable n)
    {c : UInt16} {s : Session} (hs : n.manager.findSession c = some s) :
    (n.ledger c).handed.map BkelFrame.sid ++ s.requestedSidQueue = (n.ledger c).forwarded ∧
    s.requestedSidQueue <:+ n.outstanding c s ∧
    (n.outstanding c s = [] → s.requestedSidQueue = [] ∧
      (n.ledger c).handed.map BkelFrame.sid = (n.ledger c).forwarded) := by
  have hinv := inv_of_reachable h.of_restrict
  have hqueue := (hinv.session c s hs).queue
  have hsuffix := queue_suffix_outstanding hinv hs ((intact_of_reachable h).missed c)
  refine ⟨hqueue, hsuffix, fun hnone => ?_⟩
  have hnil : s.requestedSidQueue = [] := List.suffix_nil.mp (hnone ▸ hsuffix)
  rw [hnil, List.append_nil] at hqueue
  exact ⟨hnil, hqueue⟩

/-- Two sessions ask for the same value and the menu asks for it too. -/
theorem every_request_answered_once_shared :
    ∃ (n : Network) (s : Session), n.manager.findSession 1 = some s ∧
      (n.ledger 1).forwarded = [0x22, 0x23] ∧
      (n.ledger 1).handed.map BkelFrame.sid = [0x22, 0x23] := by
  have hrun : ((losslessNetwork.run losslessNetwork.init
      [.addSession 1 "a", .addSession 2 "b", .forward 2 ⟨0x22, 1, 0, 0x20, []⟩,
        .requestDiagnostic 0x22, .forward 1 ⟨0x22, 1, 0, 0x10, []⟩,
        .forward 1 ⟨0x23, 1, 0, 0x10, []⟩, .mcuAnswers ⟨0x22, 2, 2, 0x31, [1, 2]⟩, .txPop,
        .gatewayTakes, .txWrite, .txPop, .mcuAnswers ⟨0x22, 2, 2, 0x32, [1, 2]⟩, .txWrite,
        .txPop, .mcuAnswers ⟨0x23, 2, 2, 0x33, [3, 4]⟩, .gatewayTakes, .gatewayTakes, .txWrite,
        .mcuAnswers ⟨0x22, 2, 2, 0x34, [1, 2]⟩, .gatewayTakes]).bind fun n =>
      (n.manager.findSession 1).map fun s => ((n.ledger 1).forwarded, n.outstanding 1 s)) =
      some ([0x22, 0x23], []) := by decide +kernel
  obtain ⟨n, hn, hmap⟩ := Option.bind_eq_some_iff.mp hrun
  obtain ⟨s, hs, heq⟩ := Option.map_eq_some_iff.mp hmap
  obtain ⟨hforwarded, hnone⟩ := Prod.mk.inj heq
  have h := (every_request_answered_once (Machine.reachable_of_run hn) hs).2.2 hnone
  exact ⟨n, s, hs, hforwarded, h.2.trans hforwarded⟩

/-! ### With losses, an unanswered request can cut a session off -/

/-- The front of the session's queue is the entry of an older request than the given
one and has another SID, and that request or one before it was never answered. In a
reachable state the last part follows from the others. -/
def LeftBehind (l : Ledger) (s : Session) (k : ℕ) (sid : UInt8) : Prop :=
  l.handed.length < k ∧ s.getLastRequestedSid ≠ sid ∧ ∃ m ∈ l.missed, m ≤ l.handed.length

instance (l : Ledger) (s : Session) (k : ℕ) (sid : UInt8) : Decidable (LeftBehind l s k sid) :=
  inferInstanceAs (Decidable (_ ∧ _ ∧ _))

/-- In every reachable state, with any losses: when the answer to a present session's
own request is delivered, the session is handed it, or was handed one for that request
before, if and only if no unanswered request was left behind at the front of its queue. -/
theorem answer_reaches_session_iff {n n' : Network} (h : network.Reachable n) {t : Transit}
    (ht : n.toGateway.head? = some t) {c : UInt16} {k : ℕ}
    (howner : t.origin = some ⟨c, (n.ledger c).life, k⟩) {s : Session}
    (hs : n.manager.findSession c = some s) (hopen : s.isBlocked = false)
    (hstep : n.step .gatewayTakes = some n') :
    ((n'.ledger c).handed = (n.ledger c).handed ++ [t.frame] ∨
        k < (n.ledger c).handed.length) ↔
      ¬ LeftBehind (n.ledger c) s k t.frame.sid := by
  have hinv := inv_of_reachable h
  have hsession := hinv.session c s hs
  obtain ⟨rest, hq⟩ := List.head?_eq_some_iff.mp ht
  have hpipe : n.pipeline = t :: (rest ++ n.toMcu ++ n.txFrame.toList) := by
    simp [Network.pipeline, hq]
  have hknown : (n.ledger c).forwarded[k]? = some t.frame.sid :=
    hinv.flights.known t (by simp [hpipe]) _ howner rfl
  have hdiag := ne_of_isDiagSid (hinv.diag c _ (List.mem_of_getElem? hknown))
  -- the front of the queue decides, as the code compares it
  have hfront : (n.ledger c).forwarded[(n.ledger c).handed.length]? = some t.frame.sid ↔
      s.getLastRequestedSid = t.frame.sid := by
    rw [hsession.getLastRequestedSid_eq]
    cases (n.ledger c).forwarded[(n.ledger c).handed.length]? with
    | none => simpa using fun h' => hdiag.1 h'.symm
    | some sid => simp
  have hledger : n'.ledger c = (n.ledger c).deliver c t (some s) (some (afterFrame t.frame s)) := by
    simp only [Network.step, hq, Option.some.injEq] at hstep
    subst hstep
    simp only [findSession_onFrame, hs, Option.map_some]
  have hhanded : (n'.ledger c).handed = (n.ledger c).handed ++ [t.frame] ↔
      s.getLastRequestedSid = t.frame.sid := by
    rw [hledger, ← hfront]
    rcases hsession.deliver_cases (hinv.diag c) c t with ⟨-, hf, -, hl⟩ | ⟨-, hf, -, hl⟩ |
      ⟨hb, -⟩
    · simp [hl, hf]
    · simp [hl, hf]
    · rw [hopen] at hb
      cases hb
  rw [hhanded]
  constructor
  · rintro (hsid | hlt) ⟨hbehind, hne, -⟩
    · exact hne hsid
    · omega
  · intro hnot
    by_contra hneither
    rw [not_or, not_lt] at hneither
    obtain ⟨hne, hle⟩ := hneither
    have hlt : (n.ledger c).handed.length < k := by
      refine lt_of_le_of_ne hle fun heq => hne (hfront.mp ?_)
      rw [heq, hknown]
    -- the requests in between are no longer on their way, so one of them was missed
    have hin : inFlight n.pipeline c (n.ledger c).life =
        k :: inFlight (rest ++ n.toMcu ++ n.txFrame.toList) c (n.ledger c).life := by
      rw [hpipe, inFlight, List.filterMap_cons_some (Transit.ownIndex_eq_some.mpr howner)]
      rfl
    have hsorted := hinv.flights.sorted c
    have hbelow := hinv.flights.below c k
    rw [hin] at hsession hsorted hbelow
    exact hnot ⟨hlt, hne, hsession.missed_of_overtaken hsorted (hbelow (by simp)) hlt⟩

/-- A lost request for another SID leaves nothing behind that stands in the way once
the menu has asked for the same value. -/
theorem answer_reaches_session_iff_cleared :
    ∃ (n n' : Network) (t : Transit), n.step .gatewayTakes = some n' ∧ t.frame.sid = 0x20 ∧
      ((n'.ledger 1).handed = (n.ledger 1).handed ++ [t.frame] ∨
        1 < (n.ledger 1).handed.length) := by
  have hrun : ((network.run network.init
      [.addSession 1 "a", .forward 1 ⟨0x21, 1, 0, 0x10, []⟩, .txPop, .writeFails,
        .requestDiagnostic 0x21, .mcuAnswers ⟨0x21, 2, 2, 0x31, [1, 2]⟩, .gatewayTakes,
        .forward 1 ⟨0x20, 1, 0, 0x10, []⟩, .txPop, .txWrite,
        .mcuAnswers ⟨0x20, 2, 2, 0x32, [3, 4]⟩]).bind fun n =>
      (n.step .gatewayTakes).bind fun _ => n.toGateway.head?.bind fun t =>
      (n.manager.findSession 1).map fun s =>
        (t.frame.sid, t.origin, (n.ledger 1).life, s.isBlocked,
          decide (LeftBehind (n.ledger 1) s 1 0x20))) =
      some (0x20, some ⟨1, 1, 1⟩, 1, false, false) := by decide +kernel
  obtain ⟨n, hn, hstate⟩ := Option.bind_eq_some_iff.mp hrun
  obtain ⟨n', hstep, hstate⟩ := Option.bind_eq_some_iff.mp hstate
  obtain ⟨t, ht, hstate⟩ := Option.bind_eq_some_iff.mp hstate
  obtain ⟨s, hs, hstate⟩ := Option.map_eq_some_iff.mp hstate
  simp only [Prod.mk.injEq, decide_eq_false_iff_not] at hstate
  obtain ⟨hsid, howner, hlife, hopen, hclear⟩ := hstate
  refine ⟨n, n', t, hstep, hsid, ?_⟩
  exact (answer_reaches_session_iff (Machine.reachable_of_run hn) ht (hlife ▸ howner) hs hopen
    hstep).mpr (hsid ▸ hclear)

/-- A session asks for the PWM input, which stays unanswered, and then for the PWM
output: the answer to the second request is not handed to it. -/
theorem unanswered_request_blocks_later_answer :
    ∃ (n n' : Network) (t : Transit) (s : Session), network.Reachable n ∧
      n.toGateway.head? = some t ∧ t.origin = some ⟨1, (n.ledger 1).life, 1⟩ ∧
      n.manager.findSession 1 = some s ∧ s.isBlocked = false ∧
      n.step .gatewayTakes = some n' ∧
      ¬ ((n'.ledger 1).handed = (n.ledger 1).handed ++ [t.frame] ∨
        1 < (n.ledger 1).handed.length) := by
  have hrun : ((network.run network.init
      [.addSession 1 "a", .forward 1 ⟨0x21, 1, 0, 0x10, []⟩, .forward 1 ⟨0x20, 1, 0, 0x10, []⟩,
        .txPop, .txWrite, .lostToMcu 0, .txPop, .txWrite,
        .mcuAnswers ⟨0x20, 2, 2, 0x31, [1, 2]⟩]).bind fun n =>
      (n.step .gatewayTakes).bind fun n' => n.toGateway.head?.bind fun t =>
      (n.manager.findSession 1).map fun s =>
        (t.origin, (n.ledger 1).life, s.isBlocked,
          decide ((n'.ledger 1).handed = (n.ledger 1).handed ++ [t.frame] ∨
            1 < (n.ledger 1).handed.length))) =
      some (some ⟨1, 1, 1⟩, 1, false, false) := by decide +kernel
  obtain ⟨n, hn, hstate⟩ := Option.bind_eq_some_iff.mp hrun
  obtain ⟨n', hstep, hstate⟩ := Option.bind_eq_some_iff.mp hstate
  obtain ⟨t, ht, hstate⟩ := Option.bind_eq_some_iff.mp hstate
  obtain ⟨s, hs, hstate⟩ := Option.map_eq_some_iff.mp hstate
  simp only [Prod.mk.injEq, decide_eq_false_iff_not] at hstate
  obtain ⟨howner, hlife, hopen, hnot⟩ := hstate
  exact ⟨n, n', t, s, Machine.reachable_of_run hn, ht, hlife ▸ howner, hs, hopen, hstep, hnot⟩

end SomeIpGateway.DiagnosticTraffic
