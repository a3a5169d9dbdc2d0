import SomeIpGateway.DiagnosticTraffic

/-!
# The invariant of diagnostic traffic

What holds between a session, its ledger and the frames on their way, in every state
that any steps lead to, lost frames and blocked sessions included. There is one lemma
for each step.
-/
namespace SomeIpGateway.DiagnosticTraffic
open FrameFormat PacketCodec Sessions StepMachine

/-- A present session agrees with its ledger. What is behind the entries already
handed is remembered; what is not yet popped waits for the MCU; and a request that is
popped and no longer on its way has been handed an answer, unless one at or before
it was missed. -/
structure SessionInv (l : Ledger) (flying : List ℕ) (s : Session) : Prop where
  queue : l.handed.map BkelFrame.sid ++ s.requestedSidQueue = l.forwarded
  waiting : (s.toMcuQueue.map BkelFrame.sid).filter isDiagSid = l.forwarded.drop l.popped
  popped_le : l.popped ≤ l.forwarded.length
  small : ∀ f ∈ s.toMcuQueue, f.dlc.toNat ≤ bkelMaxPayload
  answered : ∀ i < l.popped, i ∉ flying → i < l.handed.length ∨ ∃ m ∈ l.missed, m ≤ i

structure Inv (n : Network) : Prop where
  flights : Flights n.ledger n.pipeline
  diag : ∀ c, ∀ sid ∈ (n.ledger c).forwarded, isDiagSid sid
  small : ∀ t ∈ n.txFrame, t.frame.dlc.toNat ≤ bkelMaxPayload
  session : ∀ c s, n.manager.findSession c = some s →
    SessionInv (n.ledger c) (inFlight n.pipeline c (n.ledger c).life) s

theorem ne_of_isDiagSid {sid : UInt8} (h : isDiagSid sid) : sid ≠ 0xFF ∧ sid ≠ 0x01 := by
  constructor <;> rintro rfl <;> exact absurd h (by decide)

namespace SessionInv
variable {l : Ledger} {flying rest : List ℕ} {s : Session}

theorem queue_eq (h : SessionInv l flying s) :
    s.requestedSidQueue = l.forwarded.drop l.handed.length := by
  rw [← h.queue, List.drop_left' (by rw [List.length_map])]

/-- The oldest remembered SID is that of the first request not yet handed an answer. -/
theorem getLastRequestedSid_eq (h : SessionInv l flying s) :
    s.getLastRequestedSid = l.forwarded[l.handed.length]?.getD 0xFF := by
  rw [Session.getLastRequestedSid, h.queue_eq, List.head?_drop]

/-- A session that is not blocked is handed a frame exactly when the frame has the
SID of the first request not yet handed an answer. -/
theorem routeUartRx_cases (h : SessionInv l flying s) (hdiag : ∀ sid ∈ l.forwarded, isDiagSid sid)
    (hopen : s.isBlocked = false) (f : BkelFrame) :
    (l.forwarded[l.handed.length]? = some f.sid ∧
        s.routeUartRx f = (s.sendFrame f).popRequestedSid) ∨
      (l.forwarded[l.handed.length]? ≠ some f.sid ∧ s.routeUartRx f = s) := by
  have hlast := h.getLastRequestedSid_eq
  cases hfront : l.forwarded[l.handed.length]? with
  | none =>
    rw [hfront] at hlast
    exact Or.inr ⟨by simp, by simp [Session.routeUartRx, hopen, hlast]⟩
  | some sid =>
    have hne := (ne_of_isDiagSid (hdiag sid (List.mem_of_getElem? hfront))).1
    rw [hfront] at hlast
    by_cases hsid : sid = f.sid
    · subst hsid
      exact Or.inl ⟨rfl, by simp [Session.routeUartRx, hopen, hlast, hne]⟩
    · exact Or.inr ⟨by simpa using hsid, by simp [Session.routeUartRx, hopen, hlast, hsid]⟩

/-- Where an answer overtakes the first request not yet handed one, that request or
an earlier one was missed. -/
theorem missed_of_overtaken {k : ℕ} (h : SessionInv l (k :: rest) s)
    (hsorted : (k :: rest).Pairwise (· < ·)) (hk : k < l.popped) (hlt : l.handed.length < k) :
    ∃ m ∈ l.missed, m ≤ l.handed.length := by
  have hout : l.handed.length ∉ k :: rest := by
    intro hmem
    rcases List.mem_cons.mp hmem with heq | hin
    · omega
    · have := (List.pairwise_cons.mp hsorted).1 _ hin
      omega
  rcases h.answered l.handed.length (by omega) hout with hself | hmissed
  · exact absurd hself (lt_irrefl _)
  · exact hmissed

end SessionInv

theorem Ledger.miss_eq (l : Ledger) (c : UInt16) (t : Transit) :
    l.miss c t = { l with missed := l.missed ++ (t.ownIndex c l.life).toList } := by
  unfold Ledger.miss Transit.ownIndex
  rcases t with ⟨frame, _ | r⟩
  · simp
  · by_cases hown : r.cid = c ∧ r.life = l.life <;> simp [hown]

theorem Ledger.miss_grows (l : Ledger) (c : UInt16) (t : Transit) : l.Grows (l.miss c t) := by
  rw [Ledger.miss_eq]
  exact ⟨rfl, List.prefix_rfl, le_rfl⟩

theorem Ledger.deliver_fields (l : Ledger) (c : UInt16) (t : Transit)
    (before after : Option Session) :
    (l.deliver c t before after).life = l.life ∧
      (l.deliver c t before after).forwarded = l.forwarded ∧
      (l.deliver c t before after).popped = l.popped := by
  rcases before with _ | s
  · exact ⟨rfl, rfl, rfl⟩
  · rcases after with _ | s'
    · exact ⟨rfl, rfl, rfl⟩
    · unfold Ledger.deliver
      dsimp only
      split_ifs
      · exact ⟨rfl, rfl, rfl⟩
      · rw [Ledger.miss_eq]
        exact ⟨rfl, rfl, rfl⟩
      · exact ⟨rfl, rfl, rfl⟩

/-- The frame lost leaves the flight, and the ledger says so. -/
theorem SessionInv.miss {l : Ledger} {flying rest : List ℕ} {s : Session} {c : UInt16}
    {t : Transit} (h : SessionInv l flying s)
    (hmem : ∀ i ∈ flying, i ∈ rest ∨ i ∈ t.ownIndex c l.life) :
    SessionInv (l.miss c t) rest s := by
  rw [Ledger.miss_eq]
  refine ⟨h.queue, h.waiting, h.popped_le, h.small, ?_⟩
  intro i hi hout
  by_cases hin : i ∈ flying
  · rcases hmem i hin with hrest | hown
    · exact absurd hrest hout
    · exact Or.inr ⟨i, by simp [Option.mem_def.mp hown], le_rfl⟩
  · rcases h.answered i hi hin with hhanded | ⟨m, hm, hle⟩
    · exact Or.inl hhanded
    · exact Or.inr ⟨m, List.mem_append_left _ hm, hle⟩

/-- The session after `onFrame`, as the map's entry. -/
def afterFrame (f : BkelFrame) (s : Session) : Session :=
  if f.sid = 0x01 then s.sendFrame f else s.routeUartRx f

theorem findSession_onFrame (m : SessionManager) (f : BkelFrame) (c : UInt16) :
    (onFrame m f).findSession c = (m.findSession c).map (afterFrame f) := by
  unfold onFrame
  split_ifs with hsid
  · rw [SessionManager.broadcast, SessionManager.findSession_forEach]
    congr 1
    funext s
    rw [afterFrame, if_pos hsid]
  · rw [SessionManager.routeUartRxBySid, SessionManager.findSession_forEach]
    congr 1
    funext s
    rw [afterFrame, if_neg hsid]

namespace SessionInv
variable {l : Ledger} {flying rest : List ℕ} {s : Session} {c : UInt16} {t : Transit}

theorem sendFrame (h : SessionInv l flying s) (f : BkelFrame) :
    SessionInv l flying (s.sendFrame f) :=
  ⟨h.queue, h.waiting, h.popped_le, h.small, h.answered⟩

/-- A frame from the client goes to the back of `toMcuQueue_`, a diagnostic request with
its SID to the back of `requestedSidQueue_` too. -/
theorem enqueueDiag (h : SessionInv l flying s) {f : BkelFrame} (hdiag : isDiagSid f.sid)
    (hsmall : f.dlc.toNat ≤ bkelMaxPayload) :
    SessionInv { l with forwarded := l.forwarded ++ [f.sid] } flying
      ((s.updateLastRequestedSid f.sid).enqueueToMcu f) where
  queue := by
    rw [← h.queue]
    simp [Session.enqueueToMcu, Session.updateLastRequestedSid]
  waiting := by
    rw [List.drop_append_of_le_length h.popped_le, ← h.waiting]
    simp [Session.enqueueToMcu, Session.updateLastRequestedSid, hdiag]
  popped_le := h.popped_le.trans (List.sublist_append_left _ _).length_le
  small := List.forall_mem_append.mpr ⟨h.small, List.forall_mem_singleton.mpr hsmall⟩
  answered := h.answered

theorem enqueueOther (h : SessionInv l flying s) {f : BkelFrame} (hdiag : ¬ isDiagSid f.sid)
    (hsmall : f.dlc.toNat ≤ bkelMaxPayload) : SessionInv l flying (s.enqueueToMcu f) where
  queue := h.queue
  waiting := by
    rw [← h.waiting]
    simp [Session.enqueueToMcu, hdiag]
  popped_le := h.popped_le
  small := List.forall_mem_append.mpr ⟨h.small, List.forall_mem_singleton.mpr hsmall⟩
  answered := h.answered

/-- The first diagnostic request in `toMcuQueue_` is the first one not yet popped. -/
theorem front_eq (h : SessionInv l flying s) {f : BkelFrame} {more : List BkelFrame}
    (hqueue : s.toMcuQueue = f :: more) (hdiag : isDiagSid f.sid) :
    l.forwarded[l.popped]? = some f.sid ∧
      (more.map BkelFrame.sid).filter isDiagSid = l.forwarded.drop (l.popped + 1) := by
  have hwaiting := h.waiting
  rw [hqueue, List.map_cons, List.filter_cons_of_pos hdiag] at hwaiting
  have hlt : l.popped < l.forwarded.length := by
    by_contra hge
    rw [List.drop_eq_nil_of_le (not_lt.mp hge)] at hwaiting
    cases hwaiting
  rw [List.drop_eq_getElem_cons hlt, List.cons.injEq] at hwaiting
  exact ⟨by rw [List.getElem?_eq_getElem hlt, hwaiting.1], hwaiting.2⟩

/-- That request sets out: it is popped, and on its way. -/
theorem popDiag (h : SessionInv l flying s) {f : BkelFrame} {more : List BkelFrame}
    (hqueue : s.toMcuQueue = f :: more) (hdiag : isDiagSid f.sid) :
    SessionInv { l with popped := l.popped + 1 } (flying ++ [l.popped])
      { s with toMcuQueue := more } where
  queue := h.queue
  waiting := (h.front_eq hqueue hdiag).2
  popped_le := (List.getElem?_eq_some_iff.mp (h.front_eq hqueue hdiag).1).1
  small f' hf' := h.small f' (hqueue ▸ List.mem_cons_of_mem _ hf')
  answered i hi hout := by
    rw [List.mem_append, List.mem_singleton, not_or] at hout
    exact h.answered i (lt_of_le_of_ne (Nat.le_of_lt_succ hi) hout.2) hout.1

theorem popOther (h : SessionInv l flying s) {f : BkelFrame} {more : List BkelFrame}
    (hqueue : s.toMcuQueue = f :: more) (hdiag : ¬ isDiagSid f.sid) :
    SessionInv l flying { s with toMcuQueue := more } where
  queue := h.queue
  waiting := by
    have hwaiting := h.waiting
    rwa [hqueue, List.map_cons, List.filter_cons_of_neg hdiag] at hwaiting
  popped_le := h.popped_le
  small f' hf' := h.small f' (hqueue ▸ List.mem_cons_of_mem _ hf')
  answered := h.answered

/-- What a delivery does to a present session and to its ledger. -/
theorem deliver_cases (h : SessionInv l flying s) (hdiag : ∀ sid ∈ l.forwarded, isDiagSid sid)
    (c : UInt16) (t : Transit) :
    (s.isBlocked = false ∧ l.forwarded[l.handed.length]? = some t.frame.sid ∧
      afterFrame t.frame s = (s.sendFrame t.frame).popRequestedSid ∧
      l.deliver c t (some s) (some (afterFrame t.frame s)) =
        { l with handed := l.handed ++ [t.frame] }) ∨
    (s.isBlocked = false ∧ l.forwarded[l.handed.length]? ≠ some t.frame.sid ∧
      (afterFrame t.frame s = s ∨ afterFrame t.frame s = s.sendFrame t.frame) ∧
      l.deliver c t (some s) (some (afterFrame t.frame s)) = l) ∨
    (s.isBlocked = true ∧
      (afterFrame t.frame s = s ∨ afterFrame t.frame s = s.sendFrame t.frame) ∧
      l.deliver c t (some s) (some (afterFrame t.frame s)) = l.miss c t) := by
  by_cases hsid : t.frame.sid = 0x01
  · have hafter : afterFrame t.frame s = s.sendFrame t.frame := if_pos hsid
    have hfront : l.forwarded[l.handed.length]? ≠ some t.frame.sid := fun hf =>
      (ne_of_isDiagSid (hdiag _ (List.mem_of_getElem? hf))).2 hsid
    cases hblocked : s.isBlocked with
    | true => exact Or.inr (Or.inr ⟨rfl, Or.inr hafter, by simp [Ledger.deliver, hsid, hblocked]⟩)
    | false =>
      exact Or.inr (Or.inl ⟨rfl, hfront, Or.inr hafter, by simp [Ledger.deliver, hsid, hblocked]⟩)
  · have hafter : afterFrame t.frame s = s.routeUartRx t.frame := if_neg hsid
    cases hblocked : s.isBlocked with
    | true =>
      have hsame : s.routeUartRx t.frame = s := by simp [Session.routeUartRx, hblocked]
      simp [Ledger.deliver, hafter, hblocked, hsame]
    | false =>
      rcases h.routeUartRx_cases hdiag hblocked t.frame with ⟨hfront, hroute⟩ | ⟨hfront, hroute⟩
      · refine Or.inl ⟨rfl, hfront, hafter.trans hroute, ?_⟩
        simp [Ledger.deliver, hsid, hafter, hroute, Session.popRequestedSid, Session.sendFrame,
          Transport.sendData]
      · refine Or.inr (Or.inl ⟨rfl, hfront, Or.inl (hafter.trans hroute), ?_⟩)
        simp [Ledger.deliver, hafter, hroute, hblocked]

/-- A delivery keeps a present session in agreement with its ledger. -/
theorem deliver (h : SessionInv l flying s) (hdiag : ∀ sid ∈ l.forwarded, isDiagSid sid)
    (hsorted : flying.Pairwise (· < ·)) (hbelow : ∀ i ∈ flying, i < l.popped)
    (hflying : flying = (t.ownIndex c l.life).toList ++ rest)
    (hknown : ∀ k ∈ t.ownIndex c l.life, l.forwarded[k]? = some t.frame.sid) :
    SessionInv (l.deliver c t (some s) (some (afterFrame t.frame s))) rest
      (afterFrame t.frame s) := by
  have hmem (i : ℕ) (hi : i ∈ flying) : i ∈ rest ∨ i ∈ t.ownIndex c l.life := by
    rw [hflying, List.mem_append, Option.mem_toList] at hi
    exact hi.symm
  have hkeep {l' : Ledger} (h' : SessionInv l' rest s)
      (hafter : afterFrame t.frame s = s ∨ afterFrame t.frame s = s.sendFrame t.frame) :
      SessionInv l' rest (afterFrame t.frame s) := by
    rcases hafter with heq | heq <;> rw [heq]
    exacts [h', h'.sendFrame _]
  -- an answer to an own request that was not handed before is handed now, or something was missed
  have hown (k : ℕ) (hk : k ∈ t.ownIndex c l.life) :
      k < l.handed.length ∨ k = l.handed.length ∨ ∃ m ∈ l.missed, m ≤ k := by
    rcases lt_trichotomy k l.handed.length with hlt | heq | hgt
    · exact Or.inl hlt
    · exact Or.inr (Or.inl heq)
    · rw [Option.mem_def.mp hk, Option.toList_some, List.singleton_append] at hflying
      subst hflying
      obtain ⟨m, hm, hle⟩ := h.missed_of_overtaken hsorted (hbelow k (by simp)) hgt
      exact Or.inr (Or.inr ⟨m, hm, hle.trans hgt.le⟩)
  rcases h.deliver_cases hdiag c t with ⟨-, hfront, hafter, hl⟩ | ⟨-, hfront, hafter, hl⟩ |
      ⟨-, hafter, hl⟩
  · -- handed
    obtain ⟨hlt, hget⟩ := List.getElem?_eq_some_iff.mp hfront
    rw [hl, hafter]
    refine ⟨?_, h.waiting, h.popped_le, h.small, ?_⟩
    · have hqueue := h.queue_eq
      rw [List.drop_eq_getElem_cons hlt, hget] at hqueue
      rw [← h.queue]
      simp [Session.popRequestedSid, Session.sendFrame, hqueue]
    · intro i hi hout
      have hcases : i < l.handed.length + 1 ∨ ∃ m ∈ l.missed, m ≤ i := by
        by_cases hin : i ∈ flying
        · rcases hown i ((hmem i hin).resolve_left hout) with hlt | heq | hmissed
          exacts [Or.inl (by omega), Or.inl (by omega), Or.inr hmissed]
        · exact (h.answered i hi hin).imp_left (fun hlt => by omega)
      simpa using hcases
  · -- passed over
    rw [hl]
    refine hkeep ⟨h.queue, h.waiting, h.popped_le, h.small, fun i hi hout => ?_⟩ hafter
    by_cases hin : i ∈ flying
    · have hk := (hmem i hin).resolve_left hout
      rcases hown i hk with hlt | heq | hmissed
      · exact Or.inl hlt
      · exact absurd (heq ▸ hknown i hk) hfront
      · exact Or.inr hmissed
    · exact h.answered i hi hin
  · -- blocked
    rw [hl]
    exact hkeep (h.miss hmem) hafter

end SessionInv

/-! ### Every step keeps the invariant -/

namespace Inv
variable {n n' : Network}

theorem init : Inv {} where
  flights := ⟨by simp [Network.pipeline], by simp [Network.pipeline],
    by simp [Network.pipeline, inFlight], by simp [Network.pipeline, inFlight]⟩
  diag := by simp
  small := by simp
  session := by simp [SessionManager.findSession]

/-- A frame leaves the pipeline, and the ledgers say so. -/
theorem lose (h : Inv n) {t : Transit} (hman : n'.manager = n.manager)
    (hledger : n'.ledger = fun c => (n.ledger c).miss c t)
    (htx : ∀ u ∈ n'.txFrame, u ∈ n.txFrame)
    (hsub : n'.pipeline.Sublist n.pipeline)
    (hmem : ∀ u ∈ n.pipeline, u ∈ n'.pipeline ∨ u = t) : Inv n' := by
  have hlife (c : UInt16) : ((n.ledger c).miss c t).life = (n.ledger c).life :=
    ((n.ledger c).miss_grows c t).life
  refine ⟨?_, ?_, fun u hu => h.small u (htx u hu), ?_⟩
  · rw [hledger]
    exact (h.flights.sublist hsub).grow fun c => (n.ledger c).miss_grows c t
  · intro c
    simp only [hledger, Ledger.miss_eq]
    exact h.diag c
  · intro c s hs
    rw [hman] at hs
    rw [hledger, hlife]
    refine (h.session c s hs).miss fun i hi => ?_
    obtain ⟨u, hu, ho⟩ := mem_inFlight.mp hi
    rcases hmem u hu with hin | rfl
    · exact Or.inl (mem_inFlight.mpr ⟨u, hin, ho⟩)
    · exact Or.inr (Transit.ownIndex_eq_some.mpr ho)

/-- The frames on their way change, but not which requests they belong to. -/
theorem reroute (h : Inv n) (hman : n'.manager = n.manager) (hledger : n'.ledger = n.ledger)
    (htx : ∀ u ∈ n'.txFrame, u ∈ n.txFrame) (hflights : Flights n.ledger n'.pipeline)
    (hsame : ∀ c life, inFlight n'.pipeline c life = inFlight n.pipeline c life) : Inv n' where
  flights := hledger ▸ hflights
  diag := hledger ▸ h.diag
  small u hu := h.small u (htx u hu)
  session c s hs := by
    rw [hledger, hsame]
    exact h.session c s (hman ▸ hs)

/-- A frame that belongs to no request enters the pipeline. -/
theorem enters (h : Inv n) (hman : n'.manager = n.manager) (hledger : n'.ledger = n.ledger)
    (htx : ∀ u ∈ n'.txFrame, u ∈ n.txFrame) (before after : List Transit) (frame : BkelFrame)
    (hpipe : n.pipeline = before ++ after)
    (hpipe' : n'.pipeline = before ++ [⟨frame, none⟩] ++ after) : Inv n' := by
  refine h.reroute hman hledger htx ?_ ?_
  · rw [hpipe']
    exact Flights.insert (hpipe ▸ h.flights) frame
  · intro c life
    simp [hpipe, hpipe']

/-- The sessions change, but neither their ledgers nor what is on its way. -/
theorem rebuild (h : Inv n) (hledger : n'.ledger = n.ledger) (hpipe : n'.pipeline = n.pipeline)
    (htx : ∀ u ∈ n'.txFrame, u ∈ n.txFrame)
    (hsession : ∀ c s, n'.manager.findSession c = some s →
      SessionInv (n.ledger c) (inFlight n.pipeline c (n.ledger c).life) s) : Inv n' where
  flights := by rw [hledger, hpipe]; exact h.flights
  diag := hledger ▸ h.diag
  small u hu := h.small u (htx u hu)
  session c s hs := by
    rw [hledger, hpipe]
    exact hsession c s hs

/-- With the ledger of one session replaced, its own part of the invariant is to be shown. -/
theorem diag_note (h : Inv n) {cid : UInt16} {l : Ledger}
    (hl : ∀ sid ∈ l.forwarded, isDiagSid sid) (c : UInt16) :
    ∀ sid ∈ (Function.update n.ledger cid l c).forwarded, isDiagSid sid :=
  (Function.forall_update_iff n.ledger (fun _ l => ∀ sid ∈ l.forwarded, isDiagSid sid)).mpr
    ⟨hl, fun c _ => h.diag c⟩ c

theorem addSession (h : Inv n) {cid : UInt16} {ip : String}
    (hstep : n.step (.addSession cid ip) = some n') : Inv n' := by
  simp only [Network.step] at hstep
  cases hfind : n.manager.findSession cid with
  | some s =>
    have hsame : n.manager.addSession cid ip {} = n.manager := by
      simp [SessionManager.addSession, hfind]
    simp only [hfind, hsame, Option.some.injEq] at hstep
    exact hstep ▸ h.rebuild rfl rfl (fun _ hu => hu) h.session
  | none =>
    simp only [hfind, Option.some.injEq] at hstep
    subst hstep
    refine ⟨h.flights.renew rfl, h.diag_note (by simp), h.small, fun c s hs => ?_⟩
    simp only [Network.note, SessionManager.addSession, hfind,
      SessionManager.findSession_update] at hs
    by_cases hc : c = cid
    · subst hc
      simp only [if_true, Option.some.injEq] at hs
      subst hs
      simp only [Network.note, Function.update_self]
      exact ⟨rfl, rfl, le_rfl, by simp [Session.startTransport], by simp⟩
    · simp only [Ne.symm hc, if_false] at hs
      simp only [Network.note, Function.update_of_ne hc]
      exact h.session c s hs

theorem removeSession (h : Inv n) {cid : UInt16}
    (hstep : n.step (.removeSession cid) = some n') : Inv n' := by
  simp only [Network.step, Option.some.injEq] at hstep
  subst hstep
  refine h.rebuild rfl rfl (fun _ hu => hu) fun c s hs => ?_
  rw [SessionManager.findSession_removeSession] at hs
  split_ifs at hs
  exact h.session c s hs

theorem setBlocked (h : Inv n) {cid : UInt16} {blocked : Bool}
    (hstep : n.step (.setBlocked cid blocked) = some n') : Inv n' := by
  simp only [Network.step, Option.map_eq_some_iff] at hstep
  obtain ⟨s₀, hfind, rfl⟩ := hstep
  refine h.rebuild rfl rfl (fun _ hu => hu) fun c s hs => ?_
  rw [SessionManager.findSession_update] at hs
  split_ifs at hs with hc
  · subst hc
    obtain rfl := Option.some.inj hs
    have h₀ := h.session cid s₀ hfind
    exact ⟨h₀.queue, h₀.waiting, h₀.popped_le, h₀.small, h₀.answered⟩
  · exact h.session c s hs

theorem forward (h : Inv n) {cid : UInt16} {reqFrame : BkelFrame}
    (hstep : n.step (.forward cid reqFrame) = some n') : Inv n' := by
  simp only [Network.step] at hstep
  split_ifs at hstep with hsize hdiag
  · obtain ⟨hsome, hdiag⟩ := hdiag
    obtain rfl := Option.some.inj hstep
    refine ⟨h.flights.grow (Ledger.Grows.update ⟨rfl, List.prefix_append _ _, le_rfl⟩),
      h.diag_note ?_, h.small, fun c s hs => ?_⟩
    · exact List.forall_mem_append.mpr ⟨h.diag cid, List.forall_mem_singleton.mpr hdiag⟩
    · simp only [Network.note, SessionManager.findSession_forwardToMcu] at hs
      by_cases hc : c = cid
      · subst hc
        simp only [if_true, hdiag, Option.map_eq_some_iff] at hs
        obtain ⟨s₀, hfind, rfl⟩ := hs
        simp only [Network.note, Function.update_self]
        exact (h.session c s₀ hfind).enqueueDiag hdiag hsize.2
      · simp only [Ne.symm hc, if_false] at hs
        simp only [Network.note, Function.update_of_ne hc]
        exact h.session c s hs
  · obtain rfl := Option.some.inj hstep
    refine h.rebuild rfl rfl (fun _ hu => hu) fun c s hs => ?_
    rw [SessionManager.findSession_forwardToMcu] at hs
    split_ifs at hs with hc hd
    · subst hc
      obtain ⟨s₀, hfind, -⟩ := Option.map_eq_some_iff.mp hs
      exact absurd ⟨by rw [hfind]; rfl, hd⟩ hdiag
    · subst hc
      obtain ⟨s₀, hfind, rfl⟩ := Option.map_eq_some_iff.mp hs
      exact (h.session cid s₀ hfind).enqueueOther hd hsize.2
    · exact h.session c s hs

/-- `txWorker` pops a diagnostic request: it is the next of its session to set out. -/
theorem popDiag (h : Inv n) (htx : n.txFrame = none) {cid : UInt16} {frame : BkelFrame}
    {s₀ : Session} {rest : List BkelFrame} (hfind : n.manager.findSession cid = some s₀)
    (hqueue : s₀.toMcuQueue = frame :: rest) (hdiag : isDiagSid frame.sid) :
    Inv ({ n with
      manager := n.manager.update cid { s₀ with toMcuQueue := rest }
      txFrame := some ⟨frame, some ⟨cid, (n.ledger cid).life, (n.ledger cid).popped⟩⟩ }.note cid
        { n.ledger cid with popped := (n.ledger cid).popped + 1 }) := by
  have h₀ := h.session cid s₀ hfind
  have hpipe : n.pipeline = n.toGateway ++ n.toMcu := by simp [Network.pipeline, htx]
  refine ⟨?_, h.diag_note (h.diag cid), ?_, ?_⟩
  · have hflights := h.flights.launch (h₀.front_eq hqueue hdiag).1
    rw [hpipe] at hflights
    exact hflights
  · simpa [Network.note] using h₀.small frame (by simp [hqueue])
  · intro c s hs
    simp only [Network.note, SessionManager.findSession_update] at hs
    simp only [Network.note, Network.pipeline, Option.toList_some, inFlight_append]
    rw [← inFlight_append, ← hpipe]
    by_cases hc : c = cid
    · subst hc
      obtain rfl := Option.some.inj ((if_pos rfl).symm.trans hs)
      simp only [Function.update_self]
      have hown : inFlight [⟨frame, some ⟨c, (n.ledger c).life, (n.ledger c).popped⟩⟩] c
          (n.ledger c).life = [(n.ledger c).popped] := by simp [inFlight, Transit.ownIndex]
      rw [hown]
      exact h₀.popDiag hqueue hdiag
    · rw [if_neg (Ne.symm hc)] at hs
      have hnone : inFlight [⟨frame, some ⟨cid, (n.ledger cid).life, (n.ledger cid).popped⟩⟩] c
          (n.ledger c).life = [] := by
        simp [inFlight, Transit.ownIndex, Ne.symm hc]
      rw [Function.update_of_ne hc, hnone, List.append_nil]
      exact h.session c s hs

/-- `txWorker` pops any other frame. -/
theorem popOther (h : Inv n) (htx : n.txFrame = none) {cid : UInt16} {frame : BkelFrame}
    {s₀ : Session} {rest : List BkelFrame} (hfind : n.manager.findSession cid = some s₀)
    (hqueue : s₀.toMcuQueue = frame :: rest) (hdiag : ¬ isDiagSid frame.sid) :
    Inv { n with
      manager := n.manager.update cid { s₀ with toMcuQueue := rest }
      txFrame := some ⟨frame, none⟩ } := by
  have h₀ := h.session cid s₀ hfind
  have hpipe : n.pipeline = n.toGateway ++ n.toMcu := by simp [Network.pipeline, htx]
  have hflights : Flights n.ledger (n.pipeline ++ [⟨frame, none⟩] ++ []) :=
    Flights.insert (by rw [List.append_nil]; exact h.flights) frame
  have hsame (c : UInt16) (life : ℕ) :
      inFlight (n.pipeline ++ [⟨frame, none⟩]) c life = inFlight n.pipeline c life := by
    simp [inFlight, Transit.ownIndex]
  rw [List.append_nil] at hflights
  rw [hpipe] at hflights hsame
  refine ⟨hflights, h.diag, by simpa using h₀.small frame (by simp [hqueue]), fun c s hs => ?_⟩
  simp only [SessionManager.findSession_update] at hs
  simp only [Network.pipeline, Option.toList_some, hsame]
  rw [← hpipe]
  split_ifs at hs with hc
  · subst hc
    obtain rfl := Option.some.inj hs
    exact h₀.popOther hqueue hdiag
  · exact h.session c s hs

theorem txPop (h : Inv n) (hstep : n.step .txPop = some n') : Inv n' := by
  simp only [Network.step] at hstep
  cases htx : n.txFrame with
  | some t => simp [htx] at hstep
  | none =>
    cases hpop : n.manager.popNextMcuFrame with
    | none => simp [htx, hpop] at hstep
    | some popped =>
      obtain ⟨cid, frame, manager⟩ := popped
      obtain ⟨s₀, rest, hfind, hqueue, rfl⟩ := SessionManager.popNextMcuFrame_some hpop
      simp only [htx, hpop] at hstep
      split_ifs at hstep with hdiag <;> obtain rfl := Option.some.inj hstep
      · exact h.popDiag htx hfind hqueue hdiag
      · exact h.popOther htx hfind hqueue hdiag

theorem txWrite (h : Inv n) (hstep : n.step .txWrite = some n') : Inv n' := by
  simp only [Network.step, Option.map_eq_some_iff] at hstep
  obtain ⟨t, htx, hn'⟩ := hstep
  have hlen : ¬ bkelMaxPayload < t.frame.dlc.toNat := not_lt.mpr (h.small t htx)
  have hdata : buildFrame t.frame.sid t.frame.type (some t.frame.payload) t.frame.dlc
      t.frame.cid ≠ [] := by
    rw [buildFrame, if_neg hlen, if_neg (by simp)]
    simp
  rw [if_pos hdata] at hn'
  subst hn'
  have hpipe : Network.pipeline { n with txFrame := none, toMcu := n.toMcu ++ [t] } =
      n.pipeline := by simp [Network.pipeline, htx]
  exact h.rebuild rfl hpipe (by simp) h.session

theorem requestDiagnostic (h : Inv n) {sid : UInt8}
    (hstep : n.step (.requestDiagnostic sid) = some n') : Inv n' := by
  obtain rfl := Option.some.inj hstep
  refine h.enters rfl rfl (fun u hu => hu) (n.toGateway ++ n.toMcu) n.txFrame.toList
    ⟨sid, 0x01, 1, n.currentCid, [0x00]⟩ rfl ?_
  simp [Network.pipeline]

theorem mcuAnswers (h : Inv n) {answer : BkelFrame}
    (hstep : n.step (.mcuAnswers answer) = some n') : Inv n' := by
  simp only [Network.step] at hstep
  cases hq : n.toMcu with
  | nil => simp [hq] at hstep
  | cons t rest =>
    simp only [hq] at hstep
    split_ifs at hstep with hok
    obtain rfl := Option.some.inj hstep
    have hpipe : n.pipeline = n.toGateway ++ t :: (rest ++ n.txFrame.toList) := by
      simp [Network.pipeline, hq]
    have hflights := Flights.replace (hpipe ▸ h.flights) hok.2
    refine h.reroute rfl rfl (fun u hu => hu) ?_ ?_
    · simpa [Network.pipeline] using hflights
    · intro c life
      simp [Network.pipeline, hq, inFlight, Transit.ownIndex, List.filterMap_cons]

theorem mcuIgnores (h : Inv n) (hstep : n.step .mcuIgnores = some n') : Inv n' := by
  simp only [Network.step] at hstep
  cases hq : n.toMcu with
  | nil => simp [hq] at hstep
  | cons t rest =>
    simp only [hq] at hstep
    split_ifs at hstep with hdiag
    obtain rfl := Option.some.inj hstep
    have hpipe : n.pipeline = n.toGateway ++ t :: (rest ++ n.txFrame.toList) := by
      simp [Network.pipeline, hq]
    -- a frame that is no diagnostic request belongs to no request of a present session
    have hown (c : UInt16) : t.ownIndex c (n.ledger c).life = none := by
      rw [Option.eq_none_iff_forall_ne_some]
      intro i hi
      have hk := h.flights.known t (by simp [hpipe]) _ (Transit.ownIndex_eq_some.mp hi) rfl
      exact hdiag (h.diag c _ (List.mem_of_getElem? hk))
    refine h.lose (t := t) rfl ?_ (fun u hu => hu) ?_ ?_
    · funext c
      simp [Ledger.miss_eq, hown c]
    · simp [Network.pipeline, hq]
    · simp only [hpipe]
      simp [Network.pipeline]
      tauto

theorem mcuAdvertises (h : Inv n) {advert : BkelFrame}
    (hstep : n.step (.mcuAdvertises advert) = some n') : Inv n' := by
  simp only [Network.step] at hstep
  split_ifs at hstep
  obtain rfl := Option.some.inj hstep
  refine h.enters rfl rfl (fun u hu => hu) n.toGateway (n.toMcu ++ n.txFrame.toList) advert ?_ ?_
  · simp [Network.pipeline]
  · simp [Network.pipeline]

theorem writeFails (h : Inv n) (hstep : n.step .writeFails = some n') : Inv n' := by
  simp only [Network.step, Option.map_eq_some_iff] at hstep
  obtain ⟨t, htx, rfl⟩ := hstep
  refine h.lose (t := t) rfl rfl (by simp [Network.miss]) ?_ ?_
  · simp [Network.pipeline, Network.miss, htx]
  · simp [Network.pipeline, Network.miss, htx]
    tauto

theorem mem_eraseIdx_or_eq {ts : List Transit} {i : ℕ} {t : Transit} (ht : ts[i]? = some t)
    (u : Transit) (hu : u ∈ ts) : u ∈ ts.eraseIdx i ∨ u = t := by
  obtain ⟨hi, rfl⟩ := List.getElem?_eq_some_iff.mp ht
  rw [← List.take_append_drop i ts, List.drop_eq_getElem_cons hi, List.mem_append,
    List.mem_cons] at hu
  rw [List.eraseIdx_eq_take_drop_succ, List.mem_append]
  tauto

/-- Behind a frame that is lost, the rest of the pipeline is as before. -/
theorem lost_or_eq (before after : List Transit) {ts : List Transit} {i : ℕ} {t : Transit}
    (ht : ts[i]? = some t) (u : Transit) (hu : u ∈ before ++ ts ++ after) :
    u ∈ before ++ ts.eraseIdx i ++ after ∨ u = t := by
  have hmem := mem_eraseIdx_or_eq ht u
  simp only [List.mem_append] at hu ⊢
  tauto

theorem lostToMcu (h : Inv n) {i : ℕ} (hstep : n.step (.lostToMcu i) = some n') : Inv n' := by
  simp only [Network.step, Option.map_eq_some_iff] at hstep
  obtain ⟨t, ht, rfl⟩ := hstep
  have herase := List.eraseIdx_sublist n.toMcu i
  refine h.lose (t := t) rfl rfl (fun u hu => hu) ?_ ?_
  · exact ((List.Sublist.refl n.toGateway).append herase).append (List.Sublist.refl _)
  · exact lost_or_eq n.toGateway n.txFrame.toList ht

theorem lostToGateway (h : Inv n) {i : ℕ} (hstep : n.step (.lostToGateway i) = some n') :
    Inv n' := by
  simp only [Network.step, Option.map_eq_some_iff] at hstep
  obtain ⟨t, ht, rfl⟩ := hstep
  have herase := List.eraseIdx_sublist n.toGateway i
  refine h.lose (t := t) rfl rfl (fun u hu => hu) ?_ ?_
  · exact (herase.append (List.Sublist.refl n.toMcu)).append (List.Sublist.refl _)
  · intro u hu
    have hlost := lost_or_eq [] (n.toMcu ++ n.txFrame.toList) ht u
    simp only [Network.pipeline, Network.miss, List.append_assoc, List.nil_append] at hu hlost ⊢
    exact hlost hu

theorem gatewayTakes (h : Inv n) (hstep : n.step .gatewayTakes = some n') : Inv n' := by
  simp only [Network.step] at hstep
  cases hq : n.toGateway with
  | nil => simp [hq] at hstep
  | cons t rest =>
    simp only [hq, Option.some.injEq] at hstep
    subst hstep
    have hpipe : n.pipeline = t :: (rest ++ n.toMcu ++ n.txFrame.toList) := by
      simp [Network.pipeline, hq]
    have hflights := h.flights
    rw [hpipe] at hflights
    refine ⟨(hflights.sublist (List.sublist_cons_self _ _)).grow fun c => ?_, ?_, h.small, ?_⟩
    · obtain ⟨hlife, hforwarded, hpopped⟩ := (n.ledger c).deliver_fields c t
        (n.manager.findSession c) ((onFrame n.manager t.frame).findSession c)
      exact ⟨hlife, hforwarded ▸ List.prefix_rfl, hpopped.ge⟩
    · intro c sid hsid
      rw [((n.ledger c).deliver_fields c t _ _).2.1] at hsid
      exact h.diag c sid hsid
    · intro c s hs
      simp only [findSession_onFrame, Option.map_eq_some_iff] at hs
      obtain ⟨s₀, hfind, rfl⟩ := hs
      have h₀ := h.session c s₀ hfind
      have hlife := ((n.ledger c).deliver_fields c t (some s₀) (some (afterFrame t.frame s₀))).1
      simp only [findSession_onFrame, hfind, Option.map_some]
      rw [hlife]
      rw [hpipe] at h₀
      refine h₀.deliver (h.diag c) (hflights.sorted c) (hflights.below c) ?_ ?_
      · rw [inFlight, List.filterMap_cons]
        cases t.ownIndex c (n.ledger c).life <;> rfl
      · intro k hk
        have ho := Transit.ownIndex_eq_some.mp hk
        exact hflights.known t (by simp) _ ho rfl

theorem step (h : Inv n) {a : Action} (hstep : n.step a = some n') : Inv n' := by
  cases a with
  | addSession cid ip => exact h.addSession hstep
  | removeSession cid => exact h.removeSession hstep
  | forward cid reqFrame => exact h.forward hstep
  | txPop => exact h.txPop hstep
  | txWrite => exact h.txWrite hstep
  | requestDiagnostic sid => exact h.requestDiagnostic hstep
  | mcuAnswers answer => exact h.mcuAnswers hstep
  | mcuIgnores => exact h.mcuIgnores hstep
  | mcuAdvertises advert => exact h.mcuAdvertises hstep
  | gatewayTakes => exact h.gatewayTakes hstep
  | setBlocked cid blocked => exact h.setBlocked hstep
  | writeFails => exact h.writeFails hstep
  | lostToMcu i => exact h.lostToMcu hstep
  | lostToGateway i => exact h.lostToGateway hstep

end Inv

theorem inv_of_reachable {n : Network} (h : network.Reachable n) : Inv n :=
  h.invariant Inv.init fun _ _ _ hI hstep => hI.step hstep

end SomeIpGateway.DiagnosticTraffic
