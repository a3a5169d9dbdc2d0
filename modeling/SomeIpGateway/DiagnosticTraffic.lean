import SomeIpGateway.Sessions
import SomeIpGateway.StepMachine

/-!
# Diagnostic traffic between clients, gateway and MCU

The manager, `txWorker` with the frame it has popped, the UART in both directions
and the MCU, as one machine. Clients forward frames, sessions come and go, and the
gateway's own test menu sends requests that the MCU answers too. A frame on its way
carries the request it belongs to, and a ledger records, for the session of each
CID, what it forwarded and what it was handed; neither takes part in a decision.
-/
namespace SomeIpGateway.DiagnosticTraffic
open FrameFormat PacketCodec Sessions StepMachine

/-- A diagnostic request: the CID, which of the successive sessions under it, and
the position among the requests of that session. -/
structure Request where
  cid : UInt16
  life : ℕ
  index : ℕ
  deriving Repr, DecidableEq

/-- A frame on its way, with the request it is or answers. -/
structure Transit where
  frame : BkelFrame
  origin : Option Request
  deriving Repr, DecidableEq

/-- The history of the session now or last present under a CID: the SIDs of the
diagnostic requests it forwarded, how many of them `txWorker` has popped, the frames
handed to its transport by `routeUartRxBySid`, and the requests whose answer was
lost or came while the session was blocked. -/
structure Ledger where
  life : ℕ := 0
  forwarded : List UInt8 := []
  popped : ℕ := 0
  handed : List BkelFrame := []
  missed : List ℕ := []

structure Network where
  manager : SessionManager := {}
  txFrame : Option Transit := none
  toMcu : List Transit := []
  toGateway : List Transit := []
  currentCid : UInt16 := 0
  ledger : UInt16 → Ledger := fun _ => {}

inductive Action where
  | addSession (cid : UInt16) (ip : String)
  | removeSession (cid : UInt16)
  | forward (cid : UInt16) (reqFrame : BkelFrame)
  | txPop
  | txWrite
  | requestDiagnostic (sid : UInt8)
  | mcuAnswers (answer : BkelFrame)
  | mcuIgnores
  | mcuAdvertises (advert : BkelFrame)
  | gatewayTakes
  | setBlocked (cid : UInt16) (blocked : Bool)
  | writeFails
  | lostToMcu (i : ℕ)
  | lostToGateway (i : ℕ)
  deriving Repr, DecidableEq

/-- No frame is lost and no session is blocked. -/
def Action.Lossless : Action → Prop
  | .setBlocked _ _ | .writeFails | .lostToMcu _ | .lostToGateway _ => False
  | _ => True

instance (a : Action) : Decidable a.Lossless := by
  cases a <;> unfold Action.Lossless <;> infer_instance

/-- Record in the ledger that a frame will not reach the session it is for. -/
def Ledger.miss (l : Ledger) (c : UInt16) (t : Transit) : Ledger :=
  match t.origin with
  | some r => if r.cid = c ∧ r.life = l.life then { l with missed := l.missed ++ [r.index] } else l
  | none => l

/-- Record the effect of a delivery on one session: a buffer queued by routing is a
frame handed to it. -/
def Ledger.deliver (l : Ledger) (c : UInt16) (t : Transit) (before after : Option Session) :
    Ledger :=
  match before, after with
  | some s, some s' =>
    if t.frame.sid ≠ 0x01 ∧ s.transport.txQueue.length < s'.transport.txQueue.length then
      { l with handed := l.handed ++ [t.frame] }
    else if s.isBlocked then l.miss c t
    else l
  | _, _ => l

namespace Network

/-- Change the ledger of one CID. -/
def note (n : Network) (cid : UInt16) (l : Ledger) : Network :=
  { n with ledger := Function.update n.ledger cid l }

def miss (n : Network) (t : Transit) : Network :=
  { n with ledger := fun c => (n.ledger c).miss c t }

/-- The frames on their way, the next one to be delivered first. -/
def pipeline (n : Network) : List Transit := n.toGateway ++ n.toMcu ++ n.txFrame.toList

def step (n : Network) : Action → Option Network
  | .addSession cid ip =>
    let n' := { n with manager := n.manager.addSession cid ip {} }
    match n.manager.findSession cid with
    | none => some (n'.note cid { life := (n.ledger cid).life + 1 })
    | some _ => some n'
  | .removeSession cid => some { n with manager := n.manager.removeSession cid }
  | .forward cid reqFrame =>
    -- `rxLoop` reads as many payload bytes as the DLC says and gives up beyond the limit
    if reqFrame.WellFormed ∧ reqFrame.dlc.toNat ≤ bkelMaxPayload then
      let n' := { n with manager := n.manager.forwardToMcu cid reqFrame }
      let l := n.ledger cid
      if (n.manager.findSession cid).isSome ∧ isDiagSid reqFrame.sid then
        some (n'.note cid { l with forwarded := l.forwarded ++ [reqFrame.sid] })
      else some n'
    else none
  | .txPop =>
    match n.txFrame, n.manager.popNextMcuFrame with
    | none, some (cid, frame, manager) =>
      let l := n.ledger cid
      if isDiagSid frame.sid then
        some ({ n with manager, txFrame := some ⟨frame, some ⟨cid, l.life, l.popped⟩⟩ }.note cid
          { l with popped := l.popped + 1 })
      else some { n with manager, txFrame := some ⟨frame, none⟩ }
    | _, _ => none
  | .txWrite =>
    n.txFrame.map fun t =>
      let f := t.frame
      let data := buildFrame f.sid f.type (some f.payload) f.dlc f.cid
      if data ≠ [] then { n with txFrame := none, toMcu := n.toMcu ++ [t] }
      else { n with txFrame := none }
  | .requestDiagnostic sid =>
    some { n with
      currentCid := n.currentCid + 1
      toMcu := n.toMcu ++ [⟨⟨sid, 0x01, 1, n.currentCid, [0x00]⟩, none⟩] }
  | .mcuAnswers answer =>
    match n.toMcu with
    | t :: rest =>
      if isDiagSid t.frame.sid ∧ answer.sid = t.frame.sid then
        some { n with toMcu := rest, toGateway := n.toGateway ++ [⟨answer, t.origin⟩] }
      else none
    | [] => none
  | .mcuIgnores =>
    match n.toMcu with
    | t :: rest => if isDiagSid t.frame.sid then none else some { n with toMcu := rest }
    | [] => none
  | .mcuAdvertises advert =>
    if advert.sid = 0x01 then some { n with toGateway := n.toGateway ++ [⟨advert, none⟩] }
    else none
  | .gatewayTakes =>
    match n.toGateway with
    | t :: rest =>
      let manager := onFrame n.manager t.frame
      some { n with
        manager
        toGateway := rest
        ledger := fun c =>
          (n.ledger c).deliver c t (n.manager.findSession c) (manager.findSession c) }
    | [] => none
  | .setBlocked cid blocked =>
    (n.manager.findSession cid).map fun s =>
      { n with manager := n.manager.update cid (s.setBlocked blocked) }
  | .writeFails => n.txFrame.map fun t => { n with txFrame := none }.miss t
  | .lostToMcu i => n.toMcu[i]?.map fun t => { n with toMcu := n.toMcu.eraseIdx i }.miss t
  | .lostToGateway i =>
    n.toGateway[i]?.map fun t => { n with toGateway := n.toGateway.eraseIdx i }.miss t

end Network

/-- The gateway, its clients and the MCU, with any loss of frames. -/
def network : Machine Network Action := ⟨{}, Network.step⟩

/-- The same without loss and without blocked sessions. -/
def losslessNetwork : Machine Network Action := network.restrict fun _ a => a.Lossless

/-! ### Frames in flight -/

/-- The position of the request among those of the given session, if it is one of them. -/
def Transit.ownIndex (c : UInt16) (life : ℕ) (t : Transit) : Option ℕ :=
  match t.origin with
  | some r => if r.cid = c ∧ r.life = life then some r.index else none
  | none => none

theorem Transit.ownIndex_eq_some {c : UInt16} {life i : ℕ} {t : Transit} :
    t.ownIndex c life = some i ↔ t.origin = some ⟨c, life, i⟩ := by
  unfold Transit.ownIndex
  rcases t with ⟨frame, _ | ⟨cid, life', index⟩⟩
  · simp
  · simp only [Option.ite_none_right_eq_some, Option.some.injEq, Request.mk.injEq]
    tauto

/-- The requests of a session among the frames on their way. -/
def inFlight (ts : List Transit) (c : UInt16) (life : ℕ) : List ℕ :=
  ts.filterMap (Transit.ownIndex c life)

theorem mem_inFlight {ts : List Transit} {c : UInt16} {life i : ℕ} :
    i ∈ inFlight ts c life ↔ ∃ t ∈ ts, t.origin = some ⟨c, life, i⟩ := by
  simp only [inFlight, List.mem_filterMap, Transit.ownIndex_eq_some]

@[simp] theorem inFlight_append (a b : List Transit) (c : UInt16) (life : ℕ) :
    inFlight (a ++ b) c life = inFlight a c life ++ inFlight b c life := List.filterMap_append

/-- A frame that belongs to no request does not count. -/
@[simp] theorem inFlight_cons_none (frame : BkelFrame) (ts : List Transit) (c : UInt16)
    (life : ℕ) : inFlight (⟨frame, none⟩ :: ts) c life = inFlight ts c life :=
  List.filterMap_cons_none rfl

/-- What the ledger keeps over a step that does not replace the session. -/
structure Ledger.Grows (l l' : Ledger) : Prop where
  life : l'.life = l.life
  forwarded : l.forwarded <+: l'.forwarded
  popped : l.popped ≤ l'.popped

theorem Ledger.Grows.refl (l : Ledger) : l.Grows l := ⟨rfl, List.prefix_rfl, le_rfl⟩

/-- Where the ledger of one session grows, all ledgers grow. -/
theorem Ledger.Grows.update {ledger : UInt16 → Ledger} {cid : UInt16} {l : Ledger}
    (h : (ledger cid).Grows l) (c : UInt16) :
    (ledger c).Grows (Function.update ledger cid l c) :=
  (Function.forall_update_iff ledger (fun c l' => (ledger c).Grows l')).mpr
    ⟨h, fun _ _ => .refl _⟩ c

/-- The frames on their way agree with the ledgers: they belong to no future session,
they carry the SID that was forwarded, and those of one session come in the order of
its requests. -/
structure Flights (ledger : UInt16 → Ledger) (ts : List Transit) : Prop where
  lives : ∀ t ∈ ts, ∀ r, t.origin = some r → r.life ≤ (ledger r.cid).life
  known : ∀ t ∈ ts, ∀ r, t.origin = some r → r.life = (ledger r.cid).life →
    (ledger r.cid).forwarded[r.index]? = some t.frame.sid
  sorted : ∀ c, (inFlight ts c (ledger c).life).Pairwise (· < ·)
  below : ∀ c, ∀ i ∈ inFlight ts c (ledger c).life, i < (ledger c).popped

namespace Flights
variable {ledger ledger' : UInt16 → Ledger} {ts us : List Transit}

theorem sublist (h : Flights ledger ts) (hsub : us.Sublist ts) : Flights ledger us where
  lives t ht := h.lives t (hsub.mem ht)
  known t ht := h.known t (hsub.mem ht)
  sorted c := (h.sorted c).sublist (hsub.filterMap _)
  below c i hi := h.below c i ((hsub.filterMap _).mem hi)

theorem grow (h : Flights ledger ts) (hgrow : ∀ c, (ledger c).Grows (ledger' c)) :
    Flights ledger' ts where
  lives t ht r hr := (hgrow r.cid).life ▸ h.lives t ht r hr
  known t ht r hr hlife := by
    obtain ⟨more, hmore⟩ := (hgrow r.cid).forwarded
    have hk := h.known t ht r hr (hlife.trans (hgrow r.cid).life)
    rw [← hmore, List.getElem?_append_left (List.getElem?_eq_some_iff.mp hk).1, hk]
  sorted c := (hgrow c).life ▸ h.sorted c
  below c i hi := ((h.below c i ((hgrow c).life ▸ hi)).trans_le (hgrow c).popped)

/-- A frame that belongs to no request can be anywhere. -/
theorem insert (h : Flights ledger (ts ++ us)) (frame : BkelFrame) :
    Flights ledger (ts ++ [⟨frame, none⟩] ++ us) := by
  have hflight (c : UInt16) (life : ℕ) :
      inFlight (ts ++ [⟨frame, none⟩] ++ us) c life = inFlight (ts ++ us) c life := by
    simp
  have hmem (t : Transit) (ht : t ∈ ts ++ [⟨frame, none⟩] ++ us) :
      t ∈ ts ++ us ∨ t.origin = none := by
    simp only [List.mem_append, List.mem_singleton] at ht ⊢
    rcases ht with (ht | rfl) | ht <;> simp [*]
  refine ⟨?_, ?_, ?_, ?_⟩
  · intro t ht r hr
    rcases hmem t ht with hin | hnone
    · exact h.lives t hin r hr
    · rw [hnone] at hr
      cases hr
  · intro t ht r hr
    rcases hmem t ht with hin | hnone
    · exact h.known t hin r hr
    · rw [hnone] at hr
      cases hr
  · intro c
    rw [hflight]
    exact h.sorted c
  · intro c
    rw [hflight]
    exact h.below c

/-- The next request of a session sets out behind all others. -/
theorem launch (h : Flights ledger ts) {cid : UInt16} {frame : BkelFrame}
    (hsid : (ledger cid).forwarded[(ledger cid).popped]? = some frame.sid) :
    Flights
      (Function.update ledger cid { ledger cid with popped := (ledger cid).popped + 1 })
      (ts ++ [⟨frame, some ⟨cid, (ledger cid).life, (ledger cid).popped⟩⟩]) := by
  have hgrow := Ledger.Grows.update (l := { ledger cid with popped := (ledger cid).popped + 1 })
    ⟨rfl, List.prefix_rfl, Nat.le_succ _⟩
  have h' := h.grow hgrow
  refine ⟨?_, ?_, ?_, ?_⟩
  · simp only [List.forall_mem_append, List.forall_mem_singleton, Option.some.injEq]
    refine ⟨h'.lives, ?_⟩
    rintro r rfl
    exact (hgrow cid).life.ge
  · simp only [List.forall_mem_append, List.forall_mem_singleton, Option.some.injEq]
    refine ⟨h'.known, ?_⟩
    rintro r rfl -
    simpa using hsid
  · intro c
    have hsorted := h'.sorted c
    have hbelow := h.below c
    rw [(hgrow c).life] at hsorted ⊢
    rw [inFlight_append, List.pairwise_append]
    by_cases hc : c = cid
    · subst hc
      refine ⟨hsorted, by simp [inFlight, Transit.ownIndex], ?_⟩
      simpa [inFlight, Transit.ownIndex] using hbelow
    · refine ⟨hsorted, ?_, ?_⟩ <;> simp [inFlight, Transit.ownIndex, Ne.symm hc]
  · intro c i hi
    have hbelow := h'.below c
    rw [(hgrow c).life] at hbelow hi
    rw [inFlight_append, List.mem_append] at hi
    rcases hi with hi | hi
    · exact hbelow i hi
    · obtain ⟨t, ht, ho⟩ := mem_inFlight.mp hi
      rw [List.mem_singleton.mp ht, Option.some.injEq, Request.mk.injEq] at ho
      obtain ⟨rfl, -, rfl⟩ := ho
      rw [Function.update_self]
      exact Nat.lt_succ_self _

/-- A new session under a CID begins with nothing on its way. -/
theorem renew (h : Flights ledger ts) {cid : UInt16} {l : Ledger}
    (hlife : l.life = (ledger cid).life + 1) : Flights (Function.update ledger cid l) ts := by
  have hnone : inFlight ts cid l.life = [] := by
    rw [List.eq_nil_iff_forall_not_mem]
    intro i hi
    obtain ⟨t, ht, ho⟩ := mem_inFlight.mp hi
    have hle := h.lives t ht _ ho
    dsimp only at hle
    omega
  refine ⟨?_, ?_, ?_, ?_⟩
  · intro t ht r hr
    have hle := h.lives t ht r hr
    by_cases hc : r.cid = cid
    · rw [hc] at hle ⊢
      rw [Function.update_self]
      omega
    · rwa [Function.update_of_ne hc]
  · intro t ht r hr hlife'
    have hle := h.lives t ht r hr
    by_cases hc : r.cid = cid
    · rw [hc] at hle hlife'
      rw [Function.update_self] at hlife'
      omega
    · rw [Function.update_of_ne hc] at hlife' ⊢
      exact h.known t ht r hr hlife'
  · refine (Function.forall_update_iff ledger
      (fun c l => (inFlight ts c l.life).Pairwise (· < ·))).mpr ⟨?_, fun c _ => h.sorted c⟩
    rw [hnone]
    exact List.Pairwise.nil
  · refine (Function.forall_update_iff ledger
      (fun c l => ∀ i ∈ inFlight ts c l.life, i < l.popped)).mpr ⟨?_, fun c _ => h.below c⟩
    simp [hnone]

/-- A frame is replaced by one for the same request with the same SID. -/
theorem replace {t : Transit} (h : Flights ledger (ts ++ t :: us)) {answer : BkelFrame}
    (hsid : answer.sid = t.frame.sid) : Flights ledger (ts ++ ⟨answer, t.origin⟩ :: us) := by
  have hflight (c : UInt16) (life : ℕ) :
      inFlight (ts ++ ⟨answer, t.origin⟩ :: us) c life = inFlight (ts ++ t :: us) c life := by
    simp [inFlight, Transit.ownIndex, List.filterMap_cons]
  have hmem (u : Transit) (hu : u ∈ ts ++ ⟨answer, t.origin⟩ :: us) :
      ∃ v ∈ ts ++ t :: us, v.origin = u.origin ∧ v.frame.sid = u.frame.sid := by
    rcases List.mem_append.mp hu with hu | hu
    · exact ⟨u, by simp [hu], rfl, rfl⟩
    · rcases List.mem_cons.mp hu with rfl | hu
      · exact ⟨t, by simp, rfl, hsid.symm⟩
      · exact ⟨u, by simp [hu], rfl, rfl⟩
  refine ⟨?_, ?_, ?_, ?_⟩
  · intro u hu r hr
    obtain ⟨v, hv, ho, -⟩ := hmem u hu
    exact h.lives v hv r (ho.trans hr)
  · intro u hu r hr hlife
    obtain ⟨v, hv, ho, hs⟩ := hmem u hu
    rw [← hs]
    exact h.known v hv r (ho.trans hr) hlife
  · intro c
    rw [hflight]
    exact h.sorted c
  · intro c
    rw [hflight]
    exact h.below c

end Flights

end SomeIpGateway.DiagnosticTraffic
