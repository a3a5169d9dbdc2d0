import SomeIpGateway.McuQueues

/-!
# From the UART to the sessions

`UART::rxWorker` pushes what each `read` returns into its parser, which hands every frame it
finds to `onFrame`. Each call of `onFrame` takes the manager's mutex once, and between two of
them other threads add and remove sessions, forward requests and pop frames.
-/
namespace SomeIpGateway.FrameRouting
open StreamScanning FrameFormat PacketCodec Sessions StepMachine

/-- The parser of the UART and the sessions; and the records of what was read and what was
handed over, with how much of it each session was added behind. -/
structure State where
  manager : SessionManager := {}
  rxBuffer : List UInt8 := []
  /-- Frames found that are still to be handed over. -/
  found : List BkelFrame := []
  line : List UInt8 := []
  handed : List BkelFrame := []
  joined : UInt16 → ℕ := fun _ => 0

inductive Action where
  /-- `rxWorker` reads and pushes what it has read. -/
  | read (chunk : List UInt8)
  /-- `rxWorker` hands over the next frame. -/
  | onFrame
  | addSession (cid : UInt16) (ip : String)
  | removeSession (cid : UInt16)
  | forwardToMcu (cid : UInt16) (reqFrame : BkelFrame)
  | popNextMcuFrame

namespace State

/-- A session is added with a transport of its own, unless there is one. -/
def addSession (s : State) (cid : UInt16) (ip : String) : State :=
  { s with
    manager := s.manager.addSession cid ip {}
    joined :=
      if (s.manager.findSession cid).isNone then Function.update s.joined cid s.handed.length
      else s.joined }

/-- One step. -/
def step (s : State) : Action → Option State
  | .read chunk =>
    if s.found = [] then
      let (log, rxBuffer) := push s.rxBuffer chunk
      some { s with rxBuffer, found := items log, line := s.line ++ chunk }
    else none
  | .onFrame =>
    match s.found with
    | [] => none
    | frame :: found =>
      some { s with
        manager := Sessions.onFrame s.manager frame
        found
        handed := s.handed ++ [frame] }
  | .addSession cid ip => some (s.addSession cid ip)
  | .removeSession cid => some { s with manager := s.manager.removeSession cid }
  | .forwardToMcu cid reqFrame =>
    some { s with manager := s.manager.forwardToMcu cid reqFrame }
  | .popNextMcuFrame =>
    s.manager.popNextMcuFrame.map fun popped => { s with manager := popped.2.2 }

end State

/-- The gateway's side of the UART towards the clients. -/
def routing : Machine State Action := ⟨{}, State.step⟩

/-- An advertisement, which goes to every session. -/
def IsAdvert (frame : BkelFrame) : Prop := frame.sid = 0x01

instance : DecidablePred IsAdvert := fun frame => inferInstanceAs (Decidable (frame.sid = 0x01))

/-- The frames queued for a client: some of those handed over since it came, in their order,
and all of the advertisements among them. -/
structure Heard (since frames : List BkelFrame) (txQueue : List (List UInt8)) : Prop where
  queued : txQueue = frames.map frameBytes
  some_of : frames.Sublist since
  adverts : frames.filter IsAdvert = since.filter IsAdvert

/-- A frame as the parser hands it over. -/
def Encodable (f : BkelFrame) : Prop := f.WellFormed ∧ f.dlc.toNat ≤ bkelMaxPayload

structure Inv (s : State) : Prop where
  parsed : items (packetParser.drain s.line).1 = s.handed ++ s.found
  rxBuffer : (packetParser.drain s.line).2 = s.rxBuffer
  joined_le : ∀ cid, s.joined cid ≤ s.handed.length
  heard : ∀ cid session, s.manager.findSession cid = some session →
    ∃ frames, Heard (s.handed.drop (s.joined cid)) frames session.transport.txQueue

theorem Inv.init : Inv {} where
  parsed := by simp
  rxBuffer := by simp
  joined_le _ := le_rfl
  heard cid session h := by simp [SessionManager.findSession] at h

section
variable {s t : State}

/-- What the parser finds in any stream can be encoded again. -/
theorem encodable_of_drain {line : List UInt8} {f : BkelFrame}
    (hf : f ∈ items (packetParser.drain line).1) : Encodable f := by
  obtain ⟨p, hp, hitem⟩ := List.mem_filterMap.mp hf
  obtain ⟨hwf, hmax, -⟩ := parse_item hp hitem
  exact ⟨hwf, hmax⟩

theorem Inv.encodable (h : Inv s) {f : BkelFrame} (hf : f ∈ s.handed ++ s.found) : Encodable f :=
  encodable_of_drain (h.parsed ▸ hf)

theorem Inv.read {chunk : List UInt8} (h : Inv s) (hstep : s.step (.read chunk) = some t) :
    Inv t := by
  simp only [State.step] at hstep
  split_ifs at hstep with hfound
  obtain rfl := Option.some.inj hstep
  have hparsed := h.parsed
  rw [hfound, List.append_nil] at hparsed
  refine { h with parsed := ?_, rxBuffer := ?_ }
  · dsimp only
    rw [packetParser.drain_append, items_append, hparsed, h.rxBuffer]
    rfl
  · dsimp only
    rw [packetParser.drain_append, h.rxBuffer]
    rfl

/-- A frame that is handed over is queued for a session behind what it has heard, or it is
none of the advertisements and is not queued. -/
theorem Heard.onFrame {since frames : List BkelFrame} {session : Session} {frame : BkelFrame}
    (h : Heard since frames session.transport.txQueue) (hframe : Encodable frame) :
    ∃ frames, Heard (since ++ [frame]) frames
      (if frame.sid = 0x01 then session.sendFrame frame
        else session.routeUartRx frame).transport.txQueue := by
  have hsent : Heard (since ++ [frame]) (frames ++ [frame])
      (session.sendFrame frame).transport.txQueue := by
    refine ⟨?_, h.some_of.append (List.Sublist.refl _), ?_⟩
    · rw [Session.sendFrame_txQueue hframe.1 hframe.2, h.queued, List.map_append,
        List.map_singleton]
    · rw [List.filter_append, List.filter_append, h.adverts]
  split_ifs with hadvert
  · exact ⟨_, hsent⟩
  · have hkept : Heard (since ++ [frame]) frames session.transport.txQueue := by
      refine ⟨h.queued, h.some_of.trans (List.sublist_append_left since [frame]), ?_⟩
      rw [List.filter_append, h.adverts]
      simp [IsAdvert, hadvert]
    rw [Session.routeUartRx]
    split_ifs
    · exact ⟨_, hkept⟩
    · dsimp only
      split_ifs
      · exact ⟨_, hsent⟩
      · exact ⟨_, hkept⟩

theorem findSession_onFrame (m : SessionManager) (frame : BkelFrame) (cid : UInt16) :
    (Sessions.onFrame m frame).findSession cid = (m.findSession cid).map fun session =>
      if frame.sid = 0x01 then session.sendFrame frame else session.routeUartRx frame := by
  unfold Sessions.onFrame
  split_ifs with hadvert
  · simp only [SessionManager.broadcast, SessionManager.findSession_forEach]
  · simp only [SessionManager.routeUartRxBySid, SessionManager.findSession_forEach]

theorem Inv.onFrame (h : Inv s) (hstep : s.step .onFrame = some t) : Inv t := by
  simp only [State.step] at hstep
  cases hfound : s.found with
  | nil => simp [hfound] at hstep
  | cons frame found =>
    simp only [hfound, Option.some.injEq] at hstep
    obtain rfl := hstep
    have hframe : Encodable frame := h.encodable (by simp [hfound])
    refine { h with parsed := ?_, joined_le := fun cid => ?_, heard := ?_ }
    · rw [h.parsed, hfound, List.append_assoc, List.singleton_append]
    · dsimp only
      rw [List.length_append]
      exact (h.joined_le cid).trans (Nat.le_add_right _ _)
    · intro cid session hsession
      dsimp only at hsession ⊢
      rw [findSession_onFrame] at hsession
      obtain ⟨before, hbefore, rfl⟩ := Option.map_eq_some_iff.mp hsession
      obtain ⟨frames, hheard⟩ := h.heard cid before hbefore
      rw [List.drop_append_of_le_length (h.joined_le cid)]
      exact hheard.onFrame hframe

theorem Inv.addSession (h : Inv s) (cid : UInt16) (ip : String) : Inv (s.addSession cid ip) := by
  unfold State.addSession
  cases hcid : s.manager.findSession cid with
  | some old => simpa [SessionManager.addSession, hcid] using h
  | none =>
    simp only [Option.isNone_none, if_true]
    refine { h with joined_le := fun c => ?_, heard := fun c session hsession => ?_ }
    · rcases eq_or_ne c cid with rfl | hc
      · simp
      · simpa [hc] using h.joined_le c
    · simp only [SessionManager.addSession, hcid, SessionManager.findSession_update] at hsession
      rcases eq_or_ne c cid with rfl | hc
      · rw [if_pos rfl] at hsession
        obtain rfl := Option.some.inj hsession
        refine ⟨[], rfl, List.nil_sublist _, ?_⟩
        simp
      · rw [if_neg hc.symm] at hsession
        simpa [hc] using h.heard c session hsession

theorem Inv.removeSession (h : Inv s) (cid : UInt16) :
    Inv { s with manager := s.manager.removeSession cid } := by
  refine { h with heard := fun c session hsession => ?_ }
  rw [SessionManager.findSession_removeSession] at hsession
  split_ifs at hsession
  exact h.heard c session hsession

/-- Requests do not touch what is queued for a client. -/
theorem Inv.of_txQueue (h : Inv s) {m : SessionManager}
    (hm : ∀ cid session, m.findSession cid = some session →
      ∃ before, s.manager.findSession cid = some before ∧
        session.transport.txQueue = before.transport.txQueue) :
    Inv { s with manager := m } := by
  refine { h with heard := fun cid session hsession => ?_ }
  obtain ⟨before, hbefore, hqueue⟩ := hm cid session hsession
  rw [hqueue]
  exact h.heard cid before hbefore

theorem Inv.forwardToMcu (h : Inv s) (cid : UInt16) (reqFrame : BkelFrame) :
    Inv { s with manager := s.manager.forwardToMcu cid reqFrame } := by
  refine h.of_txQueue fun c session hsession => ?_
  rw [SessionManager.findSession_forwardToMcu] at hsession
  by_cases hc : cid = c
  · rw [if_pos hc] at hsession
    obtain ⟨before, hbefore, rfl⟩ := Option.map_eq_some_iff.mp hsession
    refine ⟨before, hbefore, ?_⟩
    split_ifs <;> rfl
  · rw [if_neg hc] at hsession
    exact ⟨session, hsession, rfl⟩

theorem Inv.popNextMcuFrame (h : Inv s) (hstep : s.step .popNextMcuFrame = some t) : Inv t := by
  obtain ⟨⟨cid, frame, m⟩, hpop, rfl⟩ := Option.map_eq_some_iff.mp hstep
  obtain ⟨before, rest, hbefore, -, rfl⟩ := SessionManager.popNextMcuFrame_some hpop
  refine h.of_txQueue fun c session hsession => ?_
  rw [SessionManager.findSession_update] at hsession
  split_ifs at hsession with hc
  · obtain rfl := Option.some.inj hsession
    exact ⟨before, hc ▸ hbefore, rfl⟩
  · exact ⟨session, hsession, rfl⟩

theorem Inv.step {a : Action} (h : Inv s) (hstep : s.step a = some t) : Inv t := by
  cases a with
  | read chunk => exact h.read hstep
  | onFrame => exact h.onFrame hstep
  | addSession cid ip =>
    obtain rfl := Option.some.inj hstep
    exact h.addSession cid ip
  | removeSession cid =>
    obtain rfl := Option.some.inj hstep
    exact h.removeSession cid
  | forwardToMcu cid reqFrame =>
    obtain rfl := Option.some.inj hstep
    exact h.forwardToMcu cid reqFrame
  | popNextMcuFrame => exact h.popNextMcuFrame hstep

end

theorem inv_of_reachable {s : State} (h : routing.Reachable s) : Inv s :=
  h.invariant Inv.init (fun _ _ _ hI hst => hI.step hst)

/-- However the reads cut the line and whatever other threads do meanwhile: the frames handed
over are those in the bytes read, once each and in order; and every session is sent all
advertisements since it was added, and of the other frames each at most once, in one order. -/
theorem sessions_hear {s : State} (h : routing.Reachable s) :
    s.handed ++ s.found = items (packetParser.drain s.line).1 ∧
      ∀ cid session, s.manager.findSession cid = some session →
        ∃ frames, Heard (s.handed.drop (s.joined cid)) frames session.transport.txQueue :=
  ⟨(inv_of_reachable h).parsed.symm, (inv_of_reachable h).heard⟩

/-- The second of two sessions is added between two advertisements, the second of which comes
in two reads. -/
theorem sessions_hear_late_session :
    ∃ (s : State) (session : Session), s.manager.findSession 9 = some session ∧
      session.transport.txQueue = [frameBytes ⟨0x01, 3, 1, 0x12, [0x45]⟩] ∧
      ∃ frames, Heard [⟨0x01, 3, 1, 0x12, [0x45]⟩] frames session.transport.txQueue := by
  obtain ⟨s, hs, hdrop, hqueue⟩ := Machine.exists_reachable (M := routing)
    (fun s => s.handed.drop (s.joined 9) = [⟨0x01, 3, 1, 0x12, [0x45]⟩] ∧
      (s.manager.findSession 9).map (·.transport.txQueue) =
        some [frameBytes ⟨0x01, 3, 1, 0x12, [0x45]⟩])
    [.addSession 7 "10.0.0.7", .read (frameBytes ⟨0x01, 3, 1, 0x11, [0x53]⟩ ++ [0xAA, 0x01, 3]),
      .onFrame, .addSession 9 "10.0.0.9",
      .read ((frameBytes ⟨0x01, 3, 1, 0x12, [0x45]⟩).drop 3), .onFrame] (by decide +kernel)
  obtain ⟨session, hsession, htx⟩ := Option.map_eq_some_iff.mp hqueue
  exact ⟨s, session, hsession, htx, hdrop ▸ (sessions_hear hs).2 9 session hsession⟩

end SomeIpGateway.FrameRouting
