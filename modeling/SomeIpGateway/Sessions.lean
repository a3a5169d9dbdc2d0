import SomeIpGateway.PacketCodec

/-!
# Sessions and their manager

`Session` and `SessionManager`, each function under the mutex it takes in the
source. A transport is what a session does with it: it is started once, and the
bytes given to `sendData` are queued in order. The map of sessions is ordered by
CID, as `std::map` is. `PacketParser::onFrame` hands each parsed frame to the
manager.
-/
namespace SomeIpGateway.Sessions
open ByteAccess StreamScanning FrameFormat PacketCodec

def diagSidMin : UInt8 := 0x20
def diagSidMax : UInt8 := 0x26

/-- `isDiagSid`: an RPC brings no answer over the UART, so only these are remembered. -/
def isDiagSid (sid : UInt8) : Bool := diagSidMin ≤ sid && sid ≤ diagSidMax

/-- What a session does with its `ITransport`. -/
structure Transport where
  running : Bool := false
  txQueue : List (List UInt8) := []
  deriving Repr, DecidableEq

namespace Transport

def start (t : Transport) : Transport := { t with running := true }

def sendData (t : Transport) (data : List UInt8) : Transport :=
  { t with txQueue := t.txQueue ++ [data] }

end Transport

/-- `Session`. -/
structure Session where
  cid : UInt16
  ipAddress : String
  transport : Transport
  requestedSidQueue : List UInt8 := []
  toMcuQueue : List BkelFrame := []
  isBlocked : Bool := false
  deriving Repr, DecidableEq

namespace Session

def startTransport (s : Session) : Session := { s with transport := s.transport.start }

def updateLastRequestedSid (s : Session) (sid : UInt8) : Session :=
  { s with requestedSidQueue := s.requestedSidQueue ++ [sid] }

/-- The oldest remembered SID, or 0xFF. -/
def getLastRequestedSid (s : Session) : UInt8 := s.requestedSidQueue.head?.getD 0xFF

def popRequestedSid (s : Session) : Session :=
  { s with requestedSidQueue := s.requestedSidQueue.tail }

def enqueueToMcu (s : Session) (frame : BkelFrame) : Session :=
  { s with toMcuQueue := s.toMcuQueue ++ [frame] }

def popMcuFrame (s : Session) : Option (BkelFrame × Session) :=
  match s.toMcuQueue with
  | [] => none
  | frame :: rest => some (frame, { s with toMcuQueue := rest })

def setBlocked (s : Session) (blocked : Bool) : Session := { s with isBlocked := blocked }

/-- `Session::sendFrame`. -/
def sendFrame (s : Session) (frame : BkelFrame) : Session :=
  let data := buildFrame frame.sid frame.type (some frame.payload) frame.dlc frame.cid
  { s with transport := s.transport.sendData data }

/-- The body of the loop of `routeUartRxBySid`. -/
def routeUartRx (s : Session) (uartFrame : BkelFrame) : Session :=
  if s.isBlocked then s
  else
    let expected := s.getLastRequestedSid
    if expected ≠ 0xFF ∧ expected = uartFrame.sid then (s.sendFrame uartFrame).popRequestedSid
    else s

end Session

/-- The sessions by CID. -/
structure SessionManager where
  sessions : Std.ExtTreeMap UInt16 Session := ∅

namespace SessionManager

/-- `findSessionNoLock_`. -/
def findSession (m : SessionManager) (cid : UInt16) : Option Session := m.sessions[cid]?

/-- Replace the session that a pointer into the map refers to. -/
def update (m : SessionManager) (cid : UInt16) (s : Session) : SessionManager :=
  { m with sessions := m.sessions.insert cid s }

/-- Do the same to every session. -/
def forEach (m : SessionManager) (f : Session → Session) : SessionManager :=
  { m with sessions := m.sessions.map fun _ s => f s }

def addSession (m : SessionManager) (cid : UInt16) (ip : String) (transport : Transport) :
    SessionManager :=
  match m.findSession cid with
  | none => m.update cid (Session.startTransport { cid := cid, ipAddress := ip, transport })
  | some _ => m

def removeSession (m : SessionManager) (cid : UInt16) : SessionManager :=
  { m with sessions := m.sessions.erase cid }

def broadcast (m : SessionManager) (frame : BkelFrame) : SessionManager :=
  m.forEach (·.sendFrame frame)

def forwardToMcu (m : SessionManager) (cid : UInt16) (reqFrame : BkelFrame) : SessionManager :=
  match m.findSession cid with
  | none => m
  | some s =>
    let s := if isDiagSid reqFrame.sid then s.updateLastRequestedSid reqFrame.sid else s
    m.update cid (s.enqueueToMcu reqFrame)

def routeUartRxBySid (m : SessionManager) (uartFrame : BkelFrame) : SessionManager :=
  m.forEach (·.routeUartRx uartFrame)

/-- `popNextMcuFrame`. The frame comes with the CID of the session that it is taken
from, which the source does not return. -/
def popNextMcuFrame (m : SessionManager) : Option (UInt16 × BkelFrame × SessionManager) :=
  m.sessions.toList.findSome? fun entry =>
    entry.2.popMcuFrame.map fun popped => (entry.1, popped.1, m.update entry.1 popped.2)

end SessionManager

/-- `PacketParser::onFrame`, up to what it prints. -/
def onFrame (m : SessionManager) (frame : BkelFrame) : SessionManager :=
  if frame.sid = 0x01 then m.broadcast frame else m.routeUartRxBySid frame

/-! ### The sessions after each operation -/

namespace SessionManager
variable (m : SessionManager)

theorem findSession_update (cid : UInt16) (s : Session) (c : UInt16) :
    (m.update cid s).findSession c = if cid = c then some s else m.findSession c := by
  simp [findSession, update, Std.ExtTreeMap.getElem?_insert, Std.LawfulEqCmp.compare_eq_iff_eq]

theorem findSession_forEach (f : Session → Session) (c : UInt16) :
    (m.forEach f).findSession c = (m.findSession c).map f := by
  simp [findSession, forEach]

theorem findSession_removeSession (cid c : UInt16) :
    (m.removeSession cid).findSession c = if cid = c then none else m.findSession c := by
  simp [findSession, removeSession, Std.ExtTreeMap.getElem?_erase,
    Std.LawfulEqCmp.compare_eq_iff_eq]

theorem findSession_forwardToMcu (cid : UInt16) (reqFrame : BkelFrame) (c : UInt16) :
    (m.forwardToMcu cid reqFrame).findSession c =
      if cid = c then (m.findSession c).map fun s =>
        (if isDiagSid reqFrame.sid then s.updateLastRequestedSid reqFrame.sid else s).enqueueToMcu
          reqFrame
      else m.findSession c := by
  by_cases hc : cid = c
  · subst hc
    rw [forwardToMcu, if_pos rfl]
    cases hfind : m.findSession cid with
    | none => simp [hfind]
    | some s => simp [findSession_update]
  · rw [forwardToMcu, if_neg hc]
    cases m.findSession cid with
    | none => rfl
    | some s => rw [findSession_update, if_neg hc]

/-- The frame popped is the oldest one of the session it comes from. -/
theorem popNextMcuFrame_some {m m' : SessionManager} {cid : UInt16} {frame : BkelFrame}
    (h : m.popNextMcuFrame = some (cid, frame, m')) :
    ∃ s rest, m.findSession cid = some s ∧ s.toMcuQueue = frame :: rest ∧
      m' = m.update cid { s with toMcuQueue := rest } := by
  obtain ⟨⟨key, s⟩, hmem, hpop⟩ := List.exists_of_findSome?_eq_some h
  rw [Std.ExtTreeMap.mem_toList_iff_getElem?_eq_some] at hmem
  cases hq : s.toMcuQueue with
  | nil => simp [Session.popMcuFrame, hq] at hpop
  | cons first rest =>
    simp only [Session.popMcuFrame, hq, Option.map_some, Option.some.injEq, Prod.mk.injEq] at hpop
    obtain ⟨rfl, rfl, rfl⟩ := hpop
    exact ⟨s, rest, hmem, hq, rfl⟩

end SessionManager

/-! ### What the gateway accepts, it passes on byte for byte -/

theorem Session.sendFrame_txQueue {frame : BkelFrame} (hf : frame.WellFormed)
    (hmax : frame.dlc.toNat ≤ bkelMaxPayload) (s : Session) :
    (s.sendFrame frame).transport.txQueue = s.transport.txQueue ++ [frameBytes frame] := by
  rw [Session.sendFrame, buildFrame_eq_frameBytes hf hmax]
  rfl

/-- From any buffer, each delivered frame is queued for a client as exactly the
bytes erased for it; encoding and parsing a payload within the limit gives it back
first, whatever follows; and a longer payload is not encoded at all. -/
theorem encode_undoes_decode :
    (∀ rxBuffer data, ∀ p ∈ (push rxBuffer data).1, ∀ frame, p.item = some frame →
      p.symbols.length = frame.dlc.toNat + 8 ∧
      ∀ s : Session, (s.sendFrame frame).transport.txQueue =
        s.transport.txQueue ++ [p.symbols]) ∧
    (∀ sid type cid (payload : List UInt8) (payloadLen : UInt16) more,
      payload.length = payloadLen.toNat → payload.length ≤ 256 →
      ∃ log rest, push [] (buildFrame sid type (some payload) payloadLen cid ++ more) =
        (⟨buildFrame sid type (some payload) payloadLen cid,
          some ⟨sid, type, payloadLen, cid, payload⟩⟩ :: log, rest)) ∧
    (∀ sid type cid payload (payloadLen : UInt16), 256 < payloadLen.toNat →
      buildFrame sid type payload payloadLen cid = []) := by
  refine ⟨?_, ?_, ?_⟩
  · intro rxBuffer data p hp frame hframe
    obtain ⟨hwf, hmax, hbytes⟩ := parse_item hp hframe
    refine ⟨?_, fun s => ?_⟩
    · rw [hbytes, length_frameBytes hwf, BkelFrame.size]
    · rw [hbytes, s.sendFrame_txQueue hwf hmax]
  · intro sid type cid payload payloadLen more hlen hmax
    have hmax' : payloadLen.toNat ≤ bkelMaxPayload := hlen ▸ hmax
    have hwf : BkelFrame.WellFormed ⟨sid, type, payloadLen, cid, payload⟩ := hlen
    have hbytes := buildFrame_eq_frameBytes hwf hmax'
    have hlook : packetParser.look (frameBytes ⟨sid, type, payloadLen, cid, payload⟩ ++ more) =
        .take _ _ := parseBody_frameBytes hwf hmax' more
    dsimp only at hbytes
    rw [hbytes, push, List.nil_append, parse, packetParser.drain_of_take hlook, List.take_left,
      List.drop_left]
    exact ⟨_, _, rfl⟩
  · intro sid type cid payload payloadLen hlen
    exact buildFrame_too_long sid type payload cid hlen

/-- A request for the duty cycle, with a further byte behind it. -/
theorem encode_undoes_decode_request :
    ∃ log rest, push [] (buildFrame 0x20 1 (some [0]) 1 7 ++ [0xAA]) =
      (⟨buildFrame 0x20 1 (some [0]) 1 7, some ⟨0x20, 1, 1, 7, [0]⟩⟩ :: log, rest) :=
  encode_undoes_decode.2.1 0x20 1 7 [0] 1 [0xAA] (by decide) (by decide)

end SomeIpGateway.Sessions
