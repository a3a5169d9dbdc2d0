import SomeIpGateway.ClientPath
import SomeIpGateway.ClientRequests
import SomeIpGateway.McuInput
import SomeIpGateway.TypedTexts

/-!
# Requests from the window

`connect` announces the client's CID, and each press on the button sends the selected service
to the selected MCU, with a payload that was typed or the default one. `TcpClient` numbers the
frames of each CID.
-/
namespace SomeIpGateway.ServiceRequests
open StreamReading FrameFormat PacketCodec CandidateScan TlsReceive McuHandlers
open PythonText PythonCodec TypedTexts Registration Sessions KeyedQueues StepMachine ClientPath

/-! ### The client -/

/-- `TcpClient`, up to its reader: the dictionary of the numbers, and what it has sent. -/
structure TcpClient where
  seqByCid : ℤ → Option ℤ := fun _ => none
  sent : List UInt8 := []

/-- What a frame is made of, and how much of it `sendall` sends if it raises. -/
structure Call where
  cid : ℤ
  sid : ℤ
  dataType : ℤ
  payload : List UInt8
  raised : Option ℕ := none
  deriving DecidableEq

namespace TcpClient
variable (client : TcpClient)

/-- `next_seq` -/
def nextSeq (cid : ℤ) : ℤ × TcpClient :=
  let curr := (client.seqByCid cid).getD (-1)
  let curr := Int.land (curr + 1) 0x0F
  (curr, { client with seqByCid := Function.update client.seqByCid cid (some curr) })

/-- `send` -/
def send (frame : List UInt8) (raised : Option ℕ) : TcpClient :=
  { client with sent := client.sent ++ raised.elim frame frame.take }

end TcpClient

/-! ### The window -/

/-- A dialog: its title, and its text unless that is a library's. -/
abbrev Dialog := String × Option String

structure App where
  client : Option TcpClient := none
  dialogs : List Dialog := []

def errorText : CodecError → Option String
  | .valueError message => some message
  | .structError => none

namespace App
variable (app : App)

/-- Number, encode and send. An exception opens a dialog with the title. -/
def transmit (title : String) (client : TcpClient) (call : Call) : App :=
  let numbered := client.nextSeq call.cid
  match encode call.sid call.dataType call.payload call.cid numbered.1 with
  | .error e =>
    { app with client := some numbered.2, dialogs := app.dialogs ++ [(title, errorText e)] }
  | .ok data =>
    { app with
      client := some (numbered.2.send data call.raised)
      dialogs := if call.raised.isSome then app.dialogs ++ [(title, none)] else app.dialogs }

variable (decimal : Char → Option (Fin 10))

/-- `_send_client_cid_announce`, with the text of its field. -/
def sendClientCidAnnounce (clientCid : Text) (raised : Option ℕ) : App :=
  match app.client with
  | none => app
  | some client =>
    match parseCid decimal (strip clientCid) with
    | .error message =>
      { app with dialogs := app.dialogs ++ [("Client CID Error", some message)] }
    | .ok cid => app.transmit "CID Announce Error" client ⟨cid, 0x30, 0x01, [], raised⟩

/-- `connect`, with a port that is a number. -/
def connect (clientCid : Text) (reached : Bool) (raised : Option ℕ) : App :=
  if reached then { app with client := some {} }.sendClientCidAnnounce decimal clientCid raised
  else { app with client := none, dialogs := app.dialogs ++ [("Connect Error", none)] }

end App

def defaultDataTypeForSid (sid : ℤ) : ℤ :=
  if sid ∈ [0x13, 0x20, 0x21, 0x22, 0x23] then 0x02 else 0x01

def defaultPayloads : List (ℤ × List UInt8) :=
  [(0x10, [0x02]), (0x11, [0x01]), (0x12, [0x00, 0x00, 0x00, 0x00, 0x00]), (0x13, [0x32, 0x0A]),
    (0x20, [0x00, 0x00]), (0x21, [0x00, 0x00]), (0x22, [0x00, 0x00]), (0x23, [0x00, 0x00]),
    (0x24, [0x00]), (0x25, [0x00]), (0x26, [0x00])]

def defaultPayloadForSid (sid : ℤ) : List UInt8 := (defaultPayloads.lookup sid).getD []

/-- A press on the button: what is selected, the text of the payload's field, and whether
`sendall` raises. -/
structure Press where
  selectedCid : Option ℤ
  selectedSid : Option ℤ
  payloadHex : Text
  raised : Option ℕ := none
  deriving DecidableEq

section Presses
variable (decimal : Char → Option (Fin 10))

/-- The payload that `send_service_request` sends. -/
def payloadFor (sid : ℤ) (payloadHex : Text) : Except String (List UInt8) :=
  let payloadHex := strip payloadHex
  if payloadHex ≠ [] then parseHexPayload decimal payloadHex else .ok (defaultPayloadForSid sid)

namespace App

/-- `send_service_request` -/
def sendServiceRequest (app : App) (cid sid : ℤ) (payloadHex : Text) (raised : Option ℕ) : App :=
  match app.client with
  | none => { app with dialogs := app.dialogs ++ [("Not Connected", some "Connect first.")] }
  | some client =>
    match payloadFor decimal sid payloadHex with
    | .error message => { app with dialogs := app.dialogs ++ [("Payload Error", some message)] }
    | .ok payload =>
      app.transmit "Send Error" client ⟨cid, sid, defaultDataTypeForSid sid, payload, raised⟩

/-- `send_selected_service` -/
def sendSelectedService (app : App) (p : Press) : App :=
  match p.selectedCid, p.selectedSid with
  | some cid, some sid => app.sendServiceRequest decimal cid sid p.payloadHex p.raised
  | _, _ => app

def pressAll (app : App) (presses : List Press) : App :=
  presses.foldl (sendSelectedService decimal) app

end App

/-- What a press sends, if anything is selected and its payload can be read. -/
def Press.call (p : Press) : Option Call := do
  let cid ← p.selectedCid
  let sid ← p.selectedSid
  let payload ← (payloadFor decimal sid p.payloadHex).toOption
  return ⟨cid, sid, defaultDataTypeForSid sid, payload, p.raised⟩

/-- What `connect` sends, if its text is a CID. -/
def announce (clientCid : Text) (raised : Option ℕ) : Option Call := do
  let cid ← (parseCid decimal (strip clientCid)).toOption
  return ⟨cid, 0x30, 0x01, [], raised⟩

end Presses

/-! ### Numbers -/

/-- What a call sends with the number it gets. -/
def Call.bytes (call : Call) (seq : ℤ) : List UInt8 :=
  match encode call.sid call.dataType call.payload call.cid seq with
  | .error _ => []
  | .ok data => call.raised.elim data data.take

namespace TcpClient
variable (client : TcpClient)

/-- The client after a call. -/
def request (call : Call) : TcpClient :=
  { (client.nextSeq call.cid).2 with
    sent := client.sent ++ call.bytes (client.nextSeq call.cid).1 }

def requestAll (calls : List Call) : TcpClient := calls.foldl request client

/-- The calls with the numbers that they get. -/
def numbered (client : TcpClient) : List Call → List (Call × ℤ)
  | [] => []
  | call :: calls => (call, (client.nextSeq call.cid).1) :: numbered (client.request call) calls

theorem numbered_fst (calls : List Call) : (client.numbered calls).map Prod.fst = calls := by
  induction calls generalizing client with
  | nil => rfl
  | cons call calls ih => rw [numbered, List.map_cons, ih]

theorem requestAll_sent (calls : List Call) :
    (client.requestAll calls).sent =
      client.sent ++ (client.numbered calls).flatMap fun x => x.1.bytes x.2 := by
  induction calls generalizing client with
  | nil => exact (List.append_nil _).symm
  | cons call calls ih =>
    rw [requestAll, List.foldl_cons, ← requestAll, ih, numbered, List.flatMap_cons,
      ← List.append_assoc]
    rfl

/-- The number of the next frame of a CID, before it is cut to four bits. -/
def next (cid : ℤ) : ℤ := (client.seqByCid cid).getD (-1) + 1

theorem nextSeq_fst (cid : ℤ) : (client.nextSeq cid).1 = client.next cid % 16 := by
  rw [nextSeq, show (0x0F : ℤ) = ((2 ^ 4 - 1 : ℕ) : ℤ) by norm_num, PythonCodec.land_mask]
  rfl

theorem next_request_self (call : Call) :
    (client.request call).next call.cid = client.next call.cid % 16 + 1 := by
  rw [← nextSeq_fst]
  simp [next, request, nextSeq]

theorem next_request_of_ne {call : Call} {cid : ℤ} (h : cid ≠ call.cid) :
    (client.request call).next cid = client.next cid := by
  simp [next, request, nextSeq, Function.update_of_ne h]

/-- The frames of each CID are numbered one after the other, whatever is sent with other CIDs
in between. -/
theorem numbered_of_cid (calls : List Call) (cid : ℤ) :
    ((client.numbered calls).filter (·.1.cid = cid)).map Prod.snd =
      (List.range (calls.countP (·.cid = cid))).map fun k : ℕ =>
        (client.next cid + k) % 16 := by
  induction calls generalizing client with
  | nil => rfl
  | cons call calls ih =>
    have hrest := ih (client.request call)
    rcases eq_or_ne cid call.cid with rfl | hne
    · rw [numbered, List.filter_cons_of_pos (by simp), List.map_cons, hrest,
        List.countP_cons_of_pos (by simp), List.range_succ_eq_map, List.map_cons, List.map_map,
        next_request_self, nextSeq_fst, Nat.cast_zero, add_zero]
      refine congrArg _ (List.map_congr_left fun k _ => ?_)
      rw [Function.comp_apply, Nat.succ_eq_add_one]
      push_cast
      omega
    · rw [numbered, List.filter_cons_of_neg (by simpa using hne.symm), hrest,
        List.countP_cons_of_neg (by simpa using hne.symm), next_request_of_ne _ hne]

end TcpClient

namespace App
variable (app : App)

theorem transmit_client (title : String) (client : TcpClient) (call : Call) :
    (app.transmit title client call).client = some (client.request call) := by
  rw [transmit, TcpClient.request, Call.bytes]
  cases encode call.sid call.dataType call.payload call.cid (client.nextSeq call.cid).1 with
  | error e => simp [TcpClient.nextSeq]
  | ok data => rfl

variable (decimal : Char → Option (Fin 10))

theorem sendSelectedService_client (p : Press) :
    (app.sendSelectedService decimal p).client =
      app.client.map fun client => client.requestAll (p.call decimal).toList := by
  obtain ⟨cid, sid, payloadHex, raised⟩ := p
  cases hclient : app.client with
  | none => cases cid <;> cases sid <;> simp [sendSelectedService, sendServiceRequest, hclient]
  | some client =>
    cases cid with
    | none => simp [sendSelectedService, Press.call, TcpClient.requestAll, hclient]
    | some cid =>
      cases sid with
      | none => simp [sendSelectedService, Press.call, TcpClient.requestAll, hclient]
      | some sid =>
        cases hpayload : payloadFor decimal sid payloadHex with
        | error message =>
          simp [sendSelectedService, sendServiceRequest, hclient, Press.call, hpayload,
            Except.toOption, TcpClient.requestAll]
        | ok payload =>
          simp [sendSelectedService, sendServiceRequest, hclient, Press.call, hpayload,
            Except.toOption, TcpClient.requestAll, transmit_client]

theorem pressAll_client (presses : List Press) :
    (app.pressAll decimal presses).client =
      app.client.map fun client => client.requestAll (presses.filterMap (Press.call decimal)) := by
  induction presses generalizing app with
  | nil => simp [pressAll, TcpClient.requestAll]
  | cons p presses ih =>
    have hfirst := app.sendSelectedService_client decimal p
    rw [pressAll, List.foldl_cons, ← pressAll, ih, hfirst, Option.map_map]
    congr 1
    funext client
    cases hcall : p.call decimal <;> simp [TcpClient.requestAll, hcall]

/-- A client that is connected has sent its CID, if the text of the field is one. -/
theorem connect_client (clientCid : Text) (raised : Option ℕ) :
    (app.connect decimal clientCid true raised).client =
      some (({} : TcpClient).requestAll (announce decimal clientCid raised).toList) := by
  rw [connect, if_pos rfl, sendClientCidAnnounce, announce]
  dsimp only
  cases parseCid decimal (strip clientCid) with
  | error message => rfl
  | ok cid => exact transmit_client _ _ _ _

end App

/-- What is sent for calls that have numbers: the frames of each CID are numbered from zero on,
modulo sixteen. -/
structure Sends (sent : List UInt8) (numbered : List (Call × ℤ)) : Prop where
  sent : sent = numbered.flatMap fun x => x.1.bytes x.2
  seqs : ∀ cid, (numbered.filter (·.1.cid = cid)).map Prod.snd =
    (List.range (numbered.countP (·.1.cid = cid))).map fun k : ℕ => (k : ℤ) % 16

theorem sends_numbered (calls : List Call) :
    Sends (({} : TcpClient).requestAll calls).sent (({} : TcpClient).numbered calls) := by
  refine ⟨by rw [TcpClient.requestAll_sent, List.nil_append], fun cid => ?_⟩
  have hcount : (({} : TcpClient).numbered calls).countP (·.1.cid = cid) =
      calls.countP (·.cid = cid) := by
    conv_rhs => rw [← TcpClient.numbered_fst {} calls, List.countP_map]
    rfl
  rw [TcpClient.numbered_of_cid, hcount]
  simp [TcpClient.next]

section Presses
variable (decimal : Char → Option (Fin 10)) (app : App) (clientCid : Text) (raised : Option ℕ)
variable (presses : List Press)

/-- The calls after `connect`. -/
def calls : List Call :=
  (announce decimal clientCid raised).toList ++ presses.filterMap (Press.call decimal)

theorem pressAll_connect :
    ((app.connect decimal clientCid true raised).pressAll decimal presses).client =
      some (({} : TcpClient).requestAll (calls decimal clientCid raised presses)) := by
  rw [App.pressAll_client, App.connect_client, Option.map_some, TcpClient.requestAll,
    TcpClient.requestAll, ← List.foldl_append]
  rfl

/-- Whatever is pressed, selected and typed after `connect`: the client has sent the announcement
of its CID and behind it one frame for each press whose payload can be read, in order. What
cannot be encoded is not sent, but it has its number. -/
theorem presses_numbered : ∃ client numbered,
    ((app.connect decimal clientCid true raised).pressAll decimal presses).client =
      some client ∧
    numbered.map Prod.fst = (announce decimal clientCid raised).toList ++
      presses.filterMap (Press.call decimal) ∧
    Sends client.sent numbered :=
  ⟨_, _, pressAll_connect decimal app clientCid raised presses, TcpClient.numbered_fst _ _,
    sends_numbered _⟩

end Presses

/-! ### Through the gateway -/

/-- The request that a call is. -/
def Call.request (call : Call) (seq : ℤ) : Request where
  sid := UInt8.ofNat call.sid.toNat
  dataType := UInt8.ofNat call.dataType.toNat
  payload := call.payload
  cid := call.cid
  seq := seq

section Gateway
variable {σ : Type*} {R : Reader σ UInt8} {decimal : Char → Option (Fin 10)}

end Gateway

/-! ### To the handlers of the MCU -/

end SomeIpGateway.ServiceRequests
