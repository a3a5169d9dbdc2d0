import SomeIpGateway.PythonCodec
import SomeIpGateway.TlsReceive
import SomeIpGateway.McuParser

/-!
# Requests on their way through the gateway

A request encoded by the Python client, read by the gateway's receive loop and encoded
again for the MCU. The three codecs agree on everything but the last byte: the client
sends an XOR of the bytes, the gateway drops it, and the MCU is sent a CRC.
-/
namespace SomeIpGateway.ClientRequests
open ByteAccess StreamReading FrameFormat PacketCodec CandidateScan TlsReceive PythonCodec McuParser

/-- What the receive loop makes of a request. -/
def forwarded (cid : UInt16) (r : Request) : Forwarded := ⟨cid, sofDataValue, r.frame, r.checksum⟩

/-- The bytes that the gateway sends to the MCU for a forwarded frame. -/
def toMcu (x : Forwarded) : List UInt8 :=
  buildFrame x.frame.sid x.frame.type (some x.frame.payload) x.frame.dlc x.frame.cid

theorem encode_all {requests : List Request}
    (h : ∀ r ∈ requests, r.payload.length ≤ maxPayload) :
    requests.mapM Request.encode = .ok (requests.map fun r => framed r.frame r.checksum) := by
  induction requests with
  | nil => rfl
  | cons r requests ih =>
    rw [List.mapM_cons, Request.encode_eq (h r List.mem_cons_self),
      ih fun q hq => h q (List.mem_cons_of_mem r hq)]
    rfl

theorem toMcu_forwarded {r : Request} (h : r.payload.length ≤ bkelMaxPayload) (cid : UInt16) :
    toMcu (forwarded cid r) = frameBytes r.frame := by
  have hmax : r.payload.length ≤ maxPayload := h.trans (by decide)
  exact buildFrame_eq_frameBytes (Request.frame_wellFormed hmax)
    ((Request.frame_dlc hmax).trans_le h)

/-- Frames that differ in the last byte only. -/
theorem frameBytes_eq (f : BkelFrame) (crc : UInt8) :
    frameBytes f =
      (framed f crc).dropLast ++ [calcCrc8 ((framed f crc).dropLast.drop 1)] := by
  rw [frameBytes, framed, framed, ← List.cons_append, ← List.cons_append, List.dropLast_concat]
  rfl

/-- What the MCU checks in the bytes it is sent. -/
theorem accepted_toMcu {r : Request} (h : r.payload.length ≤ bkelMaxPayload) (cid : UInt16) :
    Accepted bkelMaxDlc (toMcu (forwarded cid r)) := by
  have hmax : r.payload.length ≤ maxPayload := h.trans (by decide)
  have hdlc : r.frame.dlc.toNat ≤ bkelMaxDlc :=
    (Request.frame_dlc hmax).trans_le (h.trans (by decide))
  rw [toMcu_forwarded h, ← List.append_nil (frameBytes r.frame)]
  exact accepted_frameBytes (Request.frame_wellFormed hmax) hdlc []

/-- Requests within the gateway's limit are encoded, and are forwarded request by request,
in order, each with the sid, type, payload, CID and sequence it was encoded with, however
the connection returns the bytes. What the MCU is sent for each of them is the client's
packet with the CRC that the MCU checks in place of the client's XOR. -/
theorem requests_cross {σ : Type*} (R : Reader σ UInt8) (cid : UInt16) (requests : List Request)
    (h : ∀ r ∈ requests, r.payload.length ≤ 256) :
    ∃ packets, requests.mapM Request.encode = .ok packets ∧
      (∀ p ∈ packets, p.getLast? = some (crc8Placeholder p.dropLast)) ∧
      ∀ s, R.remaining s = packets.flatten →
        rxLoop R cid s = requests.map (forwarded cid) ∧
        (rxLoop R cid s).map toMcu =
          packets.map (fun p => p.dropLast ++ [calcCrc8 (p.dropLast.drop 1)]) ∧
        ∀ x ∈ rxLoop R cid s, Accepted bkelMaxDlc (toMcu x) := by
  refine ⟨_, encode_all fun r hr => (h r hr).trans (by decide), ?_, fun s hs => ?_⟩
  · intro p hp
    obtain ⟨r, -, rfl⟩ := List.mem_map.mp hp
    rw [framed, ← List.cons_append, List.getLast?_concat, List.dropLast_concat]
    rfl
  · have hframes : R.remaining s =
        framesBytes (requests.map fun r => (r.frame, r.checksum)) ++ [] := by
      rw [hs, framesBytes, List.flatMap_map, List.append_nil]
      rfl
    have hloop : rxLoop R cid s = requests.map (forwarded cid) := by
      rw [rxLoop_frames_tail R cid (Request.admissible (by decide) h) hframes
        (Or.inl (by decide)), List.map_map]
      rfl
    refine ⟨hloop, ?_, ?_⟩
    · rw [hloop, List.map_map, List.map_map]
      apply List.map_congr_left
      intro r hr
      rw [Function.comp_apply, Function.comp_apply, toMcu_forwarded (h r hr)]
      exact frameBytes_eq r.frame r.checksum
    · intro x hx
      rw [hloop] at hx
      obtain ⟨r, hr, rfl⟩ := List.mem_map.mp hx
      exact accepted_toMcu (h r hr) cid

/-- Two requests, one of them with a negative sequence number and a SOF in its payload. -/
theorem requests_cross_two :
    ∃ packets,
      [(⟨0x20, 1, [], 0x123, 5⟩ : Request), ⟨0x10, 1, [0xAA, 0x01], 0x1FFF, -1⟩].mapM
        Request.encode = .ok packets ∧
      (∀ p ∈ packets, p.getLast? = some (crc8Placeholder p.dropLast)) ∧
      ∀ s, (records UInt8).remaining s = packets.flatten →
        rxLoop (records UInt8) 0x123 s =
          [(⟨0x20, 1, [], 0x123, 5⟩ : Request), ⟨0x10, 1, [0xAA, 0x01], 0x1FFF, -1⟩].map
            (forwarded 0x123) ∧
        (rxLoop (records UInt8) 0x123 s).map toMcu =
          packets.map (fun p => p.dropLast ++ [calcCrc8 (p.dropLast.drop 1)]) ∧
        ∀ x ∈ rxLoop (records UInt8) 0x123 s, Accepted bkelMaxDlc (toMcu x) :=
  requests_cross (records UInt8) 0x123 _ (by decide)

end SomeIpGateway.ClientRequests
