import SomeIpGateway.McuParser

/-!
# The two parsers on the same bytes

The MCU's `parse_packet` and the gateway's `PacketParser::push` on one string of bytes.
They differ in their limits on the DLC and in how they treat the end of the string; where
no candidate's DLC lies between the limits they find the same frames.
-/
namespace SomeIpGateway.ParserAgreement
open ByteAccess StreamScanning FrameFormat PacketCodec McuParser

/-- No `0xAA` is followed by a DLC that only the MCU's parser takes for one. -/
def NoDlcBetweenLimits (s : List UInt8) : Prop :=
  ∀ i, i + 4 < s.length → u8At s i = 0xAA →
    ¬ (257 ≤ (u16At s (i + 3)).toNat ∧ (u16At s (i + 3)).toNat ≤ 500)

instance (s : List UInt8) : Decidable (NoDlcBetweenLimits s) :=
  decidable_of_iff (∀ i < s.length, i + 4 < s.length → u8At s i = 0xAA →
    ¬ (257 ≤ (u16At s (i + 3)).toNat ∧ (u16At s (i + 3)).toNat ≤ 500))
    ⟨fun h i hi => h i (by omega) hi, fun h i _ hi => h i hi⟩

/-- The limit does not matter where the DLC is on the same side of both limits. -/
theorem verdict_congr {limit limit' : ℕ} {buf : List UInt8}
    (h : u8At buf 0 = sofDataValue → 5 ≤ buf.length → (limit < dlcAt buf ↔ limit' < dlcAt buf)) :
    verdict limit buf = verdict limit' buf := by
  unfold verdict
  by_cases hsof : u8At buf 0 = sofDataValue
  · by_cases h5 : buf.length < 5
    · simp [hsof, h5]
    · simp [hsof, h5, h hsof (not_lt.mp h5)]
  · simp [hsof]

theorem verdict_of_suffix {s rest : List UInt8} (h : NoDlcBetweenLimits s) (hrest : rest <:+ s) :
    verdict bkelMaxDlc rest = verdict bkelMaxPayload rest := by
  obtain ⟨front, rfl⟩ := hrest
  refine verdict_congr fun hsof h5 => ?_
  have hsof' : u8At (front ++ rest) front.length = 0xAA := by
    have hat := u8At_append_right front rest 0
    rw [Nat.add_zero] at hat
    exact hat.trans hsof
  have hdlc : u16At (front ++ rest) (front.length + 3) = u16At rest 3 := by
    rw [u16At, u16At, Nat.add_assoc, u8At_append_right, u8At_append_right]
  have hgap := h front.length (by rw [List.length_append]; omega) hsof'
  rw [hdlc] at hgap
  rw [dlcAt, bkelMaxDlc, bkelMaxPayload]
  omega

/-- On a string without a DLC between the two limits, one call of `parse_packet` and one
`push` to an empty parser find the same frames, whatever stands behind the string in
`rx_buf` and beyond it. -/
theorem parsers_agree {s : List UInt8} (hgap : NoDlcBetweenLimits s)
    (stale beyond : List UInt8) :
    (parsePacket (s ++ stale) beyond s.length).1 = items (push [] s).1 := by
  have hdrain := grammar.drain_congr (frameScanner bkelMaxPayload) s
    fun rest hrest => verdict_of_suffix hgap hrest
  calc (parsePacket (s ++ stale) beyond s.length).1 = items (grammar.drain s).1 := by
        rw [parsePacket_eq]
    _ = items ((frameScanner bkelMaxPayload).drain s).1 := by rw [hdrain]
    _ = items (push [] s).1 := (items_parse s).symm

/-- A stray byte, a SOF with a DLC beyond both limits, a frame, and the start of another;
`rx_buf` still holds older bytes. -/
theorem parsers_agree_noise :
    (parsePacket (([0x13, 0xAA, 0x20, 0x01, 0xF5, 0x01] ++
        frameBytes ⟨0x20, 1, 2, 7, [0xAA, 5]⟩ ++ [0xAA, 0x21]) ++ List.replicate 494 0xAA) [0xAA]
      18).1 =
    items (push [] ([0x13, 0xAA, 0x20, 0x01, 0xF5, 0x01] ++
      frameBytes ⟨0x20, 1, 2, 7, [0xAA, 5]⟩ ++ [0xAA, 0x21])).1 :=
  parsers_agree (by decide +kernel) (List.replicate 494 0xAA) [0xAA]

end SomeIpGateway.ParserAgreement
