import SomeIpGateway.FrameFormat
import SomeIpGateway.StreamReading

/-!
# Client registration

`TcpServer::receivedCid` and `receivedCidTls` read the same frame field by field, with
one call for each field. `recv` with `MSG_WAITALL` returns all of a field; `SSL_read` stops
at the end of a record.
-/
namespace SomeIpGateway.Registration
open ByteAccess StreamReading FrameFormat

def registerSid : UInt8 := 0x30

section Receive
variable {σ : Type*} (R : Reader σ UInt8)

/-- The payload is skipped only if the DLC announces one. -/
def skipPayload (s : σ) (dlc : ℕ) : Option σ :=
  if 0 < dlc then (R.readExactly s dlc).map Prod.snd else some s

/-- The steps that the two versions share: the CID, and what is left of the stream. -/
def receiveCid (s : σ) : Option (UInt16 × σ) := do
  let (sof, s) ← R.readExactly s bkelSofSize
  if u8At sof 0 ≠ sofDataValue then none
  else
    let (hdr, s) ← R.readExactly s bkelHdrSize
    let hdr := readHeader hdr
    if hdr.sid ≠ registerSid then none
    else
      let s ← skipPayload R s hdr.dlc.toNat
      let (rawCid, s) ← R.readExactly s bkelCidSize
      let (_crc, s) ← R.readExactly s bkelCrcSize
      some (u16At rawCid 0 >>> 4, s)

end Receive

def receivedCid (stream : List UInt8) : Option (UInt16 × List UInt8) :=
  receiveCid (whole UInt8) stream

/-- `receivedCidTls`, on the records of the stream. -/
def receivedCidTls (ssl : List (List UInt8)) : Option (UInt16 × List (List UInt8)) :=
  receiveCid (records UInt8) ssl

/-- The stream begins with a complete registration frame. -/
def Registers (s : List UInt8) : Prop :=
  u8At s 0 = sofDataValue ∧ u8At s 1 = registerSid ∧ dlcAt s + 8 ≤ s.length

/-- The CID that the frame at the front carries, without the four bits of the sequence. -/
def cidAt (s : List UInt8) : UInt16 := u16At s (5 + dlcAt s) >>> 4

/-- No record ends inside the header, the payload or the CID of the frame at the front. -/
def FieldsWhole (ssl : List (List UInt8)) : Prop :=
  ∀ p, EndsAt ssl p → ¬ (1 < p ∧ p < 5) ∧ ¬ (5 < p ∧ p < 5 + dlcAt ssl.flatten) ∧
    p ≠ 6 + dlcAt ssl.flatten

section Receive
variable {σ : Type*} (R : Reader σ UInt8)

theorem skipPayload_eq_some {s t : σ} {dlc : ℕ} (h : skipPayload R s dlc = some t) :
    dlc ≤ (R.remaining s).length ∧ R.remaining t = (R.remaining s).drop dlc := by
  rw [skipPayload] at h
  split_ifs at h with hpos
  · obtain ⟨⟨got, u⟩, hread, rfl⟩ := Option.map_eq_some_iff.mp h
    obtain ⟨hlen, -, hrest⟩ := R.readExactly_eq_some hread
    exact ⟨hlen, hrest⟩
  · obtain rfl := Option.some.inj h
    obtain rfl : dlc = 0 := by omega
    simp

theorem cidAt_take (b : List UInt8) :
    u16At ((b.drop (5 + dlcAt b)).take 2) 0 >>> 4 = cidAt b := by
  simp [cidAt, u16At, u8At_take, u8At_drop]

theorem receiveCid_eq_some {s t : σ} {cid : UInt16} {b : List UInt8} (hb : R.remaining s = b) :
    receiveCid R s = some (cid, t) ↔
      (u8At b 0 = sofDataValue ∧ u8At b 1 = registerSid ∧ cid = cidAt b) ∧
      ∃ s₁ s₂ s₃ s₄, R.readExactly s 1 = some (b.take 1, s₁) ∧
        R.readExactly s₁ 4 = some ((b.drop 1).take 4, s₂) ∧
        skipPayload R s₂ (dlcAt b) = some s₃ ∧
        R.readExactly s₃ 2 = some ((b.drop (5 + dlcAt b)).take 2, s₄) ∧
        R.readExactly s₄ 1 = some ((b.drop (7 + dlcAt b)).take 1, t) := by
  constructor
  · intro h
    simp only [receiveCid, bkelSofSize, bkelHdrSize, bkelCidSize, bkelCrcSize,
      Option.bind_eq_bind, Option.bind_eq_some_iff] at h
    obtain ⟨⟨sof, s₁⟩, hsof, h⟩ := h
    obtain ⟨-, rfl, hrest₁⟩ := R.readExactly_eq_some hsof
    split_ifs at h with hsof0
    simp only [Option.bind_eq_some_iff] at h
    obtain ⟨⟨hdr, s₂⟩, hhdr, h⟩ := h
    obtain ⟨-, rfl, hrest₂⟩ := R.readExactly_eq_some hhdr
    split_ifs at h with hsid
    simp only [Option.bind_eq_some_iff] at h
    obtain ⟨s₃, hpayload, ⟨raw, s₄⟩, hcid, ⟨crc, s₅⟩, hcrc, h⟩ := h
    obtain ⟨-, hrest₃⟩ := skipPayload_eq_some R hpayload
    obtain ⟨-, rfl, hrest₄⟩ := R.readExactly_eq_some hcid
    obtain ⟨-, rfl, hrest₅⟩ := R.readExactly_eq_some hcrc
    obtain ⟨rfl, rfl⟩ := Prod.mk.inj (Option.some.inj h)
    have hdlc : (u16At b 3).toNat = dlcAt b := rfl
    simp only [hb, hrest₁, hrest₂, hrest₃, hrest₄, readHeader_take, readHeader_drop, List.drop_drop,
      Nat.reduceAdd, not_not, u8At_take, Nat.zero_lt_one, hdlc]
      at hsof hsof0 hhdr hsid hpayload hcid hcrc ⊢
    refine ⟨⟨hsof0, hsid, cidAt_take b⟩, s₁, s₂, s₃, s₄, hsof, hhdr, hpayload, hcid, ?_⟩
    rw [show 7 + dlcAt b = 5 + dlcAt b + 2 by omega]
    exact hcrc
  · rintro ⟨⟨hsof, hsid, rfl⟩, s₁, s₂, s₃, s₄, h₁, h₂, h₃, h₄, h₅⟩
    rw [dlcAt] at h₃ h₄ h₅
    simp [receiveCid, bkelSofSize, bkelHdrSize, bkelCidSize, bkelCrcSize, h₁, h₂, h₃,
      readHeader_take, readHeader_drop, -List.drop_one, u8At_take, hsof, hsid, h₄, h₅]
    exact cidAt_take b

/-- A result is the CID of a complete registration frame, and the frame is what was read. -/
theorem of_receiveCid {s t : σ} {cid : UInt16} (h : receiveCid R s = some (cid, t)) :
    Registers (R.remaining s) ∧ cid = cidAt (R.remaining s) ∧
      R.remaining t = (R.remaining s).drop (dlcAt (R.remaining s) + 8) := by
  obtain ⟨⟨hsof, hsid, hcid⟩, s₁, s₂, s₃, s₄, h₁, h₂, h₃, h₄, h₅⟩ :=
    (receiveCid_eq_some R rfl).mp h
  obtain ⟨hlen₁, -, hrest₁⟩ := R.readExactly_eq_some h₁
  obtain ⟨hlen₂, -, hrest₂⟩ := R.readExactly_eq_some h₂
  obtain ⟨hlen₃, hrest₃⟩ := skipPayload_eq_some R h₃
  obtain ⟨hlen₄, -, hrest₄⟩ := R.readExactly_eq_some h₄
  obtain ⟨hlen₅, -, hrest₅⟩ := R.readExactly_eq_some h₅
  simp only [hrest₁, hrest₂, hrest₃, hrest₄, hrest₅, List.drop_drop, List.length_drop]
    at hlen₁ hlen₂ hlen₃ hlen₄ hlen₅ ⊢
  refine ⟨⟨hsof, hsid, by omega⟩, hcid, ?_⟩
  congr 1
  omega

end Receive

/-- The plain version takes every complete registration frame. -/
theorem receivedCid_of_registers {s : List UInt8} (h : Registers s) :
    receivedCid s = some (cidAt s, s.drop (dlcAt s + 8)) := by
  obtain ⟨hsof, hsid, hlen⟩ := h
  have hskip (n : ℕ) (u : List UInt8) (hn : n ≤ u.length) :
      skipPayload (whole UInt8) u n = some (u.drop n) := by
    rw [skipPayload]
    split_ifs with hpos
    · rw [whole_readExactly hpos hn, Option.map_some]
    · obtain rfl : n = 0 := by omega
      rfl
  refine (receiveCid_eq_some (whole UInt8) (b := s) rfl).mpr ⟨⟨hsof, hsid, rfl⟩, s.drop 1, s.drop 5,
    s.drop (5 + dlcAt s), s.drop (7 + dlcAt s), ?_, ?_, ?_, ?_, ?_⟩
  · exact whole_readExactly (by omega) (by omega)
  · rw [whole_readExactly (by omega) (by rw [List.length_drop]; omega), List.drop_drop]
  · rw [hskip _ _ (by rw [List.length_drop]; omega), List.drop_drop]
  · rw [whole_readExactly (by omega) (by rw [List.length_drop]; omega), List.drop_drop,
      show 5 + dlcAt s + 2 = 7 + dlcAt s by omega]
  · rw [whole_readExactly (by omega) (by rw [List.length_drop]; omega), List.drop_drop,
      show 7 + dlcAt s + 1 = dlcAt s + 8 by omega]

/-! ### Records -/

theorem of_skipPayload {s t : List (List UInt8)} {n : ℕ}
    (h : skipPayload (records UInt8) s n = some t) :
    (∀ p, 0 < p → p < n → ¬ EndsAt s p) ∧ ∀ p, 0 < p → (EndsAt t p ↔ EndsAt s (n + p)) := by
  rw [skipPayload] at h
  split_ifs at h with hpos
  · obtain ⟨⟨got, u⟩, hread, rfl⟩ := Option.map_eq_some_iff.mp h
    exact of_records_readExactly hpos hread
  · obtain rfl := Option.some.inj h
    obtain rfl : n = 0 := by omega
    simp

theorem skipPayload_records {s : List (List UInt8)} {n : ℕ} (hlen : n ≤ s.flatten.length)
    (hends : ∀ p, 0 < p → p < n → ¬ EndsAt s p) :
    ∃ t, skipPayload (records UInt8) s n = some t := by
  rw [skipPayload]
  split_ifs with hpos
  · obtain ⟨t, ht, -, -⟩ := records_readExactly hpos hlen hends
    exact ⟨t, by rw [ht, Option.map_some]⟩
  · exact ⟨s, rfl⟩

/-- A result of the TLS version tells that no record ends inside a field. -/
theorem fieldsWhole_of_receivedCidTls {ssl t : List (List UInt8)} {cid : UInt16}
    (h : receivedCidTls ssl = some (cid, t)) : FieldsWhole ssl := by
  obtain ⟨-, s₁, s₂, s₃, s₄, h₁, h₂, h₃, h₄, -⟩ :=
    (receiveCid_eq_some (records UInt8) (b := ssl.flatten) rfl).mp h
  obtain ⟨-, hahead₁⟩ := of_records_readExactly (by omega) h₁
  obtain ⟨hends₂, hahead₂⟩ := of_records_readExactly (by omega) h₂
  obtain ⟨hends₃, hahead₃⟩ := of_skipPayload h₃
  obtain ⟨hends₄, -⟩ := of_records_readExactly (by omega) h₄
  intro p hp
  refine ⟨?_, ?_, ?_⟩
  · rintro ⟨hlow, hhigh⟩
    apply hends₂ (p - 1) (by omega) (by omega)
    rw [hahead₁ _ (by omega), show 1 + (p - 1) = p by omega]
    exact hp
  · rintro ⟨hlow, hhigh⟩
    apply hends₃ (p - 5) (by omega) (by omega)
    rw [hahead₂ _ (by omega), hahead₁ _ (by omega), show 1 + (4 + (p - 5)) = p by omega]
    exact hp
  · rintro rfl
    apply hends₄ 1 (by omega) (by omega)
    rw [hahead₃ _ (by omega), hahead₂ _ (by omega), hahead₁ _ (by omega),
      show 1 + (4 + (dlcAt ssl.flatten + 1)) = 6 + dlcAt ssl.flatten by omega]
    exact hp

/-- Where no record ends inside a field, the TLS version takes the frame too. -/
theorem receivedCidTls_of_fieldsWhole {ssl : List (List UInt8)} (h : Registers ssl.flatten)
    (hends : FieldsWhole ssl) : ∃ t, receivedCidTls ssl = some (cidAt ssl.flatten, t) := by
  obtain ⟨hsof, hsid, hlen⟩ := h
  obtain ⟨s₁, h₁, hflat₁, hahead₁⟩ := records_readExactly (s := ssl) (n := 1) (by omega)
    (by omega) (by omega)
  obtain ⟨s₂, h₂, hflat₂, hahead₂⟩ := records_readExactly (s := s₁) (n := 4) (by omega)
    (by rw [hflat₁, List.length_drop]; omega) fun p hlow hhigh hp =>
      (hends _ ((hahead₁ p hlow).mp hp)).1 (by omega)
  rw [hflat₁, List.drop_drop] at hflat₂
  have hahead₂ (p : ℕ) (hp : 0 < p) : EndsAt s₂ p ↔ EndsAt ssl (5 + p) := by
    rw [hahead₂ p hp, hahead₁ _ (by omega), ← Nat.add_assoc]
  obtain ⟨s₃, h₃⟩ := skipPayload_records (s := s₂) (n := dlcAt ssl.flatten)
    (by rw [hflat₂, List.length_drop]; omega) fun p hlow hhigh hp =>
      (hends _ ((hahead₂ p hlow).mp hp)).2.1 (by omega)
  obtain ⟨-, hflat₃⟩ := skipPayload_eq_some (records UInt8) h₃
  obtain ⟨-, hahead₃⟩ := of_skipPayload h₃
  have hflat₃ : s₃.flatten = ssl.flatten.drop (5 + dlcAt ssl.flatten) := by
    rw [← List.drop_drop, ← hflat₂]
    exact hflat₃
  have hahead₃ (p : ℕ) (hp : 0 < p) :
      EndsAt s₃ p ↔ EndsAt ssl (5 + (dlcAt ssl.flatten + p)) := by
    rw [hahead₃ p hp, hahead₂ _ (by omega)]
  obtain ⟨s₄, h₄, hflat₄, -⟩ := records_readExactly (s := s₃) (n := 2) (by omega)
    (by rw [hflat₃, List.length_drop]; omega) fun p hlow hhigh hp =>
      (hends _ ((hahead₃ p hlow).mp hp)).2.2 (by omega)
  rw [hflat₃, List.drop_drop, show 5 + dlcAt ssl.flatten + 2 = 7 + dlcAt ssl.flatten by omega]
    at hflat₄
  obtain ⟨s₅, h₅, -⟩ := records_readExactly (s := s₄) (n := 1) (by omega)
    (by rw [hflat₄, List.length_drop]; omega) (by omega)
  rw [hflat₁] at h₂
  rw [hflat₃] at h₄
  rw [hflat₄] at h₅
  exact ⟨s₅, (receiveCid_eq_some (records UInt8) (b := ssl.flatten) rfl).mpr
    ⟨⟨hsof, hsid, rfl⟩, s₁, s₂, s₃, s₄, h₁, h₂, h₃, h₄, h₅⟩⟩

/-- On the records, the TLS version has the result of the plain version, and where it has
a CID it has read the registration frame and no more. -/
def Agree (ssl : List (List UInt8)) : Prop :=
  (receivedCidTls ssl).map Prod.fst = (receivedCid ssl.flatten).map Prod.fst ∧
    ∀ cid rest, receivedCidTls ssl = some (cid, rest) →
      rest.flatten = ssl.flatten.drop (dlcAt ssl.flatten + 8)

/-- The two versions agree exactly where a registration frame has no field cut by the end
of a record. -/
theorem agree_iff (ssl : List (List UInt8)) :
    Agree ssl ↔ (Registers ssl.flatten → FieldsWhole ssl) := by
  have hrest (cid : UInt16) (rest : List (List UInt8)) (h : receivedCidTls ssl = some (cid, rest)) :
      Registers ssl.flatten ∧ cid = cidAt ssl.flatten ∧
        rest.flatten = ssl.flatten.drop (dlcAt ssl.flatten + 8) := of_receiveCid (records UInt8) h
  constructor
  · rintro ⟨hsame, -⟩ hreg
    rw [receivedCid_of_registers hreg, Option.map_some, Option.map_eq_some_iff] at hsame
    obtain ⟨⟨cid, rest⟩, htls, -⟩ := hsame
    exact fieldsWhole_of_receivedCidTls htls
  · intro hends
    refine ⟨?_, fun cid rest h => (hrest cid rest h).2.2⟩
    by_cases hreg : Registers ssl.flatten
    · obtain ⟨rest, htls⟩ := receivedCidTls_of_fieldsWhole hreg (hends hreg)
      rw [htls, receivedCid_of_registers hreg, Option.map_some, Option.map_some]
    · have htls : receivedCidTls ssl = none := by
        apply Option.eq_none_iff_forall_not_mem.mpr
        rintro ⟨cid, rest⟩ h
        exact hreg (hrest cid rest h).1
      have hplain : receivedCid ssl.flatten = none := by
        apply Option.eq_none_iff_forall_not_mem.mpr
        rintro ⟨cid, rest⟩ h
        exact hreg (of_receiveCid (whole UInt8) h).1
      rw [htls, hplain]
      rfl

/-- A registration frame with CID 0x123 whose header is split after the SID: the plain
version returns the CID, the TLS version refuses the client. -/
theorem split_header_refused : ¬ Agree [[0xAA, 0x30], [0x01, 0, 0, 0x30, 0x12, 0x55]] := by
  intro h
  have hplain : (receivedCid [0xAA, 0x30, 0x01, 0, 0, 0x30, 0x12, 0x55]).map Prod.fst =
      some 0x123 := by decide
  have htls : receivedCidTls [[0xAA, 0x30], [0x01, 0, 0, 0x30, 0x12, 0x55]] = none := by decide
  have hsame := h.1
  rw [htls] at hsame
  exact absurd (hsame.trans hplain) (by decide)

end SomeIpGateway.Registration
