import Mathlib.Tactic

/-!
# Cyclic redundancy checks

The shift register of a cyclic redundancy check, of any width and with any generator,
fed with a message bit by bit. The register is linear in the message. Where the
generator has a constant term, a shift loses nothing, and an error whose flipped bits
lie within as many consecutive bits as the register is wide always leaves a trace in it.
-/
namespace SomeIpGateway.CyclicChecks

section Register
variable {w : ℕ} (poly : BitVec w)

/-- Shift the register by one bit and subtract the generator if a one falls out. -/
def shift (r : BitVec w) : BitVec w := if r.msb then (r <<< 1) ^^^ poly else r <<< 1

/-- The register with one bit only, at the end that falls out first. -/
def topBit (b : Bool) : BitVec w := if b then BitVec.twoPow w (w - 1) else 0

/-- Feed one bit of the message. -/
def feed (r : BitVec w) (b : Bool) : BitVec w := shift poly (r ^^^ topBit b)

/-- Feed a message. -/
def feedAll (r : BitVec w) (bits : List Bool) : BitVec w := bits.foldl (feed poly) r

@[simp] theorem feedAll_nil (r : BitVec w) : feedAll poly r [] = r := rfl

@[simp] theorem feedAll_cons (r : BitVec w) (b : Bool) (bits : List Bool) :
    feedAll poly r (b :: bits) = feedAll poly (feed poly r b) bits := rfl

theorem feedAll_append (r : BitVec w) (xs ys : List Bool) :
    feedAll poly r (xs ++ ys) = feedAll poly (feedAll poly r xs) ys := List.foldl_append

@[simp] theorem shift_zero : shift poly 0 = 0 := by simp [shift]

@[simp] theorem topBit_false : topBit (w := w) false = 0 := rfl

theorem feed_false (r : BitVec w) : feed poly r false = shift poly r := by
  simp [feed]

theorem shift_xor (a b : BitVec w) : shift poly (a ^^^ b) = shift poly a ^^^ shift poly b := by
  have hshift : (a ^^^ b) <<< 1 = a <<< 1 ^^^ b <<< 1 := BitVec.shiftLeft_xor_distrib ..
  simp only [shift, BitVec.msb_xor, hshift]
  cases a.msb <;> cases b.msb
  · rfl
  · exact BitVec.xor_assoc ..
  · simp only [Bool.xor_false, if_true, Bool.false_eq_true, if_false]
    ac_rfl
  · simp only [Bool.xor_self, if_true, Bool.false_eq_true, if_false]
    rw [BitVec.xor_assoc, BitVec.xor_comm poly, BitVec.xor_assoc, BitVec.xor_self, BitVec.xor_zero]

theorem topBit_xor (a b : Bool) : topBit (w := w) (a ^^ b) = topBit a ^^^ topBit b := by
  cases a <;> cases b <;> simp [topBit]

theorem feed_xor (r s : BitVec w) (a b : Bool) :
    feed poly (r ^^^ s) (a ^^ b) = feed poly r a ^^^ feed poly s b := by
  rw [feed, feed, feed, ← shift_xor, topBit_xor]
  congr 1
  ac_rfl

/-- The register is linear in the message. -/
theorem feedAll_xor (r s : BitVec w) {xs ys : List Bool} (h : xs.length = ys.length) :
    feedAll poly (r ^^^ s) (List.zipWith xor xs ys) = feedAll poly r xs ^^^ feedAll poly s ys := by
  induction xs generalizing r s ys with
  | nil =>
    obtain rfl := List.eq_nil_of_length_eq_zero h.symm
    rfl
  | cons a xs ih =>
    obtain ⟨b, ys, rfl⟩ := List.exists_cons_of_length_eq_add_one h.symm
    rw [List.zipWith_cons_cons, feedAll_cons, feed_xor, ih _ _ (by simpa using h)]
    rfl

theorem shift_iterate_xor (n : ℕ) (a b : BitVec w) :
    (shift poly)^[n] (a ^^^ b) = (shift poly)^[n] a ^^^ (shift poly)^[n] b := by
  induction n generalizing a b with
  | zero => rfl
  | succ n ih => rw [Function.iterate_succ_apply, shift_xor, ih]; rfl

/-- What was in the register is shifted along and added to what the message leaves. -/
theorem feedAll_eq_xor (r : BitVec w) (bits : List Bool) :
    feedAll poly r bits = (shift poly)^[bits.length] r ^^^ feedAll poly 0 bits := by
  induction bits generalizing r with
  | nil => exact BitVec.xor_zero.symm
  | cons b bits ih =>
    have hfeed : feed poly r b = shift poly r ^^^ feed poly 0 b := by
      have h := feed_xor poly r 0 false b
      rwa [Bool.false_xor, show r ^^^ 0 = r from BitVec.xor_zero, feed_false] at h
    rw [feedAll_cons, feedAll_cons, ih, ih (feed poly 0 b), hfeed, shift_iterate_xor,
      BitVec.xor_assoc, List.length_cons, Function.iterate_succ_apply]

/-- The bit that falls out decides the lowest bit behind a shift. -/
theorem getLsbD_shift_zero (hpoly : poly.getLsbD 0 = true) (r : BitVec w) :
    (shift poly r).getLsbD 0 = r.msb := by
  unfold shift
  split_ifs with hmsb
  · simp [hpoly, hmsb]
  · simp [hmsb]

/-- With a constant term in the generator, a shift to zero comes from zero. -/
theorem eq_zero_of_shift (hpoly : poly.getLsbD 0 = true) {r : BitVec w}
    (h : shift poly r = 0) : r = 0 := by
  have hmsb : r.msb = false := by
    rw [← getLsbD_shift_zero poly hpoly, h]
    simp
  rw [shift, hmsb] at h
  apply BitVec.eq_of_getLsbD_eq
  intro i hi
  by_cases hlast : i = w - 1
  · rw [hlast, ← BitVec.msb_eq_getLsbD_last, hmsb]
    simp
  · have hbit := congrArg (fun x : BitVec w => x.getLsbD (i + 1)) h
    have hlt : i + 1 < w := by omega
    simpa [hlt, BitVec.getLsbD_eq_getElem hi] using hbit

theorem eq_zero_of_shift_iterate (hpoly : poly.getLsbD 0 = true) (n : ℕ) {r : BitVec w}
    (h : (shift poly)^[n] r = 0) : r = 0 := by
  induction n generalizing r with
  | zero => exact h
  | succ n ih => exact eq_zero_of_shift poly hpoly (ih h)

/-- Zeros behind an error do not wipe it out. -/
theorem eq_zero_of_feedAll_zeros (hpoly : poly.getLsbD 0 = true) {r : BitVec w}
    {bits : List Bool} (hbits : ∀ b ∈ bits, b = false) (h : feedAll poly r bits = 0) : r = 0 := by
  induction bits generalizing r with
  | nil => exact h
  | cons b bits ih =>
    obtain rfl := hbits b List.mem_cons_self
    rw [feedAll_cons, feed_false] at h
    exact eq_zero_of_shift poly hpoly (ih (fun c hc => hbits c (List.mem_cons_of_mem _ hc)) h)

theorem feedAll_zeros {bits : List Bool} (hbits : ∀ b ∈ bits, b = false) :
    feedAll poly 0 bits = 0 := by
  induction bits with
  | nil => rfl
  | cons b bits ih =>
    obtain rfl := hbits b List.mem_cons_self
    rw [feedAll_cons, feed_false, shift_zero]
    exact ih fun c hc => hbits c (List.mem_cons_of_mem _ hc)

/-- What a short message that leaves nothing in the register says about its content
before: the lowest bits are zero. -/
theorem low_bits_of_feedAll (hpoly : poly.getLsbD 0 = true) {r : BitVec w} {bits : List Bool}
    (hlen : bits.length ≤ w) (h : feedAll poly r bits = 0) {i : ℕ} (hi : i + bits.length < w) :
    r.getLsbD i = false := by
  induction bits generalizing r i with
  | nil =>
    rw [feedAll_nil] at h
    simp [h]
  | cons b bits ih =>
    rw [List.length_cons] at hlen hi
    have hrest := fun {j : ℕ} (hj : j + bits.length < w) => ih (by omega) h hj
    have hmsb : (r ^^^ topBit b).msb = false := by
      rw [← getLsbD_shift_zero poly hpoly]
      exact hrest (by omega)
    have hnext := hrest (show i + 1 + bits.length < w by omega)
    rw [feed, shift, hmsb] at hnext
    have hlt : i + 1 < w := by omega
    have htop : (topBit b : BitVec w).getLsbD i = false := by
      cases b with
      | false => simp
      | true => simp [topBit, BitVec.getLsbD_twoPow, show w - 1 ≠ i by omega]
    have hsame : ((r ^^^ topBit b) <<< 1).getLsbD (i + 1) = r.getLsbD i := by
      rw [BitVec.getLsbD_shiftLeft, Nat.add_sub_cancel, BitVec.getLsbD_xor, htop]
      simp [hlt]
    exact hsame.symm.trans hnext

/-- No more bits than the register is wide leave nothing in it only if all are zero. -/
theorem window_eq_zeros (hpoly : poly.getLsbD 0 = true) {window : List Bool}
    (hlen : window.length ≤ w) (h : feedAll poly 0 window = 0) : ∀ b ∈ window, b = false := by
  induction window with
  | nil => simp
  | cons b window ih =>
    rw [List.length_cons] at hlen
    rw [feedAll_cons] at h
    have hfirst : (feed poly 0 b).getLsbD 0 = false :=
      low_bits_of_feedAll poly hpoly (by omega) h (by omega)
    have hzero : b = false := by
      rw [feed, getLsbD_shift_zero poly hpoly] at hfirst
      cases b with
      | false => rfl
      | true => simp [topBit, BitVec.msb_twoPow, show w ≠ 0 by omega] at hfirst
    subst hzero
    rw [feed_false, shift_zero] at h
    intro c hc
    rcases List.mem_cons.mp hc with rfl | hc
    · rfl
    · exact ih (by omega) h c hc

/-- A one is among the bits, and all ones lie within `n` consecutive places. -/
def Burst (n : ℕ) (bits : List Bool) : Prop :=
  true ∈ bits ∧ ∃ start, ∀ j, bits[j]? = some true → start ≤ j ∧ j < start + n

/-- A burst is a window with a one in it, between zeros. -/
theorem Burst.window {n : ℕ} {bits : List Bool} (h : Burst n bits) :
    ∃ before window after, bits = before ++ (window ++ after) ∧ window.length ≤ n ∧
      true ∈ window ∧ (∀ b ∈ before, b = false) ∧ ∀ b ∈ after, b = false := by
  obtain ⟨hone, start, hplaces⟩ := h
  have hsplit : bits = bits.take start ++ ((bits.drop start).take n ++ bits.drop (start + n)) := by
    rw [← List.drop_drop, List.take_append_drop, List.take_append_drop]
  have hbefore : ∀ b ∈ bits.take start, b = false := by
    intro b hb
    obtain ⟨j, hj⟩ := List.mem_iff_getElem?.mp hb
    rw [List.getElem?_take] at hj
    split_ifs at hj with hlt
    cases b with
    | false => rfl
    | true => exact absurd (hplaces j hj).1 (by omega)
  have hafter : ∀ b ∈ bits.drop (start + n), b = false := by
    intro b hb
    obtain ⟨j, hj⟩ := List.mem_iff_getElem?.mp hb
    rw [List.getElem?_drop] at hj
    cases b with
    | false => rfl
    | true => exact absurd (hplaces _ hj).2 (by omega)
  refine ⟨_, _, _, hsplit, List.length_take_le _ _, ?_, hbefore, hafter⟩
  rw [hsplit, List.mem_append, List.mem_append] at hone
  rcases hone with hone | hone | hone
  · exact absurd (hbefore true hone) (by simp)
  · exact hone
  · exact absurd (hafter true hone) (by simp)

theorem burst_of_window {n : ℕ} {before window after : List Bool} (hlen : window.length ≤ n)
    (hone : true ∈ window) (hbefore : ∀ b ∈ before, b = false) (hafter : ∀ b ∈ after, b = false) :
    Burst n (before ++ (window ++ after)) := by
  refine ⟨by simp [hone], before.length, fun j hj => ?_⟩
  rw [List.getElem?_append] at hj
  split_ifs at hj with hleft
  · exact absurd (hbefore true (List.mem_of_getElem? hj)) (by simp)
  · rw [List.getElem?_append] at hj
    split_ifs at hj with hmiddle
    · omega
    · exact absurd (hafter true (List.mem_of_getElem? hj)) (by simp)

/-- A burst no longer than the register is wide never leaves the register at zero. -/
theorem feedAll_burst (hpoly : poly.getLsbD 0 = true) {bits : List Bool} (h : Burst w bits) :
    feedAll poly 0 bits ≠ 0 := by
  obtain ⟨before, window, after, rfl, hlen, hone, hbefore, hafter⟩ := h.window
  intro hzero
  rw [feedAll_append, feedAll_append, feedAll_zeros poly hbefore] at hzero
  have hwindow := eq_zero_of_feedAll_zeros poly hpoly hafter hzero
  exact absurd (window_eq_zeros poly hpoly hlen hwindow true hone) (by simp)

/-- Two messages that differ by such a burst leave different registers. -/
theorem feedAll_ne_of_burst (hpoly : poly.getLsbD 0 = true) (r : BitVec w) {bits e : List Bool}
    (hlen : bits.length = e.length) (h : Burst w e) :
    feedAll poly r (List.zipWith xor bits e) ≠ feedAll poly r bits := by
  have hxor := feedAll_xor poly r 0 hlen
  rw [show r ^^^ 0 = r from BitVec.xor_zero] at hxor
  rw [hxor]
  intro hsame
  apply feedAll_burst poly hpoly h
  calc feedAll poly 0 e = feedAll poly r bits ^^^ (feedAll poly r bits ^^^ feedAll poly 0 e) := by
        rw [← BitVec.xor_assoc, BitVec.xor_self, BitVec.zero_xor]
    _ = 0 := by rw [hsame, BitVec.xor_self]; rfl

end Register
end SomeIpGateway.CyclicChecks
