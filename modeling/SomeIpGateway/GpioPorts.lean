import Mathlib.Tactic

/-!
# Pins of a GPIO port

`BKEL_read_pin`, `BKEL_write_pin` and `BKEL_toggle_pin` over the registers of a port. A pin
that is an output reads back its latch; any other pin reads what is applied to it.
-/
namespace SomeIpGateway.GpioPorts

/-- `BKEL_GPIO_STATE_T`. -/
inductive GpioState where
  | reset
  | set
  | stateEnd
  deriving Repr, DecidableEq

def GpioState.byte : GpioState → UInt8
  | reset => 0
  | set => 1
  | stateEnd => 2

/-- `ODR`, and the pins that are configured as outputs. -/
structure Port where
  odr : UInt16
  outputs : UInt16
  deriving Repr, DecidableEq

namespace Port

/-- A write to `BSRR`: its upper half clears pins; its lower half sets pins and wins. -/
def writeBsrr (port : Port) (value : UInt32) : Port :=
  { port with odr := (port.odr &&& ~~~(value >>> 16).toUInt16) ||| value.toUInt16 }

/-- `IDR`, with the levels applied from outside. -/
def idr (port : Port) (applied : UInt16) : UInt32 :=
  ((port.odr &&& port.outputs) ||| (applied &&& ~~~port.outputs)).toUInt32

/-- `BKEL_read_pin`. -/
def readPin (port : Port) (applied pinNumber : UInt16) : GpioState :=
  if port.idr applied &&& pinNumber.toUInt32 ≠ 0 then .set else .reset

def writePin (port : Port) (pinNumber : UInt16) (pinstate : GpioState) : Port :=
  if pinstate ≠ .reset then port.writeBsrr pinNumber.toUInt32
  else port.writeBsrr (pinNumber.toUInt32 <<< 16)

def togglePin (port : Port) (pinNumber : UInt16) : Port :=
  let odr := port.odr.toUInt32
  port.writeBsrr ((odr &&& pinNumber.toUInt32) <<< 16 ||| (~~~odr &&& pinNumber.toUInt32))

variable (port : Port) (applied pinNumber : UInt16)

theorem halves (upper lower : UInt16) :
    ((upper.toUInt32 <<< 16 ||| lower.toUInt32) >>> 16).toUInt16 = upper ∧
      (upper.toUInt32 <<< 16 ||| lower.toUInt32).toUInt16 = lower := by
  have hupper := upper.toNat_lt
  have hlower := lower.toNat_lt
  have hshift : upper.toNat * 65536 % 4294967296 = 2 ^ 16 * upper.toNat := by omega
  have hor := Nat.two_pow_add_eq_or_of_lt hlower upper.toNat
  have hvalue : (upper.toUInt32 <<< 16 ||| lower.toUInt32).toNat =
      2 ^ 16 * upper.toNat + lower.toNat := by
    simp only [UInt32.toNat_or, UInt32.toNat_shiftLeft, UInt16.toNat_toUInt32]
    simp [Nat.shiftLeft_eq, hshift, hor]
  constructor
  · rw [← UInt16.toNat_inj, UInt32.toNat_toUInt16, UInt32.toNat_shiftRight, hvalue]
    simp [Nat.shiftRight_eq_div_pow]
    omega
  · rw [← UInt16.toNat_inj, UInt32.toNat_toUInt16, hvalue]
    omega

theorem odr_writeBsrr (clear set : UInt16) :
    (port.writeBsrr (clear.toUInt32 <<< 16 ||| set.toUInt32)).odr =
      (port.odr &&& ~~~clear) ||| set := by
  obtain ⟨hupper, hlower⟩ := halves clear set
  simp only [writeBsrr, hupper, hlower]

theorem writePin_eq (pinstate : GpioState) :
    port.writePin pinNumber pinstate =
      { port with
        odr := if pinstate ≠ .reset then port.odr ||| pinNumber
          else port.odr &&& ~~~pinNumber } := by
  have hset := port.odr_writeBsrr 0 pinNumber
  have hreset := port.odr_writeBsrr pinNumber 0
  unfold writePin
  split_ifs
  · rw [← show (port.writeBsrr pinNumber.toUInt32).odr = port.odr ||| pinNumber by simpa using hset]
    rfl
  · rw [← show (port.writeBsrr (pinNumber.toUInt32 <<< 16)).odr = port.odr &&& ~~~pinNumber by
      simpa using hreset]
    rfl

/-- A toggle flips the pins of the mask and no others. -/
theorem togglePin_eq : port.togglePin pinNumber = { port with odr := port.odr ^^^ pinNumber } := by
  have hclear : port.odr.toUInt32 &&& pinNumber.toUInt32 = (port.odr &&& pinNumber).toUInt32 := by
    simp
  have hset : ~~~port.odr.toUInt32 &&& pinNumber.toUInt32 =
      (~~~port.odr &&& pinNumber).toUInt32 := by
    apply UInt32.eq_of_toBitVec_eq
    simp only [UInt32.toBitVec_and, UInt32.toBitVec_not, UInt16.toBitVec_toUInt32,
      UInt16.toBitVec_and, UInt16.toBitVec_not]
    ext i hi
    by_cases h : i < 16
    · simp [h]
    · have hpin : pinNumber.toBitVec.getLsbD i = false := BitVec.getLsbD_of_ge _ _ (by omega)
      simp [h, hpin]
  have hflip : (port.odr &&& ~~~(port.odr &&& pinNumber)) ||| (~~~port.odr &&& pinNumber) =
      port.odr ^^^ pinNumber := by
    apply UInt16.eq_of_toBitVec_eq
    ext i hi
    simp only [UInt16.toBitVec_or, UInt16.toBitVec_and, UInt16.toBitVec_not, UInt16.toBitVec_xor,
      BitVec.getElem_or, BitVec.getElem_and, BitVec.getElem_not, BitVec.getElem_xor]
    cases port.odr.toBitVec[i] <;> cases pinNumber.toBitVec[i] <;> rfl
  rw [← hflip, ← odr_writeBsrr, ← hclear, ← hset]
  rfl

theorem readPin_of_bits {bits : UInt16}
    (h : ((port.odr &&& port.outputs) ||| (applied &&& ~~~port.outputs)) &&& pinNumber =
      bits &&& pinNumber) :
    port.readPin applied pinNumber = if bits &&& pinNumber ≠ 0 then .set else .reset := by
  have hidr : port.idr applied &&& pinNumber.toUInt32 = (bits &&& pinNumber).toUInt32 := by
    rw [← h]
    simp [idr]
  have hzero : (bits &&& pinNumber).toUInt32 = 0 ↔ bits &&& pinNumber = 0 := by
    rw [← UInt32.toNat_inj, ← UInt16.toNat_inj, UInt16.toNat_toUInt32]
    rfl
  simp only [readPin, hidr, ne_eq, hzero]

/-- Of two words that a mask chooses between, pins of the mask show the first. -/
theorem selected_and (a b : UInt16) {mask : UInt16} (h : pinNumber &&& mask = pinNumber) :
    ((a &&& mask) ||| (b &&& ~~~mask)) &&& pinNumber = a &&& pinNumber := by
  rw [← h]
  apply UInt16.eq_of_toBitVec_eq
  ext i hi
  simp only [UInt16.toBitVec_or, UInt16.toBitVec_and, UInt16.toBitVec_not,
    BitVec.getElem_or, BitVec.getElem_and, BitVec.getElem_not]
  cases a.toBitVec[i] <;> cases mask.toBitVec[i] <;> cases pinNumber.toBitVec[i] <;> simp

/-- Pins that are outputs are read as they were last written. -/
theorem readPin_of_outputs (h : pinNumber &&& port.outputs = pinNumber) :
    port.readPin applied pinNumber = if port.odr &&& pinNumber ≠ 0 then .set else .reset := by
  apply readPin_of_bits
  exact selected_and pinNumber port.odr applied h

/-- Pins that are no outputs are read as they are applied. -/
theorem readPin_of_inputs (h : pinNumber &&& ~~~port.outputs = pinNumber) :
    port.readPin applied pinNumber = if applied &&& pinNumber ≠ 0 then .set else .reset := by
  apply readPin_of_bits
  have hselected := selected_and pinNumber applied port.odr h
  rwa [UInt16.not_not, UInt16.or_comm] at hselected

end Port
end SomeIpGateway.GpioPorts
