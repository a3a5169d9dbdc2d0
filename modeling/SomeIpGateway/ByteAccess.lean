import Mathlib.Tactic

/-!
# Byte-wise access to memory

A block of memory is the list of its bytes, and a pointer into it is the list
from the pointed-to byte on. Sixteen-bit values are stored low byte first.
Reads beyond the listed memory give zero; the lemmas that matter bound the index.
-/
namespace SomeIpGateway.ByteAccess

/-- The low byte of a 16-bit value. -/
def lowByte (x : UInt16) : UInt8 := (x &&& 0xFF).toUInt8

/-- The high byte of a 16-bit value. -/
def highByte (x : UInt16) : UInt8 := ((x >>> 8) &&& 0xFF).toUInt8

/-- The 16-bit value stored as the two given bytes, low byte first. -/
def u16OfBytes (low high : UInt8) : UInt16 := low.toUInt16 ||| (high.toUInt16 <<< 8)

@[simp] theorem lowByte_toNat (x : UInt16) : (lowByte x).toNat = x.toNat % 256 := by
  have h := Nat.and_two_pow_sub_one_eq_mod (x.toNat % 256) 8
  simp only [Nat.reducePow, Nat.reduceSub, Nat.mod_mod] at h
  simp [lowByte, h]

@[simp] theorem highByte_toNat (x : UInt16) : (highByte x).toNat = x.toNat / 256 := by
  have hx := x.toNat_lt
  have h := Nat.and_two_pow_sub_one_eq_mod (x.toNat / 256 % 256) 8
  simp only [Nat.reducePow, Nat.reduceSub, Nat.mod_mod] at h
  simp [highByte, Nat.shiftRight_eq_div_pow, h]
  omega

@[simp] theorem u16OfBytes_toNat (low high : UInt8) :
    (u16OfBytes low high).toNat = low.toNat + 256 * high.toNat := by
  have hl := low.toNat_lt
  have hh := high.toNat_lt
  have hor := Nat.two_pow_add_eq_or_of_lt (i := 8) hl high.toNat
  have hshift : high.toNat * 256 % 65536 = 2 ^ 8 * high.toNat := by omega
  calc (u16OfBytes low high).toNat = low.toNat ||| high.toNat * 256 % 65536 := by
        simp [u16OfBytes, Nat.shiftLeft_eq]
    _ = low.toNat + 256 * high.toNat := by rw [hshift, Nat.or_comm, ← hor]; omega

@[simp] theorem u16OfBytes_bytes (x : UInt16) : u16OfBytes (lowByte x) (highByte x) = x := by
  rw [← UInt16.toNat_inj, u16OfBytes_toNat, lowByte_toNat, highByte_toNat]
  omega

@[simp] theorem lowByte_u16OfBytes (low high : UInt8) : lowByte (u16OfBytes low high) = low := by
  have hl := low.toNat_lt
  rw [← UInt8.toNat_inj, lowByte_toNat, u16OfBytes_toNat]
  omega

@[simp] theorem highByte_u16OfBytes (low high : UInt8) :
    highByte (u16OfBytes low high) = high := by
  have hl := low.toNat_lt
  rw [← UInt8.toNat_inj, highByte_toNat, u16OfBytes_toNat]
  omega

/-- The byte at an offset of a pointer. -/
def u8At (mem : List UInt8) (i : ℕ) : UInt8 := mem.getD i 0

/-- The 16-bit value at an offset of a pointer. -/
def u16At (mem : List UInt8) (i : ℕ) : UInt16 := u16OfBytes (u8At mem i) (u8At mem (i + 1))

@[simp] theorem u8At_cons_zero (a : UInt8) (mem : List UInt8) : u8At (a :: mem) 0 = a := rfl

@[simp] theorem u8At_cons_succ (a : UInt8) (mem : List UInt8) (i : ℕ) :
    u8At (a :: mem) (i + 1) = u8At mem i := rfl

theorem u8At_append_left {a : List UInt8} {i : ℕ} (h : i < a.length) (b : List UInt8) :
    u8At (a ++ b) i = u8At a i := by
  simp [u8At, List.getD_eq_getElem?_getD, List.getElem?_append_left h]

@[simp] theorem u8At_append_right (a b : List UInt8) (i : ℕ) :
    u8At (a ++ b) (a.length + i) = u8At b i := by
  simp [u8At, List.getD_eq_getElem?_getD, List.getElem?_append_right]

theorem u16At_append_left {a : List UInt8} {i : ℕ} (h : i + 1 < a.length) (b : List UInt8) :
    u16At (a ++ b) i = u16At a i := by
  rw [u16At, u16At, u8At_append_left (by omega), u8At_append_left h]

theorem u8At_drop (mem : List UInt8) (k i : ℕ) : u8At (mem.drop k) i = u8At mem (k + i) := by
  simp [u8At, List.getD_eq_getElem?_getD, List.getElem?_drop]

theorem u8At_take {mem : List UInt8} {k i : ℕ} (h : i < k) :
    u8At (mem.take k) i = u8At mem i := by
  simp [u8At, List.getD_eq_getElem?_getD, List.getElem?_take_of_lt h]

/-- Store consecutive bytes at an offset, leaving the rest of memory alone. -/
def store {α : Type*} (mem : List α) (i : ℕ) (src : List α) : List α :=
  mem.take i ++ src ++ mem.drop (i + src.length)

section Store
variable {α : Type*}

theorem length_store {mem : List α} {i : ℕ} {src : List α} (h : i + src.length ≤ mem.length) :
    (store mem i src).length = mem.length := by
  simp only [store, List.length_append, List.length_take, List.length_drop]
  omega

/-- Storing right behind the part of a block already written extends that part. -/
theorem store_written {mem written src : List α} {i : ℕ} (hi : written.length = i) :
    store (written ++ mem.drop i) i src = (written ++ src) ++ mem.drop (i + src.length) := by
  subst hi
  simp [store, List.drop_append]

theorem take_store {mem : List α} {i : ℕ} (h : i ≤ mem.length) (src : List α) :
    (store mem i src).take (i + src.length) = mem.take i ++ src := by
  have hl : (mem.take i ++ src).length = i + src.length := by simp; omega
  rw [store, ← hl, List.take_left']
  rfl

end Store
end SomeIpGateway.ByteAccess
