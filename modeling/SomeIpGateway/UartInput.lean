import Mathlib.Tactic

/-!
# The input of the UART's terminal

`UART::UARTInit` clears the local and the output flags of the terminal, so that neither lines
nor signals are made of what comes in and `write` puts its bytes on the line as they are. Of
the input flags it clears only the flow control. The others stay as it finds them, and some
change bytes on their way to `read`: a terminal as Linux sets it up reads 0x0D as 0x0A.
-/
namespace SomeIpGateway.UartInput

/-- The flags of `c_iflag` that concern the bytes of a line without errors. -/
structure InputFlags where
  parmrk : Bool := false
  istrip : Bool := false
  inlcr : Bool := false
  igncr : Bool := false
  icrnl : Bool := false
  ixon : Bool := false
  ixoff : Bool := false
  ixany : Bool := false
  deriving Repr, DecidableEq

namespace InputFlags
variable (flags : InputFlags)

/-- The flags of a terminal that no program has set yet. -/
def linux : InputFlags := { icrnl := true, ixon := true }

/-- What `UARTInit` does to the flags. -/
def uartInit : InputFlags := { flags with ixon := false, ixoff := false, ixany := false }

def strip (b : UInt8) : UInt8 := if flags.istrip then b &&& 0x7F else b

/-- What `read` returns for a byte of the line. -/
def read (b : UInt8) : List UInt8 :=
  let b := flags.strip b
  if flags.ixon ∧ (b = 0x11 ∨ b = 0x13) then []
  else if b = 0x0D then
    if flags.igncr then [] else if flags.icrnl then [0x0A] else [b]
  else if b = 0x0A ∧ flags.inlcr then [0x0D]
  else if b = 0xFF ∧ flags.parmrk then [b, b]
  else [b]

def input (line : List UInt8) : List UInt8 := line.flatMap flags.read

/-- These bytes are read as they are. -/
def Passes (line : List UInt8) : Prop := ∀ b ∈ line, flags.read b = [b]

instance (line : List UInt8) : Decidable (flags.Passes line) :=
  List.decidableBAll (fun b => flags.read b = [b]) line

theorem input_append (line more : List UInt8) :
    flags.input (line ++ more) = flags.input line ++ flags.input more := List.flatMap_append

variable {flags}

theorem Passes.input_eq {line : List UInt8} (h : flags.Passes line) : flags.input line = line := by
  rw [input, List.flatMap_congr h, List.flatMap_singleton']

/-- Without flags everything is read as it is. -/
theorem passes_raw (line : List UInt8) : ({} : InputFlags).Passes line := by
  intro b _
  simp [read, strip]

/-- Where `UARTInit` finds the terminal as Linux sets it up, only 0x0D is changed. -/
theorem passes_linux {line : List UInt8} (h : 0x0D ∉ line) : linux.uartInit.Passes line := by
  intro b hb
  have hne : b ≠ 0x0D := fun heq => h (heq ▸ hb)
  simp [read, strip, linux, uartInit, hne]

theorem strip_ascii {b : UInt8} (h : b < 0x80) : flags.strip b < 0x80 := by
  rw [strip]
  split_ifs
  · rw [UInt8.lt_iff_toNat_lt, UInt8.toNat_and]
    exact Nat.lt_succ_of_le Nat.and_le_right
  · exact h

/-- ASCII is read as ASCII. -/
theorem input_ascii {line : List UInt8} (h : ∀ b ∈ line, b < 0x80) :
    ∀ b ∈ flags.input line, b < 0x80 := by
  intro c hc
  obtain ⟨b, hb, hread⟩ := List.mem_flatMap.mp hc
  have hstrip : flags.strip b < 0x80 := strip_ascii (h b hb)
  simp only [read] at hread
  generalize flags.strip b = d at hread hstrip
  split_ifs at hread
  all_goals simp only [List.mem_cons, List.not_mem_nil, or_false, or_self] at hread
  all_goals subst hread
  all_goals first | exact hstrip | decide

end InputFlags
end SomeIpGateway.UartInput
