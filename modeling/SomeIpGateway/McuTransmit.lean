import SomeIpGateway.FrameFormat
import SomeIpGateway.McuTasks
import SomeIpGateway.StepMachine

/-!
# Transmission by the MCU

Every task sends through `BKEL_UART_Tx`, which writes a buffer byte by byte to
USART1 and then again to USART2, without a lock. A step of a task writes one byte,
and the scheduler may preempt it between any two. Requests arrive at any moment:
the command task takes them from `rxStream` in order and answers an undefined SID
with a text of its own, or wakes the task that sends the answer.
-/
namespace SomeIpGateway.McuTransmit
open FrameFormat McuTasks StepMachine

inductive Usart where
  | usart1
  | usart2
  deriving Repr, DecidableEq

/-- A task's calls of `BKEL_UART_Tx`: the buffers still to be sent, and how many bytes
of the first have been written to the two USARTs together. -/
structure Sending where
  pending : List (List UInt8) := []
  pos : ℕ := 0
  deriving Repr, DecidableEq

/-- A received frame, by what its handling sends: the text about an undefined SID as
`printf` passes it to `_write`, the answer to a diagnostic request (none while the
captured PWM input is invalid), or the text of an RPC handler. -/
inductive Request where
  | undefinedSid (text : List (List UInt8))
  | diag (answer : Option BkelFrame)
  | rpc (text : List (List UInt8))
  deriving Repr, DecidableEq

/-- The buffers that the handling of a request passes to `BKEL_UART_Tx`. -/
def Request.output : Request → List (List UInt8)
  | .undefinedSid text => text
  | .diag answer => answer.toList.map frameBytes
  | .rpc text => text

/-- The task that sends them. -/
def Request.task : Request → Task
  | .undefinedSid _ => .command
  | .diag _ => .sendData
  | .rpc _ => .rpc

structure State where
  task : Task → Sending := fun _ => {}
  inbox : List Request := []
  /-- The bytes written to each USART. -/
  wire : Usart → List UInt8 := fun _ => []
  /-- The buffers completely written to each USART. -/
  finished : Usart → List (List UInt8) := fun _ => []

inductive Action where
  | arrive (r : Request)
  | timer (cid : ℕ → UInt16)
  | run (t : Task)

/-- `service_advertise_payload`. -/
def serviceAdvertisePayload : List String :=
  ["SOF",
    "0x10 : RPC_LD2_Control",
    "0x11 : RPC_MCU_Reset",
    "0x12 : RPC_SPI_Read",
    "0x13 : RPC_PWM_SetOut",
    "0x20 : DIAG_PWM_Output_Value",
    "0x21 : DIAG_PWM_Input_Value",
    "0x22 : DIAG_ADC1_GetValue",
    "0x23 : DIAG_ADC2_GetValue",
    "0x24 : DIAG_GPO_PinState",
    "0x25 : DIAG_GPI_PinState",
    "0x26 : DIAG_LD2_PinState",
    "EOF"]

/-- The frames that `AppService_SendAdvertise` builds, with the CIDs it happens to draw. -/
def advertiseFrames (cid : ℕ → UInt16) : List (List UInt8) :=
  serviceAdvertisePayload.mapIdx fun i text =>
    let payload := text.toList.map fun c => UInt8.ofNat c.toNat
    frameBytes ⟨0x01, 0x03, UInt16.ofNat payload.length, cid i, payload⟩

namespace State

def ready (s : State) : Task → Bool
  | .command => !(s.task .command).pending.isEmpty || !s.inbox.isEmpty
  | t => !(s.task t).pending.isEmpty

/-- Start a task on the given buffers. -/
def start (s : State) (t : Task) (buffers : List (List UInt8)) : State :=
  { s with task := Function.update s.task t ⟨buffers, 0⟩ }

def setSending (s : State) (t : Task) (sending : Sending) : State :=
  { s with task := Function.update s.task t sending }

/-- Write a byte to a USART. -/
def put (s : State) (u : Usart) (byte : UInt8) : State :=
  { s with wire := Function.update s.wire u (s.wire u ++ [byte]) }

/-- Record that a buffer has been written to a USART completely. -/
def finish (s : State) (u : Usart) (buf : List UInt8) : State :=
  { s with finished := Function.update s.finished u (s.finished u ++ [buf]) }

/-- One turn of the first or of the second loop of `BKEL_UART_Tx`. -/
def uartTx (s : State) (t : Task) : State :=
  match s.task t with
  | ⟨[], _⟩ => s
  | ⟨buf :: rest, i⟩ =>
    if h : i < buf.length then
      let s := s.put .usart1 buf[i]
      let s := if i + 1 = buf.length then s.finish .usart1 buf else s
      s.setSending t ⟨buf :: rest, i + 1⟩
    else if h : i - buf.length < buf.length then
      let s := s.put .usart2 buf[i - buf.length]
      if i - buf.length + 1 = buf.length then (s.finish .usart2 buf).setSending t ⟨rest, 0⟩
      else s.setSending t ⟨buf :: rest, i + 1⟩
    else s.setSending t ⟨rest, 0⟩

def step (s : State) : Action → Option State
  | .arrive r => some { s with inbox := s.inbox ++ [r] }
  | .timer cid =>
    if (s.task .advertise).pending = [] then some (s.start .advertise (advertiseFrames cid))
    else none
  | .run t =>
    if MayRun s.ready t then
      -- the command task takes the next frame when it has nothing left to print
      if t = .command ∧ (s.task t).pending = [] then
        match s.inbox with
        | r :: rest => some ({ s with inbox := rest }.start r.task r.output)
        | [] => none
      else some (s.uartTx t)
    else none

end State

/-- The MCU after `rtos_taskinit`. -/
def mcu : Machine State Action := ⟨{}, State.step⟩

/-- The bytes of a task's current buffer written to a USART so far, while the loop over
that USART has not written them all. -/
def Sending.begun (sending : Sending) (u : Usart) : List UInt8 :=
  match sending.pending, u with
  | [], _ => []
  | buf :: _, .usart1 => if sending.pos < buf.length then buf.take sending.pos else []
  | buf :: _, .usart2 => buf.take (sending.pos - buf.length)

/-- What a USART has sent is complete buffers one after another, and then the front of
at most one that some task is still sending. -/
def Unmixed (s : State) (u : Usart) : Prop :=
  ∃ (order : List (List UInt8)) (t : Task), order.Perm (s.finished u) ∧
    s.wire u = order.flatten ++ (s.task t).begun u

/-- No request whose handling sends a byte arrives while the advertise task is in the
middle of a loop of `BKEL_UART_Tx`. -/
def ArrivesBetween (s : State) : Action → Prop
  | .arrive r => (∀ buf ∈ r.output, buf = []) ∨
      ((s.task .advertise).begun .usart1 = [] ∧ (s.task .advertise).begun .usart2 = [])
  | _ => True

instance (s : State) (a : Action) : Decidable (ArrivesBetween s a) := by
  cases a <;> unfold ArrivesBetween <;> infer_instance

/-! ### One byte -/

@[simp] theorem begun_zero (pending : List (List UInt8)) (u : Usart) :
    Sending.begun ⟨pending, 0⟩ u = [] := by
  cases pending <;> cases u <;> simp [Sending.begun]

/-- While a task has nothing but empty buffers, it has written nothing. -/
theorem begun_of_nil {sending : Sending} (h : ∀ buf ∈ sending.pending, buf = []) (u : Usart) :
    sending.begun u = [] := by
  obtain ⟨pending, pos⟩ := sending
  cases pending with
  | nil => rfl
  | cons buf rest =>
    obtain rfl := h buf (by simp)
    cases u <;> simp [Sending.begun]

namespace State
variable {s : State} {t : Task}

@[simp] theorem start_self (buffers : List (List UInt8)) :
    (s.start t buffers).task t = ⟨buffers, 0⟩ := Function.update_self _ _ _

theorem start_of_ne {t' : Task} (h : t' ≠ t) (buffers : List (List UInt8)) :
    (s.start t buffers).task t' = s.task t' := Function.update_of_ne h _ _

theorem uartTx_task_of_ne {t' : Task} (h : t' ≠ t) : (s.uartTx t).task t' = s.task t' := by
  unfold uartTx
  rcases hs : s.task t with ⟨_ | ⟨buf, rest⟩, i⟩
  · rfl
  · dsimp only
    split_ifs <;> simp [setSending, put, finish, h]

theorem uartTx_inbox : (s.uartTx t).inbox = s.inbox := by
  unfold uartTx
  rcases hs : s.task t with ⟨_ | ⟨buf, rest⟩, i⟩
  · rfl
  · dsimp only
    split_ifs <;> rfl

theorem begun_start {buffers : List (List UInt8)} {u : Usart} (h : (s.task t).begun u = [])
    (t' : Task) : ((s.start t buffers).task t').begun u = (s.task t').begun u := by
  by_cases ht : t' = t
  · subst ht
    rw [start_self, begun_zero, h]
  · rw [start_of_ne ht]

/-- A task keeps its current buffer or goes on to the next. -/
theorem uartTx_pending {buf : List UInt8} {rest : List (List UInt8)} {i : ℕ}
    (hs : s.task t = ⟨buf :: rest, i⟩) :
    (s.uartTx t).task t = ⟨rest, 0⟩ ∨
      ((s.uartTx t).task t = ⟨buf :: rest, i + 1⟩ ∧ i + 1 < 2 * buf.length) := by
  unfold uartTx
  simp only [hs]
  split_ifs with h1 h2 h3 h4
  · exact Or.inr ⟨by simp [setSending], by omega⟩
  · exact Or.inr ⟨by simp [setSending], by omega⟩
  · exact Or.inl (by simp [setSending])
  · exact Or.inr ⟨by simp [setSending], by omega⟩
  · exact Or.inl (by simp [setSending])

theorem mem_of_mem_uartTx {buf b : List UInt8} {rest : List (List UInt8)} {i : ℕ}
    (hs : s.task t = ⟨buf :: rest, i⟩) (hb : b ∈ ((s.uartTx t).task t).pending) :
    b ∈ (s.task t).pending := by
  rw [hs]
  rcases uartTx_pending hs with hp | ⟨hp, -⟩ <;> rw [hp] at hb
  · exact List.mem_cons_of_mem _ hb
  · exact hb

theorem pending_of_uartTx {buf : List UInt8} {rest : List (List UInt8)} {i : ℕ}
    (hs : s.task t = ⟨buf :: rest, i⟩) {t' : Task}
    (hp : ((s.uartTx t).task t').pending ≠ []) : (s.task t').pending ≠ [] := by
  by_cases ht : t' = t
  · rw [ht, hs]
    exact List.cons_ne_nil _ _
  · rwa [uartTx_task_of_ne ht] at hp

/-- A byte written goes behind what the task has written of its buffer; and with the
last one, the buffer is finished on that USART. -/
theorem uartTx_wire {buf : List UInt8} {rest : List (List UInt8)} {i : ℕ}
    (hs : s.task t = ⟨buf :: rest, i⟩) (hi : i < 2 * buf.length) {u : Usart}
    (hw : s.wire u = (s.finished u).flatten ++ (s.task t).begun u) :
    (s.uartTx t).wire u =
      ((s.uartTx t).finished u).flatten ++ ((s.uartTx t).task t).begun u := by
  rw [hs] at hw
  unfold uartTx
  simp only [hs]
  split_ifs with h1 h2 h3 h4
  · -- the last byte of the first loop
    cases u with
    | usart1 => simp [setSending, put, finish, hw, Sending.begun, h1, h2]
    | usart2 => simpa [setSending, put, finish, Sending.begun, h1.le, h2] using hw
  · cases u with
    | usart1 =>
      have hlt : i + 1 < buf.length := by omega
      simp [setSending, put, hw, Sending.begun, h1, hlt]
    | usart2 =>
      have hle : i + 1 - buf.length = 0 := by omega
      have hle' : i - buf.length = 0 := by omega
      simpa [setSending, put, Sending.begun, hle, hle'] using hw
  · -- the last byte of the second loop
    cases u with
    | usart1 =>
      have hold : Sending.begun ⟨buf :: rest, i⟩ .usart1 = [] := by simp [Sending.begun, h1]
      simpa [setSending, put, finish, hold] using hw
    | usart2 =>
      have hold : Sending.begun ⟨buf :: rest, i⟩ .usart2 = buf.take (i - buf.length) := rfl
      simp [setSending, put, finish, hw, hold, h4]
  · cases u with
    | usart1 =>
      have hlt : ¬ i + 1 < buf.length := by omega
      simpa [setSending, put, Sending.begun, h1, hlt] using hw
    | usart2 =>
      have hsucc : i + 1 - buf.length = i - buf.length + 1 := by omega
      simp [setSending, put, hw, Sending.begun, hsucc]
  · omega

end State

/-! ### The invariant -/

/-- The tasks other than the advertise task have work one at a time; while the
advertise task is in the middle of a loop, none of them has a byte to send; and what
each USART has sent is complete buffers and the front of at most one. -/
structure Inv (s : State) : Prop where
  pos : ∀ t buf rest, (s.task t).pending = buf :: rest → buf ≠ [] →
    (s.task t).pos < 2 * buf.length
  single : ∀ t t', t ≠ .advertise → t' ≠ .advertise → (s.task t).pending ≠ [] →
    (s.task t').pending ≠ [] → t = t'
  quiet : ∀ u, (s.task .advertise).begun u ≠ [] →
    (∀ t, t ≠ .advertise → ∀ buf ∈ (s.task t).pending, buf = []) ∧
      ∀ r ∈ s.inbox, ∀ buf ∈ r.output, buf = []
  wire : ∀ u, ∃ t, (∀ t', t' ≠ t → (s.task t').begun u = []) ∧
    s.wire u = (s.finished u).flatten ++ (s.task t).begun u

namespace Inv
variable {s s' : State}

theorem init : Inv {} := by
  refine ⟨by simp, by simp, fun u h => absurd rfl h, fun u => ⟨.advertise, ?_, rfl⟩⟩
  exact fun _ _ => rfl

/-- Where the other tasks have written nothing of a buffer, the task itself accounts
for all that is behind the finished ones. -/
theorem wire_of_others (h : Inv s) {t : Task} {u : Usart}
    (hothers : ∀ t', t' ≠ t → (s.task t').begun u = []) :
    s.wire u = (s.finished u).flatten ++ (s.task t).begun u := by
  obtain ⟨t₀, hnone, hwire⟩ := h.wire u
  by_cases ht : t₀ = t
  · exact ht ▸ hwire
  · rw [hwire, hothers t₀ ht, hnone t (Ne.symm ht)]

theorem arrive (h : Inv s) {r : Request} (hok : ArrivesBetween s (.arrive r))
    (hstep : s.step (.arrive r) = some s') : Inv s' := by
  obtain rfl := Option.some.inj hstep
  refine ⟨h.pos, h.single, fun u hu => ?_, h.wire⟩
  obtain ⟨htasks, hinbox⟩ := h.quiet u hu
  refine ⟨htasks, List.forall_mem_append.mpr ⟨hinbox, List.forall_mem_singleton.mpr ?_⟩⟩
  rcases hok with hempty | ⟨h1, h2⟩
  · exact hempty
  · cases u
    · exact absurd h1 hu
    · exact absurd h2 hu

/-- Starting a task that has nothing to send keeps what the USARTs have sent in order. -/
theorem wire_start (h : Inv s) {t : Task} (ht : (s.task t).pending = [])
    (buffers : List (List UInt8)) (u : Usart) :
    ∃ t₀, (∀ t', t' ≠ t₀ → ((s.start t buffers).task t').begun u = []) ∧
      s.wire u = (s.finished u).flatten ++ ((s.start t buffers).task t₀).begun u := by
  have hnone : (s.task t).begun u = [] := begun_of_nil (by simp [ht]) u
  obtain ⟨t₀, hothers, hwire⟩ := h.wire u
  refine ⟨t₀, fun t' ht' => ?_, ?_⟩
  · rw [State.begun_start hnone, hothers t' ht']
  · rw [State.begun_start hnone, hwire]

theorem pos_start (h : Inv s) (t : Task) (buffers : List (List UInt8)) :
    ∀ t' buf rest, ((s.start t buffers).task t').pending = buf :: rest → buf ≠ [] →
      ((s.start t buffers).task t').pos < 2 * buf.length := by
  intro t' buf rest hp hne
  by_cases ht : t' = t
  · subst ht
    have hlen := List.length_pos_of_ne_nil hne
    rw [State.start_self]
    dsimp only
    omega
  · rw [State.start_of_ne ht] at hp ⊢
    exact h.pos t' buf rest hp hne

theorem timer (h : Inv s) {cid : ℕ → UInt16} (hstep : s.step (.timer cid) = some s') :
    Inv s' := by
  simp only [State.step] at hstep
  split_ifs at hstep with hidle
  obtain rfl := Option.some.inj hstep
  refine ⟨h.pos_start _ _, ?_, fun u hu => ?_, h.wire_start hidle _⟩
  · intro t t' ht ht'
    rw [State.start_of_ne ht, State.start_of_ne ht']
    exact h.single t t' ht ht'
  · rw [State.start_self, begun_zero] at hu
    exact absurd rfl hu

/-- The command task hands the work of a request to a task; nothing else is going on
among the tasks that requests reach. -/
theorem take (h : Inv s) {r : Request} {rest : List Request} (hinbox : s.inbox = r :: rest)
    (hidle : ∀ t, t ≠ .advertise → (s.task t).pending = []) :
    Inv ({ s with inbox := rest }.start r.task r.output) := by
  have htask : r.task ≠ .advertise := by cases r <;> simp [Request.task]
  have hbase : Inv { s with inbox := rest } := by
    refine ⟨h.pos, h.single, fun u hu => ?_, h.wire⟩
    obtain ⟨htasks, hin⟩ := h.quiet u hu
    exact ⟨htasks, fun r' hr' => hin r' (hinbox ▸ List.mem_cons_of_mem _ hr')⟩
  refine ⟨hbase.pos_start _ _, ?_, fun u hu => ?_, hbase.wire_start (hidle _ htask) _⟩
  · have honly (t : Task) (ht : t ≠ .advertise)
        (hp : (({ s with inbox := rest }.start r.task r.output).task t).pending ≠ []) :
        t = r.task := by
      by_contra hne
      exact hp (by rw [State.start_of_ne hne, hidle t ht])
    intro t t' ht ht' hp hp'
    exact (honly t ht hp).trans (honly t' ht' hp').symm
  · rw [State.start_of_ne (Ne.symm htask)] at hu
    obtain ⟨-, hin⟩ := h.quiet u hu
    refine ⟨fun t ht buf hbuf => ?_, fun r' hr' => hin r' (hinbox ▸ List.mem_cons_of_mem _ hr')⟩
    by_cases htr : t = r.task
    · subst htr
      rw [State.start_self] at hbuf
      exact hin r (by simp [hinbox]) buf hbuf
    · rw [State.start_of_ne htr, hidle t ht] at hbuf
      cases hbuf

section Send
variable {t : Task} {buf : List UInt8} {rest : List (List UInt8)} {i : ℕ}

/-- While a task writes a byte, no other task is in the middle of a loop. -/
theorem others_begun (h : Inv s) (hs : s.task t = ⟨buf :: rest, i⟩)
    (hidle : t = .advertise → ∀ t', t' ≠ .advertise → (s.task t').pending = [])
    (hbuf : buf ≠ []) (u : Usart) {t' : Task} (ht' : t' ≠ t) : (s.task t').begun u = [] := by
  by_cases hadv : t' = .advertise
  · -- the advertise task is between two loops, or there would be no byte to write
    subst hadv
    by_contra hbegun
    exact hbuf ((h.quiet u hbegun).1 t (Ne.symm ht') buf (by simp [hs]))
  · refine begun_of_nil (fun b hb => ?_) u
    by_cases hta : t = .advertise
    · rw [hidle hta t' hadv] at hb
      cases hb
    · exact absurd (h.single t' t hadv hta (List.ne_nil_of_mem hb) (by simp [hs])) ht'

theorem pos_uartTx (h : Inv s) (hs : s.task t = ⟨buf :: rest, i⟩) (t' : Task) (b : List UInt8)
    (more : List (List UInt8)) (hp : ((s.uartTx t).task t').pending = b :: more) (hb : b ≠ []) :
    ((s.uartTx t).task t').pos < 2 * b.length := by
  by_cases ht : t' = t
  · subst ht
    rcases State.uartTx_pending hs with hp' | ⟨hp', hlt⟩ <;> rw [hp'] at hp ⊢
    · have := List.length_pos_of_ne_nil hb
      dsimp only
      omega
    · obtain ⟨rfl, -⟩ := List.cons.inj hp
      exact hlt
  · rw [State.uartTx_task_of_ne ht] at hp ⊢
    exact h.pos t' b more hp hb

theorem quiet_uartTx (h : Inv s) (hs : s.task t = ⟨buf :: rest, i⟩)
    (hidle : t = .advertise → (∀ t', t' ≠ .advertise → (s.task t').pending = []) ∧ s.inbox = [])
    (u : Usart) (hu : ((s.uartTx t).task .advertise).begun u ≠ []) :
    (∀ t', t' ≠ .advertise → ∀ b ∈ ((s.uartTx t).task t').pending, b = []) ∧
      ∀ r ∈ (s.uartTx t).inbox, ∀ b ∈ r.output, b = [] := by
  rw [State.uartTx_inbox]
  by_cases hta : t = .advertise
  · obtain ⟨hnone, hinbox⟩ := hidle hta
    refine ⟨fun t' ht' b hb => ?_, by simp [hinbox]⟩
    rw [State.uartTx_task_of_ne (hta ▸ ht'), hnone t' ht'] at hb
    cases hb
  · rw [State.uartTx_task_of_ne (Ne.symm hta)] at hu
    obtain ⟨htasks, hin⟩ := h.quiet u hu
    refine ⟨fun t' ht' b hb => ?_, hin⟩
    by_cases ht : t' = t
    · subst ht
      exact htasks t' ht' b (State.mem_of_mem_uartTx hs hb)
    · rw [State.uartTx_task_of_ne ht] at hb
      exact htasks t' ht' b hb

theorem wire_uartTx (h : Inv s) (hs : s.task t = ⟨buf :: rest, i⟩)
    (hothers : buf ≠ [] → ∀ u t', t' ≠ t → (s.task t').begun u = []) (u : Usart) :
    ∃ t₀, (∀ t', t' ≠ t₀ → ((s.uartTx t).task t').begun u = []) ∧
      (s.uartTx t).wire u =
        ((s.uartTx t).finished u).flatten ++ ((s.uartTx t).task t₀).begun u := by
  by_cases hbuf : buf = []
  · -- an empty buffer: the call returns without writing
    subst hbuf
    have heq : s.uartTx t = s.start t rest := by
      simp [State.uartTx, hs, State.setSending, State.start]
    have hbegun : (s.task t).begun u = [] := by rw [hs]; cases u <;> simp [Sending.begun]
    rw [heq]
    obtain ⟨t₀, hnone, hwire⟩ := h.wire u
    refine ⟨t₀, fun t' ht' => ?_, ?_⟩
    · rw [State.begun_start hbegun, hnone t' ht']
    · rw [State.begun_start hbegun]
      exact hwire
  · have hi : i < 2 * buf.length := by
      have := h.pos t buf rest (by rw [hs]) hbuf
      rwa [hs] at this
    refine ⟨t, fun t' ht' => ?_, ?_⟩
    · rw [State.uartTx_task_of_ne ht', hothers hbuf u t' ht']
    · exact State.uartTx_wire hs hi (h.wire_of_others fun t' ht' => hothers hbuf u t' ht')

/-- A task that may run writes its next byte; the advertise task runs only while no other
has work. -/
theorem send (h : Inv s) (hs : s.task t = ⟨buf :: rest, i⟩)
    (hidle : t = .advertise → (∀ t', t' ≠ .advertise → (s.task t').pending = []) ∧ s.inbox = []) :
    Inv (s.uartTx t) where
  pos := h.pos_uartTx hs
  single t₁ t₂ h₁ h₂ hp₁ hp₂ :=
    h.single t₁ t₂ h₁ h₂ (State.pending_of_uartTx hs hp₁) (State.pending_of_uartTx hs hp₂)
  quiet := h.quiet_uartTx hs hidle
  wire := h.wire_uartTx hs fun hbuf u _ ht' =>
    h.others_begun hs (fun hta => (hidle hta).1) hbuf u ht'

end Send

theorem run (h : Inv s) {t : Task} (hstep : s.step (.run t) = some s') : Inv s' := by
  simp only [State.step] at hstep
  split_ifs at hstep with hmay htake
  · obtain ⟨rfl, hnone⟩ := htake
    obtain ⟨hdata, hrpc⟩ := hmay.command_alone
    have hidle (t : Task) (ht : t ≠ .advertise) : (s.task t).pending = [] := by
      cases t with
      | advertise => exact absurd rfl ht
      | command => exact hnone
      | sendData => simpa [State.ready] using hdata
      | rpc => simpa [State.ready] using hrpc
    cases hinbox : s.inbox with
    | nil => simp [hinbox] at hstep
    | cons r rest =>
      simp only [hinbox, Option.some.injEq] at hstep
      exact hstep ▸ h.take hinbox hidle
  · obtain rfl := Option.some.inj hstep
    have hready := hmay.1
    rcases hs : s.task t with ⟨_ | ⟨buf, rest⟩, i⟩
    · -- a ready task other than the command task has something to send
      have htc : t ≠ .command := fun ht => htake ⟨ht, by rw [hs]⟩
      cases t <;> simp_all [State.ready]
    · refine h.send hs fun hta => ?_
      subst hta
      obtain ⟨hcommand, hdata, hrpc⟩ := hmay.advertise_alone
      simp only [State.ready, Bool.or_eq_false_iff, Bool.not_eq_false', List.isEmpty_iff] at *
      refine ⟨fun t' ht' => ?_, hcommand.2⟩
      cases t' with
      | advertise => exact absurd rfl ht'
      | command => exact hcommand.1
      | sendData => exact hdata
      | rpc => exact hrpc

end Inv

/-- In every run in which no request that sends something arrives while the advertise
task is in the middle of a loop, each USART has sent complete buffers one after
another and the front of at most one more. -/
theorem frames_never_mixed {s : State} (h : (mcu.restrict ArrivesBetween).Reachable s)
    (u : Usart) : Unmixed s u := by
  have hinv : Inv s := by
    refine h.restrict_invariant Inv.init fun s a s' hI hok hstep => ?_
    cases a with
    | arrive r => exact hI.arrive hok hstep
    | timer cid => exact hI.timer hstep
    | run t => exact hI.run hstep
  obtain ⟨t, -, hwire⟩ := hinv.wire u
  exact ⟨s.finished u, t, List.Perm.refl _, hwire⟩

/-- The first advertise frame is on both wires, whole, before a request is answered. -/
theorem frames_never_mixed_advertised :
    ∃ s, s.finished .usart2 = [frameBytes ⟨0x01, 0x03, 3, 0x11, [0x53, 0x4F, 0x46]⟩,
        frameBytes ⟨0x24, 0x01, 1, 0x12, [1]⟩] ∧ Unmixed s .usart2 := by
  have hrun : ((mcu.restrict ArrivesBetween).run mcu.init (.timer (fun _ => 0x11) ::
      (List.replicate 22 (.run .advertise) ++ .arrive (.diag (some ⟨0x24, 0x01, 1, 0x12, [1]⟩)) ::
        .run .command :: List.replicate 18 (.run .sendData)))).map (fun s => s.finished .usart2) =
      some [frameBytes ⟨0x01, 0x03, 3, 0x11, [0x53, 0x4F, 0x46]⟩,
        frameBytes ⟨0x24, 0x01, 1, 0x12, [1]⟩] := by decide +kernel
  obtain ⟨s, hs, hfinished⟩ := Option.map_eq_some_iff.mp hrun
  exact ⟨s, hfinished, frames_never_mixed (Machine.reachable_of_run hs) .usart2⟩

/-- A diagnostic request that arrives behind the first byte of an advertise frame puts
its answer into the middle of that frame. -/
theorem answer_inside_frame : ∃ s, mcu.Reachable s ∧ ¬ Unmixed s .usart1 := by
  have hrun : (mcu.run mcu.init (.timer (fun _ => 0x11) :: .run .advertise ::
      .arrive (.diag (some ⟨0x24, 0x01, 1, 0x12, [1]⟩)) :: .run .command ::
      (List.replicate 18 (.run .sendData) ++ List.replicate 10 (.run .advertise)))).map (fun s =>
        ((s.wire .usart1).take 2, s.finished .usart1,
          [.advertise, .command, .sendData, .rpc].map fun t => (s.task t).begun .usart1)) =
      some ([0xAA, 0xAA], [frameBytes ⟨0x24, 0x01, 1, 0x12, [1]⟩,
        frameBytes ⟨0x01, 0x03, 3, 0x11, [0x53, 0x4F, 0x46]⟩], [[], [], [], []]) := by
    decide +kernel
  obtain ⟨s, hs, hstate⟩ := Option.map_eq_some_iff.mp hrun
  simp only [Prod.mk.injEq, List.map_cons, List.map_nil, List.cons.injEq, and_true] at hstate
  obtain ⟨hwire, hfinished, hadvertise, hcommand, hdata, hrpc⟩ := hstate
  refine ⟨s, Machine.reachable_of_run hs, ?_⟩
  rintro ⟨order, t, hperm, hmixed⟩
  have hbegun : (s.task t).begun .usart1 = [] := by cases t <;> assumption
  rw [hbegun, List.append_nil] at hmixed
  rw [hmixed] at hwire
  rw [hfinished] at hperm
  -- no complete buffer begins with two start bytes
  have hsecond : ∀ buf ∈ [frameBytes ⟨0x24, 0x01, 1, 0x12, [1]⟩,
      frameBytes ⟨0x01, 0x03, 3, 0x11, [0x53, 0x4F, 0x46]⟩],
      2 ≤ buf.length ∧ buf.take 2 ≠ [0xAA, 0xAA] := by decide +kernel
  cases order with
  | nil => simp at hwire
  | cons buf rest =>
    obtain ⟨hlen, hne⟩ := hsecond buf (hperm.mem_iff.mp (by simp))
    rw [List.flatten_cons, List.take_append_of_le_length hlen] at hwire
    exact hne hwire

end SomeIpGateway.McuTransmit
