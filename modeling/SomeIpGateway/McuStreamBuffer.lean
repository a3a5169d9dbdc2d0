import SomeIpGateway.McuBoot
import SomeIpGateway.RingBuffer

/-!
# The stream buffer between the handlers and the command task

`rxStream` is a ring of 512 bytes. The IDLE handlers do not interrupt each other, and send
into it between any two steps of the command task's `xStreamBufferReceive` that do not lie
in one critical section. The task waits for a notification while the ring is empty.
-/
namespace SomeIpGateway.McuStreamBuffer
open McuBoot RingBuffer StepMachine

/-- `sizeof(temp)` in `f_handleCommandTask`. -/
def tempSize : ℕ := 64

/-- The trigger level given in `rtos_taskinit`. -/
def triggerLevelBytes : ℕ := 1

/-- `ucNotifyState` of the command task. -/
inductive NotifyState where
  | notWaiting
  | waiting
  | received
  deriving Repr, DecidableEq

/-- Where the command task is in `xStreamBufferReceive`. -/
inductive Pc where
  /-- In front of the first critical section. -/
  | start
  | notifyWait
  /-- Between the two critical sections of `xTaskNotifyWait`. -/
  | blocked
  | clearWaiting
  /-- In front of the second `prvBytesInBuffer`. -/
  | recheck
  /-- In `prvReadBytesFromBuffer`, with the bytes available and those copied so far. -/
  | copy (available : ℕ) (copied : List UInt8)
  /-- `configASSERT` has failed: interrupts are disabled and the loop goes on for ever. -/
  | assertFailed
  deriving Repr, DecidableEq

/-- `prvInitialiseNewStreamBuffer`, with `configASSERT` defined. -/
def initialiseNewStreamBuffer : Ring UInt8 rxStreamSize :=
  ⟨List.replicate rxStreamSize 0x55, 0, 0, List.length_replicate, by decide, by decide⟩

/-- The stream buffer, the command task, and two records: the bytes written into the ring
and the chunks that `xStreamBufferReceive` has returned. -/
structure State where
  ring : Ring UInt8 rxStreamSize := initialiseNewStreamBuffer
  taskWaitingToReceive : Bool := false
  notifyState : NotifyState := .notWaiting
  pc : Pc := .start
  accepted : List UInt8 := []
  chunks : List (List UInt8) := []

inductive Action where
  | task
  | isr (data : List UInt8)

namespace State

def notifyStateClear (s : State) : State :=
  { s with notifyState := if s.notifyState = .received then .notWaiting else s.notifyState }

/-- `xTaskNotifyFromISR` with `eNoAction`, and the assignment behind it. -/
def sendCompleteFromISR (s : State) : State :=
  if s.taskWaitingToReceive then { s with notifyState := .received, taskWaitingToReceive := false }
  else s

theorem length_take_space (s : State) (data : List UInt8) :
    (data.take s.ring.space).length ≤ s.ring.space := by
  rw [List.length_take]
  omega

/-- `prvWriteMessageToBuffer`: as many bytes as there is space for. -/
def writeMessage (s : State) (data : List UInt8) : State :=
  { s with
    ring := s.ring.write (data.take s.ring.space) (s.length_take_space data)
    accepted := s.accepted ++ data.take s.ring.space }

/-- `xStreamBufferSendFromISR`. -/
def sendFromISR (s : State) (data : List UInt8) : State :=
  if s.ring.space = 0 then s
  else if triggerLevelBytes ≤ (s.writeMessage data).ring.held then
    (s.writeMessage data).sendCompleteFromISR
  else s.writeMessage data

def returnChunk (s : State) (chunk : List UInt8) : State :=
  { s with chunks := s.chunks ++ [chunk], pc := .start }

theorem count_le (available : ℕ) : min available tempSize ≤ rxStreamSize :=
  (Nat.min_le_right _ _).trans (by decide)

/-- One step of `prvReadBytesFromBuffer`: a byte is copied, or all are and the tail moves. -/
def readBytes (s : State) (available : ℕ) (copied : List UInt8) : Option State :=
  if copied.length < min available tempSize then
    (s.ring.front copied.length).map
      (fun byte => { s with pc := .copy available (copied ++ [byte]) })
  else
    let ring := s.ring.dropFront (min available tempSize) (count_le available)
    some ({ s with ring }.returnChunk copied)

/-- One step of `xStreamBufferReceive`. -/
def stepTask (s : State) : Option State :=
  match s.pc with
  | .start =>
    if s.ring.held = 0 then
      let s := s.notifyStateClear
      if s.taskWaitingToReceive then some { s with pc := .assertFailed }
      else some { s with taskWaitingToReceive := true, pc := .notifyWait }
    else some { s with pc := .copy s.ring.held [] }
  | .notifyWait =>
    some { s with
      notifyState := if s.notifyState = .received then .received else .waiting
      pc := .blocked }
  | .blocked =>
    if s.notifyState = .waiting then none
    else some { s with notifyState := .notWaiting, pc := .clearWaiting }
  | .clearWaiting => some { s with taskWaitingToReceive := false, pc := .recheck }
  | .recheck =>
    if 0 < s.ring.held then some { s with pc := .copy s.ring.held [] } else some (s.returnChunk [])
  | .copy available copied => s.readBytes available copied
  | .assertFailed => none

/-- One step. The handlers send only what is not empty. -/
def step (s : State) : Action → Option State
  | .task => s.stepTask
  | .isr data => if s.pc = .assertFailed ∨ data = [] then none else some (s.sendFromISR data)

end State

def streamBuffer : Machine State Action := ⟨{}, State.step⟩

/-! ### What a queue of bytes would do -/

structure Channel where
  stream : StreamBuffer
  chunks : List (List UInt8)

inductive ChannelAction where
  | send (data : List UInt8)
  | receive (count : ℕ)

theorem length_nil_lt : ([] : List UInt8).length < rxStreamSize := by decide

def takeFront (stream : StreamBuffer) (count : ℕ) : StreamBuffer where
  bytes := stream.bytes.drop count
  fits := by
    have hfits := stream.fits
    rw [List.length_drop]
    omega

def Channel.step (c : Channel) : ChannelAction → Option Channel
  | .send data => some { c with stream := c.stream.send data }
  | .receive count =>
    if 0 < count ∧ count ≤ tempSize ∧ count ≤ c.stream.bytes.length then
      some ⟨takeFront c.stream count, c.chunks ++ [c.stream.bytes.take count]⟩
    else none

/-- The queue that the ring is to implement: what is sent is appended as far as there is
space, and a receive takes between 1 and 64 bytes from the front. -/
def channel : Machine Channel ChannelAction := ⟨⟨⟨[], length_nil_lt⟩, []⟩, Channel.step⟩

/-- What the ring and the task amount to. -/
def State.view (s : State) : Channel :=
  ⟨⟨s.ring.contents, by rw [Ring.length_contents]; exact s.ring.held_lt⟩, s.chunks⟩

/-! ### The invariant -/

namespace State

/-- The task is marked as waiting and nothing is held, or it has been notified of what is. -/
def Told (s : State) (asleep : NotifyState) : Prop :=
  (s.taskWaitingToReceive = true ∧ s.ring.held = 0 ∧ s.notifyState = asleep) ∨
    (s.taskWaitingToReceive = false ∧ 0 < s.ring.held ∧ s.notifyState = .received)

/-- The task is not marked as waiting, and no notification is left over. -/
def Awake (s : State) : Prop := s.taskWaitingToReceive = false ∧ s.notifyState = .notWaiting

def AtPc (s : State) : Pc → Prop
  | .start => s.Awake
  | .notifyWait => s.Told .notWaiting
  | .blocked => s.Told .waiting
  | .clearWaiting | .recheck => s.Awake ∧ 0 < s.ring.held
  | .copy available copied =>
    s.Awake ∧ (0 < available ∧ available ≤ s.ring.held) ∧
      copied = s.ring.contents.take copied.length ∧ copied.length ≤ min available tempSize
  | .assertFailed => False

end State

structure Inv (s : State) : Prop where
  fifo : s.chunks.flatten ++ s.ring.contents = s.accepted
  chunk_size : ∀ chunk ∈ s.chunks, 0 < chunk.length ∧ chunk.length ≤ tempSize
  at_pc : s.AtPc s.pc

namespace State
variable (s : State) (data : List UInt8)

theorem contents_writeMessage : (s.writeMessage data).ring.contents =
    s.ring.contents ++ data.take s.ring.space := s.ring.contents_write _ (s.length_take_space data)

theorem held_writeMessage : (s.writeMessage data).ring.held =
    s.ring.held + min s.ring.space data.length := by
  rw [writeMessage, Ring.held_write, List.length_take]

/-- A handler that finds space notifies a task that waits. -/
theorem sendFromISR_of_space (hspace : 0 < s.ring.space) (hdata : data ≠ []) :
    s.sendFromISR data = (s.writeMessage data).sendCompleteFromISR := by
  have hlen := List.length_pos_iff.mpr hdata
  have hheld := s.held_writeMessage data
  rw [sendFromISR, if_neg (by omega), if_pos (by rw [hheld, triggerLevelBytes]; omega)]

@[simp] theorem sendCompleteFromISR_ring : s.sendCompleteFromISR.ring = s.ring := by
  rw [sendCompleteFromISR]
  split_ifs <;> rfl

@[simp] theorem sendCompleteFromISR_pc : s.sendCompleteFromISR.pc = s.pc := by
  rw [sendCompleteFromISR]
  split_ifs <;> rfl

@[simp] theorem sendCompleteFromISR_accepted : s.sendCompleteFromISR.accepted = s.accepted := by
  rw [sendCompleteFromISR]
  split_ifs <;> rfl

@[simp] theorem sendCompleteFromISR_chunks : s.sendCompleteFromISR.chunks = s.chunks := by
  rw [sendCompleteFromISR]
  split_ifs <;> rfl

theorem Awake.sendCompleteFromISR {s : State} (h : s.Awake) : s.sendCompleteFromISR = s := by
  rw [State.sendCompleteFromISR, h.1, if_neg Bool.false_ne_true]

theorem Told.sendCompleteFromISR {s t : State} {asleep : NotifyState} (h : s.Told asleep)
    (hwaiting : t.taskWaitingToReceive = s.taskWaitingToReceive)
    (hnotify : t.notifyState = s.notifyState) (hheld : 0 < t.ring.held) :
    t.sendCompleteFromISR.Told asleep := by
  refine .inr ?_
  rcases h with ⟨h, -, -⟩ | ⟨h, -, hs⟩
  · rw [State.sendCompleteFromISR, if_pos (hwaiting.trans h)]
    exact ⟨rfl, hheld, rfl⟩
  · rw [State.sendCompleteFromISR, if_neg (by rw [hwaiting, h]; exact Bool.false_ne_true)]
    exact ⟨hwaiting.trans h, hheld, hnotify.trans hs⟩

end State

theorem Inv.init : Inv {} where
  fifo := by decide +kernel
  chunk_size := by simp
  at_pc := ⟨rfl, rfl⟩

/-- A handler appends to what is held, and disturbs the task nowhere. -/
theorem Inv.isr {s : State} (h : Inv s) {data : List UInt8} (hdata : data ≠ []) :
    Inv (s.sendFromISR data) := by
  rcases Nat.eq_zero_or_pos s.ring.space with hfull | hspace
  · rwa [State.sendFromISR, if_pos hfull]
  have hcontents := s.contents_writeMessage data
  have hheld := s.held_writeMessage data
  have hlen := List.length_pos_iff.mpr hdata
  rw [s.sendFromISR_of_space data hspace hdata]
  refine ⟨?_, ?_, ?_⟩
  · rw [State.sendCompleteFromISR_chunks, State.sendCompleteFromISR_ring, hcontents,
      State.sendCompleteFromISR_accepted, ← List.append_assoc]
    exact congrArg (· ++ _) h.fifo
  · rw [State.sendCompleteFromISR_chunks]
    exact h.chunk_size
  · have hpc := h.at_pc
    rw [State.sendCompleteFromISR_pc]
    change State.AtPc _ s.pc
    generalize s.pc = pc at hpc ⊢
    cases pc with
    | start =>
      have hawake : (s.writeMessage data).Awake := hpc
      rw [hawake.sendCompleteFromISR]
      exact hawake
    | notifyWait => exact State.Told.sendCompleteFromISR hpc rfl rfl (by omega)
    | blocked => exact State.Told.sendCompleteFromISR hpc rfl rfl (by omega)
    | clearWaiting | recheck =>
      have hawake : (s.writeMessage data).Awake := hpc.1
      rw [hawake.sendCompleteFromISR]
      exact ⟨hawake, by omega⟩
    | copy available copied =>
      have hawake : (s.writeMessage data).Awake := hpc.1
      obtain ⟨-, ⟨hpos, havailable⟩, hcopied, hcount⟩ := hpc
      rw [hawake.sendCompleteFromISR]
      refine ⟨hawake, ⟨hpos, by omega⟩, ?_, hcount⟩
      rw [hcontents, List.take_append_of_le_length (by simp; omega), ← hcopied]
    | assertFailed => exact hpc

/-- A step of the task leaves what was accepted, and takes nothing out or the first bytes. -/
theorem Inv.task {s t : State} (h : Inv s) (hst : s.stepTask = some t) :
    Inv t ∧ t.accepted = s.accepted ∧
      (t.ring = s.ring ∧ t.chunks = s.chunks ∨
        ∃ count, (0 < count ∧ count ≤ tempSize ∧ count ≤ s.ring.held) ∧
          t.ring.contents = s.ring.contents.drop count ∧
          t.chunks = s.chunks ++ [s.ring.contents.take count]) := by
  have hpc := h.at_pc
  unfold State.stepTask at hst
  cases hat : s.pc with
  | start =>
    rw [hat] at hst hpc
    obtain ⟨hwaiting, hnotify⟩ := hpc
    simp only [State.notifyStateClear, hwaiting, hnotify, reduceCtorEq, Bool.false_eq_true,
      if_false] at hst
    split_ifs at hst with hzero
    · obtain rfl := Option.some.inj hst
      exact ⟨⟨h.fifo, h.chunk_size, .inl ⟨rfl, hzero, rfl⟩⟩, rfl, .inl ⟨rfl, rfl⟩⟩
    · obtain rfl := Option.some.inj hst
      exact ⟨⟨h.fifo, h.chunk_size, ⟨rfl, rfl⟩, ⟨Nat.pos_of_ne_zero hzero, le_rfl⟩, rfl,
        Nat.zero_le _⟩, rfl, .inl ⟨rfl, rfl⟩⟩
  | notifyWait =>
    rw [hat] at hst hpc
    obtain rfl := Option.some.inj hst
    refine ⟨⟨h.fifo, h.chunk_size, ?_⟩, rfl, .inl ⟨rfl, rfl⟩⟩
    rcases hpc with ⟨hwaiting, hheld, hnotify⟩ | ⟨hwaiting, hheld, hnotify⟩
    · exact .inl ⟨hwaiting, hheld, by simp [hnotify]⟩
    · exact .inr ⟨hwaiting, hheld, by simp [hnotify]⟩
  | blocked =>
    rw [hat] at hst hpc
    rcases hpc with ⟨-, -, hnotify⟩ | ⟨hwaiting, hheld, hnotify⟩
    · simp [hnotify] at hst
    · simp only [hnotify, reduceCtorEq, if_false] at hst
      obtain rfl := Option.some.inj hst
      exact ⟨⟨h.fifo, h.chunk_size, ⟨hwaiting, rfl⟩, hheld⟩, rfl, .inl ⟨rfl, rfl⟩⟩
  | clearWaiting =>
    rw [hat] at hst hpc
    obtain rfl := Option.some.inj hst
    exact ⟨⟨h.fifo, h.chunk_size, ⟨rfl, hpc.1.2⟩, hpc.2⟩, rfl, .inl ⟨rfl, rfl⟩⟩
  | recheck =>
    rw [hat] at hst hpc
    simp only [hpc.2, if_true] at hst
    obtain rfl := Option.some.inj hst
    exact ⟨⟨h.fifo, h.chunk_size, hpc.1, ⟨hpc.2, le_rfl⟩, rfl, Nat.zero_le _⟩, rfl,
      .inl ⟨rfl, rfl⟩⟩
  | copy available copied =>
    rw [hat] at hst hpc
    obtain ⟨hawake, ⟨hpos, havailable⟩, hcopied, hcount⟩ := hpc
    simp only [State.readBytes] at hst
    split_ifs at hst with hmore
    · obtain ⟨byte, hbyte, rfl⟩ := Option.map_eq_some_iff.mp hst
      refine ⟨⟨h.fifo, h.chunk_size, hawake, ⟨hpos, havailable⟩, ?_, ?_⟩, rfl, .inl ⟨rfl, rfl⟩⟩
      · have htake := s.ring.take_succ_of_front (by omega) hbyte
        rw [List.length_append, List.length_singleton, htake, ← hcopied]
      · rw [List.length_append, List.length_singleton]
        omega
    · obtain rfl := Option.some.inj hst
      have hlen : copied.length = min available tempSize := by omega
      have hcontents := s.ring.contents_dropFront (State.count_le available)
        (show min available tempSize ≤ s.ring.held by omega)
      have htemp : 0 < tempSize := by decide
      refine ⟨⟨?_, ?_, hawake⟩, rfl,
        .inr ⟨copied.length, by omega, by rw [hlen]; exact hcontents, ?_⟩⟩
      · simp only [State.returnChunk, List.flatten_append, List.flatten_singleton,
          List.append_assoc]
        rw [hcontents, ← hlen, ← h.fifo]
        conv_rhs => rw [← List.take_append_drop copied.length s.ring.contents, ← hcopied]
      · intro chunk hchunk
        rcases List.mem_append.mp hchunk with hold | hnew
        · exact h.chunk_size chunk hold
        · obtain rfl := List.mem_singleton.mp hnew
          omega
      · rw [← hcopied]
        rfl
  | assertFailed => simp [hat] at hst

theorem Inv.step {s t : State} {a : Action} (h : Inv s) (hst : s.step a = some t) : Inv t := by
  cases a with
  | task => exact (h.task hst).1
  | isr data =>
    simp only [State.step] at hst
    split_ifs at hst with hguard
    obtain rfl := Option.some.inj hst
    exact h.isr (fun hdata => hguard (.inr hdata))

theorem inv_of_reachable {s : State} (h : streamBuffer.Reachable s) : Inv s :=
  h.invariant Inv.init (fun _ _ _ hs hst => hs.step hst)

/-! ### The ring implements the queue -/

theorem streamBuffer_ext {a b : StreamBuffer} (h : a.bytes = b.bytes) : a = b := by
  cases a
  cases b
  simpa using h

/-- A call of a handler appends what there is space for. -/
theorem view_sendFromISR (s : State) {data : List UInt8} (hdata : data ≠ []) :
    channel.step s.view (.send data) = some (s.sendFromISR data).view := by
  have hspace := s.ring.held_add_space
  have hkept : rxStreamSize - s.ring.contents.length - 1 = s.ring.space := by
    rw [Ring.length_contents]
    omega
  refine congrArg some ?_
  rcases Nat.eq_zero_or_pos s.ring.space with hfull | hpos
  · rw [State.sendFromISR, if_pos hfull]
    refine congrArg (Channel.mk · s.chunks) (streamBuffer_ext ?_)
    simp only [StreamBuffer.send, State.view, hkept, hfull, List.take_zero, List.append_nil]
  · rw [s.sendFromISR_of_space data hpos hdata]
    simp only [State.view, State.sendCompleteFromISR_ring, State.sendCompleteFromISR_chunks]
    refine congrArg (Channel.mk · s.chunks) (streamBuffer_ext ?_)
    simp only [StreamBuffer.send, hkept, s.contents_writeMessage]

/-- What a handler sends, and what goes into the queue. -/
def Action.sent : Action → Option (List UInt8)
  | .isr data => some data
  | .task => none

def ChannelAction.sent : ChannelAction → Option (List UInt8)
  | .send data => some data
  | .receive _ => none

theorem view_step {s t : State} {a : Action} (h : Inv s) (hst : s.step a = some t) :
    a.sent = none ∧ t.view = s.view ∨
      ∃ b, ChannelAction.sent b = a.sent ∧ channel.step s.view b = some t.view := by
  cases a with
  | isr data =>
    simp only [State.step] at hst
    split_ifs at hst with hguard
    obtain rfl := Option.some.inj hst
    exact .inr ⟨.send data, rfl, view_sendFromISR s (fun hdata => hguard (.inr hdata))⟩
  | task =>
    obtain ⟨-, -, ⟨hring, hchunks⟩ | ⟨count, ⟨hpos, htemp, hheld⟩, hcontents, hchunks⟩⟩ :=
      h.task hst
    · refine .inl ⟨rfl, ?_⟩
      simp only [State.view, hring, hchunks]
    · right
      refine ⟨.receive count, rfl, ?_⟩
      rw [← Ring.length_contents] at hheld
      change (if 0 < count ∧ count ≤ tempSize ∧ count ≤ s.ring.contents.length then _ else _) = _
      rw [if_pos ⟨hpos, htemp, hheld⟩]
      refine congrArg some ?_
      simp only [State.view, hchunks]
      exact congrArg (Channel.mk · _) (streamBuffer_ext hcontents.symm)

/-- Whatever point of a receive the handlers come in at, the ring and its task do what a queue
of at most 511 bytes does that is sent the same data in the same order, no assertion fails, and
every receive returns between 1 and 64 of the bytes accepted, in their order. -/
theorem ring_implements_queue {s : State} {actions : List Action}
    (h : streamBuffer.run streamBuffer.init actions = some s) :
    (∃ queueActions, channel.run channel.init queueActions = some s.view ∧
      queueActions.filterMap ChannelAction.sent = actions.filterMap Action.sent) ∧
      s.pc ≠ .assertFailed ∧ s.chunks.flatten ++ s.ring.contents = s.accepted ∧
      ∀ chunk ∈ s.chunks, 0 < chunk.length ∧ chunk.length ≤ tempSize := by
  have hinv := inv_of_reachable (Machine.reachable_of_run h)
  refine ⟨?_, ?_, hinv.fifo, hinv.chunk_size⟩
  · exact Machine.exists_run_of_labels State.view
      (fun _ _ _ hs hst => view_step (inv_of_reachable hs) hst) .init h
  · intro hfailed
    have hpc := hinv.at_pc
    rw [hfailed] at hpc
    exact hpc

/-- A burst comes in before the task first looks, another one while it copies the first. -/
theorem ring_implements_queue_two_bursts :
    ∃ s : State, s.chunks = [[1, 2], [3]] ∧ s.ring.tail = 3 ∧
      ∃ queueActions, channel.run channel.init queueActions = some s.view ∧
        queueActions.filterMap ChannelAction.sent = [[1, 2], [3]] := by
  let actions : List Action :=
    [.isr [1, 2], .task, .task, .isr [3], .task, .task, .task, .task, .task]
  have hrun : (streamBuffer.run streamBuffer.init actions).any
      (fun s => decide (s.chunks = [[1, 2], [3]] ∧ s.ring.tail = 3)) = true := by decide +kernel
  obtain ⟨s, hs, hend⟩ := (Option.any_eq_true _ _).mp hrun
  obtain ⟨hchunks, htail⟩ := of_decide_eq_true hend
  exact ⟨s, hchunks, htail, (ring_implements_queue hs).1⟩

/-! ### The task takes everything out -/

/-- How many steps the task is away from its next receive. -/
def Pc.distance : Pc → ℕ
  | .start => tempSize + 6
  | .notifyWait => tempSize + 5
  | .blocked => tempSize + 4
  | .clearWaiting => tempSize + 3
  | .recheck => tempSize + 2
  | .copy _ copied => tempSize + 1 - copied.length
  | .assertFailed => 0

/-- The steps that are left for the bytes held. -/
def work (s : State) : ℕ := (tempSize + 6) * s.ring.held + s.pc.distance

/-- While bytes are held, the task is not blocked, and every step of it counts. -/
theorem Inv.progress {s : State} (h : Inv s) (hheld : 0 < s.ring.held) :
    ∃ t, s.stepTask = some t ∧ work t < work s := by
  have hpc := h.at_pc
  unfold State.stepTask
  cases hat : s.pc with
  | start =>
    refine ⟨_, if_neg (by omega), ?_⟩
    simp only [work, Pc.distance, hat, List.length_nil]
    omega
  | notifyWait =>
    refine ⟨_, rfl, ?_⟩
    simp only [work, Pc.distance, hat]
    omega
  | blocked =>
    rw [hat] at hpc
    obtain ⟨-, hzero, -⟩ | ⟨-, -, hnotify⟩ := hpc
    · omega
    · refine ⟨_, if_neg (by simp [hnotify]), ?_⟩
      simp only [work, Pc.distance, hat]
      omega
  | clearWaiting =>
    refine ⟨_, rfl, ?_⟩
    simp only [work, Pc.distance, hat]
    omega
  | recheck =>
    refine ⟨_, if_pos hheld, ?_⟩
    simp only [work, Pc.distance, hat, List.length_nil]
    omega
  | copy available copied =>
    rw [hat] at hpc
    obtain ⟨-, ⟨hpos, havailable⟩, -, hcount⟩ := hpc
    have htemp : 0 < tempSize := by decide
    simp only [State.readBytes]
    split_ifs with hmore
    · obtain ⟨byte, hbyte⟩ := s.ring.front_isSome (i := copied.length) (by omega)
      refine ⟨_, by rw [hbyte]; rfl, ?_⟩
      simp only [work, Pc.distance, hat, List.length_append, List.length_singleton]
      omega
    · have hless := s.ring.held_dropFront (State.count_le available)
        (show min available tempSize ≤ s.ring.held by omega)
      refine ⟨_, rfl, ?_⟩
      have hlt : (s.ring.dropFront (min available tempSize) (State.count_le available)).held + 1 ≤
          s.ring.held := by omega
      have hmul := Nat.mul_le_mul_left (tempSize + 6) hlt
      rw [Nat.mul_succ] at hmul
      simp only [work, Pc.distance, hat, State.returnChunk]
      omega
  | assertFailed =>
    rw [hat] at hpc
    exact hpc.elim

/-- From every reachable state the task by itself receives everything that was accepted: no
notification is ever missed. -/
theorem nothing_stays_behind {s : State} (h : streamBuffer.Reachable s) :
    ∃ n t, streamBuffer.run s (List.replicate n .task) = some t ∧
      t.chunks.flatten = s.accepted := by
  have hinv := inv_of_reachable h
  clear h
  induction hwork : work s using Nat.strong_induction_on generalizing s with
  | h k ih =>
    rcases Nat.eq_zero_or_pos s.ring.held with hzero | hpos
    · refine ⟨0, s, rfl, ?_⟩
      have hnil : s.ring.contents = [] := List.length_eq_zero_iff.mp (by simpa using hzero)
      have hfifo := hinv.fifo
      rwa [hnil, List.append_nil] at hfifo
    · obtain ⟨t, hst, hless⟩ := hinv.progress hpos
      obtain ⟨htinv, haccepted, -⟩ := hinv.task hst
      obtain ⟨n, u, hrun, hall⟩ := ih (work t) (hwork ▸ hless) htinv rfl
      refine ⟨n + 1, u, ?_, hall.trans haccepted⟩
      rw [List.replicate_succ, Machine.run_cons]
      change (s.stepTask).bind _ = _
      rw [hst]
      exact hrun

/-- The burst comes in while the task is on its way to wait. -/
theorem nothing_stays_behind_notified :
    ∃ s : State, s.accepted = [1, 2] ∧ s.notifyState = .received ∧ ∃ n t,
      streamBuffer.run s (List.replicate n .task) = some t ∧ t.chunks.flatten = s.accepted := by
  obtain ⟨s, hs, haccepted, hnotify⟩ := Machine.exists_reachable (M := streamBuffer)
    (fun s => s.accepted = [1, 2] ∧ s.notifyState = .received)
    [.task, .isr [1, 2], .task] (by decide +kernel)
  exact ⟨s, haccepted, hnotify, nothing_stays_behind hs⟩

end SomeIpGateway.McuStreamBuffer
