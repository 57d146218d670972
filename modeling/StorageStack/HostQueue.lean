import StorageStack.Execution
import StorageStack.RingBuffer

/-!
# The host command queue

The emulated device receives its commands through a bounded queue: one thread runs
`WRITE_TO_EVENT_QUEUE`, another runs `HOST_LOOP`.  Every section under `q_lock` is one step, and so
is every access through the pointer which `DEQUEUE_HOST_COMMAND` returns.  `pthread_cond_wait` may
return at any time, so that the loop which calls it polls.
-/

namespace StorageStack
namespace HostQueue

/-- The command types `NOOP`, `READ` and `WRITE`. -/
abbrev noop : Int := 10000

abbrev read : Int := 10001

abbrev write : Int := 10002

/-- `struct host_command`. -/
structure HostCommand where
  type : Int
  sectorNb : Int
  length : Nat
  deriving DecidableEq, Repr

/-- `struct event_queue`; `host_commands` has `size + 1` entries. -/
structure EventQueue where
  size : Nat
  front : Nat
  rear : Nat
  hostCommands : Nat → HostCommand

/-- `INIT_EVENT_QUEUE`, on memory as `malloc` returns it. -/
def initEventQueue (size : Nat) (memory : Nat → HostCommand) : EventQueue := ⟨size, 0, 0, memory⟩

/-- `IS_EMPTY`. -/
def isEmpty (queue : EventQueue) : Bool := decide (queue.front = queue.rear)

/-- `IS_FULL`. -/
def isFull (queue : EventQueue) : Bool :=
  if queue.front < queue.rear then decide (queue.rear - queue.front = queue.size)
  else decide (queue.rear + 1 = queue.front)

/-- `ENQUEUE_HOST_COMMAND`. -/
def enqueueHostCommand (queue : EventQueue) (hostCmd : HostCommand) : EventQueue :=
  { queue with
    hostCommands := Function.update queue.hostCommands queue.rear hostCmd
    rear := if queue.rear + 1 = queue.size + 1 then 0 else queue.rear + 1 }

/-- `DEQUEUE_HOST_COMMAND`, with the slot to which the returned pointer points. -/
def dequeueHostCommand (queue : EventQueue) : EventQueue × Nat :=
  ({ queue with
      front := if queue.front + 1 = queue.size + 1 then 0 else queue.front + 1 }, queue.front)

/-- The two requests of the FTL. -/
inductive Request where
  | ftlRead
  | ftlWrite
  deriving DecidableEq, Repr

/-- What the loop does with a command: a request, or one of the two error messages. -/
inductive Effect where
  | request (request : Request) (sectorNb : Int) (length : Nat)
  | noopOperation
  | unknownOperation
  deriving DecidableEq, Repr

/-- The effect of a command. -/
def HostCommand.effect (command : HostCommand) : Effect :=
  if command.type = read then .request .ftlRead command.sectorNb command.length
  else if command.type = write then .request .ftlWrite command.sectorNb command.length
  else if command.type = noop then .noopOperation
  else .unknownOperation

/-- Where the thread in `WRITE_TO_EVENT_QUEUE` stands. -/
inductive Producer where
  | idle
  | polling (command : HostCommand)
  | admitted (command : HostCommand)
  deriving DecidableEq, Repr

/-- Where the thread in `HOST_LOOP` stands; `slot` is the slot behind `h_cmd`, and the arguments of
a request are loaded through it in any order. -/
inductive HostLoop where
  | top
  | dequeue
  | testRead (slot : Nat)
  | testWrite (slot : Nat)
  | testNoop (slot : Nat)
  | arguments (request : Request) (slot : Nat) (sectorNb : Option Int) (length : Option Nat)
  | release (slot : Nat)
  | wait (busy : Bool)
  deriving DecidableEq, Repr

/-- The queue, the two threads, the commands put into the queue so far and the effects so far. -/
structure State where
  queue : EventQueue
  producer : Producer
  hostLoop : HostLoop
  enqueued : List HostCommand
  executed : List Effect

/-- The next step of one of the threads. -/
inductive Action where
  | call (type sectorNb : Int) (length : Nat)
  | writeToEventQueue
  | hostLoop
  | loadSectorNb
  | loadLength
  deriving DecidableEq, Repr

/-- A step of `WRITE_TO_EVENT_QUEUE`. -/
def writeToEventQueue (state : State) : Option State :=
  match state.producer with
  | .idle => none
  | .polling command =>
      if isFull state.queue then some state
      else some { state with producer := .admitted command }
  | .admitted command =>
      some
        { state with
          queue := enqueueHostCommand state.queue command
          producer := .idle
          enqueued := state.enqueued ++ [command] }

/-- A step of `HOST_LOOP`. -/
def hostLoop (state : State) : Option State :=
  match state.hostLoop with
  | .top =>
      if isEmpty state.queue then some { state with hostLoop := .wait false }
      else some { state with hostLoop := .dequeue }
  | .dequeue =>
      let (queue, slot) := dequeueHostCommand state.queue
      some { state with queue := queue, hostLoop := .testRead slot }
  | .testRead slot =>
      if (state.queue.hostCommands slot).type = read then
        some { state with hostLoop := .arguments .ftlRead slot none none }
      else some { state with hostLoop := .testWrite slot }
  | .testWrite slot =>
      if (state.queue.hostCommands slot).type = write then
        some { state with hostLoop := .arguments .ftlWrite slot none none }
      else some { state with hostLoop := .testNoop slot }
  | .testNoop slot =>
      let effect := if (state.queue.hostCommands slot).type = noop then .noopOperation
        else .unknownOperation
      some { state with hostLoop := .release slot, executed := state.executed ++ [effect] }
  | .arguments request slot (some sectorNb) (some length) =>
      some
        { state with
          hostLoop := .release slot
          executed := state.executed ++ [.request request sectorNb length] }
  | .arguments _ _ _ _ => none
  | .release slot =>
      let command := state.queue.hostCommands slot
      some
        { state with
          queue :=
            { state.queue with
              hostCommands :=
                Function.update state.queue.hostCommands slot { command with type := noop } }
          hostLoop := .wait true }
  | .wait busy =>
      if isEmpty state.queue ∧ busy = false then some state else some { state with hostLoop := .top }

/-- One step of one of the threads. -/
def step (state : State) (action : Action) : Option State :=
  match action, state.producer, state.hostLoop with
  | .call type sectorNb length, .idle, _ =>
      some { state with producer := .polling ⟨type, sectorNb, length⟩ }
  | .writeToEventQueue, _, _ => writeToEventQueue state
  | .hostLoop, _, _ => hostLoop state
  | .loadSectorNb, _, .arguments request slot none length =>
      some
        { state with
          hostLoop :=
            .arguments request slot (some (state.queue.hostCommands slot).sectorNb) length }
  | .loadLength, _, .arguments request slot sectorNb none =>
      some
        { state with
          hostLoop :=
            .arguments request slot sectorNb (some (state.queue.hostCommands slot).length) }
  | _, _, _ => none

-- one place makes the equations of the steps, before the lemmas rewrite with them
section
attribute [local simp] writeToEventQueue hostLoop step
end

/-- The state in which the two threads start. -/
def start (size : Nat) (memory : Nat → HostCommand) : State where
  queue := initEventQueue size memory
  producer := .idle
  hostLoop := .top
  enqueued := []
  executed := []

/-! ## The queue as a list of commands -/

/-- The commands in the queue, oldest first. -/
def EventQueue.queued (queue : EventQueue) : List HostCommand :=
  RingBuffer.contents queue.size queue.hostCommands queue.front queue.rear

/-- `front` and `rear` are slots of the queue. -/
def EventQueue.InRange (queue : EventQueue) : Prop :=
  queue.front ≤ queue.size ∧ queue.rear ≤ queue.size

theorem isEmpty_iff {queue : EventQueue} (inRange : queue.InRange) :
    isEmpty queue = true ↔ queue.queued.length = 0 := by
  rw [isEmpty, decide_eq_true_eq, EventQueue.queued, RingBuffer.length_contents,
    RingBuffer.occupancy_eq_zero inRange.1]

theorem isFull_iff {queue : EventQueue} (inRange : queue.InRange) (positive : 1 ≤ queue.size) :
    isFull queue = true ↔ queue.queued.length = queue.size := by
  have bounds : queue.front ≤ queue.size ∧ queue.rear ≤ queue.size := inRange
  rw [EventQueue.queued, RingBuffer.length_contents]
  unfold isFull RingBuffer.occupancy
  split_ifs <;> simp only [decide_eq_true_eq] <;> omega

theorem queued_enqueueHostCommand {queue : EventQueue} (inRange : queue.InRange)
    (hostCmd : HostCommand) (space : queue.queued.length < queue.size) :
    (enqueueHostCommand queue hostCmd).queued = queue.queued ++ [hostCmd] := by
  rw [EventQueue.queued, RingBuffer.length_contents] at space
  exact RingBuffer.contents_push _ _ inRange.1 inRange.2 space

theorem inRange_enqueueHostCommand {queue : EventQueue} (inRange : queue.InRange)
    (hostCmd : HostCommand) : (enqueueHostCommand queue hostCmd).InRange :=
  ⟨inRange.1, RingBuffer.advance_le inRange.2⟩

theorem queued_dequeueHostCommand {queue : EventQueue} (inRange : queue.InRange)
    (nonempty : queue.queued ≠ []) :
    queue.queued = queue.hostCommands queue.front :: (dequeueHostCommand queue).1.queued := by
  refine RingBuffer.contents_pop _ inRange.1 inRange.2 ?_
  rw [← RingBuffer.length_contents queue.hostCommands]
  exact List.length_pos_of_ne_nil nonempty

theorem inRange_dequeueHostCommand {queue : EventQueue} (inRange : queue.InRange) :
    (dequeueHostCommand queue).1.InRange :=
  ⟨RingBuffer.advance_le inRange.1, inRange.2⟩

theorem queued_release {queue : EventQueue} (inRange : queue.InRange) {slot : Nat}
    (before : RingBuffer.advance queue.size slot = queue.front) (command : HostCommand) :
    { queue with
      hostCommands := Function.update queue.hostCommands slot command }.queued = queue.queued := by
  unfold EventQueue.queued
  simp only [← before]
  exact RingBuffer.contents_update_before _ _ inRange.2

/-- The slot in front of the queue is not the slot for the next command unless the queue is full. -/
theorem rear_ne_of_space {queue : EventQueue} (inRange : queue.InRange) {slot : Nat}
    (slot_le : slot ≤ queue.size) (before : RingBuffer.advance queue.size slot = queue.front)
    (space : queue.queued.length < queue.size) : slot ≠ queue.rear := by
  rintro rfl
  rw [EventQueue.queued, RingBuffer.length_contents] at space
  have last : RingBuffer.slotAt queue.size queue.front queue.size = queue.rear := by
    rw [← before]
    exact RingBuffer.slotAt_size
  have equal := RingBuffer.slotAt_injective (by omega) (le_refl _)
    ((RingBuffer.slotAt_occupancy inRange.1 inRange.2).trans last.symm)
  omega

/-! ## The invariant -/

/-- The slot to which `h_cmd` points. -/
def HostLoop.slot? : HostLoop → Option Nat
  | .testRead slot | .testWrite slot | .testNoop slot | .arguments _ slot _ _ | .release slot =>
      some slot
  | .top | .dequeue | .wait _ => none

/-- The command which has left the queue and has not been executed yet. -/
def State.pending (state : State) : List HostCommand :=
  match state.hostLoop with
  | .testRead slot | .testWrite slot | .testNoop slot | .arguments _ slot _ _ =>
      [state.queue.hostCommands slot]
  | .top | .dequeue | .wait _ | .release _ => []

/-- What the loop has learned through the pointer is true of the command. -/
def HostLoop.Learned (command : HostCommand) : HostLoop → Prop
  | .testWrite _ => command.type ≠ read
  | .testNoop _ => command.type ≠ read ∧ command.type ≠ write
  | .arguments request _ sectorNb length =>
      command.effect = .request request command.sectorNb command.length ∧
        (∀ value, sectorNb = some value → value = command.sectorNb) ∧
        ∀ value, length = some value → value = command.length
  | _ => True

/-- The commands put into the queue are those taken out of it followed by those still in it, and
the effects so far are those of the commands taken out, in order. -/
def State.InOrder (state : State) : Prop :=
  ∃ taken, state.enqueued = taken ++ state.queue.queued ∧
    state.executed ++ state.pending.map HostCommand.effect = taken.map HostCommand.effect

structure Sound (size : Nat) (state : State) : Prop where
  size_eq : state.queue.size = size
  inRange : state.queue.InRange
  inOrder : state.InOrder
  space : ∀ command, state.producer = .admitted command → state.queue.queued.length < size
  nonempty : state.hostLoop = .dequeue → state.queue.queued ≠ []
  held : ∀ slot, state.hostLoop.slot? = some slot →
    slot ≤ size ∧ RingBuffer.advance size slot = state.queue.front
  learned : ∀ slot, state.hostLoop.slot? = some slot →
    state.hostLoop.Learned (state.queue.hostCommands slot)

theorem sound_start (size : Nat) (memory : Nat → HostCommand) : Sound size (start size memory) where
  size_eq := rfl
  inRange := ⟨Nat.zero_le _, Nat.zero_le _⟩
  inOrder := ⟨[], rfl, rfl⟩
  space command admitted := by cases admitted
  nonempty at_dequeue := by cases at_dequeue
  held slot held := by cases held
  learned slot held := by cases held

theorem sound_writeToEventQueue {size : Nat} (positive : 1 ≤ size) {state next : State}
    (sound : Sound size state) (stepped : writeToEventQueue state = some next) :
    Sound size next := by
  obtain rfl := sound.size_eq
  cases producer : state.producer with
  | idle => simp [writeToEventQueue, producer] at stepped
  | polling command =>
      simp only [writeToEventQueue, producer] at stepped
      split at stepped
      · obtain rfl := Option.some.inj stepped
        exact sound
      · rename_i notFull
        obtain rfl := Option.some.inj stepped
        refine { sound with space := fun _ _ => ?_ }
        have bound := RingBuffer.occupancy_le state.queue.front sound.inRange.2
        have below : ¬ state.queue.queued.length = state.queue.size := fun full =>
          notFull ((isFull_iff sound.inRange positive).mpr full)
        change state.queue.queued.length < state.queue.size
        rw [EventQueue.queued, RingBuffer.length_contents] at below ⊢
        omega
  | admitted command =>
      simp only [writeToEventQueue, producer] at stepped
      obtain rfl := Option.some.inj stepped
      have space := sound.space command producer
      have queued := queued_enqueueHostCommand sound.inRange command space
      -- the slot behind `h_cmd` is not the one which is written
      have kept : ∀ slot, state.hostLoop.slot? = some slot →
          (enqueueHostCommand state.queue command).hostCommands slot =
            state.queue.hostCommands slot := by
        intro slot held
        have position := sound.held slot held
        exact Function.update_of_ne
          (rear_ne_of_space sound.inRange position.1 position.2 space) _ _
      refine
        { size_eq := rfl
          inRange := inRange_enqueueHostCommand sound.inRange command
          inOrder := ?_
          space := fun _ admitted => by cases admitted
          nonempty := fun _ => by simp [queued]
          held := sound.held
          learned := fun slot held => by
            have learned := sound.learned slot held
            change state.hostLoop.Learned ((enqueueHostCommand state.queue command).hostCommands slot)
            rwa [kept slot held] }
      obtain ⟨taken, enqueued, executed⟩ := sound.inOrder
      refine ⟨taken, ?_, ?_⟩
      · change state.enqueued ++ [command] = taken ++ (enqueueHostCommand _ command).queued
        rw [enqueued, queued, List.append_assoc]
      · have pending : State.pending { state with
              queue := enqueueHostCommand state.queue command
              producer := .idle
              enqueued := state.enqueued ++ [command] } = state.pending := by
          unfold State.pending
          cases loop : state.hostLoop <;> simp only [List.cons.injEq, and_true]
          all_goals exact kept _ (by rw [loop]; rfl)
        rw [pending]
        exact executed

/-- A step of the loop which leaves the queue, the producer and the history alone. -/
theorem Sound.moveLoop {size : Nat} {state : State} (sound : Sound size state) (loop : HostLoop)
    (nonempty : loop = .dequeue → state.queue.queued ≠ [])
    (pending : { state with hostLoop := loop }.pending = state.pending)
    (slots : ∀ slot, loop.slot? = some slot → state.hostLoop.slot? = some slot)
    (learned : ∀ slot, loop.slot? = some slot →
      loop.Learned (state.queue.hostCommands slot)) :
    Sound size { state with hostLoop := loop } where
  size_eq := sound.size_eq
  inRange := sound.inRange
  inOrder := by
    obtain ⟨taken, enqueued, executed⟩ := sound.inOrder
    refine ⟨taken, enqueued, ?_⟩
    rw [pending]
    exact executed
  space := sound.space
  nonempty := nonempty
  held slot held := sound.held slot (slots slot held)
  learned := learned

/-- The command behind `slot` is executed. -/
theorem Sound.execute {size : Nat} {state : State} (sound : Sound size state) (slot : Nat)
    (held : state.hostLoop.slot? = some slot)
    (pending : state.pending = [state.queue.hostCommands slot]) (effect : Effect)
    (exact : effect = (state.queue.hostCommands slot).effect) :
    Sound size
      { state with hostLoop := .release slot, executed := state.executed ++ [effect] } where
  size_eq := sound.size_eq
  inRange := sound.inRange
  inOrder := by
    obtain ⟨taken, enqueued, executed⟩ := sound.inOrder
    refine ⟨taken, enqueued, ?_⟩
    rw [pending] at executed
    change (state.executed ++ [effect]) ++ [] = _
    rw [List.append_nil, exact]
    exact executed
  space := sound.space
  nonempty := fun loop => by cases loop
  held other same := by
    obtain rfl : slot = other := Option.some.inj same
    exact sound.held slot held
  learned := fun _ _ => trivial

theorem sound_dequeue {size : Nat} {state : State} (sound : Sound size state)
    (loop : state.hostLoop = .dequeue) :
    Sound size
      { state with
        queue := (dequeueHostCommand state.queue).1
        hostLoop := .testRead (dequeueHostCommand state.queue).2 } := by
  have popped := queued_dequeueHostCommand sound.inRange (sound.nonempty loop)
  have lengths := congrArg List.length popped
  rw [List.length_cons] at lengths
  refine
    { size_eq := sound.size_eq
      inRange := inRange_dequeueHostCommand sound.inRange
      inOrder := ?_
      space := fun command admitted => ?_
      nonempty := fun loop => by cases loop
      held := fun slot same => ?_
      learned := fun _ _ => trivial }
  · obtain ⟨taken, enqueued, executed⟩ := sound.inOrder
    refine ⟨taken ++ [state.queue.hostCommands state.queue.front], ?_, ?_⟩
    · rw [enqueued, popped, List.append_assoc]
      rfl
    · have none_pending : state.pending = [] := by rw [State.pending, loop]
      rw [none_pending, List.map_nil, List.append_nil] at executed
      rw [List.map_append, ← executed]
      rfl
  · have space := sound.space command admitted
    change (dequeueHostCommand state.queue).1.queued.length < size
    omega
  · obtain rfl : state.queue.front = slot := Option.some.inj same
    obtain rfl := sound.size_eq
    exact ⟨sound.inRange.1, rfl⟩

theorem sound_release {size : Nat} {state : State} (sound : Sound size state) {slot : Nat}
    (loop : state.hostLoop = .release slot) (command : HostCommand) :
    Sound size
      { state with
        queue :=
          { state.queue with
            hostCommands := Function.update state.queue.hostCommands slot command }
        hostLoop := .wait true } := by
  have position := sound.held slot (by rw [loop]; rfl)
  obtain rfl := sound.size_eq
  have queued := queued_release sound.inRange position.2 command
  refine
    { size_eq := rfl
      inRange := sound.inRange
      inOrder := ?_
      space := fun other admitted => ?_
      nonempty := fun loop => by cases loop
      held := fun _ same => by cases same
      learned := fun _ same => by cases same }
  · obtain ⟨taken, enqueued, executed⟩ := sound.inOrder
    have none_pending : state.pending = [] := by rw [State.pending, loop]
    rw [none_pending] at executed
    refine ⟨taken, ?_, executed⟩
    rw [queued]
    exact enqueued
  · have space := sound.space other admitted
    rwa [← queued] at space

theorem sound_hostLoop {size : Nat} {state next : State} (sound : Sound size state)
    (stepped : hostLoop state = some next) : Sound size next := by
  unfold hostLoop at stepped
  split at stepped
  case h_1 loop =>
    split at stepped
    · obtain rfl := Option.some.inj stepped
      exact sound.moveLoop _ (fun other => by cases other) (by simp [State.pending, loop])
        (fun _ held => by cases held) (fun _ held => by cases held)
    · rename_i filled
      obtain rfl := Option.some.inj stepped
      refine sound.moveLoop _ (fun _ empty => filled ?_) (by simp [State.pending, loop])
        (fun _ held => by cases held) (fun _ held => by cases held)
      exact (isEmpty_iff sound.inRange).mpr (by rw [empty]; rfl)
  case h_2 loop =>
    obtain rfl := Option.some.inj stepped
    exact sound_dequeue sound loop
  case h_3 slot loop =>
    split at stepped
    · rename_i type
      obtain rfl := Option.some.inj stepped
      refine sound.moveLoop _ (fun other => by cases other) (by simp [State.pending, loop])
        (fun _ held => by rw [loop]; exact held) (fun other held => ?_)
      obtain rfl : slot = other := Option.some.inj held
      exact ⟨by rw [HostCommand.effect, if_pos type], by simp, by simp⟩
    · rename_i type
      obtain rfl := Option.some.inj stepped
      refine sound.moveLoop _ (fun other => by cases other) (by simp [State.pending, loop])
        (fun _ held => by rw [loop]; exact held) (fun other held => ?_)
      obtain rfl : slot = other := Option.some.inj held
      exact type
  case h_4 slot loop =>
    have learned := sound.learned slot (by rw [loop]; rfl)
    rw [loop] at learned
    split at stepped
    · rename_i type
      obtain rfl := Option.some.inj stepped
      refine sound.moveLoop _ (fun other => by cases other) (by simp [State.pending, loop])
        (fun _ held => by rw [loop]; exact held) (fun other held => ?_)
      obtain rfl : slot = other := Option.some.inj held
      exact ⟨by rw [HostCommand.effect, if_neg learned, if_pos type], by simp, by simp⟩
    · rename_i type
      obtain rfl := Option.some.inj stepped
      refine sound.moveLoop _ (fun other => by cases other) (by simp [State.pending, loop])
        (fun _ held => by rw [loop]; exact held) (fun other held => ?_)
      obtain rfl : slot = other := Option.some.inj held
      exact ⟨learned, type⟩
  case h_5 slot loop =>
    have learned := sound.learned slot (by rw [loop]; rfl)
    rw [loop] at learned
    obtain rfl := Option.some.inj stepped
    refine sound.execute slot (by rw [loop]; rfl) (by rw [State.pending, loop]) _ ?_
    rw [HostCommand.effect, if_neg learned.1, if_neg learned.2]
  case h_6 request slot sectorNb length loop =>
    have learned := sound.learned slot (by rw [loop]; rfl)
    rw [loop] at learned
    obtain ⟨effect, sector_eq, length_eq⟩ := learned
    obtain rfl := Option.some.inj stepped
    refine sound.execute slot (by rw [loop]; rfl) (by rw [State.pending, loop]) _ ?_
    rw [effect, sector_eq _ rfl, length_eq _ rfl]
  case h_7 => cases stepped
  case h_8 slot loop =>
    obtain rfl := Option.some.inj stepped
    exact sound_release sound loop _
  case h_9 busy loop =>
    split at stepped
    · obtain rfl := Option.some.inj stepped
      exact sound
    · obtain rfl := Option.some.inj stepped
      exact sound.moveLoop _ (fun other => by cases other) (by simp [State.pending, loop])
        (fun _ held => by cases held) (fun _ held => by cases held)

/-- Every step of either thread keeps the invariant. -/
theorem step_sound {size : Nat} (positive : 1 ≤ size) {state next : State} {action : Action}
    (sound : Sound size state) (stepped : step state action = some next) : Sound size next := by
  unfold step at stepped
  split at stepped
  case h_1 =>
    obtain rfl := Option.some.inj stepped
    exact { sound with space := fun _ admitted => by cases admitted }
  case h_2 => exact sound_writeToEventQueue positive sound stepped
  case h_3 => exact sound_hostLoop sound stepped
  case h_4 request slot length loop =>
    have learned := sound.learned slot (by rw [loop]; rfl)
    rw [loop] at learned
    obtain rfl := Option.some.inj stepped
    refine sound.moveLoop _ (fun other => by cases other) (by simp [State.pending, loop])
      (fun _ held => by rw [loop]; exact held) (fun other held => ?_)
    obtain rfl : slot = other := Option.some.inj held
    exact ⟨learned.1, fun value loaded => (Option.some.inj loaded).symm, learned.2.2⟩
  case h_5 request slot sectorNb loop =>
    have learned := sound.learned slot (by rw [loop]; rfl)
    rw [loop] at learned
    obtain rfl := Option.some.inj stepped
    refine sound.moveLoop _ (fun other => by cases other) (by simp [State.pending, loop])
      (fun _ held => by rw [loop]; exact held) (fun other held => ?_)
    obtain rfl : slot = other := Option.some.inj held
    exact ⟨learned.1, learned.2.1, fun value loaded => (Option.some.inj loaded).symm⟩
  case h_6 => cases stepped

theorem run_sound {size : Nat} (positive : 1 ≤ size) {state final : State}
    {actions : List Action} (sound : Sound size state)
    (execution : Execution.run step state actions = some final) : Sound size final := by
  have meets : Execution.Meets step (fun _ _ => True) state actions :=
    (Execution.meets_iff_forall execution).mpr fun _ _ => trivial
  refine Execution.run_invariant ?_ sound meets execution
  exact fun _ _ _ kept _ stepped => step_sound positive kept stepped

/-! ## The consumer alone -/

/-- A step of the thread in `HOST_LOOP`. -/
def Action.OfLoop : Action → Prop
  | .hostLoop | .loadSectorNb | .loadLength => True
  | .call _ _ _ | .writeToEventQueue => False

/-- The loop holds no command and is not about to take one. -/
def State.Parked (state : State) : Prop := state.hostLoop = .top ∨ ∃ busy, state.hostLoop = .wait busy

/-- Steps of the loop alone lead from `state` to `last`, and the queue does not grow. -/
def Reaches (state last : State) : Prop :=
  last.enqueued = state.enqueued ∧ last.queue.queued.length ≤ state.queue.queued.length ∧
    ∃ actions, (∀ action ∈ actions, action.OfLoop) ∧
      Execution.run step state actions = some last

theorem Reaches.refl (state : State) : Reaches state state :=
  ⟨rfl, le_refl _, [], by simp, rfl⟩

theorem Reaches.head {state next last : State} {action : Action}
    (stepped : step state action = some next) (ofLoop : action.OfLoop) (enqueued : next.enqueued = state.enqueued)
    (shorter : next.queue.queued.length ≤ state.queue.queued.length)
    (rest : Reaches next last) : Reaches state last := by
  obtain ⟨enqueued', shorter', actions, all, execution⟩ := rest
  refine ⟨enqueued'.trans enqueued, shorter'.trans shorter, action :: actions, ?_, ?_⟩
  · exact List.forall_mem_cons.mpr ⟨ofLoop, all⟩
  · exact Execution.run_cons_eq_some.mpr ⟨next, stepped, execution⟩

theorem Reaches.trans {state middle last : State} (first : Reaches state middle)
    (second : Reaches middle last) : Reaches state last := by
  obtain ⟨enqueued, shorter, actions, all, execution⟩ := first
  obtain ⟨enqueued', shorter', actions', all', execution'⟩ := second
  refine ⟨enqueued'.trans enqueued, shorter'.trans shorter, actions ++ actions', ?_, ?_⟩
  · exact List.forall_mem_append.mpr ⟨all, all'⟩
  · exact Execution.run_append_eq_some.mpr ⟨middle, execution, execution'⟩

theorem Reaches.sound {size : Nat} (positive : 1 ≤ size) {state last : State}
    (reaches : Reaches state last) (sound : Sound size state) : Sound size last := by
  obtain ⟨_, _, _, _, execution⟩ := reaches
  exact run_sound positive sound execution

theorem parked_of_release {size : Nat} {state : State} (sound : Sound size state) {slot : Nat}
    (loop : state.hostLoop = .release slot) : ∃ last, Reaches state last ∧ last.Parked := by
  have position := sound.held slot (by rw [loop]; rfl)
  obtain rfl := sound.size_eq
  have stepped : step state .hostLoop = some { state with
      queue := { state.queue with
        hostCommands := Function.update state.queue.hostCommands slot
          { state.queue.hostCommands slot with type := noop } }
      hostLoop := .wait true } := by
    simp only [step, hostLoop, loop]
  have queued := queued_release sound.inRange position.2
    { state.queue.hostCommands slot with type := noop }
  exact ⟨_, .head stepped trivial rfl (congrArg List.length queued).le (.refl _), .inr ⟨true, rfl⟩⟩

theorem parked_of_arguments {size : Nat} (positive : 1 ≤ size) {state : State}
    (sound : Sound size state) {request : Request} {slot : Nat} {sectorNb : Option Int}
    {length : Option Nat} (loop : state.hostLoop = .arguments request slot sectorNb length) :
    ∃ last, Reaches state last ∧ last.Parked := by
  -- the loads which are missing come first, then the call
  have call : ∀ {state : State} (_ : Sound size state) {sectorNb : Int} {length : Nat},
      state.hostLoop = .arguments request slot (some sectorNb) (some length) →
        ∃ last, Reaches state last ∧ last.Parked := by
    intro state sound sectorNb length loop
    have stepped : step state .hostLoop = some { state with
        hostLoop := .release slot
        executed := state.executed ++ [.request request sectorNb length] } := by
      simp only [step, hostLoop, loop]
    obtain ⟨last, reaches, parked⟩ :=
      parked_of_release (step_sound positive sound stepped) rfl
    exact ⟨last, .head stepped trivial rfl (le_refl _) reaches, parked⟩
  have loadLength : ∀ {state : State} (_ : Sound size state) {sectorNb : Int}
      {length : Option Nat},
      state.hostLoop = .arguments request slot (some sectorNb) length →
        ∃ last, Reaches state last ∧ last.Parked := by
    intro state sound sectorNb length loop
    cases length with
    | some length => exact call sound loop
    | none =>
        have stepped : step state .loadLength = some { state with
            hostLoop := .arguments request slot (some sectorNb)
              (some (state.queue.hostCommands slot).length) } := by
          simp only [step, loop]
        obtain ⟨last, reaches, parked⟩ := call (step_sound positive sound stepped) rfl
        exact ⟨last, .head stepped trivial rfl (le_refl _) reaches, parked⟩
  cases sectorNb with
  | some sectorNb => exact loadLength sound loop
  | none =>
      have stepped : step state .loadSectorNb = some { state with
          hostLoop := .arguments request slot
            (some (state.queue.hostCommands slot).sectorNb) length } := by
        simp only [step, loop]
      obtain ⟨last, reaches, parked⟩ := loadLength (step_sound positive sound stepped) rfl
      exact ⟨last, .head stepped trivial rfl (le_refl _) reaches, parked⟩

theorem parked_of_testNoop {size : Nat} (positive : 1 ≤ size) {state : State}
    (sound : Sound size state) {slot : Nat} (loop : state.hostLoop = .testNoop slot) :
    ∃ last, Reaches state last ∧ last.Parked := by
  have stepped : step state .hostLoop = some { state with
      hostLoop := .release slot
      executed := state.executed ++ [if (state.queue.hostCommands slot).type = noop
        then .noopOperation else .unknownOperation] } := by
    simp only [step, hostLoop, loop]
  obtain ⟨last, reaches, parked⟩ :=
    parked_of_release (step_sound positive sound stepped) rfl
  exact ⟨last, .head stepped trivial rfl (le_refl _) reaches, parked⟩

theorem parked_of_testWrite {size : Nat} (positive : 1 ≤ size) {state : State}
    (sound : Sound size state) {slot : Nat} (loop : state.hostLoop = .testWrite slot) :
    ∃ last, Reaches state last ∧ last.Parked := by
  by_cases type : (state.queue.hostCommands slot).type = write
  · have stepped : step state .hostLoop =
        some { state with hostLoop := .arguments .ftlWrite slot none none } := by
      simp only [step, hostLoop, loop, if_pos type]
    obtain ⟨last, reaches, parked⟩ :=
      parked_of_arguments positive (step_sound positive sound stepped) rfl
    exact ⟨last, .head stepped trivial rfl (le_refl _) reaches, parked⟩
  · have stepped : step state .hostLoop = some { state with hostLoop := .testNoop slot } := by
      simp only [step, hostLoop, loop, if_neg type]
    obtain ⟨last, reaches, parked⟩ :=
      parked_of_testNoop positive (step_sound positive sound stepped) rfl
    exact ⟨last, .head stepped trivial rfl (le_refl _) reaches, parked⟩

theorem parked_of_testRead {size : Nat} (positive : 1 ≤ size) {state : State}
    (sound : Sound size state) {slot : Nat} (loop : state.hostLoop = .testRead slot) :
    ∃ last, Reaches state last ∧ last.Parked := by
  by_cases type : (state.queue.hostCommands slot).type = read
  · have stepped : step state .hostLoop =
        some { state with hostLoop := .arguments .ftlRead slot none none } := by
      simp only [step, hostLoop, loop, if_pos type]
    obtain ⟨last, reaches, parked⟩ :=
      parked_of_arguments positive (step_sound positive sound stepped) rfl
    exact ⟨last, .head stepped trivial rfl (le_refl _) reaches, parked⟩
  · have stepped : step state .hostLoop = some { state with hostLoop := .testWrite slot } := by
      simp only [step, hostLoop, loop, if_neg type]
    obtain ⟨last, reaches, parked⟩ :=
      parked_of_testWrite positive (step_sound positive sound stepped) rfl
    exact ⟨last, .head stepped trivial rfl (le_refl _) reaches, parked⟩

/-- The command at the front of the queue is executed. -/
theorem parked_of_dequeue {size : Nat} (positive : 1 ≤ size) {state : State}
    (sound : Sound size state) (loop : state.hostLoop = .dequeue) :
    ∃ last, Reaches state last ∧ last.Parked ∧
      last.queue.queued.length < state.queue.queued.length := by
  have stepped : step state .hostLoop = some { state with
      queue := (dequeueHostCommand state.queue).1
      hostLoop := .testRead (dequeueHostCommand state.queue).2 } := by
    simp only [step, hostLoop, loop]
  have lengths := congrArg List.length
    (queued_dequeueHostCommand sound.inRange (sound.nonempty loop))
  rw [List.length_cons] at lengths
  obtain ⟨last, reaches, parked⟩ :=
    parked_of_testRead positive (step_sound positive sound stepped) rfl
  have shorter : last.queue.queued.length ≤ (dequeueHostCommand state.queue).1.queued.length :=
    reaches.2.1
  refine ⟨last, .head stepped trivial rfl ?_ reaches, parked, by omega⟩
  change (dequeueHostCommand state.queue).1.queued.length ≤ _
  omega

theorem exists_parked {size : Nat} (positive : 1 ≤ size) {state : State}
    (sound : Sound size state) : ∃ last, Reaches state last ∧ last.Parked := by
  cases loop : state.hostLoop with
  | top => exact ⟨state, .refl state, .inl loop⟩
  | dequeue =>
      obtain ⟨last, reaches, parked, _⟩ := parked_of_dequeue positive sound loop
      exact ⟨last, reaches, parked⟩
  | testRead slot => exact parked_of_testRead positive sound loop
  | testWrite slot => exact parked_of_testWrite positive sound loop
  | testNoop slot => exact parked_of_testNoop positive sound loop
  | arguments request slot sectorNb length => exact parked_of_arguments positive sound loop
  | release slot => exact parked_of_release sound loop
  | wait busy => exact ⟨state, .refl state, .inr ⟨busy, loop⟩⟩

theorem dequeue_of_parked {state : State} (parked : state.Parked)
    (filled : ¬ isEmpty state.queue = true) :
    Reaches state { state with hostLoop := .dequeue } := by
  have top : ∀ {state : State}, state.hostLoop = .top → ¬ isEmpty state.queue = true →
      Reaches state { state with hostLoop := .dequeue } := by
    intro state loop filled
    have stepped : step state .hostLoop = some { state with hostLoop := .dequeue } := by
      simp only [step, hostLoop, loop, if_neg filled]
    exact .head stepped trivial rfl (le_refl _) (.refl _)
  cases parked with
  | inl loop => exact top loop filled
  | inr waiting =>
      obtain ⟨busy, loop⟩ := waiting
      have stepped : step state .hostLoop = some { state with hostLoop := .top } := by
        simp only [step, hostLoop, loop, filled, false_and, if_false, Bool.false_eq_true]
      exact .head stepped trivial rfl (le_refl _) (top rfl filled)

/-- The loop alone executes every command which is in the queue. -/
theorem exists_drained {size : Nat} (positive : 1 ≤ size) {state : State}
    (sound : Sound size state) :
    ∃ last, Reaches state last ∧
      last.executed = state.enqueued.map HostCommand.effect := by
  induction length : state.queue.queued.length using Nat.strongRecOn generalizing state with
  | ind bound ih =>
      obtain ⟨rest, reaches, parked⟩ := exists_parked positive sound
      have kept := reaches.sound positive sound
      by_cases empty : isEmpty rest.queue = true
      · have pending : rest.pending = [] := by
          unfold State.pending
          cases parked with
          | inl loop => rw [loop]
          | inr waiting =>
              obtain ⟨busy, loop⟩ := waiting
              rw [loop]
        obtain ⟨taken, enqueued, executed⟩ := kept.inOrder
        have queued := List.length_eq_zero_iff.mp ((isEmpty_iff kept.inRange).mp empty)
        refine ⟨rest, reaches, ?_⟩
        rw [pending, List.map_nil, List.append_nil] at executed
        rw [executed, ← reaches.1, enqueued, queued, List.append_nil]
      · have ready := dequeue_of_parked parked empty
        obtain ⟨popped, taking, _, shorter⟩ :=
          parked_of_dequeue positive (ready.sound positive kept) rfl
        have path := (reaches.trans ready).trans taking
        have smaller : popped.queue.queued.length < bound := by
          have first := reaches.2.1
          have second : ({ rest with hostLoop := .dequeue } : State).queue.queued.length =
            rest.queue.queued.length := rfl
          omega
        obtain ⟨last, finishing, executed⟩ :=
          ih _ smaller (path.sound positive sound) rfl
        exact ⟨last, path.trans finishing, by rw [executed, path.1]⟩

/-! ## First in, first out -/

/-- The queue and the history agree, and the last store through `h_cmd` does not reach the queue. -/
structure Fifo (size : Nat) (state : State) : Prop where
  front_le : state.queue.front ≤ size
  rear_le : state.queue.rear ≤ size
  inOrder : state.InOrder
  full : isFull state.queue = true ↔ state.queue.queued.length = size
  empty : isEmpty state.queue = true ↔ state.queue.queued.length = 0
  release : ∀ slot next, state.hostLoop = .release slot → step state .hostLoop = some next →
    next.queue.queued = state.queue.queued
  drains : ∃ actions last, (∀ action ∈ actions, action.OfLoop) ∧
    Execution.run step state actions = some last ∧
      last.executed = state.enqueued.map HostCommand.effect

/-- In every interleaving of the two threads the queue is first in, first out. -/
theorem run_fifo {size : Nat} (positive : 1 ≤ size) (memory : Nat → HostCommand)
    {actions : List Action} {final : State}
    (execution : Execution.run step (start size memory) actions = some final) :
    Fifo size final := by
  have sound := run_sound positive (sound_start size memory) execution
  obtain rfl := sound.size_eq
  refine
    { front_le := sound.inRange.1
      rear_le := sound.inRange.2
      inOrder := sound.inOrder
      full := isFull_iff sound.inRange positive
      empty := isEmpty_iff sound.inRange
      release := fun slot next loop stepped => ?_
      drains := ?_ }
  · have position := sound.held slot (by rw [loop]; rfl)
    simp only [step, hostLoop, loop] at stepped
    obtain rfl := Option.some.inj stepped
    exact queued_release sound.inRange position.2 _
  · obtain ⟨last, ⟨_, _, loopActions, all, loopRun⟩, executed⟩ := exists_drained positive sound
    exact ⟨loopActions, last, all, loopRun, executed⟩

/-- The producer fills a queue of one command while the loop still uses the slot in front of it. -/
theorem run_fifo_example :
    ∃ final,
      Execution.run step (start 1 fun _ => ⟨noop, 0, 0⟩)
        [.call write 8 4, .writeToEventQueue, .writeToEventQueue, .hostLoop, .hostLoop, .hostLoop,
          .hostLoop, .call read 8 1, .writeToEventQueue, .writeToEventQueue, .call noop 0 0,
          .writeToEventQueue, .loadLength, .loadSectorNb, .hostLoop, .hostLoop] = some final ∧
        final.executed = [.request .ftlWrite 8 4] ∧ Fifo 1 final := by
  have executed :
      (Execution.run step (start 1 fun _ => ⟨noop, 0, 0⟩)
        [.call write 8 4, .writeToEventQueue, .writeToEventQueue, .hostLoop, .hostLoop, .hostLoop,
          .hostLoop, .call read 8 1, .writeToEventQueue, .writeToEventQueue, .call noop 0 0,
          .writeToEventQueue, .loadLength, .loadSectorNb, .hostLoop, .hostLoop]).map
          State.executed = some [.request .ftlWrite 8 4] := by
    decide +kernel
  obtain ⟨final, execution, history⟩ := Option.map_eq_some_iff.mp executed
  exact ⟨final, execution, history, run_fifo (by decide) _ execution⟩

end HostQueue
end StorageStack
