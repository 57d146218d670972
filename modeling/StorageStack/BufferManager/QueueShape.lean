import StorageStack.BufferManager.EventQueue

/-!
# The lists of the buffer manager

The pointers of the event queue and of the queue of the completed reads describe two lists without a
common event, and in the event queue the reads are in front of the writes.  The file shows what each
operation does to the lists, whatever the translation layer does with the buffers.
-/

namespace StorageStack
namespace BufferManager

open LinkedChain

/-- The pointer fields of the events. -/
def Manager.next (manager : Manager) : Nat → Option Nat := fun event => (manager.heap event).next

/-- A queue whose pointers lead through `events`. -/
structure Describes (next : Nat → Option Nat) (queue : EventQueue) (events : List Nat) : Prop where
  chain : Chain next queue.head events
  entryNb : queue.entryNb = events.length
  tail : queue.tail = events.getLast?

/-- The event queue has the reads `reads` and the writes `writes`, and the queue of the completed
reads has `completed`; all these events have numbers below `bound`. -/
structure Shape (manager : Manager) (bound : Nat) (reads writes completed : List Nat) : Prop where
  queue : Describes manager.next manager.eQueue (reads ++ writes)
  completedQueue : Describes manager.next manager.cEQueue completed
  nodup : ((reads ++ writes) ++ completed).Nodup
  readType : ∀ event ∈ reads, (manager.heap event).ioType = .read
  writeType : ∀ event ∈ writes, (manager.heap event).ioType = .write
  lt_bound : ∀ event ∈ (reads ++ writes) ++ completed, event < bound
  bound_le : bound ≤ manager.fresh
  lastRead : ∀ event, manager.lastReadEntry = some event → event ∈ reads

/-- The pointers and the types of the events are the same, and the event queue with them. -/
structure SameQueue (before after : Manager) : Prop where
  next : after.next = before.next
  ioType : ∀ event, (after.heap event).ioType = (before.heap event).ioType
  eQueue : after.eQueue = before.eQueue
  lastReadEntry : after.lastReadEntry = before.lastReadEntry
  fresh : after.fresh = before.fresh
  received : after.received = before.received

variable {config : BufferConfig} {ftl : Ftl} {manager after : Manager} {bound : Nat}
  {reads writes completed : List Nat}

namespace SameQueue

theorem refl (manager : Manager) : SameQueue manager manager :=
  ⟨rfl, fun _ => rfl, rfl, rfl, rfl, rfl⟩

theorem trans {middle : Manager} (first : SameQueue manager middle)
    (second : SameQueue middle after) : SameQueue manager after where
  next := second.next.trans first.next
  ioType event := (second.ioType event).trans (first.ioType event)
  eQueue := second.eQueue.trans first.eQueue
  lastReadEntry := second.lastReadEntry.trans first.lastReadEntry
  fresh := second.fresh.trans first.fresh
  received := second.received.trans first.received

/-- A change to an event that leaves its pointer and its type. -/
theorem setEntry (manager : Manager) (event : Nat) (change : EventQueueEntry → EventQueueEntry)
    (next : (change (manager.heap event)).next = (manager.heap event).next)
    (ioType : (change (manager.heap event)).ioType = (manager.heap event).ioType) :
    SameQueue manager (manager.setEntry event change) := by
  refine ⟨?_, ?_, rfl, rfl, rfl, rfl⟩
  · funext other
    rcases eq_or_ne other event with rfl | different
    · simpa [Manager.next, Manager.setEntry] using next
    · simp [Manager.next, Manager.setEntry, different]
  · intro other
    rcases eq_or_ne other event with rfl | different
    · simpa [Manager.setEntry] using ioType
    · simp [Manager.setEntry, different]

theorem shape (same : SameQueue manager after) (shape : Shape manager bound reads writes completed)
    (cEQueue : after.cEQueue = manager.cEQueue) : Shape after bound reads writes completed where
  queue := by
    rw [same.next, same.eQueue]
    exact shape.queue
  completedQueue := by
    rw [same.next, cEQueue]
    exact shape.completedQueue
  nodup := shape.nodup
  readType event member := (same.ioType event).trans (shape.readType event member)
  writeType event member := (same.ioType event).trans (shape.writeType event member)
  lt_bound := shape.lt_bound
  bound_le := same.fresh.symm ▸ shape.bound_le
  lastRead event last := shape.lastRead event (same.lastReadEntry ▸ last)

/-- When the completed reads have been sent their queue is empty. -/
theorem shape_sent (same : SameQueue manager after)
    (shape : Shape manager bound reads writes completed) (sent : after.cEQueue = ⟨0, none, none⟩) :
    Shape after bound reads writes [] where
  queue := by
    rw [same.next, same.eQueue]
    exact shape.queue
  completedQueue := by
    rw [sent]
    exact ⟨rfl, rfl, rfl⟩
  nodup := by
    rw [List.append_nil]
    exact (List.nodup_append.mp shape.nodup).1
  readType event member := (same.ioType event).trans (shape.readType event member)
  writeType event member := (same.ioType event).trans (shape.writeType event member)
  lt_bound event member := shape.lt_bound event (by
    rw [List.append_nil] at member
    exact List.mem_append_left _ member)
  bound_le := same.fresh.symm ▸ shape.bound_le
  lastRead event last := shape.lastRead event (same.lastReadEntry ▸ last)

end SameQueue

/-! ## Reading the lists -/

theorem length_le_of_lt {events : List Nat} (nodup : events.Nodup)
    (lt : ∀ event ∈ events, event < bound) : events.length ≤ bound := by
  have subset : events ⊆ List.range bound := fun event member => List.mem_range.mpr (lt event member)
  simpa using (nodup.subperm subset).length_le

namespace Shape

variable (shape : Shape manager bound reads writes completed)
include shape

theorem eventsFrom_completed : manager.eventsFrom manager.cEQueue.head = completed :=
  shape.completedQueue.chain.follow_eq <|
    (length_le_of_lt (List.nodup_append.mp shape.nodup).2.1 fun event member =>
      shape.lt_bound event (List.mem_append_right _ member)).trans shape.bound_le

theorem entryNb_eq_zero : manager.eQueue.entryNb = 0 ↔ reads = [] ∧ writes = [] := by
  rw [shape.queue.entryNb, List.length_eq_zero_iff, List.append_eq_nil_iff]

end Shape

/-! ## Serving an event -/

/-- The buffers with other pointers for the reads. -/
def Buffers.setRead (buffers : Buffers) (ftlReadPtr sataReadPtr : Nat)
    (emptyReadBufferFrame : Int) : Buffers :=
  { buffers with
    ftlReadPtr := ftlReadPtr
    sataReadPtr := sataReadPtr
    emptyReadBufferFrame := emptyReadBufferFrame }

namespace Manager

theorem sendReads_eq_some {events : List Nat}
    (sent : sendReads config events manager = some after) :
    ∃ pointer frames, after =
      { manager with
        buffers := manager.buffers.setRead manager.buffers.ftlReadPtr pointer frames
        cEQueue :=
          { manager.cEQueue with entryNb := manager.cEQueue.entryNb - events.length } } := by
  induction events generalizing manager with
  | nil => exact ⟨_, _, (Option.some.inj sent).symm⟩
  | cons event events ih =>
      obtain ⟨pBuf, -, rest⟩ := Option.bind_eq_some_iff.mp sent
      obtain ⟨pointer, frames, rfl⟩ := ih rest
      refine ⟨pointer, frames, ?_⟩
      simp only [List.length_cons, Nat.sub_sub, Nat.add_comm 1]
      rfl

/-- The completed reads leave their queue, and nothing else changes but the pointers for reads. -/
theorem dequeueCompletedRead_spec (shape : Shape manager bound reads writes completed)
    (sent : manager.dequeueCompletedRead config = some after) :
    (after.cEQueue = manager.cEQueue ∨ after.cEQueue = ⟨0, none, none⟩) ∧
      SameQueue manager after ∧ after.heap = manager.heap ∧
      after.flagSeqWrite = manager.flagSeqWrite ∧
      ∃ ftlRead sataRead frames,
        after.buffers = manager.buffers.setRead ftlRead sataRead frames := by
  rw [dequeueCompletedRead] at sent
  split at sent
  · obtain rfl := Option.some.inj sent
    exact ⟨.inl rfl, .refl _, rfl, rfl, _, _, _, rfl⟩
  · obtain ⟨middle, loop, rfl⟩ := Option.map_eq_some_iff.mp sent
    rw [shape.eventsFrom_completed] at loop
    obtain ⟨pointer, frames, rfl⟩ := sendReads_eq_some loop
    rw [if_neg (by simp [shape.completedQueue.entryNb])]
    exact ⟨.inr rfl, ⟨rfl, fun _ => rfl, rfl, rfl, rfl, rfl⟩, rfl, rfl, _, _, _, rfl⟩

theorem secureReadBuffer_spec {length : Nat} (shape : Shape manager bound reads writes completed)
    (sent : manager.secureReadBuffer config length = some after) :
    (after.cEQueue = manager.cEQueue ∨ after.cEQueue = ⟨0, none, none⟩) ∧
      SameQueue manager after ∧ after.heap = manager.heap ∧
      after.flagSeqWrite = manager.flagSeqWrite ∧
      ∃ ftlRead sataRead frames,
        after.buffers = manager.buffers.setRead ftlRead sataRead frames := by
  rw [secureReadBuffer] at sent
  split at sent
  · exact dequeueCompletedRead_spec shape sent
  · obtain rfl := Option.some.inj sent
    exact ⟨.inl rfl, .refl _, rfl, rfl, _, _, _, rfl⟩

/-- Serving an event leaves the queue and the other events as they are. -/
structure Serves (before after : Manager) (event : Nat) : Prop extends SameQueue before after where
  flagSeqWrite : after.flagSeqWrite = before.flagSeqWrite
  others : ∀ other, other ≠ event → after.heap other = before.heap other

theorem serve_serves {event : Nat} (shape : Shape manager bound reads writes completed)
    (served : manager.serve config ftl event = some after) :
    (after.cEQueue = manager.cEQueue ∨ after.cEQueue = ⟨0, none, none⟩) ∧
      Serves manager after event := by
  rw [serve] at served
  split at served
  · obtain rfl := Option.some.inj served
    exact ⟨.inl rfl, ⟨.refl _, rfl, fun _ _ => rfl⟩⟩
  split at served
  · split at served
    · obtain rfl := Option.some.inj served
      exact ⟨.inl rfl, ⟨.refl _, rfl, fun _ _ => rfl⟩⟩
    · obtain ⟨middle, secured, rest⟩ := Option.bind_eq_some_iff.mp served
      obtain ⟨buffers, -, rfl⟩ := Option.map_eq_some_iff.mp rest
      obtain ⟨sent, same, heap, flag, -⟩ := secureReadBuffer_spec shape secured
      refine ⟨sent, ⟨same.trans (SameQueue.trans ?_ (.setEntry _ event _ rfl rfl)), flag, ?_⟩⟩
      · exact ⟨rfl, fun _ => rfl, rfl, rfl, rfl, rfl⟩
      · intro other different
        exact (Function.update_of_ne different _ _).trans (congrFun heap other)
  · obtain ⟨status, -, rest⟩ := Option.bind_eq_some_iff.mp served
    obtain ⟨buffers, -, rfl⟩ := Option.map_eq_some_iff.mp rest
    exact ⟨.inl rfl, ⟨⟨rfl, fun _ => rfl, rfl, rfl, rfl, rfl⟩, rfl, fun _ _ => rfl⟩⟩

theorem serve_shape {event : Nat} (shape : Shape manager bound reads writes completed)
    (served : manager.serve config ftl event = some after) :
    ∃ kept, (kept = completed ∨ kept = []) ∧ Shape after bound reads writes kept ∧
      Serves manager after event := by
  obtain ⟨same | sent, serves⟩ := serve_serves shape served
  · exact ⟨completed, .inl rfl, serves.shape shape same, serves⟩
  · exact ⟨[], .inr rfl, serves.shape_sent shape sent, serves⟩

/-! ## Leaving the queue -/

theorem next_setNext (event : Nat) (next : Option Nat) :
    (manager.setNext event next).next = Function.update manager.next event next := by
  funext other
  rcases eq_or_ne other event with rfl | different
  · simp [Manager.next, setNext, setEntry]
  · simp [Manager.next, setNext, setEntry, different]

theorem ioType_setNext (event : Nat) (next : Option Nat) (other : Nat) :
    ((manager.setNext event next).heap other).ioType = (manager.heap other).ioType := by
  rcases eq_or_ne other event with rfl | different
  · simp [setNext, setEntry]
  · simp [setNext, setEntry, different]

end Manager

/-- A queue without its first event. -/
theorem Describes.unlinkHead {next : Nat → Option Nat} {queue : EventQueue} {event : Nat}
    {events : List Nat} (describes : Describes next queue (event :: events)) :
    Describes next
      (if queue.entryNb - 1 = 0 then ⟨0, none, none⟩
        else { queue with entryNb := queue.entryNb - 1, head := next event }) events := by
  have length : queue.entryNb - 1 = events.length := by
    rw [describes.entryNb, List.length_cons, Nat.add_sub_cancel]
  rw [length]
  cases events with
  | nil => exact ⟨rfl, rfl, rfl⟩
  | cons second events =>
      rw [if_neg (by simp)]
      exact ⟨describes.chain.2, rfl, by rw [describes.tail, List.getLast?_cons_cons]⟩

/-- Pointers of events outside a queue do not matter. -/
theorem Describes.congr {next other : Nat → Option Nat} {queue : EventQueue} {events : List Nat}
    (describes : Describes next queue events) (same : ∀ event ∈ events, other event = next event) :
    Describes other queue events :=
  ⟨describes.chain.congr same, describes.entryNb, describes.tail⟩

/-- An event that points nowhere goes to the end of a queue. -/
theorem Describes.append {next : Nat → Option Nat} {queue : EventQueue} {event last : Nat}
    {events : List Nat} (describes : Describes next queue events) (nodup : events.Nodup)
    (last_eq : events.getLast? = some last) (fresh : event ∉ events) (alone : next event = none) :
    Describes (Function.update next last (some event))
      ⟨queue.entryNb + 1, queue.head, some event⟩ (events ++ [event]) := by
  obtain ⟨front, rfl⟩ : ∃ front, events = front ++ [last] :=
    List.getLast?_eq_some_iff.mp last_eq
  have last_next : next last = none := by
    have rest := describes.chain.next_eq
    exact rest
  have linked := describes.chain.insertAfter nodup fresh
  rw [last_next, ← alone, Function.update_eq_self] at linked
  refine ⟨by simpa using linked, ?_, by simp⟩
  rw [describes.entryNb, List.length_append, List.length_singleton]
  simp

theorem Describes.single {next : Nat → Option Nat} {event : Nat} (alone : next event = none) :
    Describes next ⟨1, some event, some event⟩ [event] :=
  ⟨⟨rfl, alone⟩, rfl, rfl⟩

/-- What changes when an event has left the queue for the completed reads `kept`. -/
structure Completes (before after : Manager) (event : Nat) (kept : List Nat) : Prop where
  lastReadEntry : after.lastReadEntry =
    if before.lastReadEntry = some event then none else before.lastReadEntry
  received : after.received = before.received ++ [event]
  fresh : after.fresh = before.fresh
  flagSeqWrite : after.flagSeqWrite = before.flagSeqWrite
  buffers : after.buffers = before.buffers
  heap : ∀ other, other ≠ event → other ∉ kept → after.heap other = before.heap other

theorem Shape.complete {event : Nat} (shape : Shape manager bound (event :: reads) writes completed)
    (done : (manager.unlinkHead event).complete event = some after) :
    Shape after bound reads writes (completed ++ [event]) ∧
      Completes manager after event completed := by
  obtain ⟨queue_nodup, completed_nodup, apart⟩ := List.nodup_append.mp shape.nodup
  rw [List.cons_append] at queue_nodup
  have not_rest : event ∉ reads ++ writes := (List.nodup_cons.mp queue_nodup).1
  have not_completed : event ∉ completed := fun member =>
    apart event (by simp) event member rfl
  have rest_apart : ∀ other ∈ reads ++ writes, ∀ kept ∈ completed, other ≠ kept :=
    fun other member kept kept_mem => apart other (List.mem_cons_of_mem _ member) kept kept_mem
  have queue := shape.queue
  rw [List.cons_append] at queue
  have rest := queue.unlinkHead
  have nodup : ((reads ++ writes) ++ (completed ++ [event])).Nodup := by
    have perm : ((event :: reads ++ writes) ++ completed).Perm
        ((reads ++ writes) ++ (completed ++ [event])) := by
      rw [← List.append_assoc, List.cons_append, List.cons_append]
      exact (List.perm_append_singleton _ _).symm
    exact perm.nodup_iff.mp shape.nodup
  have lt_bound : ∀ other ∈ (reads ++ writes) ++ (completed ++ [event]), other < bound := by
    intro other member
    apply shape.lt_bound
    simp only [List.mem_append, List.mem_cons] at member ⊢
    tauto
  have lastRead : ∀ last, (if manager.lastReadEntry = some event then none
      else manager.lastReadEntry) = some last → last ∈ reads := by
    intro last last_eq
    split_ifs at last_eq with same
    have member := shape.lastRead last last_eq
    rcases List.mem_cons.mp member with rfl | member
    · exact absurd last_eq same
    · exact member
  rw [Manager.complete] at done
  generalize middle_eq : Manager.setNext _ event none = middle at done
  have next : middle.next = Function.update manager.next event none := by
    rw [← middle_eq, Manager.next_setNext]
    rfl
  have ioType : ∀ other, (middle.heap other).ioType = (manager.heap other).ioType := by
    intro other
    rw [← middle_eq, Manager.ioType_setNext]
    rfl
  have alone : middle.next event = none := by rw [next, Function.update_self]
  have same_next : ∀ other, other ≠ event → middle.next other = manager.next other := by
    intro other different
    rw [next, Function.update_of_ne different]
  have completedQueue : Describes middle.next manager.cEQueue completed :=
    shape.completedQueue.congr fun other member =>
      same_next other (ne_of_mem_of_not_mem member not_completed)
  have middle_queue : Describes middle.next middle.eQueue (reads ++ writes) := by
    rw [← middle_eq]
    exact rest.congr fun other member => by
      rw [middle_eq]
      exact same_next other (ne_of_mem_of_not_mem member not_rest)
  have cEQueue : middle.cEQueue = manager.cEQueue := by
    rw [← middle_eq]
    rfl
  have kept_fields : middle.fresh = manager.fresh ∧
      middle.lastReadEntry = (if manager.lastReadEntry = some event then none
        else manager.lastReadEntry) ∧ middle.received = manager.received ++ [event] ∧
      middle.flagSeqWrite = manager.flagSeqWrite ∧ middle.buffers = manager.buffers := by
    rw [← middle_eq]
    exact ⟨rfl, rfl, rfl, rfl, rfl⟩
  obtain ⟨fresh, last_eq, received, flag, buffers⟩ := kept_fields
  have same_heap : ∀ other, other ≠ event → middle.heap other = manager.heap other := by
    intro other different
    rw [← middle_eq]
    exact Function.update_of_ne different _ _
  have readType : ∀ other ∈ reads, (middle.heap other).ioType = .read := fun other member =>
    (ioType other).trans (shape.readType other (List.mem_cons_of_mem _ member))
  have writeType : ∀ other ∈ writes, (middle.heap other).ioType = .write := fun other member =>
    (ioType other).trans (shape.writeType other member)
  rw [cEQueue] at done
  split at done
  · rename_i none_completed
    obtain rfl := Option.some.inj done
    obtain rfl : completed = [] := by
      rw [shape.completedQueue.entryNb] at none_completed
      exact List.length_eq_zero_iff.mp none_completed
    exact ⟨⟨middle_queue, .single alone, nodup, readType, writeType, lt_bound,
        fresh.symm ▸ shape.bound_le, fun last eq => lastRead last (last_eq ▸ eq)⟩,
      ⟨last_eq, received, fresh, flag, buffers, fun other different _ => same_heap other different⟩⟩
  · obtain ⟨tail, tail_eq, rfl⟩ := Option.map_eq_some_iff.mp done
    rw [shape.completedQueue.tail] at tail_eq
    have tail_mem : tail ∈ completed := List.mem_of_getLast? tail_eq
    have final_next := @Manager.next_setNext middle tail (some event)
    have linked := completedQueue.append completed_nodup tail_eq not_completed alone
    refine ⟨⟨?_, ?_, nodup, ?_, ?_, lt_bound, fresh.symm ▸ shape.bound_le,
      fun last eq => lastRead last (last_eq ▸ eq)⟩, ⟨last_eq, received, fresh, flag, buffers, ?_⟩⟩
    · refine Describes.congr middle_queue fun other member => ?_
      change (middle.setNext tail (some event)).next other = _
      rw [final_next]
      exact Function.update_of_ne (rest_apart other member tail tail_mem) _ _
    · change Describes (middle.setNext tail (some event)).next _ _
      rw [final_next]
      exact linked
    · exact fun other member => (Manager.ioType_setNext ..).trans (readType other member)
    · exact fun other member => (Manager.ioType_setNext ..).trans (writeType other member)
    · intro other different not_kept
      have not_tail := (ne_of_mem_of_not_mem tail_mem not_kept).symm
      exact (Function.update_of_ne not_tail _ _).trans (same_heap other different)

/-- A write leaves the queue without a trace in the lists. -/
theorem Shape.unlinkWrite {event : Nat} (shape : Shape manager bound [] (event :: writes) completed) :
    Shape (manager.unlinkHead event) bound [] writes completed where
  queue := Describes.unlinkHead shape.queue
  completedQueue := shape.completedQueue
  nodup := shape.nodup.of_cons
  readType := shape.readType
  writeType other member := shape.writeType other (List.mem_cons_of_mem _ member)
  lt_bound other member := shape.lt_bound other (List.mem_cons_of_mem _ member)
  bound_le := shape.bound_le
  lastRead := shape.lastRead

/-- What `DEQUEUE_IO` does to the lists: with an empty queue nothing, else the first read or, without
reads, the first write leaves the queue after it has been served. -/
inductive Dequeues (config : BufferConfig) (ftl : Ftl) (before : Manager) (bound : Nat)
    (completed : List Nat) : List Nat → List Nat → Manager → Prop
  | nothing : Dequeues config ftl before bound completed [] [] (before.report .noEvent)
  | read {event : Nat} {reads writes kept : List Nat} {served after : Manager}
      (serves : before.serve config ftl event = some served) (same : Manager.Serves before served event)
      (kept_eq : kept = completed ∨ kept = []) (completes : Completes served after event kept)
      (shape : Shape after bound reads writes (kept ++ [event])) :
      Dequeues config ftl before bound completed (event :: reads) writes after
  | write {event : Nat} {writes kept : List Nat} {served : Manager}
      (serves : before.serve config ftl event = some served) (same : Manager.Serves before served event)
      (kept_eq : kept = completed ∨ kept = [])
      (shape : Shape (served.unlinkHead event) bound [] writes kept) :
      Dequeues config ftl before bound completed [] (event :: writes) (served.unlinkHead event)

theorem Shape.dequeueIo (shape : Shape manager bound reads writes completed)
    (dequeued : manager.dequeueIo config ftl = some after) :
    Dequeues config ftl manager bound completed reads writes after := by
  rw [Manager.dequeueIo] at dequeued
  split at dequeued
  · rename_i empty
    obtain ⟨rfl, rfl⟩ := shape.entryNb_eq_zero.mp empty
    obtain rfl := Option.some.inj dequeued
    exact .nothing
  · rename_i nonempty
    obtain ⟨event, head_eq, rest⟩ := Option.bind_eq_some_iff.mp dequeued
    obtain ⟨served, serves, left⟩ := Option.bind_eq_some_iff.mp rest
    obtain ⟨kept, kept_eq, served_shape, same⟩ := Manager.serve_shape shape serves
    have head := shape.queue.chain.start_eq_head
    rw [head_eq] at head
    have type : ((served.unlinkHead event).heap event).ioType = (manager.heap event).ioType :=
      same.ioType event
    cases reads with
    | cons first reads =>
        obtain rfl : event = first := Option.some.inj head
        dsimp only at left
        rw [type, shape.readType event List.mem_cons_self, if_neg (by decide)] at left
        obtain ⟨final, completes⟩ := served_shape.complete left
        exact .read serves same kept_eq completes final
    | nil =>
        cases writes with
        | nil => exact absurd (shape.entryNb_eq_zero.mpr ⟨rfl, rfl⟩) nonempty
        | cons first writes =>
            obtain rfl : event = first := Option.some.inj head
            dsimp only at left
            rw [type, shape.writeType event List.mem_cons_self, if_pos rfl] at left
            obtain rfl := Option.some.inj left
            exact .write serves same kept_eq served_shape.unlinkWrite

theorem Dequeues.outside (dequeues : Dequeues config ftl manager bound completed reads writes after)
    (shape : Shape manager bound reads writes completed) {other : Nat} (other_ge : bound ≤ other) :
    after.heap other = manager.heap other := by
  have not_mem : ∀ event ∈ (reads ++ writes) ++ completed, other ≠ event := by
    rintro event member rfl
    exact absurd (shape.lt_bound _ member) (not_lt.mpr other_ge)
  cases dequeues with
  | nothing => rfl
  | read serves same kept_eq completes =>
      rw [completes.heap other (not_mem _ (by simp)), same.others other (not_mem _ (by simp))]
      rcases kept_eq with rfl | rfl
      · exact fun member => not_mem other (List.mem_append_right _ member) rfl
      · exact List.not_mem_nil
  | write serves same => exact same.others other (not_mem _ (by simp))

/-! ## Flushing the queue -/

/-- What every call of `DEQUEUE_IO` keeps is kept while events leave the queue. -/
theorem dequeueTimes_keeps (kept : Manager → Prop) {count : Nat}
    (step : ∀ before next, kept before → before.dequeueIo config ftl = some next → kept next)
    (initially : kept manager) (left : manager.dequeueTimes config ftl count = some after) :
    kept after := by
  induction count generalizing manager with
  | zero =>
      obtain rfl := Option.some.inj left
      exact initially
  | succ count ih =>
      obtain ⟨next, first, rest⟩ := Option.bind_eq_some_iff.mp left
      exact ih (step _ _ initially first) rest

/-- A flush is a sequence of calls of `DEQUEUE_IO`, or a message. -/
theorem Manager.flush_eq_some {target : Option Nat}
    (flushed : manager.flushEventQueueUntil config ftl target = some after) :
    after = manager.report .invalidEventPointer ∨
      ∃ event count, target = some event ∧ manager.countUntil event = some count ∧
        manager.dequeueTimes config ftl count = some after := by
  rw [flushEventQueueUntil.eq_def] at flushed
  split at flushed
  · obtain ⟨count, counted, left⟩ := Option.bind_eq_some_iff.mp flushed
    exact .inr ⟨_, count, rfl, counted, left⟩
  · exact .inl (Option.some.inj flushed).symm

theorem Dequeues.fresh (dequeues : Dequeues config ftl manager bound completed reads writes after) :
    after.fresh = manager.fresh := by
  cases dequeues with
  | nothing => rfl
  | read serves same kept_eq completes => exact completes.fresh.trans same.fresh
  | write serves same => exact same.fresh

/-! ## Entering the queue -/

/-- An event without its pointer. -/
def EventQueueEntry.unlinked (entry : EventQueueEntry) : EventQueueEntry := { entry with next := none }

/-- Only pointers have changed. -/
structure Relinks (before after : Manager) : Prop where
  entry : ∀ event, (after.heap event).unlinked = (before.heap event).unlinked
  buffers : after.buffers = before.buffers
  flagSeqWrite : after.flagSeqWrite = before.flagSeqWrite
  received : after.received = before.received
  fresh : after.fresh = before.fresh

theorem Relinks.ioType (relinks : Relinks manager after) (event : Nat) :
    (after.heap event).ioType = (manager.heap event).ioType := by
  have same := congrArg EventQueueEntry.ioType (relinks.entry event)
  exact same

theorem Relinks.setNext (manager : Manager) (event : Nat) (next : Option Nat) :
    Relinks manager (manager.setNext event next) := by
  refine ⟨fun other => ?_, rfl, rfl, rfl, rfl⟩
  rcases eq_or_ne other event with rfl | different
  · simp [Manager.setNext, Manager.setEntry, EventQueueEntry.unlinked]
  · simp [Manager.setNext, Manager.setEntry, different]

theorem Relinks.trans {middle : Manager} (first : Relinks manager middle)
    (second : Relinks middle after) : Relinks manager after where
  entry event := (second.entry event).trans (first.entry event)
  buffers := second.buffers.trans first.buffers
  flagSeqWrite := second.flagSeqWrite.trans first.flagSeqWrite
  received := second.received.trans first.received
  fresh := second.fresh.trans first.fresh

/-- A shape with one event more in the event queue. -/
theorem Shape.extend {event : Nat} {newReads newWrites : List Nat}
    (shape : Shape manager event reads writes completed) (relinks : Relinks manager after)
    (perm : (newReads ++ newWrites).Perm (event :: (reads ++ writes)))
    (queue : Describes after.next after.eQueue (newReads ++ newWrites))
    (completedQueue : Describes after.next after.cEQueue completed)
    (event_lt : event < manager.fresh)
    (readType : ∀ other ∈ newReads, (manager.heap other).ioType = .read)
    (writeType : ∀ other ∈ newWrites, (manager.heap other).ioType = .write)
    (lastRead : ∀ last, after.lastReadEntry = some last → last ∈ newReads) :
    Shape after (event + 1) newReads newWrites completed where
  queue := queue
  completedQueue := completedQueue
  nodup := by
    have fresh : event ∉ (reads ++ writes) ++ completed := fun member =>
      absurd (shape.lt_bound event member) (lt_irrefl _)
    have all := List.nodup_cons.mpr ⟨fresh, shape.nodup⟩
    exact (perm.append_right completed).nodup_iff.mpr all
  readType other member := (relinks.ioType other).trans (readType other member)
  writeType other member := (relinks.ioType other).trans (writeType other member)
  lt_bound other member := by
    rcases List.mem_append.mp member with queued | done
    · rcases List.mem_cons.mp (perm.mem_iff.mp queued) with rfl | old
      · exact Nat.lt_succ_self _
      · exact (shape.lt_bound other (List.mem_append_left _ old)).trans (Nat.lt_succ_self _)
    · exact (shape.lt_bound other (List.mem_append_right _ done)).trans (Nat.lt_succ_self _)
  bound_le := relinks.fresh.symm ▸ event_lt
  lastRead := lastRead

/-- A new read enters in front of all reads or behind the last read that is recorded. -/
theorem Shape.insertRead {event : Nat} {inserted : Manager}
    (shape : Shape manager event reads writes completed) (event_lt : event < manager.fresh)
    (alone : manager.next event = none) (type : (manager.heap event).ioType = .read)
    (enters : manager.insertRead event = some inserted) :
    ∃ front back, reads = front ++ back ∧ (manager.lastReadEntry = none → front = []) ∧
      (∀ last, manager.lastReadEntry = some last → front.getLast? = some last) ∧
      Relinks manager (inserted.setLastReadEntry event).countEvent ∧
      Shape (inserted.setLastReadEntry event).countEvent (event + 1) (front ++ event :: back)
        writes completed := by
  have fresh : event ∉ (reads ++ writes) ++ completed := fun member =>
    absurd (shape.lt_bound event member) (lt_irrefl _)
  have not_queued : event ∉ reads ++ writes := fun member => fresh (List.mem_append_left _ member)
  have not_done : ∀ other ∈ completed, other ≠ event := fun other member same =>
    fresh (List.mem_append_right _ (same ▸ member))
  have readType : ∀ front back, reads = front ++ back →
      ∀ other ∈ front ++ event :: back, (manager.heap other).ioType = .read := by
    intro front back split other member
    rcases List.mem_append.mp member with first | second
    · exact shape.readType other (split ▸ List.mem_append_left _ first)
    rcases List.mem_cons.mp second with rfl | last
    · exact type
    · exact shape.readType other (split ▸ List.mem_append_right _ last)
  rw [Manager.insertRead] at enters
  split at enters
  · rename_i last_eq
    refine ⟨[], reads, rfl, fun _ => rfl, fun last eq => by simp [last_eq] at eq, ?_⟩
    split at enters
    · rename_i empty
      obtain ⟨rfl, rfl⟩ := shape.entryNb_eq_zero.mp empty
      obtain rfl := Option.some.inj enters
      have relinks : Relinks manager (((manager.startQueue event).setLastReadEntry
          event).countEvent) := ⟨fun _ => rfl, rfl, rfl, rfl, rfl⟩
      refine ⟨relinks, shape.extend relinks (.refl _) ?_ shape.completedQueue event_lt
        (readType [] [] rfl) shape.writeType fun last eq => ?_⟩
      · refine ⟨⟨rfl, alone⟩, ?_, rfl⟩
        change manager.eQueue.entryNb + 1 = 1
        rw [empty]
      · obtain rfl := Option.some.inj eq
        exact List.mem_singleton.mpr rfl
    · rename_i nonempty
      obtain rfl := Option.some.inj enters
      have relinked := Relinks.setNext manager event manager.eQueue.head
      have next_eq := @Manager.next_setNext manager event manager.eQueue.head
      refine ⟨⟨relinked.entry, rfl, rfl, rfl, rfl⟩,
        shape.extend ⟨relinked.entry, rfl, rfl, rfl, rfl⟩ (.refl _) ?_ ?_ event_lt
          (readType [] reads rfl) shape.writeType fun last eq => ?_⟩
      · refine ⟨?_, congrArg (· + 1) shape.queue.entryNb, ?_⟩
        · change Chain (manager.setNext event manager.eQueue.head).next (some event) _
          rw [next_eq]
          exact shape.queue.chain.insertFirst not_queued
        · change manager.eQueue.tail = (event :: (reads ++ writes)).getLast?
          rw [shape.queue.tail, List.getLast?_cons_of_ne_nil]
          intro none
          exact nonempty (by rw [shape.queue.entryNb, none]; rfl)
      · refine shape.completedQueue.congr fun other member => ?_
        change (manager.setNext event manager.eQueue.head).next other = _
        rw [next_eq]
        exact Function.update_of_ne (not_done other member) _ _
      · obtain rfl := Option.some.inj eq
        exact List.mem_cons_self
  · rename_i last last_eq
    have last_mem := shape.lastRead last last_eq
    have last_not_done : ∀ other ∈ completed, other ≠ last := fun other member same =>
      (List.nodup_append.mp shape.nodup).2.2 last (List.mem_append_left _ last_mem) other member
        same.symm
    have queue_nodup := (List.nodup_append.mp shape.nodup).1
    split at enters
    · rename_i at_tail
      rw [Manager.appendEvent, at_tail] at enters
      obtain rfl := Option.some.inj enters
      have tail_eq := shape.queue.tail.symm.trans at_tail
      obtain rfl : writes = [] := by
        cases writes with
        | nil => rfl
        | cons write writes =>
            rw [List.getLast?_append_of_ne_nil _ (by simp)] at tail_eq
            exact absurd rfl ((List.nodup_append.mp queue_nodup).2.2 last last_mem last
              (List.mem_of_getLast? tail_eq))
      rw [List.append_nil] at not_queued tail_eq queue_nodup
      have queue := shape.queue
      rw [List.append_nil] at queue
      have linked := queue.append queue_nodup tail_eq not_queued alone
      have next_eq := @Manager.next_setNext manager last (some event)
      have relinked := Relinks.setNext manager last (some event)
      refine ⟨reads, [], by simp, fun none => by simp [none] at last_eq,
        fun other eq => tail_eq.trans (last_eq.symm.trans eq),
        ⟨relinked.entry, rfl, rfl, rfl, rfl⟩,
        shape.extend ⟨relinked.entry, rfl, rfl, rfl, rfl⟩ (by simp) ?_ ?_ event_lt
          (readType _ _ (by simp)) (by simp) fun other eq => ?_⟩
      · rw [← next_eq] at linked
        rw [List.append_nil]
        exact linked
      · refine shape.completedQueue.congr fun other member => ?_
        change (manager.setNext last (some event)).next other = _
        rw [next_eq]
        exact Function.update_of_ne (last_not_done other member) _ _
      · obtain rfl := Option.some.inj eq
        simp
    · rename_i not_tail
      obtain ⟨first, second, split⟩ := List.append_of_mem last_mem
      obtain rfl := Option.some.inj enters
      have relinked := (Relinks.setNext manager event (manager.heap last).next).trans
        (Relinks.setNext _ last (some event))
      refine ⟨first ++ [last], second, by simp [split], fun none => by simp [none] at last_eq,
        fun other eq => by simpa using (last_eq.symm.trans eq), ⟨relinked.entry, rfl, rfl, rfl, rfl⟩,
        shape.extend ⟨relinked.entry, rfl, rfl, rfl, rfl⟩ ?_ ?_ ?_ event_lt
          (readType _ _ (by simp [split])) shape.writeType fun other eq => ?_⟩
      · have perm := @List.perm_middle _ event (first ++ [last]) (second ++ writes)
        rw [split]
        simpa only [List.append_assoc, List.cons_append, List.nil_append] using perm
      · have chain := shape.queue.chain
        rw [split, List.append_assoc, List.cons_append] at chain not_queued queue_nodup
        refine ⟨?_, ?_, ?_⟩
        · change Chain (Manager.setNext _ last (some event)).next _ _
          rw [Manager.next_setNext, Manager.next_setNext]
          simp only [List.append_assoc, List.cons_append, List.nil_append]
          exact chain.insertAfter queue_nodup not_queued
        · change manager.eQueue.entryNb + 1 = _
          rw [shape.queue.entryNb, split]
          simp
          omega
        · change manager.eQueue.tail = _
          have behind : second ++ writes ≠ [] := by
            intro none
            apply not_tail
            rw [shape.queue.tail, split, List.append_assoc, List.cons_append, none]
            simp
          rw [shape.queue.tail, split]
          simp only [List.append_assoc, List.cons_append, List.nil_append]
          rw [List.getLast?_append_of_ne_nil _ (by simp),
            List.getLast?_append_of_ne_nil _ (by simp), List.getLast?_cons_of_ne_nil behind,
            List.getLast?_cons_of_ne_nil (by simp), List.getLast?_cons_of_ne_nil behind]
      · refine shape.completedQueue.congr fun other member => ?_
        change (Manager.setNext _ last (some event)).next other = _
        rw [Manager.next_setNext, Manager.next_setNext,
          Function.update_of_ne (last_not_done other member),
          Function.update_of_ne (not_done other member)]
      · obtain rfl := Option.some.inj eq
        simp

/-- A new event is outside the lists. -/
theorem Shape.alloc (shape : Shape manager bound reads writes completed) (ioType : IoType)
    (sectorNb : Int) (length : Nat) (buf : Option Nat) :
    Shape (manager.allocNewEvent ioType sectorNb length buf) manager.fresh reads writes completed := by
  have old : ∀ event ∈ (reads ++ writes) ++ completed,
      (manager.allocNewEvent ioType sectorNb length buf).heap event = manager.heap event := by
    intro event member
    have lt := (shape.lt_bound event member).trans_le shape.bound_le
    exact Function.update_of_ne (Nat.ne_of_lt lt) _ _
  exact {
    queue := shape.queue.congr fun event member =>
      congrArg EventQueueEntry.next (old event (List.mem_append_left _ member))
    completedQueue := shape.completedQueue.congr fun event member =>
      congrArg EventQueueEntry.next (old event (List.mem_append_right _ member))
    nodup := shape.nodup
    readType := fun event member =>
      (congrArg EventQueueEntry.ioType (old event (by simp [member]))).trans
        (shape.readType event member)
    writeType := fun event member =>
      (congrArg EventQueueEntry.ioType (old event (by simp [member]))).trans
        (shape.writeType event member)
    lt_bound := fun event member => (shape.lt_bound event member).trans_le shape.bound_le
    bound_le := Nat.le_succ _
    lastRead := shape.lastRead }

theorem Manager.heap_alloc (ioType : IoType) (sectorNb : Int) (length : Nat) (buf : Option Nat) :
    (manager.allocNewEvent ioType sectorNb length buf).heap manager.fresh =
      ⟨ioType, true, sectorNb, length, buf, none⟩ :=
  Function.update_self ..

/-- A new write goes behind all events. -/
theorem Shape.appendWrite {event : Nat} {added : Manager}
    (shape : Shape manager event reads writes completed) (event_lt : event < manager.fresh)
    (alone : manager.next event = none) (type : (manager.heap event).ioType = .write)
    (enters : (if manager.eQueue.entryNb = 0 then some (manager.startQueue event)
      else manager.appendEvent event) = some added) :
    Relinks manager added.countEvent ∧
      added.countEvent.lastReadEntry = manager.lastReadEntry ∧
      Shape added.countEvent (event + 1) reads (writes ++ [event]) completed := by
  have fresh : event ∉ (reads ++ writes) ++ completed := fun member =>
    absurd (shape.lt_bound event member) (lt_irrefl _)
  have not_queued : event ∉ reads ++ writes := fun member => fresh (List.mem_append_left _ member)
  have perm : (reads ++ (writes ++ [event])).Perm (event :: (reads ++ writes)) := by
    rw [← List.append_assoc]
    exact List.perm_append_singleton _ _
  have writeType : ∀ other ∈ writes ++ [event], (manager.heap other).ioType = .write := by
    intro other member
    rcases List.mem_append.mp member with old | new
    · exact shape.writeType other old
    · rwa [List.mem_singleton.mp new]
  split at enters
  · rename_i empty
    obtain ⟨rfl, rfl⟩ := shape.entryNb_eq_zero.mp empty
    obtain rfl := Option.some.inj enters
    have relinks : Relinks manager (manager.startQueue event).countEvent :=
      ⟨fun _ => rfl, rfl, rfl, rfl, rfl⟩
    refine ⟨relinks, rfl, shape.extend relinks perm ?_ shape.completedQueue event_lt shape.readType
      writeType shape.lastRead⟩
    refine ⟨⟨rfl, alone⟩, ?_, rfl⟩
    change manager.eQueue.entryNb + 1 = 1
    rw [empty]
  · obtain ⟨last, last_eq, rfl⟩ := Option.map_eq_some_iff.mp enters
    have tail_eq := shape.queue.tail.symm.trans last_eq
    have linked := shape.queue.append (List.nodup_append.mp shape.nodup).1 tail_eq not_queued alone
    have next_eq := @Manager.next_setNext manager last (some event)
    have relinked := Relinks.setNext manager last (some event)
    have relinks : Relinks manager ({ manager.setNext last (some event) with
        eQueue := { manager.eQueue with tail := some event } } : Manager).countEvent :=
      ⟨relinked.entry, rfl, rfl, rfl, rfl⟩
    refine ⟨relinks, rfl, shape.extend relinks perm ?_ ?_ event_lt shape.readType writeType
      shape.lastRead⟩
    · rw [← next_eq] at linked
      rw [← List.append_assoc]
      exact linked
    · refine shape.completedQueue.congr fun other member => ?_
      change (manager.setNext last (some event)).next other = _
      rw [next_eq]
      refine Function.update_of_ne ?_ _ _
      rintro rfl
      exact (List.nodup_append.mp shape.nodup).2.2 other (List.mem_of_getLast? tail_eq) other
        member rfl

/-! ## The pending writes -/

/-- The lists are the same, of the completed reads too. -/
structure SameLists (before after : Manager) : Prop extends SameQueue before after where
  cEQueue : after.cEQueue = before.cEQueue

namespace SameLists

theorem refl (manager : Manager) : SameLists manager manager := ⟨.refl _, rfl⟩

theorem trans {middle : Manager} (first : SameLists manager middle)
    (second : SameLists middle after) : SameLists manager after :=
  ⟨first.toSameQueue.trans second.toSameQueue, second.cEQueue.trans first.cEQueue⟩

theorem setLength (manager : Manager) (event : Nat) (length : Int) :
    SameLists manager (manager.setLength event length) :=
  ⟨.setEntry _ _ _ rfl rfl, rfl⟩

theorem buffers (manager : Manager) (buffers : Buffers) :
    SameLists manager { manager with buffers := buffers } :=
  ⟨⟨rfl, fun _ => rfl, rfl, rfl, rfl, rfl⟩, rfl⟩

theorem markEvent {event : Nat} {newValue : WbValid}
    (marked : manager.markEvent config event newValue = some after) : SameLists manager after := by
  obtain ⟨array, -, rfl⟩ := Option.map_eq_some_iff.mp marked
  exact buffers _ _

theorem markPart {event : Nat} {newValue : WbValid} {length : Int} {mode : PartialMode}
    (marked : manager.markPart config event newValue length mode = some after) :
    SameLists manager after := by
  rw [Manager.markPart] at marked
  split at marked
  · nomatch marked
  · obtain ⟨array, -, rfl⟩ := Option.map_eq_some_iff.mp marked
    exact buffers _ _

end SameLists

theorem SameLists.readFromWrite {event source : Nat}
    (copied : manager.readFromWrite config event source = some after) :
    SameLists manager after := by
  rw [Manager.readFromWrite] at copied
  split at copied
  · obtain ⟨buffers, -, rfl⟩ := Option.map_eq_some_iff.mp copied
    exact (SameLists.buffers manager buffers).trans ⟨.setEntry _ _ _ rfl rfl, rfl⟩
  · obtain rfl := Option.some.inj copied
    exact .refl _

open Manager in
theorem scanEvent_sameLists {sectorNb : Int} {length event : Nat} {scan next : Scan} {leave : Bool}
    (scanned : scanEvent config sectorNb length scan event = some (next, leave)) :
    SameLists scan.manager next.manager := by
  rw [scanEvent] at scanned
  split at scanned
  · obtain ⟨rfl, -⟩ := Prod.mk.inj (Option.some.inj scanned)
    exact .refl _
  split at scanned
  · obtain ⟨marked, mark, eq⟩ := Option.map_eq_some_iff.mp scanned
    obtain ⟨rfl, -⟩ := Prod.mk.inj eq
    exact SameLists.trans ⟨.setEntry _ _ _ rfl rfl, rfl⟩ (.markEvent mark)
  split at scanned
  · split at scanned
    · obtain ⟨rfl, -⟩ := Prod.mk.inj (Option.some.inj scanned)
      exact .setLength _ _ _
    · obtain ⟨status, -, rest⟩ := Option.bind_eq_some_iff.mp scanned
      split at rest
      · obtain ⟨marked, mark, eq⟩ := Option.map_eq_some_iff.mp rest
        obtain ⟨rfl, -⟩ := Prod.mk.inj eq
        exact (SameLists.markEvent mark).trans ⟨⟨rfl, fun _ => rfl, rfl, rfl, rfl, rfl⟩, rfl⟩
      · obtain ⟨rfl, -⟩ := Prod.mk.inj (Option.some.inj rest)
        exact .refl _
  split at scanned
  · split at scanned
    · obtain ⟨replaced, replace, eq⟩ := Option.map_eq_some_iff.mp scanned
      obtain ⟨rfl, -⟩ := Prod.mk.inj eq
      obtain ⟨marked, mark, rfl⟩ := Option.map_eq_some_iff.mp replace
      exact (SameLists.markPart mark).trans (.setLength _ _ _)
    · obtain ⟨status, -, rest⟩ := Option.bind_eq_some_iff.mp scanned
      split at rest
      · obtain ⟨cut, cuts, eq⟩ := Option.map_eq_some_iff.mp rest
        obtain ⟨rfl, -⟩ := Prod.mk.inj eq
        obtain ⟨front, mark, second⟩ := Option.bind_eq_some_iff.mp cuts
        obtain ⟨rear, mark', rfl⟩ := Option.map_eq_some_iff.mp second
        have cut := SameLists.setLength rear event
          (toInt ((scan.manager.heap event).length - overlap (scan.manager.heap event) sectorNb))
        exact ((SameLists.markPart mark).trans (.markPart mark')).trans
          ⟨⟨cut.next, cut.ioType, cut.eQueue, cut.lastReadEntry, cut.fresh, cut.received⟩,
            cut.cEQueue⟩
      · obtain ⟨rfl, -⟩ := Prod.mk.inj (Option.some.inj rest)
        exact .refl _
  · obtain ⟨rfl, -⟩ := Prod.mk.inj (Option.some.inj scanned)
    exact .refl _

open Manager in
theorem scanEvents_sameLists {sectorNb : Int} {length : Nat} {events : List Nat} {scan final : Scan}
    (scanned : scanEvents config sectorNb length events scan = some final) :
    SameLists scan.manager final.manager := by
  induction events generalizing scan with
  | nil =>
      obtain rfl := Option.some.inj scanned
      exact .refl _
  | cons event events ih =>
      obtain ⟨⟨next, leave⟩, first, rest⟩ := Option.bind_eq_some_iff.mp scanned
      have same := scanEvent_sameLists first
      dsimp only at rest
      split at rest
      · obtain rfl := Option.some.inj rest
        exact same
      · exact same.trans (ih rest)

end BufferManager
end StorageStack
