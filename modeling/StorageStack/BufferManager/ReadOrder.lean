import StorageStack.BufferManager.QueueShape

/-!
# The order of the reads

Reads wait in front of all writes in the order in which they came, and they reach the queue of the
completed reads in this order.  A read that finds the queue empty is not recorded as the last read,
and then the next one overtakes it: the order is kept in exactly the runs in which no read finds the
queue empty.
-/

namespace StorageStack
namespace BufferManager

open LinkedChain

variable {config : BufferConfig} {ftl : Ftl} {manager after : Manager} {bound : Nat}
  {reads writes completed : List Nat}

/-- The reads are in order and have numbers below `bound`. -/
structure Ordered (manager : Manager) (bound : Nat) (reads writes completed : List Nat) : Prop extends
    Shape manager bound reads writes completed where
  sorted : (manager.received ++ reads).Pairwise (· < ·)
  below : ∀ event ∈ manager.received, event < bound
  completed_suffix : completed <:+ manager.received
  last_eq : manager.lastReadEntry = reads.getLast?

/-- The reads are in order, in some lists. -/
def InOrder (manager : Manager) (bound : Nat) : Prop :=
  ∃ reads writes completed, Ordered manager bound reads writes completed

theorem Ordered.congr (ordered : Ordered manager bound reads writes completed)
    (same : SameLists manager after) : Ordered after bound reads writes completed where
  toShape := same.shape ordered.toShape same.cEQueue
  sorted := same.received.symm ▸ ordered.sorted
  below := same.received.symm ▸ ordered.below
  completed_suffix := same.received.symm ▸ ordered.completed_suffix
  last_eq := same.lastReadEntry.trans ordered.last_eq

/-! ## Leaving the queue -/

theorem suffix_of_kept {kept received : List Nat} (suffix : completed <:+ received)
    (kept_eq : kept = completed ∨ kept = []) : kept <:+ received := by
  rcases kept_eq with rfl | rfl
  · exact suffix
  · exact List.nil_suffix

/-- The first read that leaves the queue is the next one to be completed. -/
theorem Ordered.dequeueIo (ordered : Ordered manager bound reads writes completed)
    (dequeued : manager.dequeueIo config ftl = some after) : InOrder after bound := by
  cases ordered.toShape.dequeueIo dequeued with
  | nothing => exact ⟨_, _, _, ordered.congr (.buffers _ _)⟩
  | @read event rest writes kept served final serves same kept_eq completes shape =>
      have received := completes.received.trans (congrArg (· ++ [event]) same.received)
      have sorted := ordered.sorted
      rw [← List.singleton_append, ← List.append_assoc] at sorted
      refine ⟨rest, writes, kept ++ [event], ⟨shape, ?_, ?_, ?_, ?_⟩⟩
      · rw [received]
        exact sorted
      · rw [received]
        intro other member
        rcases List.mem_append.mp member with old | new
        · exact ordered.below other old
        · rw [List.mem_singleton.mp new]
          exact ordered.lt_bound event (by simp)
      · rw [received]
        exact (List.suffix_append_inj_of_length_eq rfl).mpr
          ⟨suffix_of_kept ordered.completed_suffix kept_eq, rfl⟩
      · rw [completes.lastReadEntry, same.lastReadEntry, ordered.last_eq]
        cases rest with
        | nil => simp
        | cons second rest =>
            rw [List.getLast?_cons_cons, if_neg]
            intro last_eq
            have increasing := (List.pairwise_append.mp ordered.sorted).2.1
            have lt := (List.pairwise_cons.mp increasing).1 event (List.mem_of_getLast? last_eq)
            exact absurd lt (lt_irrefl _)
  | @write event writes kept served serves same kept_eq shape =>
      refine ⟨[], writes, kept, ⟨shape, ?_, ?_, ?_, ?_⟩⟩
      · exact same.received.symm ▸ ordered.sorted
      · exact same.received.symm ▸ ordered.below
      · exact suffix_of_kept (same.received.symm ▸ ordered.completed_suffix) kept_eq
      · exact same.lastReadEntry.trans ordered.last_eq

/-- The events which are not yet in a list are as they were. -/
structure Outside (before after : Manager) (bound : Nat) : Prop where
  fresh : after.fresh = before.fresh
  heap : ∀ event, bound ≤ event → after.heap event = before.heap event

theorem InOrder.dequeueIo (order : InOrder manager bound)
    (dequeued : manager.dequeueIo config ftl = some after) :
    InOrder after bound ∧ Outside manager after bound := by
  obtain ⟨reads, writes, completed, ordered⟩ := order
  have dequeues := ordered.toShape.dequeueIo dequeued
  exact ⟨ordered.dequeueIo dequeued, dequeues.fresh, fun event event_ge =>
    dequeues.outside ordered.toShape event_ge⟩

theorem InOrder.flush {target : Option Nat} (order : InOrder manager bound)
    (flushed : manager.flushEventQueueUntil config ftl target = some after) :
    InOrder after bound ∧ Outside manager after bound := by
  rcases Manager.flush_eq_some flushed with rfl | ⟨event, count, -, -, left⟩
  · obtain ⟨reads, writes, completed, ordered⟩ := order
    exact ⟨⟨_, _, _, ordered.congr (.buffers _ _)⟩, rfl, fun _ _ => rfl⟩
  · apply dequeueTimes_keeps (fun middle => InOrder middle bound ∧ Outside manager middle bound) ?_
      ⟨order, rfl, fun _ _ => rfl⟩ left
    rintro before next ⟨kept, outside⟩ dequeued
    obtain ⟨order, step⟩ := kept.dequeueIo dequeued
    exact ⟨order, step.fresh.trans outside.fresh, fun event event_ge =>
      (step.heap event event_ge).trans (outside.heap event event_ge)⟩

/-! ## Entering the queue -/

theorem Ordered.alloc (ordered : Ordered manager bound reads writes completed) (ioType : IoType)
    (sectorNb : Int) (length : Nat) (buf : Option Nat) :
    Ordered (manager.allocNewEvent ioType sectorNb length buf) manager.fresh reads writes
      completed where
  toShape := ordered.toShape.alloc ioType sectorNb length buf
  sorted := ordered.sorted
  below event member := (ordered.below event member).trans_le ordered.bound_le
  completed_suffix := ordered.completed_suffix
  last_eq := ordered.last_eq

/-- A new read goes behind the last one. -/
theorem Ordered.insertRead {event : Nat} {inserted : Manager}
    (ordered : Ordered manager event reads writes completed) (event_lt : event < manager.fresh)
    (alone : manager.next event = none) (type : (manager.heap event).ioType = .read)
    (enters : manager.insertRead event = some inserted) :
    InOrder (inserted.setLastReadEntry event).countEvent (event + 1) := by
  obtain ⟨front, back, split, none_eq, some_eq, relinks, shape⟩ :=
    ordered.toShape.insertRead event_lt alone type enters
  obtain rfl : back = [] := by
    by_contra nonempty
    have last_eq := ordered.last_eq
    rw [split, List.getLast?_append_of_ne_nil _ nonempty] at last_eq
    cases last_read : manager.lastReadEntry with
    | none =>
        rw [last_read] at last_eq
        exact nonempty (List.getLast?_eq_none_iff.mp last_eq.symm)
    | some last =>
        rw [last_read] at last_eq
        have reads_nodup := (List.nodup_append.mp (List.nodup_append.mp ordered.nodup).1).1
        rw [split] at reads_nodup
        exact (List.nodup_append.mp reads_nodup).2.2 last
          (List.mem_of_getLast? (some_eq last last_read)) last
          (List.mem_of_getLast? last_eq.symm) rfl
  obtain rfl : reads = front := by rw [split, List.append_nil]
  have received : (inserted.setLastReadEntry event).countEvent.received = manager.received :=
    relinks.received
  refine ⟨reads ++ [event], writes, completed, ⟨shape, ?_, ?_, ?_, ?_⟩⟩
  · rw [received, ← List.append_assoc, List.pairwise_append]
    refine ⟨ordered.sorted, List.pairwise_singleton _ _, fun other member last last_mem => ?_⟩
    obtain rfl := List.mem_singleton.mp last_mem
    rcases List.mem_append.mp member with gone | queued
    · exact ordered.below other gone
    · exact ordered.lt_bound other (by simp [queued])
  · rw [received]
    exact fun other member => (ordered.below other member).trans (Nat.lt_succ_self _)
  · rw [received]
    exact ordered.completed_suffix
  · simp [Manager.setLastReadEntry, Manager.countEvent]

theorem Ordered.appendWrite {event : Nat} {added : Manager}
    (ordered : Ordered manager event reads writes completed) (event_lt : event < manager.fresh)
    (alone : manager.next event = none) (type : (manager.heap event).ioType = .write)
    (enters : (if manager.eQueue.entryNb = 0 then some (manager.startQueue event)
      else manager.appendEvent event) = some added) :
    InOrder added.countEvent (event + 1) := by
  obtain ⟨relinks, last_eq, shape⟩ := ordered.toShape.appendWrite event_lt alone type enters
  have received : added.countEvent.received = manager.received := relinks.received
  refine ⟨reads, writes ++ [event], completed, ⟨shape, ?_, ?_, ?_, last_eq.trans ordered.last_eq⟩⟩
  · rw [received]
    exact ordered.sorted
  · rw [received]
    exact fun other member => (ordered.below other member).trans (Nat.lt_succ_self _)
  · rw [received]
    exact ordered.completed_suffix

/-- The new read keeps its place outside the lists until it enters. -/
theorem InOrder.enqueueReadBehind {sectorNb : Int} {length event : Nat}
    (order : InOrder manager event) (event_lt : event < manager.fresh)
    (alone : manager.next event = none) (type : (manager.heap event).ioType = .read)
    (enters : manager.enqueueReadBehind config ftl event sectorNb length = some after) :
    InOrder after.countEvent (event + 1) := by
  obtain ⟨middle, flushed, rest⟩ := Option.bind_eq_some_iff.mp enters
  obtain ⟨inserted, inserts, rfl⟩ := Option.map_eq_some_iff.mp rest
  have kept : InOrder middle event ∧ event < middle.fresh ∧ middle.next event = none ∧
      (middle.heap event).ioType = .read := by
    rw [Manager.flushDependency] at flushed
    split at flushed
    · obtain ⟨copied, copies, flush⟩ := Option.bind_eq_some_iff.mp flushed
      have same := SameLists.readFromWrite copies
      obtain ⟨reads, writes, completed, ordered⟩ := order
      obtain ⟨kept, outside⟩ := InOrder.flush ⟨_, _, _, ordered.congr same⟩ flush
      have entry := outside.heap event le_rfl
      refine ⟨kept, ?_, ?_, ?_⟩
      · rw [outside.fresh, same.fresh]
        exact event_lt
      · have next := congrFun same.next event
        rw [Manager.next, entry]
        exact next.trans alone
      · rw [entry]
        exact (same.ioType event).trans type
    · obtain rfl := Option.some.inj flushed
      exact ⟨order, event_lt, alone, type⟩
  obtain ⟨⟨reads, writes, completed, ordered⟩, middle_lt, middle_alone, middle_type⟩ := kept
  exact ordered.insertRead middle_lt middle_alone middle_type inserts

theorem InOrder.enqueueWrite {sectorNb : Int} {length : Nat} (order : InOrder manager bound)
    (enters : manager.enqueueWrite config ftl sectorNb length = some after) :
    ∃ bound, InOrder after bound := by
  obtain ⟨secured, secures, rest⟩ := Option.bind_eq_some_iff.mp enters
  obtain ⟨reads, writes, completed, ordered⟩ : InOrder secured bound := by
    rw [Manager.secureWriteBuffer] at secures
    split at secures
    · exact (order.flush secures).1
    · obtain rfl := Option.some.inj secures
      exact order
  obtain ⟨scan, scanned, added⟩ := Option.bind_eq_some_iff.mp rest
  obtain ⟨⟨final, event⟩, adds, marks⟩ := Option.bind_eq_some_iff.mp added
  have scan_ordered := (ordered.congr (.buffers _ _)).congr (scanEvents_sameLists scanned)
  obtain ⟨final_bound, final_order⟩ : ∃ bound, InOrder final bound := by
    rw [Manager.addWrite] at adds
    split at adds
    · obtain ⟨rfl, -⟩ := Prod.mk.inj (Option.some.inj adds)
      exact ⟨bound, _, _, _, scan_ordered⟩
    · obtain ⟨entered, entering, eq⟩ := Option.map_eq_some_iff.mp adds
      obtain ⟨rfl, -⟩ := Prod.mk.inj eq
      have allocated := scan_ordered.alloc .write sectorNb length
        (some secured.buffers.sataWritePtr)
      have alone := @Manager.heap_alloc scan.manager .write sectorNb length
        (some secured.buffers.sataWritePtr)
      exact ⟨_, allocated.appendWrite (Nat.lt_succ_self _)
        (congrArg EventQueueEntry.next alone) (congrArg EventQueueEntry.ioType alone) entering⟩
  dsimp only at marks
  split at marks
  · obtain ⟨new, -, mark⟩ := Option.bind_eq_some_iff.mp marks
    have same := SameLists.markEvent mark
    obtain ⟨reads, writes, completed, ordered⟩ := final_order
    exact ⟨_, _, _, _, ordered.congr same⟩
  · obtain rfl := Option.some.inj marks
    exact ⟨_, final_order⟩

/-- The last read is known in the queue in which a read finds events. -/
theorem InOrder.enqueueRead {sectorNb : Int} {length : Nat} (order : InOrder manager bound)
    (finds : manager.eQueue.entryNb ≠ 0)
    (enters : manager.enqueueRead config ftl sectorNb length = some after) :
    ∃ bound, InOrder after bound := by
  obtain ⟨reads, writes, completed, ordered⟩ := order
  have allocated := ordered.alloc .read sectorNb length none
  have alone := @Manager.heap_alloc manager .read sectorNb length none
  obtain ⟨entered, entering, rfl⟩ := Option.map_eq_some_iff.mp enters
  change (if manager.eQueue.entryNb = 0 then _ else _) = _ at entering
  rw [if_neg finds] at entering
  have order : InOrder (manager.allocNewEvent .read sectorNb length none) manager.fresh :=
    ⟨_, _, _, allocated⟩
  exact ⟨_, order.enqueueReadBehind (Nat.lt_succ_self _) (congrArg EventQueueEntry.next alone)
    (congrArg EventQueueEntry.ioType alone) entering⟩

/-! ## Runs -/

/-- A read finds events in the queue, also after the queue has been flushed because it was full. -/
def FindsEvents (config : BufferConfig) (manager : Manager) : BufferCall → Prop
  | .enqueueIo .read _ _ =>
      manager.eQueue.entryNb ≠ 0 ∧ manager.eQueue.entryNb ≠ config.eventQueueDepth
  | _ => True

theorem InOrder.step {call : BufferCall} (order : InOrder manager bound)
    (finds : FindsEvents config manager call)
    (stepped : bufferStep config ftl manager call = some after) : ∃ bound, InOrder after bound := by
  cases call with
  | dequeueIo => exact ⟨bound, (order.dequeueIo stepped).1⟩
  | flushEventQueueUntil event => exact ⟨bound, (order.flush stepped).1⟩
  | enqueueIo ioType sectorNb length =>
      obtain ⟨flushed, flush, enters⟩ := Option.bind_eq_some_iff.mp stepped
      cases ioType with
      | read =>
          rw [if_neg finds.2] at flush
          obtain rfl := Option.some.inj flush
          exact order.enqueueRead finds.1 enters
      | write =>
          have kept : InOrder flushed bound := by
            split at flush
            · exact (order.flush flush).1
            · obtain rfl := Option.some.inj flush
              exact order
          exact kept.enqueueWrite enters

end BufferManager
end StorageStack
