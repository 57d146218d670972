import StorageStack.Execution
import StorageStack.LinkedChain

/-!
# The pointers of the merging write buffer

The list of the buffered requests with its pointers in both directions, and the counters as the
32-bit words of the source.  An entry is named by the number of its allocation.  A step through a
null pointer has no result, and a loop has one if it ends within the given number of rounds.
-/

namespace StorageStack
namespace WriteBufferLinks

open LinkedChain

/-- The values `INIT_WRITE_BUFFER` takes from the configuration file. -/
structure Sizes where
  sectorsPerWriteBuffer : Nat
  sectorSize : Nat
  fits : sectorsPerWriteBuffer < 2 ^ 32

def Sizes.maxMergeSectors (sizes : Sizes) : Nat :=
  if sizes.sectorsPerWriteBuffer < 16 * 1024 * 1024 / sizes.sectorSize then
    sizes.sectorsPerWriteBuffer
  else
    16 * 1024 * 1024 / sizes.sectorSize

structure WriteBufferEntry where
  sectorNb : BitVec 32
  length : Nat
  prev : Option Nat
  next : Option Nat
deriving DecidableEq, Repr

/-- The messages that begin with `ERROR`. -/
inductive ErrorMessage
  | remainSects
  | callocNewEntryFail
  | noBufferedEntry
deriving DecidableEq, Repr

/-- The global variables, the calls of `FTL_WRITE` and the messages so far. -/
structure Buffer where
  heap : Nat → WriteBufferEntry
  fresh : Nat
  head : Option Nat
  tail : Option Nat
  entryNb : Nat
  remainingSectors : Nat
  ftlWrites : List (BitVec 32 × Nat)
  errors : List ErrorMessage

/-- Sums and differences of words of type `unsigned int`, which wrap around. -/
def add (left right : Nat) : Nat :=
  if left + right < 2 ^ 32 then left + right else left + right - 2 ^ 32

def sub (left right : Nat) : Nat :=
  if right ≤ left then left - right else left + 2 ^ 32 - right

theorem add_eq {left right : Nat} (fits : left + right < 2 ^ 32) : add left right = left + right :=
  if_pos fits

theorem sub_eq {left right : Nat} (le : right ≤ left) : sub left right = left - right := if_pos le

namespace Buffer

variable (sizes : Sizes) (buffer : Buffer)

def report (message : ErrorMessage) : Buffer :=
  { buffer with errors := buffer.errors ++ [message] }

def setEntry (node : Nat) (entry : WriteBufferEntry) : Buffer :=
  { buffer with heap := Function.update buffer.heap node entry }

def setPrev (node : Nat) (prev : Option Nat) : Buffer :=
  buffer.setEntry node { buffer.heap node with prev := prev }

def setNext (node : Nat) (next : Option Nat) : Buffer :=
  buffer.setEntry node { buffer.heap node with next := next }

def ftlWrite (entry : WriteBufferEntry) : Buffer :=
  { buffer with ftlWrites := buffer.ftlWrites ++ [(entry.sectorNb, entry.length)] }

/-- An entry has left: the two counters of the buffer. -/
def release (length : Nat) : Buffer :=
  { buffer with
    entryNb := sub buffer.entryNb 1
    remainingSectors := add buffer.remainingSectors length }

@[simp] theorem release_entryNb (length : Nat) :
    (buffer.release length).entryNb = sub buffer.entryNb 1 := rfl

@[simp] theorem release_remainingSectors (length : Nat) :
    (buffer.release length).remainingSectors = add buffer.remainingSectors length := rfl

/-! ## Making room -/

def flushWriteBuffer : Option Buffer :=
  match buffer.head with
  | none => some (buffer.report .noBufferedEntry)
  | some curr =>
      if buffer.entryNb = 0 then
        some (buffer.report .noBufferedEntry)
      else
        let entry := buffer.heap curr
        let written := buffer.ftlWrite entry
        (if buffer.entryNb = 1 then
            some { written with head := none, tail := none }
          else
            entry.next.map fun next => { written.setPrev next none with head := entry.next }).map
          fun unlinked => unlinked.release entry.length

/-- The loop of `SECURE_WRITE_BUFFER`. -/
def secureWriteBuffer (length : Nat) : Nat → Buffer → Option Buffer
  | 0, _ => none
  | rounds + 1, buffer =>
      if buffer.remainingSectors < length then
        buffer.flushWriteBuffer.bind (secureWriteBuffer length rounds)
      else
        some buffer

/-! ## Buffering a request -/

/-- The fields of a new entry, which is named by `fresh`. -/
def newEntry (sectorNb : BitVec 32) (length : Nat) : Buffer :=
  { buffer.setEntry buffer.fresh ⟨sectorNb, length, none, none⟩ with fresh := buffer.fresh + 1 }

/-- An entry goes behind the last one. -/
def linkLast (node : Nat) : Option Buffer :=
  if buffer.entryNb = 0 then
    some { buffer with head := some node, tail := some node }
  else
    buffer.tail.map fun tail =>
      { (buffer.setNext tail (some node)).setPrev node (some tail) with tail := some node }

/-- An entry has come: the two counters of the buffer. -/
def occupy (length : Nat) : Buffer :=
  { buffer with
    entryNb := add buffer.entryNb 1
    remainingSectors := sub buffer.remainingSectors length }

/-- `allocated` tells whether `malloc` has memory for the entry. -/
def allocWriteBufferEntry (sectorNb : BitVec 32) (length : Nat) (allocated : Bool) :
    Option Buffer :=
  if allocated then
    ((buffer.newEntry sectorNb length).linkLast buffer.fresh).map fun linked =>
      linked.occupy length
  else
    some (buffer.report .callocNewEntryFail)

/-- Whether a request goes on where the last entry ends and both fit into one entry. -/
def continues (tail : WriteBufferEntry) (sectorNb : BitVec 32) (length : Nat) : Bool :=
  tail.sectorNb + BitVec.ofNat 32 tail.length - 1 + 1 = sectorNb ∧
    add tail.length length ≤ sizes.maxMergeSectors

/-- An entry takes a request with it. -/
def mergeWriteRequest (node length : Nat) : Buffer :=
  { buffer.setEntry node
      { buffer.heap node with length := add (buffer.heap node).length length } with
    remainingSectors := sub buffer.remainingSectors length }

def insertWriteRequest (sectorNb : BitVec 32) (length : Nat) (allocated : Bool) : Option Buffer :=
  if buffer.entryNb = 0 then
    buffer.allocWriteBufferEntry sectorNb length allocated
  else
    buffer.tail.bind fun tail =>
      if continues sizes (buffer.heap tail) sectorNb length then
        some (buffer.mergeWriteRequest tail length)
      else
        buffer.allocWriteBufferEntry sectorNb length allocated

def writeToBuffer (rounds : Nat) (sectorNb : BitVec 32) (length : Nat) (allocated : Bool) :
    Option Buffer :=
  (secureWriteBuffer length rounds buffer).bind fun buffer =>
    if buffer.remainingSectors < length then some (buffer.report .remainSects)
    else buffer.insertWriteRequest sizes sectorNb length allocated

/-! ## Reads and the end -/

/-- Whether a read touches an entry; the sector numbers are signed. -/
def hit (sectorNb : BitVec 32) (length : Nat) (entry : WriteBufferEntry) : Bool :=
  entry.sectorNb.sle (sectorNb + BitVec.ofNat 32 length - 1) ∧
    sectorNb.sle (entry.sectorNb + BitVec.ofNat 32 entry.length - 1)

/-- The entry `curr` leaves the list, from its head, its end or between two others; the result has
the entry at which the walk goes on. -/
def unlink (curr : Nat) : Option (Option Nat × Buffer) :=
  let entry := buffer.heap curr
  if buffer.head = some curr ∧ buffer.tail = some curr then
    some (none, { buffer with head := none, tail := none })
  else if buffer.head = some curr then
    entry.next.map fun next => (entry.next, { buffer.setPrev next none with head := entry.next })
  else if buffer.tail = some curr then
    entry.prev.map fun prev => (none, { buffer.setNext prev none with tail := entry.prev })
  else
    entry.prev.bind fun prev =>
      entry.next.map fun next =>
        (entry.next, (buffer.setNext prev entry.next).setPrev next entry.prev)

def checkWriteBufferForRead (sectorNb : BitVec 32) (length : Nat) :
    Nat → Option Nat → Buffer → Option Buffer
  | 0, _, _ => none
  | _ + 1, none, buffer => some buffer
  | rounds + 1, some curr, buffer =>
      let entry := buffer.heap curr
      if hit sectorNb length entry then
        ((buffer.ftlWrite entry).unlink curr).bind fun (curr, buffer) =>
          checkWriteBufferForRead sectorNb length rounds curr (buffer.release entry.length)
      else
        checkWriteBufferForRead sectorNb length rounds entry.next buffer

/-- The loop of `FLUSH_ALL_WRITE_BUFFER`, which reads the pointer of an entry it has freed. -/
def flushEntries : Nat → Option Nat → Buffer → Option Buffer
  | 0, _, buffer => some buffer
  | rounds + 1, curr, buffer =>
      curr.bind fun curr =>
        let entry := buffer.heap curr
        flushEntries rounds entry.next
          { buffer.ftlWrite entry with
            remainingSectors := add buffer.remainingSectors entry.length }

def flushAllWriteBuffer : Option Buffer :=
  (flushEntries buffer.entryNb buffer.head buffer).map fun buffer =>
    { buffer with entryNb := 0, head := none, tail := none }

end Buffer

/-- The calls from outside; a write has the answer of `malloc` with it. -/
inductive Call
  | writeToBuffer (sectorNb : BitVec 32) (length : Nat) (allocated : Bool)
  | checkWriteBufferForRead (sectorNb : BitVec 32) (length : Nat)
  | flushAllWriteBuffer
deriving DecidableEq, Repr

/-- A call whose loops get the given number of rounds. -/
def stepWithin (sizes : Sizes) (rounds : Nat) (buffer : Buffer) : Call → Option Buffer
  | .writeToBuffer sectorNb length allocated =>
      buffer.writeToBuffer sizes rounds sectorNb length allocated
  | .checkWriteBufferForRead sectorNb length =>
      Buffer.checkWriteBufferForRead sectorNb length rounds buffer.head buffer
  | .flushAllWriteBuffer => buffer.flushAllWriteBuffer

/-- A call with as many rounds as the list has entries, and one. -/
def step (sizes : Sizes) (buffer : Buffer) (call : Call) : Option Buffer :=
  stepWithin sizes (buffer.entryNb + 1) buffer call

/-! ## The pointers and the data of the entries -/

namespace Buffer

variable {sizes : Sizes} {buffer after : Buffer} {nodes front back : List Nat} {node : Nat}

def next (buffer : Buffer) : Nat → Option Nat := fun node => (buffer.heap node).next

def prev (buffer : Buffer) : Nat → Option Nat := fun node => (buffer.heap node).prev

/-- The request that an entry carries. -/
def data (buffer : Buffer) (node : Nat) : BitVec 32 × Nat :=
  ((buffer.heap node).sectorNb, (buffer.heap node).length)

section Updates

variable (buffer : Buffer) (node : Nat) (entry : WriteBufferEntry) (target : Option Nat)

@[simp] theorem next_setEntry :
    (buffer.setEntry node entry).next = Function.update buffer.next node entry.next :=
  Function.comp_update WriteBufferEntry.next buffer.heap node entry

@[simp] theorem prev_setEntry :
    (buffer.setEntry node entry).prev = Function.update buffer.prev node entry.prev :=
  Function.comp_update WriteBufferEntry.prev buffer.heap node entry

@[simp] theorem data_setEntry :
    (buffer.setEntry node entry).data =
      Function.update buffer.data node (entry.sectorNb, entry.length) :=
  Function.comp_update (fun entry : WriteBufferEntry => (entry.sectorNb, entry.length))
    buffer.heap node entry

@[simp] theorem next_setNext :
    (buffer.setNext node target).next = Function.update buffer.next node target :=
  buffer.next_setEntry node _

@[simp] theorem prev_setNext : (buffer.setNext node target).prev = buffer.prev :=
  (buffer.prev_setEntry node _).trans (Function.update_eq_self node buffer.prev)

@[simp] theorem data_setNext : (buffer.setNext node target).data = buffer.data :=
  (buffer.data_setEntry node _).trans (Function.update_eq_self node buffer.data)

@[simp] theorem next_setPrev : (buffer.setPrev node target).next = buffer.next :=
  (buffer.next_setEntry node _).trans (Function.update_eq_self node buffer.next)

@[simp] theorem prev_setPrev :
    (buffer.setPrev node target).prev = Function.update buffer.prev node target :=
  buffer.prev_setEntry node _

@[simp] theorem data_setPrev : (buffer.setPrev node target).data = buffer.data :=
  (buffer.data_setEntry node _).trans (Function.update_eq_self node buffer.data)

@[simp] theorem data_release (length : Nat) : (buffer.release length).data = buffer.data := rfl

end Updates

/-- The pointers describe the list `nodes`. -/
structure Lists (buffer : Buffer) (nodes : List Nat) : Prop where
  linked : Linked buffer.next buffer.prev buffer.head buffer.tail nodes
  nodup : nodes.Nodup
  lt_fresh : ∀ node ∈ nodes, node < buffer.fresh

/-- The requests in the list, from the head to the tail. -/
def entries (buffer : Buffer) : List (BitVec 32 × Nat) :=
  (follow buffer.next buffer.fresh buffer.head).map buffer.data

/-- The lists depend only on the heap and the ends. -/
theorem Lists.congr (lists : buffer.Lists nodes) (heap : after.heap = buffer.heap)
    (head : after.head = buffer.head) (tail : after.tail = buffer.tail)
    (fresh : after.fresh = buffer.fresh) : after.Lists nodes := by
  obtain ⟨linked, nodup, lt_fresh⟩ := lists
  rw [← fresh] at lt_fresh
  refine ⟨?_, nodup, lt_fresh⟩
  rw [head, tail]
  exact linked.congr (fun node _ => by rw [Buffer.next, heap, Buffer.next])
    fun node _ => by rw [Buffer.prev, heap, Buffer.prev]

theorem Lists.unique (lists : buffer.Lists nodes) (second : buffer.Lists front) : nodes = front :=
  lists.linked.forward.unique second.linked.forward

/-- Only pointers and messages differ. -/
structure SameData (buffer after : Buffer) : Prop where
  data : after.data = buffer.data
  entryNb : after.entryNb = buffer.entryNb
  remainingSectors : after.remainingSectors = buffer.remainingSectors
  ftlWrites : after.ftlWrites = buffer.ftlWrites
  errors : after.errors = buffer.errors

theorem Lists.head_eq_iff (lists : buffer.Lists (front ++ node :: back)) :
    buffer.head = some node ↔ front = [] := by
  rw [lists.linked.head_eq]
  cases front with
  | nil => simp
  | cons first front =>
      have different := (List.nodup_cons.mp lists.nodup).1
      simp only [List.cons_append, List.head?_cons, Option.some.injEq, reduceCtorEq, iff_false]
      rintro rfl
      exact different (by simp)

theorem Lists.tail_eq_iff (lists : buffer.Lists (front ++ node :: back)) :
    buffer.tail = some node ↔ back = [] := by
  rw [lists.linked.tail_eq]
  rcases back.eq_nil_or_concat with rfl | ⟨back, last, rfl⟩
  · simp
  · have different := (List.nodup_cons.mp (List.nodup_append.mp lists.nodup).2.1).1
    rw [List.concat_eq_append, List.getLast?_append_cons, List.getLast?_cons, List.getLast?_concat]
    simp only [Option.getD_some, Option.some.injEq, List.append_eq_nil_iff, List.cons_ne_self,
      and_false, iff_false]
    rintro rfl
    exact different (by simp)

/-- An entry leaves the list, whatever its place is. -/
theorem Lists.unlink (lists : buffer.Lists (front ++ node :: back)) :
    ∃ after, buffer.unlink node = some (back.head?, after) ∧ after.Lists (front ++ back) ∧
      buffer.SameData after := by
  have removed := lists.linked.remove lists.nodup
  have next_eq : (buffer.heap node).next = back.head? := lists.linked.next_eq
  have prev_eq : (buffer.heap node).prev = front.getLast? := lists.linked.prev_eq
  have head_iff := lists.head_eq_iff
  have tail_iff := lists.tail_eq_iff
  have nodup : (front ++ back).Nodup := lists.nodup.sublist (by simp)
  have lt_fresh : ∀ other ∈ front ++ back, other < buffer.fresh := fun other member =>
    lists.lt_fresh other (by
      rcases List.mem_append.mp member with member | member <;> simp [member])
  rw [Buffer.unlink, next_eq, prev_eq]
  simp only [head_iff, tail_iff]
  rcases front.eq_nil_or_concat with rfl | ⟨before, last, rfl⟩
  · cases back with
    | nil => exact ⟨_, rfl, ⟨removed, nodup, lt_fresh⟩, rfl, rfl, rfl, rfl, rfl⟩
    | cons second rest =>
        refine ⟨_, rfl, ⟨?_, nodup, lt_fresh⟩, ?_, rfl, rfl, rfl, rfl⟩
        · change Linked (buffer.setPrev second none).next (buffer.setPrev second none).prev _ _ _
          rw [next_setPrev, prev_setPrev]
          exact removed
        · exact data_setPrev ..
  · rw [List.concat_eq_append] at *
    rw [if_neg (by simp), if_neg (by simp), List.getLast?_concat]
    rw [List.getLast?_concat, if_neg (by simp)] at removed
    cases back with
    | nil =>
        refine ⟨_, rfl, ⟨?_, nodup, lt_fresh⟩, ?_, rfl, rfl, rfl, rfl⟩
        · change Linked (buffer.setNext last none).next (buffer.setNext last none).prev _ _ _
          rw [next_setNext, prev_setNext]
          exact removed
        · exact data_setNext ..
    | cons second rest =>
        refine ⟨_, rfl, ⟨?_, nodup, lt_fresh⟩, ?_, rfl, rfl, rfl, rfl⟩
        · change Linked ((buffer.setNext last (some second)).setPrev second (some last)).next
            ((buffer.setNext last (some second)).setPrev second (some last)).prev _ _ _
          rw [next_setPrev, prev_setPrev, next_setNext, prev_setNext]
          exact removed
        · exact (data_setPrev ..).trans (data_setNext ..)

/-- The sectors of some entries. -/
def total (buffer : Buffer) (nodes : List Nat) : Nat := (nodes.map fun node => (buffer.data node).2).sum

/-- The pointers describe the list `nodes` in both directions, and the counters agree with it. -/
structure Consistent (sizes : Sizes) (buffer : Buffer) (nodes : List Nat) : Prop where
  lists : buffer.Lists nodes
  entryNb : buffer.entryNb = nodes.length
  few : nodes.length < 2 ^ 32
  space : buffer.remainingSectors + buffer.total nodes = sizes.sectorsPerWriteBuffer

/-- The data of the entries is the same, and the entries `flushed` have been written. -/
structure Flushes (buffer after : Buffer) (flushed : List Nat) : Prop where
  data : after.data = buffer.data
  errors : after.errors = buffer.errors
  ftlWrites : after.ftlWrites = buffer.ftlWrites ++ flushed.map buffer.data

theorem Flushes.nil (buffer : Buffer) : Flushes buffer buffer [] := ⟨rfl, rfl, by simp⟩

theorem Flushes.cons {middle : Buffer} (first : buffer.Flushes middle [node])
    (rest : middle.Flushes after front) : buffer.Flushes after (node :: front) where
  data := rest.data.trans first.data
  errors := rest.errors.trans first.errors
  ftlWrites := by simp [rest.ftlWrites, first.ftlWrites, first.data]

namespace Consistent

theorem total_eq (consistent : Consistent sizes buffer (front ++ node :: back)) :
    buffer.remainingSectors + (buffer.heap node).length + buffer.total (front ++ back) =
      sizes.sectorsPerWriteBuffer := by
  have space := consistent.space
  simp only [total, List.map_append, List.map_cons, List.sum_append, List.sum_cons] at space ⊢
  change _ + (_ + ((buffer.heap node).length + _)) = _ at space
  omega

/-- An entry is written and leaves the list. -/
theorem unlink (consistent : Consistent sizes buffer (front ++ node :: back)) :
    ∃ after, (buffer.ftlWrite (buffer.heap node)).unlink node = some (back.head?, after) ∧
      Consistent sizes (after.release (buffer.heap node).length) (front ++ back) ∧
      buffer.Flushes (after.release (buffer.heap node).length) [node] := by
  have lists : (buffer.ftlWrite (buffer.heap node)).Lists (front ++ node :: back) :=
    ⟨consistent.lists.linked, consistent.lists.nodup, consistent.lists.lt_fresh⟩
  obtain ⟨after, unlinked, lists, same⟩ := lists.unlink
  have count := consistent.entryNb
  have few := consistent.few
  have space := consistent.total_eq
  have fits := sizes.fits
  simp only [List.length_append, List.length_cons] at count few
  refine ⟨after, unlinked, ⟨lists.congr rfl rfl rfl rfl, ?_, ?_, ?_⟩, ?_⟩
  · have kept : after.entryNb = buffer.entryNb := same.entryNb
    have counted : sub buffer.entryNb 1 = buffer.entryNb - 1 := sub_eq (by omega)
    rw [List.length_append, release_entryNb, kept, counted]
    omega
  · rw [List.length_append]
    omega
  · have same_total : (after.release (buffer.heap node).length).total (front ++ back) =
        buffer.total (front ++ back) := by
      rw [total, total, data_release, same.data]
      rfl
    have kept : after.remainingSectors = buffer.remainingSectors := same.remainingSectors
    have added : add buffer.remainingSectors (buffer.heap node).length =
        buffer.remainingSectors + (buffer.heap node).length := add_eq (by omega)
    rw [same_total, release_remainingSectors, kept, added]
    exact space
  · exact ⟨same.data, same.errors, same.ftlWrites⟩

end Consistent

/-! ## Making room -/

/-- What a new entry behind the last one does to the list. -/
theorem Lists.linkLast (sectorNb : BitVec 32) (length : Nat) (lists : buffer.Lists nodes)
    (count : buffer.entryNb = nodes.length) :
    ∃ after, (buffer.newEntry sectorNb length).linkLast buffer.fresh = some after ∧
      after.Lists (nodes ++ [buffer.fresh]) ∧
      (nodes ++ [buffer.fresh]).map after.data = nodes.map buffer.data ++ [(sectorNb, length)] ∧
      after.entryNb = buffer.entryNb ∧ after.remainingSectors = buffer.remainingSectors ∧
      after.ftlWrites = buffer.ftlWrites := by
  have different : ∀ node ∈ nodes, node ≠ buffer.fresh := fun node member =>
    (lists.lt_fresh node member).ne
  have new : buffer.fresh ∉ nodes := fun member => different _ member rfl
  have tail_eq := lists.linked.tail_eq
  have appended : Linked
      (relink (Function.update buffer.next buffer.fresh none) nodes.getLast? (some buffer.fresh))
      (Function.update buffer.prev buffer.fresh buffer.tail)
      (if nodes = [] then some buffer.fresh else buffer.head) (some buffer.fresh)
      (nodes ++ [buffer.fresh]) := by
    apply (lists.linked.congr ?_ ?_).append lists.nodup new
    · exact Function.update_self ..
    · exact Function.update_self ..
    · exact fun node member => Function.update_of_ne (different node member) _ _
    · exact fun node member => Function.update_of_ne (different node member) _ _
  have nodup : (nodes ++ [buffer.fresh]).Nodup := by
    rw [List.nodup_append]
    refine ⟨lists.nodup, List.nodup_singleton _, fun node member other member' => ?_⟩
    rw [List.mem_singleton.mp member']
    exact different node member
  have lt_fresh : ∀ node ∈ nodes ++ [buffer.fresh], node < buffer.fresh + 1 := by
    intro node member
    rcases List.mem_append.mp member with member | member
    · exact Nat.lt_succ_of_lt (lists.lt_fresh node member)
    · rw [List.mem_singleton.mp member]
      exact Nat.lt_succ_self _
  have entries : (nodes ++ [buffer.fresh]).map
      (Function.update buffer.data buffer.fresh (sectorNb, length)) =
        nodes.map buffer.data ++ [(sectorNb, length)] := by
    rw [List.map_append, List.map_singleton, Function.update_self]
    congr 1
    exact List.map_congr_left fun node member => Function.update_of_ne (different node member) _ _
  rcases nodes.eq_nil_or_concat with rfl | ⟨front, last, rfl⟩
  · have empty : (buffer.newEntry sectorNb length).entryNb = 0 := count
    refine ⟨_, if_pos empty, ⟨?_, nodup, lt_fresh⟩, ?_, rfl, rfl, rfl⟩
    rotate_left
    · change List.map (buffer.setEntry _ _).data _ = _
      rw [data_setEntry]
      exact entries
    have none : buffer.tail = none := tail_eq
    rw [none] at appended
    change Linked (buffer.setEntry _ _).next (buffer.setEntry _ _).prev _ _ _
    rw [next_setEntry, prev_setEntry]
    exact appended
  · rw [List.concat_eq_append] at *
    rw [List.getLast?_concat] at tail_eq appended
    have tail : (buffer.newEntry sectorNb length).tail = some last := tail_eq
    have filled : (buffer.newEntry sectorNb length).entryNb ≠ 0 := by
      change buffer.entryNb ≠ 0
      simp [count]
    refine ⟨_, (if_neg filled).trans (congrArg (Option.map _) tail), ⟨?_, nodup, lt_fresh⟩, ?_, rfl, rfl,
      rfl⟩
    · change Linked (((buffer.setEntry _ _).setNext _ _).setPrev _ _).next
        (((buffer.setEntry _ _).setNext _ _).setPrev _ _).prev _ _ _
      rw [next_setPrev, next_setNext, next_setEntry, prev_setPrev, prev_setNext, prev_setEntry,
        Function.update_idem]
      rw [if_neg (by simp), tail_eq] at appended
      exact appended
    · change List.map (((buffer.setEntry _ _).setNext _ _).setPrev _ _).data _ = _
      rw [data_setPrev, data_setNext, data_setEntry]
      exact entries

/-- The last entry takes the request with it. -/
theorem Lists.extend (length : Nat) (lists : buffer.Lists (front ++ [node])) :
    (buffer.setEntry node { buffer.heap node with length := length }).Lists (front ++ [node]) ∧
      (front ++ [node]).map
          (buffer.setEntry node { buffer.heap node with length := length }).data =
        front.map buffer.data ++ [((buffer.data node).1, length)] := by
  refine ⟨⟨?_, lists.nodup, lists.lt_fresh⟩, ?_⟩
  · rw [next_setEntry, prev_setEntry]
    refine lists.linked.congr (fun other _ => ?_) fun other _ => ?_
    · exact congrFun (Function.update_eq_self node buffer.next) other
    · exact congrFun (Function.update_eq_self node buffer.prev) other
  · rw [data_setEntry, List.map_append, List.map_singleton, Function.update_self]
    congr 1
    refine List.map_congr_left fun other member => Function.update_of_ne ?_ _ _
    exact (List.nodup_append.mp lists.nodup).2.2 other member node (by simp)

/-- The request is the last entry, or the end of it. -/
def Appends (before after : List (BitVec 32 × Nat)) (sectorNb : BitVec 32) (length : Nat) : Prop :=
  after = before ++ [(sectorNb, length)] ∨
    ∃ front first tailLength, before = front ++ [(first, tailLength)] ∧
      first + BitVec.ofNat 32 tailLength = sectorNb ∧ after = front ++ [(first, tailLength + length)]

/-- The entry that the counter of the entries cannot count. -/
def Overflows (sizes : Sizes) (buffer : Buffer) (sectorNb : BitVec 32) (length : Nat)
    (allocated : Bool) : Prop :=
  buffer.entryNb + 1 = 2 ^ 32 ∧ length ≤ buffer.remainingSectors ∧ allocated = true ∧
    ∀ tail, buffer.tail = some tail → continues sizes (buffer.heap tail) sectorNb length = false

/-- What a call does with a request: it is in the list, or a message says that it is not. -/
def Outcome (before : List (BitVec 32 × Nat)) (buffer after : Buffer) (sectorNb : BitVec 32)
    (length : Nat) : Prop :=
  Appends before after.entries sectorNb length ∨
    after.entries = before ∧ buffer.errors.length < after.errors.length

end Buffer

/-! ## Runs -/

open Buffer

variable {sizes : Sizes} {buffer after : Buffer} {nodes : List Nat} {call : Call}

/-- The requests that fit into the buffer, without the one that the counter of the entries has no
value for. -/
def Fits (sizes : Sizes) (buffer : Buffer) : Call → Prop
  | .writeToBuffer sectorNb length allocated =>
      length ≤ sizes.sectorsPerWriteBuffer ∧ ¬ Overflows sizes buffer sectorNb length allocated
  | .checkWriteBufferForRead _ _ => True
  | .flushAllWriteBuffer => True

/-- A write first writes the oldest entries, and then the request is in the list, or a message says
that it is not. -/
def Answers (buffer after : Buffer) : Call → Prop
  | .writeToBuffer sectorNb length _ =>
      ∃ flushed kept, buffer.entries = flushed ++ kept ∧
        after.ftlWrites = buffer.ftlWrites ++ flushed ∧ Outcome kept buffer after sectorNb length
  | .checkWriteBufferForRead _ _ => True
  | .flushAllWriteBuffer => True

/-- Every call ends with an answer, and in every state the counters agree with the list and its
pointers agree in both directions. -/
def Served (sizes : Sizes) : Buffer → List Call → Prop
  | buffer, [] => ∃ nodes, Consistent sizes buffer nodes
  | buffer, call :: calls =>
      (∃ nodes, Consistent sizes buffer nodes) ∧
        ∃ rounds after, stepWithin sizes rounds buffer call = some after ∧
          Answers buffer after call ∧ Served sizes after calls

end WriteBufferLinks
end StorageStack
