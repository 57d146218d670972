import StorageStack.LinkedChain
import StorageStack.Execution
import StorageStack.BufferManager.Frames

/-!
# The buffer manager

Requests of the host become events.  The event queue is a linked list with the reads in front of the
writes; the data of the writes waits in the frames of the write buffer, and writes that continue
each other are collected in a second buffer before they go to the translation layer.  An event is
named by the number of its allocation, and a step through a null pointer, outside an array or in a
loop that does not end has no result.  What the translation layer does with the buffers is a
parameter.
-/

namespace StorageStack
namespace BufferManager

/-- The sizes of the write, the read and the collecting buffer, and the length of the queue. -/
structure BufferConfig where
  writeBufferFrameNb : Nat
  readBufferFrameNb : Nat
  ftlBufferFrameNb : Nat
  eventQueueDepth : Nat

/-- The value of an expression of type `unsigned int`. -/
def toUnsigned (value : Int) : Int := value % 2 ^ 32

/-- The value of an expression which is converted to `int`. -/
def toInt (value : Int) : Int := value.bmod (2 ^ 32)

/-- The messages that begin with `ERROR`. -/
inductive ErrorMessage
  | noEvent
  | invalidEventPointer
  | notSequentialWrite
  | noStagedEvent
  | ftlBufferRemainEntry
  | entryNumber
deriving DecidableEq, Repr

/-- `ftl_buffer_entry`, the number of the frame at `curr_ftl_buffer_entry`, and
`ftl_buffer_remain_entry`. -/
structure FtlBuffer where
  valid : Bool
  sectorNb : Int
  length : Nat
  curr : Nat
  remain : Nat
deriving DecidableEq, Repr

/-- The buffers with their pointers. -/
structure Buffers where
  wbValidArray : WbValidArray
  ftlWritePtr : Nat
  sataWritePtr : Nat
  writeLimitPtr : Nat
  emptyWriteBufferFrame : Int
  ftlReadPtr : Nat
  sataReadPtr : Nat
  emptyReadBufferFrame : Int
  ftlBuffer : FtlBuffer
  errors : List ErrorMessage

structure EventQueue where
  entryNb : Nat
  head : Option Nat
  tail : Option Nat
deriving DecidableEq, Repr

/-- The state of the buffer manager.  `fresh` numbers the next event, and `received` are the reads
which the queue of the completed reads has received since the start. -/
structure Manager where
  heap : Nat → EventQueueEntry
  fresh : Nat
  eQueue : EventQueue
  cEQueue : EventQueue
  lastReadEntry : Option Nat
  flagSeqWrite : Bool
  buffers : Buffers
  received : List Nat

/-- `FTL_READ` and `FTL_WRITE`, which work on the buffers. -/
structure Ftl where
  read : Buffers → Int → Nat → Option Buffers
  write : Buffers → Int → Nat → Option Buffers

variable (config : BufferConfig) (ftl : Ftl)

/-- Rounds in which a loop over the frames sees `count` frames if there is one that counts. -/
def BufferConfig.rounds (count : Nat) : Nat := config.writeBufferFrameNb * (count + 1)

namespace Buffers

variable (buffers : Buffers)

def report (message : ErrorMessage) : Buffers :=
  { buffers with errors := buffers.errors ++ [message] }

def getWbValidArrayEntry (pBuf : Option Nat) : Option WbValid :=
  pBuf.bind fun index =>
    if index < config.writeBufferFrameNb then some (buffers.wbValidArray index) else none

/-! ## The pointers of the write buffer -/

def increaseWbSataPointer : Nat → Buffers → Buffers
  | 0, buffers => buffers
  | entryNb + 1, buffers =>
      increaseWbSataPointer entryNb
        { buffers with
          emptyWriteBufferFrame := buffers.emptyWriteBufferFrame - 1
          wbValidArray := Function.update buffers.wbValidArray buffers.sataWritePtr .valid
          sataWritePtr := RingOrder.next config.writeBufferFrameNb buffers.sataWritePtr }

def increaseWbFtlPointer (entryNb : Nat) : Option Buffers :=
  (frameLoop config.writeBufferFrameNb (fun _ => .flushed) (config.rounds entryNb) entryNb
    buffers.ftlWritePtr buffers.wbValidArray).map fun (array, pointer) =>
      { buffers with wbValidArray := array, ftlWritePtr := pointer }

/-- The loop of `INCREASE_WB_LIMIT_POINTER` for a number of rounds. -/
def limitLoop : Nat → Buffers → Option Buffers
  | 0, _ => none
  | rounds + 1, buffers =>
      if buffers.writeLimitPtr = buffers.ftlWritePtr then
        some buffers
      else
        limitLoop rounds
          { buffers with
            wbValidArray := Function.update buffers.wbValidArray buffers.writeLimitPtr .empty
            writeLimitPtr := RingOrder.next config.writeBufferFrameNb buffers.writeLimitPtr
            emptyWriteBufferFrame := buffers.emptyWriteBufferFrame + 1 }

def increaseWbLimitPointer : Option Buffers :=
  limitLoop config (config.writeBufferFrameNb + 1) buffers

/-- The loop of `SECURE_WRITE_BUFFER` and `SECURE_READ_BUFFER`: whether one of the next `length`
frames of a ring is the one at `limit`. -/
def meetsLimit (size limit : Nat) : Nat → Nat → Bool
  | 0, _ => false
  | length + 1, pointer =>
      if RingOrder.next size pointer = limit then true
      else meetsLimit size limit length (RingOrder.next size pointer)

/-! ## The pointers of the read buffer -/

/-- A pointer of the read buffer after some frames. -/
def advanceRead (frames pointer : Nat) : Nat :=
  (RingOrder.next config.readBufferFrameNb)^[frames] pointer

def increaseRbSataPointer (entryNb : Nat) : Buffers :=
  { buffers with
    emptyReadBufferFrame := buffers.emptyReadBufferFrame + entryNb
    sataReadPtr := advanceRead config entryNb buffers.sataReadPtr }

def increaseRbFtlPointer (entryNb : Nat) : Buffers :=
  { buffers with
    emptyReadBufferFrame := buffers.emptyReadBufferFrame - entryNb
    ftlReadPtr := advanceRead config entryNb buffers.ftlReadPtr }

/-- The two loops over the frames of a write event from which a read takes its data, with the
pointers of the read buffer after it. -/
def copyDataToReadBuffer (dst src : EventQueueEntry) : Option Buffers :=
  let offset := toInt (dst.sectorNb - src.sectorNb)
  if offset < 0 then
    none
  else
    src.buf.bind fun srcBuf =>
      (frameLoop config.writeBufferFrameNb id (config.rounds offset.toNat) offset.toNat srcBuf
        buffers.wbValidArray).bind fun (_, srcBuf) =>
      (frameLoop config.writeBufferFrameNb id (config.rounds dst.length) dst.length srcBuf
        buffers.wbValidArray).map fun _ => buffers.increaseRbFtlPointer config dst.length

/-! ## The buffer for sequential writes -/

def flushFtlBuffer : Option Buffers :=
  if buffers.ftlBuffer.valid = false then
    some (buffers.report .noStagedEvent)
  else
    (ftl.write buffers buffers.ftlBuffer.sectorNb buffers.ftlBuffer.length).map fun buffers =>
      let remain := (buffers.ftlBuffer.remain + buffers.ftlBuffer.length) % 2 ^ 32
      if remain ≠ config.ftlBufferFrameNb then
        { buffers with ftlBuffer := { buffers.ftlBuffer with remain := remain } }.report
          .ftlBufferRemainEntry
      else
        { buffers with
          ftlBuffer := { buffers.ftlBuffer with remain := remain, curr := 0, valid := false } }

/-- The frames of the event are read in the ring, and its data is stored behind the data which is
already there. -/
def copyDataToFtlBuffer (event : EventQueueEntry) : Option Buffers :=
  event.buf.bind fun srcBuf =>
    (frameLoop config.writeBufferFrameNb id (config.rounds event.length) event.length srcBuf
      buffers.wbValidArray).bind fun _ =>
    if config.ftlBufferFrameNb < buffers.ftlBuffer.curr + event.length then
      none
    else
      some { buffers with
        ftlBuffer := { buffers.ftlBuffer with
          curr := buffers.ftlBuffer.curr + event.length
          remain := (buffers.ftlBuffer.remain + 2 ^ 32 - event.length) % 2 ^ 32 } }

/-- `ftl_buffer_entry` with one event more. -/
def stageEvent (event : EventQueueEntry) : Buffers :=
  { buffers with
    ftlBuffer :=
      if buffers.ftlBuffer.valid then
        { buffers.ftlBuffer with length := (buffers.ftlBuffer.length + event.length) % 2 ^ 32 }
      else
        { buffers.ftlBuffer with
          valid := true, sectorNb := event.sectorNb, length := event.length } }

def moveEventToFtlBuffer (event : EventQueueEntry) : Option Buffers :=
  if buffers.ftlBuffer.valid ∧
      toUnsigned (buffers.ftlBuffer.sectorNb + buffers.ftlBuffer.length) ≠
        toUnsigned event.sectorNb then
    some (buffers.report .notSequentialWrite)
  else
    (if buffers.ftlBuffer.remain < event.length then buffers.flushFtlBuffer config ftl
      else some buffers).bind fun buffers =>
    (buffers.copyDataToFtlBuffer config event).bind fun buffers =>
    (buffers.getWbValidArrayEntry config event.buf).bind fun status =>
    if status = .sequentialEnd then (buffers.stageEvent event).flushFtlBuffer config ftl
    else some (buffers.stageEvent event)

end Buffers

namespace Manager

variable (manager : Manager)

def setEntry (event : Nat) (change : EventQueueEntry → EventQueueEntry) : Manager :=
  { manager with heap := Function.update manager.heap event (change (manager.heap event)) }

def setNext (event : Nat) (next : Option Nat) : Manager :=
  manager.setEntry event fun entry => { entry with next := next }

def report (message : ErrorMessage) : Manager :=
  { manager with buffers := manager.buffers.report message }

/-- The events from a pointer on. -/
def eventsFrom (start : Option Nat) : List Nat :=
  LinkedChain.follow (fun event => (manager.heap event).next) manager.fresh start

/-! ## Leaving the queue -/

/-- The loop of `DEQUEUE_COMPLETED_READ` over the completed reads. -/
def sendReads : List Nat → Manager → Option Manager
  | [], manager => some manager
  | event :: events, manager =>
      (manager.heap event).buf.bind fun pBuf =>
        sendReads events
          { manager with
            buffers := { manager.buffers with sataReadPtr := pBuf }.increaseRbSataPointer config
              (manager.heap event).length
            cEQueue := { manager.cEQueue with entryNb := manager.cEQueue.entryNb - 1 } }

def dequeueCompletedRead : Option Manager :=
  if manager.cEQueue.entryNb = 0 then
    some manager
  else
    (sendReads config (manager.eventsFrom manager.cEQueue.head) manager).map fun manager =>
      if manager.cEQueue.entryNb ≠ 0 then manager.report .entryNumber
      else { manager with cEQueue := ⟨0, none, none⟩ }

def secureReadBuffer (length : Nat) : Option Manager :=
  if Buffers.meetsLimit config.readBufferFrameNb manager.buffers.sataReadPtr length
      manager.buffers.ftlReadPtr then
    manager.dequeueCompletedRead config
  else
    some manager

/-- The call of the translation layer for the event at the head of the queue. -/
def serve (event : Nat) : Option Manager :=
  let entry := manager.heap event
  if entry.valid = false then
    some manager
  else match entry.ioType with
    | .read =>
        match entry.buf with
        | some _ => some manager
        | none =>
            (manager.secureReadBuffer config entry.length).bind fun manager =>
            (ftl.read manager.buffers entry.sectorNb entry.length).map fun buffers =>
              { manager with buffers := buffers }.setEntry event fun entry =>
                { entry with buf := some manager.buffers.ftlReadPtr }
    | .write =>
        (manager.buffers.getWbValidArrayEntry config entry.buf).bind fun status =>
        (if status = .sequential ∨ status = .sequentialEnd then
            manager.buffers.moveEventToFtlBuffer config ftl entry
          else ftl.write manager.buffers entry.sectorNb entry.length).map fun buffers =>
          { manager with buffers := buffers }

/-- The queue without its first event. -/
def unlinkHead (event : Nat) : Manager :=
  { manager with
    eQueue :=
      if manager.eQueue.entryNb - 1 = 0 then ⟨0, none, none⟩
      else
        { manager.eQueue with
          entryNb := manager.eQueue.entryNb - 1, head := (manager.heap event).next } }

/-- A read goes to the end of the queue of the completed reads. -/
def complete (event : Nat) : Option Manager :=
  let manager := { manager with
    lastReadEntry := if manager.lastReadEntry = some event then none else manager.lastReadEntry
    received := manager.received ++ [event] }.setNext event none
  if manager.cEQueue.entryNb = 0 then
    some { manager with cEQueue := ⟨1, some event, some event⟩ }
  else
    manager.cEQueue.tail.map fun tail =>
      { manager.setNext tail (some event) with
        cEQueue := ⟨manager.cEQueue.entryNb + 1, manager.cEQueue.head, some event⟩ }

def dequeueIo : Option Manager :=
  if manager.eQueue.entryNb = 0 then
    some (manager.report .noEvent)
  else
    manager.eQueue.head.bind fun event =>
      (manager.serve config ftl event).bind fun manager =>
        let manager := manager.unlinkHead event
        if (manager.heap event).ioType = .write then some manager else manager.complete event

/-- The events leave the queue one after the other. -/
def dequeueTimes : Nat → Manager → Option Manager
  | 0, manager => some manager
  | count + 1, manager => (manager.dequeueIo config ftl).bind (dequeueTimes count)

/-- How many events leave the queue up to the given one. -/
def countUntil (event : Nat) : Option Nat :=
  if manager.eQueue.tail = some event then some manager.eQueue.entryNb
  else if event ∈ manager.eventsFrom manager.eQueue.head then
    some ((manager.eventsFrom manager.eQueue.head).idxOf event + 1)
  else none

def flushEventQueueUntil (event : Option Nat) : Option Manager :=
  match event, manager.eQueue.head with
  | some event, some _ =>
      (manager.countUntil event).bind fun count => dequeueTimes config ftl count manager
  | _, _ => some (manager.report .invalidEventPointer)

/-! ## Entering the queue -/

def checkOverwrite (entry : EventQueueEntry) (sectorNb : Int) (length : Nat) : Bool :=
  entry.ioType = .write ∧ sectorNb ≤ entry.sectorNb ∧
    toUnsigned (entry.sectorNb + entry.length) ≤ toUnsigned (sectorNb + length)

def checkSequentiality (entry : EventQueueEntry) (sectorNb : Int) : Bool :=
  entry.ioType = .write ∧ toUnsigned (entry.sectorNb + entry.length) = toUnsigned sectorNb

/-- The last sector of an event. -/
def lastSectorNb (sectorNb : Int) (length : Nat) : Int := toInt (sectorNb + length - 1)

def dependsForRead (entry : EventQueueEntry) (sectorNb : Int) (length : Nat) : Bool :=
  entry.ioType = .write ∧ entry.valid ∧ entry.sectorNb ≤ lastSectorNb sectorNb length ∧
    sectorNb ≤ lastSectorNb entry.sectorNb entry.length

def checkIoDependencyForWrite (entry : EventQueueEntry) (sectorNb : Int) (length : Nat) : Bool :=
  entry.ioType = .write ∧ entry.valid ∧ entry.sectorNb < sectorNb ∧
    sectorNb < lastSectorNb entry.sectorNb entry.length ∧
    lastSectorNb entry.sectorNb entry.length < lastSectorNb sectorNb length

/-- Where the loops over the pending writes start. -/
def pendingStart : Option Nat :=
  match manager.lastReadEntry with
  | some event => (manager.heap event).next
  | none => manager.eQueue.head

/-- The last pending write on which the read depends. -/
def checkIoDependencyForRead (sectorNb : Int) (length : Nat) : Option Nat :=
  ((manager.eventsFrom manager.pendingStart).filter fun event =>
    dependsForRead (manager.heap event) sectorNb length).getLast?

def allocNewEvent (ioType : IoType) (sectorNb : Int) (length : Nat) (buf : Option Nat) : Manager :=
  { manager with
    heap := Function.update manager.heap manager.fresh ⟨ioType, true, sectorNb, length, buf, none⟩
    fresh := manager.fresh + 1 }

/-- A new event becomes the only one of the queue. -/
def startQueue (event : Nat) : Manager :=
  { manager with eQueue := { manager.eQueue with head := some event, tail := some event } }

def countEvent : Manager :=
  { manager with eQueue := { manager.eQueue with entryNb := manager.eQueue.entryNb + 1 } }

/-- A new event goes behind the last one. -/
def appendEvent (event : Nat) : Option Manager :=
  manager.eQueue.tail.map fun tail =>
    { manager.setNext tail (some event) with
      eQueue := { manager.eQueue with tail := some event } }

def setLastReadEntry (event : Nat) : Manager := { manager with lastReadEntry := some event }

/-- The place of a new read. -/
def insertRead (event : Nat) : Option Manager :=
  match manager.lastReadEntry with
  | none =>
      if manager.eQueue.entryNb = 0 then
        some (manager.startQueue event)
      else
        some { manager.setNext event manager.eQueue.head with
          eQueue := { manager.eQueue with head := some event } }
  | some last =>
      if manager.eQueue.tail = some last then
        manager.appendEvent event
      else
        some ((manager.setNext event (manager.heap last).next).setNext last (some event))

/-- The data of a new read is taken from the frames of a pending write which has all of it. -/
def readFromWrite (event source : Nat) : Option Manager :=
  let entry := manager.heap event
  let src := manager.heap source
  if src.sectorNb ≤ entry.sectorNb ∧
      toUnsigned (entry.sectorNb + entry.length) ≤ toUnsigned (src.sectorNb + src.length) then
    (manager.buffers.copyDataToReadBuffer config entry src).map fun buffers =>
      { manager with buffers := buffers }.setEntry event fun entry =>
        { entry with buf := some manager.buffers.ftlReadPtr }
  else
    some manager

/-- The events up to the last one on which the new read depends leave the queue. -/
def flushDependency (event : Nat) (sectorNb : Int) (length : Nat) : Option Manager :=
  match manager.checkIoDependencyForRead sectorNb length with
  | some source =>
      (manager.readFromWrite config event source).bind fun manager =>
        manager.flushEventQueueUntil config ftl (some source)
  | none => some manager

/-- A read that finds events in the queue. -/
def enqueueReadBehind (event : Nat) (sectorNb : Int) (length : Nat) : Option Manager :=
  (manager.flushDependency config ftl event sectorNb length).bind fun manager =>
    (manager.insertRead event).map fun manager => manager.setLastReadEntry event

def enqueueRead (sectorNb : Int) (length : Nat) : Option Manager :=
  let event := manager.fresh
  let manager := manager.allocNewEvent .read sectorNb length none
  (if manager.eQueue.entryNb = 0 then
      some (manager.startQueue event)
    else
      manager.enqueueReadBehind config ftl event sectorNb length).map countEvent

def secureWriteBuffer (length : Nat) : Option Manager :=
  if Buffers.meetsLimit config.writeBufferFrameNb manager.buffers.writeLimitPtr length
      manager.buffers.sataWritePtr then
    manager.flushEventQueueUntil config ftl manager.eQueue.tail
  else
    some manager

/-- `UPDATE_WB_VALID_ARRAY` for an event of the queue. -/
def markEvent (event : Nat) (newValue : WbValid) : Option Manager :=
  (updateWbValidArray config.writeBufferFrameNb (config.rounds (manager.heap event).length)
    manager.buffers.wbValidArray (manager.heap event) newValue).map fun array =>
      { manager with buffers := { manager.buffers with wbValidArray := array } }

/-- `UPDATE_WB_VALID_ARRAY_PARTIAL` for an event of the queue; the loops do not end for a negative
length. -/
def markPart (event : Nat) (newValue : WbValid) (length : Int) (mode : PartialMode) :
    Option Manager :=
  if length < 0 then
    none
  else
    (updateWbValidArrayPartial config.writeBufferFrameNb
      (config.rounds (manager.heap event).length) manager.buffers.wbValidArray (manager.heap event)
      newValue length.toNat mode).map fun array =>
        { manager with buffers := { manager.buffers with wbValidArray := array } }

def setLength (event : Nat) (length : Int) : Manager :=
  manager.setEntry event fun entry => { entry with length := (toUnsigned length).toNat }

/-- An event whose sectors are all written again. -/
def overwriteEvent (event : Nat) : Option Manager :=
  (manager.setEntry event fun entry => { entry with valid := false }).markEvent config event .invalid

/-- The sectors of an event from `sectorNb` on. -/
def overlap (entry : EventQueueEntry) (sectorNb : Int) : Int :=
  toInt (entry.sectorNb + entry.length - sectorNb)

/-- The last event loses its sectors from `sectorNb` on and goes on with the ones of the request. -/
def replaceTail (event : Nat) (sectorNb : Int) (length : Nat) : Option Manager :=
  let entry := manager.heap event
  (manager.markPart config event .invalid (overlap entry sectorNb) .rear).map fun manager =>
    manager.setLength event (entry.length + (length - overlap entry sectorNb))

/-- An event loses its sectors from `sectorNb` on and is marked as one that is continued. -/
def cutEvent (event : Nat) (sectorNb : Int) : Option Manager :=
  let entry := manager.heap event
  let remain := toInt (entry.length - overlap entry sectorNb)
  (manager.markPart config event .sequential remain .front).bind fun manager =>
  (manager.markPart config event .invalid (overlap entry sectorNb) .rear).map fun manager =>
    { manager.setLength event remain with flagSeqWrite := true }

/-- Whether an event may be marked as one that is continued, as the only one or as the last of the
sequential events. -/
def markable (status : WbValid) : Bool :=
  manager.flagSeqWrite = false ∧ status = .valid ∨
    manager.flagSeqWrite = true ∧ status = .sequentialEnd

/-- The state of the loop over the pending writes: whether the request needs no event of its own,
and whether its event goes on with another one. -/
structure Scan where
  manager : Manager
  flagAllocated : Bool
  flagNewSeqEvent : Bool

/-- The body of the loop; the Boolean tells that the loop is left. -/
def scanEvent (sectorNb : Int) (length : Nat) (scan : Scan) (event : Nat) : Option (Scan × Bool) :=
  let entry := scan.manager.heap event
  if entry.valid = false then
    some (scan, false)
  else if checkOverwrite entry sectorNb length then
    (scan.manager.overwriteEvent config event).map fun manager =>
      ({ scan with manager := manager }, false)
  else if checkSequentiality entry sectorNb then
    if scan.manager.eQueue.tail = some event then
      some ({ scan with
        manager := scan.manager.setLength event (entry.length + length)
        flagAllocated := true }, true)
    else
      (scan.manager.buffers.getWbValidArrayEntry config entry.buf).bind fun status =>
        if scan.manager.markable status then
          (scan.manager.markEvent config event .sequential).map fun manager =>
            ({ scan with
              manager := { manager with flagSeqWrite := true }
              flagNewSeqEvent := true }, true)
        else
          some (scan, false)
  else if checkIoDependencyForWrite entry sectorNb length then
    if scan.manager.eQueue.tail = some event then
      (scan.manager.replaceTail config event sectorNb length).map fun manager =>
        ({ scan with manager := manager, flagAllocated := true }, true)
    else
      (scan.manager.buffers.getWbValidArrayEntry config entry.buf).bind fun status =>
        if scan.manager.markable status then
          (scan.manager.cutEvent config event sectorNb).map fun manager =>
            ({ scan with manager := manager, flagNewSeqEvent := true }, false)
        else
          some (scan, false)
  else
    some (scan, false)

def scanEvents (sectorNb : Int) (length : Nat) : List Nat → Scan → Option Scan
  | [], scan => some scan
  | event :: events, scan =>
      (scanEvent config sectorNb length scan event).bind fun (scan, leave) =>
        if leave then some scan else scanEvents sectorNb length events scan

/-- A new event for the request at the end of the queue, if it needs one. -/
def addWrite (scan : Scan) (sectorNb : Int) (length pBuf : Nat) : Option (Manager × Option Nat) :=
  if scan.flagAllocated then
    some (scan.manager, none)
  else
    let event := scan.manager.fresh
    let manager := scan.manager.allocNewEvent .write sectorNb length (some pBuf)
    (if manager.eQueue.entryNb = 0 then some (manager.startQueue event)
      else manager.appendEvent event).map fun manager => (manager.countEvent, some event)

def enqueueWrite (sectorNb : Int) (length : Nat) : Option Manager :=
  (manager.secureWriteBuffer config ftl length).bind fun manager =>
    let pBuf := manager.buffers.sataWritePtr
    let manager :=
      { manager with buffers := manager.buffers.increaseWbSataPointer config length }
    (scanEvents config sectorNb length (manager.eventsFrom manager.pendingStart)
      ⟨manager, false, false⟩).bind fun scan =>
    (addWrite scan sectorNb length pBuf).bind fun (manager, event) =>
      if scan.flagNewSeqEvent then
        event.bind fun event => manager.markEvent config event .sequentialEnd
      else
        some manager

def enqueueIo (ioType : IoType) (sectorNb : Int) (length : Nat) : Option Manager :=
  (if manager.eQueue.entryNb = config.eventQueueDepth then
      manager.flushEventQueueUntil config ftl manager.eQueue.tail
    else some manager).bind fun manager =>
    match ioType with
    | .read => manager.enqueueRead config ftl sectorNb length
    | .write => manager.enqueueWrite config ftl sectorNb length

end Manager

/-- The calls from outside. -/
inductive BufferCall
  | enqueueIo (ioType : IoType) (sectorNb : Int) (length : Nat)
  | dequeueIo
  | flushEventQueueUntil (event : Nat)

def bufferStep (manager : Manager) : BufferCall → Option Manager
  | .enqueueIo ioType sectorNb length => manager.enqueueIo config ftl ioType sectorNb length
  | .dequeueIo => manager.dequeueIo config ftl
  | .flushEventQueueUntil event => manager.flushEventQueueUntil config ftl (some event)

end BufferManager
end StorageStack
