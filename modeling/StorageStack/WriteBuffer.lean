import StorageStack.Execution

/-!
# The merging write buffer

`ssd_write_buffer.c`: write requests wait in a list, a request that continues the last one is merged
into its entry, and entries leave the list by `FTL_WRITE` when space is needed, when everything is
flushed, or when a read touches them.

Sector numbers are the 32-bit words of the source; `int32_t` and `uint32_t` share them and only the
comparisons of `CHECK_WRITE_BUFFER_FOR_READ` are signed.  A request keeps its age, the number of
requests accepted before it, and an entry remembers the requests merged into it: no function reads
either of them, they say which `FTL_WRITE` carries which request.
-/

namespace StorageStack
namespace WriteBuffer

/-- The values `INIT_WRITE_BUFFER` takes from the configuration file. -/
structure Config where
  /-- `SECTORS_PER_WRITE_BUFFER`, the sectors the buffer may hold. -/
  sectorsPerWriteBuffer : Nat
  /-- `SECTOR_SIZE` in bytes. -/
  sectorSize : Nat
  /-- Two lengths admitted by the buffer add up without `unsigned int` wrap-around. -/
  lengths_fit : 2 * sectorsPerWriteBuffer < 2 ^ 32

/-- `MAX_MERGE_SECTORS` as `INIT_WRITE_BUFFER` computes it. -/
def Config.maxMergeSectors (config : Config) : Nat :=
  if config.sectorsPerWriteBuffer < 16 * 1024 * 1024 / config.sectorSize then
    config.sectorsPerWriteBuffer
  else
    16 * 1024 * 1024 / config.sectorSize

/-- The sectors of a transfer of `length` sectors from `sectorNb` on, in order. -/
def sectors (sectorNb : BitVec 32) (length : Nat) : List (BitVec 32) :=
  (List.range length).map fun offset => sectorNb + BitVec.ofNat 32 offset

/-- One accepted write request. -/
structure Request where
  /-- First sector. -/
  sectorNb : BitVec 32
  /-- Number of sectors. -/
  length : Nat
  /-- Number of requests accepted before this one. -/
  age : Nat
  deriving DecidableEq, Repr

/-- The sectors a request writes. -/
def Request.sectors (request : Request) : List (BitVec 32) :=
  WriteBuffer.sectors request.sectorNb request.length

/-- `struct write_buffer_entry`; the list order stands for the `prev` and `next` pointers. -/
structure Entry where
  /-- First sector. -/
  sectorNb : BitVec 32
  /-- Number of sectors. -/
  length : Nat
  /-- Requests merged into the entry, oldest first. -/
  carried : List Request
  deriving DecidableEq, Repr

/-- The sectors an entry writes when it is flushed. -/
def Entry.sectors (entry : Entry) : List (BitVec 32) :=
  WriteBuffer.sectors entry.sectorNb entry.length

/-- The global state of the write buffer and the `FTL_WRITE` calls issued so far. -/
structure State where
  /-- From `write_buffer_list_head` to `write_buffer_list_tail`. -/
  entries : List Entry
  /-- `write_buffer_entry_nb`. -/
  writeBufferEntryNb : Nat
  /-- `remaining_sectors`. -/
  remainingSectors : Nat
  /-- Calls of `FTL_WRITE`, oldest first. -/
  ftlWrites : List Entry
  /-- Requests accepted by `WRITE_TO_BUFFER`, oldest first. -/
  accepted : List Request
  deriving DecidableEq, Repr

/-- `FLUSH_WRITE_BUFFER`: write the head of the list to flash. -/
def flushWriteBuffer (state : State) : State :=
  match state.entries with
  | [] => state
  | entry :: rest =>
      if state.writeBufferEntryNb = 0 then state
      else
        { state with
          entries := if state.writeBufferEntryNb = 1 then [] else rest
          writeBufferEntryNb := state.writeBufferEntryNb - 1
          remainingSectors := state.remainingSectors + entry.length
          ftlWrites := state.ftlWrites ++ [entry] }

/-- The loop of `SECURE_WRITE_BUFFER`, cut off after `fuel` rounds. -/
def secureLoop (length : Nat) : Nat → State → Option State
  | 0, _ => none
  | fuel + 1, state =>
      if state.remainingSectors < length then secureLoop length fuel (flushWriteBuffer state)
      else some state

/-- `SECURE_WRITE_BUFFER`.  Each round takes one entry off the list, so a loop which is still
running after as many rounds as there are entries never ends. -/
def secureWriteBuffer (length : Nat) (state : State) : Option State :=
  secureLoop length (state.entries.length + 1) state

/-- `ALLOC_WRITE_BUFFER_ENTRY`. -/
def allocWriteBufferEntry (request : Request) (state : State) : State :=
  let newEntry : Entry := ⟨request.sectorNb, request.length, [request]⟩
  { state with
    entries := if state.writeBufferEntryNb = 0 then [newEntry] else state.entries ++ [newEntry]
    writeBufferEntryNb := state.writeBufferEntryNb + 1
    remainingSectors := state.remainingSectors - request.length
    accepted := state.accepted ++ [request] }

/-- The test of `INSERT_WRITE_REQUEST` for a request which continues the last entry. -/
def continues (config : Config) (tail : Entry) (request : Request) : Bool :=
  decide (tail.sectorNb + BitVec.ofNat 32 tail.length - 1 + 1 = request.sectorNb) &&
    decide (tail.length + request.length ≤ config.maxMergeSectors)

/-- `INSERT_WRITE_REQUEST`; without a tail its dereference of `write_buffer_list_tail` fails. -/
def insertWriteRequest (config : Config) (request : Request) (state : State) : Option State :=
  if state.writeBufferEntryNb = 0 then some (allocWriteBufferEntry request state)
  else
    state.entries.getLast?.map fun tail =>
      if continues config tail request then
        { state with
          entries := state.entries.dropLast ++
            [{ tail with length := tail.length + request.length
                         carried := tail.carried ++ [request] }]
          remainingSectors := state.remainingSectors - request.length
          accepted := state.accepted ++ [request] }
      else allocWriteBufferEntry request state

/-- `WRITE_TO_BUFFER`. -/
def writeToBuffer (config : Config) (sectorNb : BitVec 32) (length : Nat) (state : State) :
    Option State :=
  (secureWriteBuffer length state).bind fun secured =>
    if secured.remainingSectors < length then some secured
    else insertWriteRequest config ⟨sectorNb, length, secured.accepted.length⟩ secured

/-- The loop of `FLUSH_ALL_WRITE_BUFFER` from `curr_entry` on, with `rounds` rounds to go.  The
source frees `curr_entry` before it reads its `next`; the model reads the list as it was. -/
def flushAllLoop : Nat → List Entry → State → Option State
  | 0, _, state => some state
  | _ + 1, [], _ => none
  | rounds + 1, entry :: rest, state =>
      flushAllLoop rounds rest
        { state with
          remainingSectors := state.remainingSectors + entry.length
          ftlWrites := state.ftlWrites ++ [entry] }

/-- `FLUSH_ALL_WRITE_BUFFER`. -/
def flushAllWriteBuffer (state : State) : Option State :=
  (flushAllLoop state.writeBufferEntryNb state.entries state).map fun flushed =>
    { flushed with entries := [], writeBufferEntryNb := 0 }

/-- The `If write buffer hit` test of `CHECK_WRITE_BUFFER_FOR_READ`, with its signed comparisons. -/
def bufferHit (sectorNb : BitVec 32) (length : Nat) (entry : Entry) : Bool :=
  entry.sectorNb.sle (sectorNb + BitVec.ofNat 32 length - 1) &&
    sectorNb.sle (entry.sectorNb + BitVec.ofNat 32 entry.length - 1)

/-- The walk of `CHECK_WRITE_BUFFER_FOR_READ` over the list from `curr_entry` on; `kept` are the
entries it has already passed. -/
def checkLoop (sectorNb : BitVec 32) (length : Nat) : List Entry → List Entry → State → State
  | kept, [], state => { state with entries := kept }
  | kept, entry :: rest, state =>
      if bufferHit sectorNb length entry then
        checkLoop sectorNb length kept rest
          { state with
            writeBufferEntryNb := state.writeBufferEntryNb - 1
            remainingSectors := state.remainingSectors + entry.length
            ftlWrites := state.ftlWrites ++ [entry] }
      else
        checkLoop sectorNb length (kept ++ [entry]) rest state

/-- `CHECK_WRITE_BUFFER_FOR_READ`. -/
def checkWriteBufferForRead (sectorNb : BitVec 32) (length : Nat) (state : State) : State :=
  checkLoop sectorNb length [] state.entries state

/-- The calls the rest of the program makes. -/
inductive Call where
  | writeToBuffer (sectorNb : BitVec 32) (length : Nat)
  | checkWriteBufferForRead (sectorNb : BitVec 32) (length : Nat)
  | flushAllWriteBuffer
  deriving DecidableEq, Repr

/-- One call. -/
def step (config : Config) (state : State) : Call → Option State
  | .writeToBuffer sectorNb length => writeToBuffer config sectorNb length state
  | .checkWriteBufferForRead sectorNb length =>
      some (checkWriteBufferForRead sectorNb length state)
  | .flushAllWriteBuffer => flushAllWriteBuffer state

/-- A call whose length the buffer admits. -/
def Call.Admitted (config : Config) : Call → Prop
  | .writeToBuffer _ length => length ≤ config.sectorsPerWriteBuffer
  | .checkWriteBufferForRead _ _ => True
  | .flushAllWriteBuffer => True

/-! ## Space accounting -/

/-- The entries in the order in which flushing everything would have written them. -/
def State.flushOrder (state : State) : List Entry := state.ftlWrites ++ state.entries

end WriteBuffer
end StorageStack
