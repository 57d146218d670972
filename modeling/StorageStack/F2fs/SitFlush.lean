import StorageStack.F2fs.BitSearch
import StorageStack.F2fs.BlockOperations

/-!
# Checkpoints

`flush_sit_entries` writes the dirty entries of the segment information table to the journal in the
summary block of the cold data log or to SIT blocks, and turns prefree segments into free ones;
`clear_prefree_segments` empties the prefree list when the checkpoint is on disk.
-/

namespace StorageStack
namespace F2fs

/-- The reasons of a checkpoint. -/
inductive CpReason where
  | umount
  | sync
  | discard
  deriving DecidableEq, Repr

/-- `struct cp_control`. -/
structure CpControl where
  reason : CpReason
  trimStart : Nat
  trimEnd : Nat
  trimMinlen : Nat
  trimmed : Nat
  deriving DecidableEq, Repr

/-- `struct sit_entry_set`. -/
structure SitEntrySet where
  startSegno : Nat
  entryCnt : Nat
  deriving DecidableEq, Repr

/-- `SIT_BLOCK_OFFSET`. -/
def sitBlockOffset (segno : Nat) : Nat := segno / sitEntryPerBlock

/-- `START_SEGNO`. -/
def startSegno (segno : Nat) : Nat := sitBlockOffset segno * sitEntryPerBlock

/-! ## Discard candidates -/

/-- Queue one run of discarded blocks unless enough are queued or the run is too short. -/
def queueDiscard (sbi : Sbi) (force : Bool) (segno : Nat) (queue : State × CpControl)
    (run : Nat × Nat) : State × CpControl :=
  let (state, cpc) := queue
  let len := run.2 - run.1
  if ¬ (force = true ∨ state.nrDiscards ≤ sbi.maxDiscards) ∨ len < cpc.trimMinlen then queue
  else
    ({ state with
        discardList := state.discardList ++ [⟨sbi.startBlock segno + run.1, len⟩]
        nrDiscards := state.nrDiscards + len },
      { cpc with trimmed := cpc.trimmed + len })

/-- `add_discard_addrs` for the segment `trim_start`. -/
def addDiscardAddrs (sbi : Sbi) (queue : State × CpControl) : Option (State × CpControl) :=
  let (state, cpc) := queue
  let segno := cpc.trimStart
  let se := state.sit.sentries segno
  let force := decide (cpc.reason = .discard)
  if ¬ force ∧ sbi.discard = false then some queue
  else if sbi.mainSegments ≤ segno then none
  else if force ∧ se.validBlocks = 0 then
    if state.dirty.dirtySegmap .pre segno then
      some (state, { cpc with trimmed := cpc.trimmed + sbi.blocksPerSeg })
    else
      some ({ state with
          discardList := state.discardList ++ [⟨sbi.startBlock segno, sbi.blocksPerSeg⟩]
          nrDiscards := state.nrDiscards + sbi.blocksPerSeg },
        { cpc with trimmed := cpc.trimmed + sbi.blocksPerSeg })
  else if se.validBlocks = 0 ∨ se.validBlocks = sbi.blocksPerSeg then some queue
  else
    let dmap : BitMap := fun offset =>
      (se.curValidMap offset ^^ se.ckptValidMap offset) && se.ckptValidMap offset
    some ((revRuns dmap sbi.blocksPerSeg 0).foldl (queueDiscard sbi force segno) queue)

/-! ## Sets of dirty entries -/

/-- `adjust_sit_entry_set`: move a set behind the smaller ones that follow it. -/
def adjustSitEntrySet (ses : SitEntrySet) : List SitEntrySet → List SitEntrySet
  | [] => [ses]
  | next :: rest =>
      if ses.entryCnt ≤ next.entryCnt then ses :: next :: rest
      else next :: adjustSitEntrySet ses rest

/-- Count an entry in the set that starts at `start`, if there is one. -/
def countSitEntry (start : Nat) : List SitEntrySet → Option (List SitEntrySet)
  | [] => none
  | ses :: rest =>
      if ses.startSegno = start then
        some (adjustSitEntrySet { ses with entryCnt := ses.entryCnt + 1 } rest)
      else (countSitEntry start rest).map (ses :: ·)

/-- `add_sit_entry`. -/
def addSitEntry (sets : List SitEntrySet) (segno : Nat) : List SitEntrySet :=
  (countSitEntry (startSegno segno) sets).getD (⟨startSegno segno, 1⟩ :: sets)

/-- `add_sits_in_set`. -/
def addSitsInSet (sbi : Sbi) (sit : SitInfo) : List SitEntrySet :=
  (sit.dirtySentriesBitmap.setBits sbi.mainSegments).foldl addSitEntry []

/-! ## The journal -/

/-- `MAX_SIT_JENTRIES`, an `unsigned long`. -/
def maxSitJentries (sum : SummaryBlock) : Nat :=
  (sitJournalEntries + (2 ^ 64 - sum.nSits % 2 ^ 64)) % 2 ^ 64

/-- `__has_cursum_space` for the SIT journal. -/
def hasCursumSpace (sum : SummaryBlock) (size : Nat) : Bool := decide (size ≤ maxSitJentries sum)

/-- `lookup_journal_in_cursum` with `alloc`, for the SIT journal. -/
def lookupJournalInCursum (sum : SummaryBlock) (segno : Nat) : Option (SummaryBlock × Nat) :=
  match (List.range sum.nSits).find? fun index => (sum.sitJournal index).segno == segno with
  | some index => some (sum, index)
  | none =>
      if sum.nSits < sitJournalEntries then
        some ({ sum with nSits := sum.nSits + 1 }, sum.nSits)
      else none

/-- Replace the summary block of the cold data log. -/
def setColdSum (sum : SummaryBlock) (state : State) : State :=
  state.setCurseg .coldData { state.curseg .coldData with sumBlk := sum }

/-- One round of `remove_sits_in_journal`. -/
def removeSitInJournal (sbi : Sbi) (segno : Nat) (marked : State × List SitEntrySet) :
    Option (State × List SitEntrySet) :=
  let (state, sets) := marked
  if sbi.mainSegments ≤ segno then none
  else
    let sets :=
      if state.sit.dirtySentriesBitmap segno then sets else addSitEntry sets segno
    some ({ state with sit := markSitEntryDirty segno state.sit }, sets)

/-- `remove_sits_in_journal`, from the last entry to the first. -/
def removeSitsInJournal (sbi : Sbi) (state : State) (sets : List SitEntrySet) :
    Option (State × List SitEntrySet) :=
  let sum := (state.curseg .coldData).sumBlk
  ((List.range sum.nSits).reverse.foldlM (fun marked index =>
      removeSitInJournal sbi (sum.sitJournal index).segno marked) (state, sets)).map
    fun (state, sets) =>
      (setColdSum { (state.curseg .coldData).sumBlk with nSits := 0 } state, sets)

/-! ## Writing the entries -/

/-- `current_sit_addr`. -/
def currentSitAddr (sbi : Sbi) (sitBitmap : BitMap) (start : Nat) : Nat :=
  let offset := sitBlockOffset start
  if sitBitmap offset then sbi.sitBaseAddr + offset + sbi.sitBlocks
  else sbi.sitBaseAddr + offset

/-- `next_sit_addr`. -/
def nextSitAddr (sbi : Sbi) (blockAddr : Nat) : Nat :=
  if blockAddr - sbi.sitBaseAddr < sbi.sitBlocks then blockAddr + sbi.sitBlocks
  else blockAddr - sbi.sitBlocks

/-- `set_to_next_sit`. -/
def setToNextSit (start : Nat) (sit : SitInfo) : SitInfo :=
  let offset := sitBlockOffset start
  { sit with
    sitBitmap :=
      if sit.sitBitmap offset then sit.sitBitmap.clear offset else sit.sitBitmap.set offset }

/-- `get_next_sit_page`: copy the current SIT block of `start` to its other place and switch to it;
the result is the address of the copy. -/
def getNextSitPage (sbi : Sbi) (start : Nat) (state : State) : State × Nat :=
  let srcOff := currentSitAddr sbi state.sit.sitBitmap start
  let dstOff := nextSitAddr sbi srcOff
  ({ state with
      sitPages := Function.update state.sitPages dstOff (state.sitPages srcOff)
      sit := setToNextSit start state.sit }, dstOff)

/-- Where the entries of a set go. -/
inductive SitTarget where
  | journal
  | page (blkaddr : Nat)
  deriving DecidableEq, Repr

/-- Write the raw entry of a segment to its target; an entry without room in the journal would be
written in front of it. -/
def writeRawSit (target : SitTarget) (segno : Nat) (state : State) : Option State :=
  let raw := segInfoToRawSit (state.sit.sentries segno)
  match target with
  | .journal =>
      (lookupJournalInCursum (state.curseg .coldData).sumBlk segno).map fun (sum, offset) =>
        setColdSum
          { sum with sitJournal := Function.update sum.sitJournal offset ⟨segno, raw⟩ } state
  | .page blkaddr =>
      some
        { state with
          sitPages := Function.update state.sitPages blkaddr
            (Function.update (state.sitPages blkaddr) (segno % sitEntryPerBlock) raw) }

/-- The bookkeeping of one flushed entry. -/
def markSitEntryClean (segno : Nat) (sit : SitInfo) : SitInfo :=
  { sit with
    sentries := Function.update sit.sentries segno (sit.sentries segno).checkpointed
    dirtySentriesBitmap := sit.dirtySentriesBitmap.clear segno
    dirtySentries := sit.dirtySentries - 1 }

/-- Flush the entry of one segment. -/
def flushSitEntry (sbi : Sbi) (target : SitTarget) (flushing : State × CpControl) (segno : Nat) :
    Option (State × CpControl) :=
  let (state, cpc) := flushing
  (if state.nrDiscards < sbi.maxDiscards then
      addDiscardAddrs sbi (state, { cpc with trimStart := segno })
    else some (state, cpc)).bind fun (state, cpc) =>
      (writeRawSit target segno state).map fun state =>
        ({ state with sit := markSitEntryClean segno state.sit }, cpc)

/-- The variables of the loop of `flush_sit_entries` over the sets. -/
structure Flushing where
  state : State
  cpc : CpControl
  toJournal : Bool

/-- Choose the target of a set. -/
def openSitTarget (sbi : Sbi) (toJournal : Bool) (start : Nat) (state : State) :
    State × SitTarget :=
  if toJournal then (state, .journal)
  else
    let (state, blkaddr) := getNextSitPage sbi start state
    (state, .page blkaddr)

/-- Flush the dirty entries of one set. -/
def flushSitEntrySet (sbi : Sbi) (flushing : Flushing) (ses : SitEntrySet) : Option Flushing :=
  let state := flushing.state
  let stop := min (ses.startSegno + sitEntryPerBlock) sbi.mainSegments
  let toJournal := flushing.toJournal &&
    hasCursumSpace (state.curseg .coldData).sumBlk ses.entryCnt
  let (state, target) := openSitTarget sbi toJournal ses.startSegno state
  let segnos := (state.sit.dirtySentriesBitmap.setBits stop).filter
    fun segno => ses.startSegno ≤ segno
  (segnos.foldlM (flushSitEntry sbi target) (state, flushing.cpc)).map fun (state, cpc) =>
    ⟨bugOn .flushSitEntries (decide (ses.entryCnt ≠ segnos.length)) state, cpc, toJournal⟩

/-- `set_prefree_as_free_segments`. -/
def setPrefreeAsFreeSegments (sbi : Sbi) (state : State) : State :=
  { state with
    free := ((state.dirty.dirtySegmap .pre).setBits sbi.mainSegments).foldl
      (fun free segno => setTestAndFree sbi segno free) state.free }

/-- The segments a trim walks over at the end of `flush_sit_entries`. -/
def trimSegments (sbi : Sbi) (state : State) (cpc : CpControl) : Option (State × CpControl) :=
  if cpc.reason = .discard then
    (List.range' cpc.trimStart (cpc.trimEnd + 1 - cpc.trimStart)).foldlM
      (fun (state, cpc) segno => addDiscardAddrs sbi (state, { cpc with trimStart := segno }))
      (state, cpc)
  else some (state, cpc)

/-- The loop of `flush_sit_entries` with the checks behind it. -/
def flushSets (sbi : Sbi) (state : State) (cpc : CpControl) (sets : List SitEntrySet) :
    Option (State × CpControl) :=
  if state.sit.dirtySentries = 0 then some (state, cpc)
  else
    (sets.foldlM (flushSitEntrySet sbi) ⟨state, cpc, true⟩).map fun flushed =>
      (bugOn .flushSitEntries (decide (flushed.state.sit.dirtySentries ≠ 0)) flushed.state,
        flushed.cpc)

/-- `flush_sit_entries`. -/
def flushSitEntries (sbi : Sbi) (cpc : CpControl) (state : State) : Option (State × CpControl) :=
  let sets := addSitsInSet sbi state.sit
  (if hasCursumSpace (state.curseg .coldData).sumBlk state.sit.dirtySentries then
      some (state, sets)
    else removeSitsInJournal sbi state sets).bind fun (state, sets) =>
      (flushSets sbi state cpc sets).bind fun (state, cpc) =>
        (trimSegments sbi state cpc).map fun (state, cpc) =>
          (setPrefreeAsFreeSegments sbi state, cpc)

/-! ## After the checkpoint -/

/-- The prefree loop of `clear_prefree_segments`.  With `F2FS_DA_MAP` it calls
`submit_invalid_segment_number`, which clears the page behind a null pointer. -/
def clearPrefreeMap (sbi : Sbi) (state : State) : Option State :=
  let prefreeMap := state.dirty.dirtySegmap .pre
  let runs := prefreeMap.runs sbi.mainSegments 0
  if sbi.f2fsDaMap = true ∧ runs ≠ [] then none
  else
    let cleared := (prefreeMap.setBits sbi.mainSegments).foldl BitMap.clear prefreeMap
    some
      { state with
        dirty :=
          { state.dirty with
            dirtySegmap := Function.update state.dirty.dirtySegmap .pre cleared
            nrDirty := Function.update state.dirty.nrDirty .pre
              (state.dirty.nrDirty .pre - (runs.map fun run => run.2 - run.1).sum) }
        issuedDiscards :=
          if sbi.discard then
            state.issuedDiscards ++ runs.map fun run =>
              ⟨sbi.startBlock run.1, (run.2 - run.1) * sbi.blocksPerSeg⟩
          else state.issuedDiscards }

/-- `clear_prefree_segments`. -/
def clearPrefreeSegments (sbi : Sbi) (state : State) : Option State :=
  (clearPrefreeMap sbi state).map fun state =>
    { state with
      issuedDiscards := state.issuedDiscards ++ state.discardList
      nrDiscards := state.nrDiscards - (state.discardList.map DiscardEntry.len).sum
      discardList := [] }

end F2fs
end StorageStack
