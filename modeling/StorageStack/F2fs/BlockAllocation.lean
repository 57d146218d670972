import StorageStack.F2fs.CurrentSegment

/-!
# Block allocation

The operations that write a block of the main area or give one up: `allocate_data_block` with the
segment allocation behind it, the padding `allocate_dummy_data_block` of the disaggregated mapping,
`invalidate_blocks`, `allocate_new_segments` and `recover_data_page`.
-/

namespace StorageStack
namespace F2fs

/-! ## A victim for slack space recycling -/

/-- The variables of the search loop of `get_victim_by_default`. -/
structure VictimSearch where
  minSegno : Option Nat
  minCost : Nat
  nsearched : Nat
  /-- The segment at which the search stopped because it had seen enough. -/
  stopped : Option Nat
  deriving DecidableEq, Repr

/-- The search loop over the set bits `segnos`, for `alloc_mode` SSR and `gc_type` BG_GC. -/
def scanVictims (sbi : Sbi) (state : State) (maxSearch : Nat) :
    List Nat → VictimSearch → VictimSearch
  | [], search => search
  | segno :: segnos, search =>
      let secno := sbi.getSecno segno
      let cost := (state.sit.sentries segno).ckptValidBlocks
      let maxCost := sbi.blocksPerSeg
      if secUsageCheck sbi state secno || state.dirty.victimSecmap secno then
        scanVictims sbi state maxSearch segnos search
      else if ¬ cost < search.minCost ∧ cost = maxCost then
        scanVictims sbi state maxSearch segnos search
      else
        let search :=
          if cost < search.minCost then
            { search with minSegno := some segno, minCost := cost }
          else search
        if maxSearch ≤ search.nsearched then
          { search with nsearched := search.nsearched + 1, stopped := some segno }
        else
          scanVictims sbi state maxSearch segnos { search with nsearched := search.nsearched + 1 }

/-- `get_victim_by_default(sbi, result, BG_GC, type, SSR)`: the state keeps `last_victim`, the
result is the victim. -/
def getVictimByDefault (sbi : Sbi) (type : CursegType) (state : State) : State × Option Nat :=
  let dirtySegmap := state.dirty.dirtySegmap (.log type)
  let maxSearch := min (state.dirty.nrDirty (.log type)) sbi.maxVictimSearch
  let segnos := dirtySegmap.setBits sbi.mainSegments
  let start : VictimSearch := ⟨none, sbi.blocksPerSeg, 0, none⟩
  let first := scanVictims sbi state maxSearch
    (segnos.filter fun segno => state.lastVictim ≤ segno) start
  match first.stopped with
  | some segno => ({ state with lastVictim := segno }, first.minSegno)
  | none =>
      if state.lastVictim = 0 then (state, first.minSegno)
      else
        -- The search wraps around once, from segment 0 with `last_victim` reset.
        let second := scanVictims sbi state maxSearch segnos first
        ({ state with lastVictim := second.stopped.getD 0 }, second.minSegno)

/-- `need_SSR`. -/
def needSsr (sbi : Sbi) (env : Env) (state : State) : Bool :=
  decide (state.free.freeSections ≤
    env.nodeSecs + 2 * env.dentSecs + sbi.reservedSegments / sbi.segsPerSec + 1)

/-- `has_not_enough_free_secs(sbi, 0)`. -/
def hasNotEnoughFreeSecs (sbi : Sbi) (env : Env) (state : State) : Bool :=
  if state.porDoing then false
  else
    decide (state.free.freeSections ≤
      env.nodeSecs + 2 * env.dentSecs + sbi.reservedSegments / sbi.segsPerSec)

/-- The logs `get_ssr_segment` asks for a victim, in order. -/
def ssrLogs (sbi : Sbi) (env : Env) (state : State) (type : CursegType) : List CursegType :=
  if type.isNodeseg || !hasNotEnoughFreeSecs sbi env state then [type]
  else
    match type with
    | .coldData => [.coldData, .warmData, .hotData]
    | .warmData => [.warmData, .hotData]
    | _ => [type]

/-- The loop of `get_ssr_segment`: the first log with a victim gives `next_segno`. -/
def firstVictim (sbi : Sbi) (type : CursegType) : List CursegType → State → State × Bool
  | [], state => (state, false)
  | log :: logs, state =>
      match getVictimByDefault sbi log state with
      | (state, none) => firstVictim sbi type logs state
      | (state, some segno) =>
          (state.setCurseg type { state.curseg type with nextSegno := segno }, true)

/-- `get_ssr_segment`. -/
def getSsrSegment (sbi : Sbi) (env : Env) (type : CursegType) (state : State) : State × Bool :=
  firstVictim sbi type (ssrLogs sbi env state type) state

/-! ## Segment allocation -/

/-- `allocate_segment_by_default`; with `F2FS_DA_MAP` the branch for slack space recycling is not
compiled. -/
def allocateSegmentByDefault (sbi : Sbi) (env : Env) (type : CursegType) (force : Bool)
    (state : State) : Option State :=
  if force then newCurseg sbi type true state
  else if type = .warmNode then newCurseg sbi type false state
  else if (state.curseg type).allocType = .lfs ∧ isNextSegmentFree sbi state type = true then
    newCurseg sbi type false state
  else if sbi.f2fsDaMap = false ∧ needSsr sbi env state = true then
    match getSsrSegment sbi env type state with
    | (state, true) => changeCurseg sbi type true state
    | (state, false) => newCurseg sbi type false state
  else newCurseg sbi type false state

/-- One round of `allocate_new_segments`. -/
def allocateNewSegment (sbi : Sbi) (env : Env) (type : CursegType) (state : State) :
    Option State :=
  let oldCurseg := (state.curseg type).segno
  (allocateSegmentByDefault sbi env type true state).bind fun state =>
    locateDirtySegment sbi oldCurseg state

/-- `allocate_new_segments`. -/
def allocateNewSegments (sbi : Sbi) (env : Env) (state : State) : Option State :=
  (allocateNewSegment sbi env .hotData state).bind fun state =>
    (allocateNewSegment sbi env .warmData state).bind fun state =>
      allocateNewSegment sbi env .coldData state

/-! ## Blocks -/

/-- `refresh_sit_entry`. -/
def refreshSitEntry (sbi : Sbi) (mtime old new : Nat) (state : State) : Option State :=
  (updateSitEntry sbi mtime new 1 state).bind fun state =>
    (if sbi.getSegno old ≠ nullSegno then updateSitEntry sbi mtime old (-1) state
      else some state).bind fun state =>
        (locateDirtySegment sbi (sbi.getSegno old) state).bind fun state =>
          locateDirtySegment sbi (sbi.getSegno new) state

/-- `invalidate_blocks`. -/
def invalidateBlocks (sbi : Sbi) (mtime addr : Nat) (state : State) : Option State :=
  let warned := bugOn .invalidateBlocks (decide (addr = nullAddr)) state
  if addr = newAddr then some warned
  else
    (updateSitEntry sbi mtime addr (-1) warned).bind fun state =>
      locateDirtySegment sbi (sbi.getSegno addr) state

/-- `__add_sum_entry`. -/
def addSumEntry (type : CursegType) (sum : Summary) (state : State) : State :=
  let curseg := state.curseg type
  state.setCurseg type
    { curseg with
      sumBlk :=
        { curseg.sumBlk with
          entries := Function.update curseg.sumBlk.entries curseg.nextBlkoff sum } }

/-- What an allocation returns: the new address and, for the page of a node, the address of the next
block of the log, which goes into the footer of the page. -/
structure Allocation where
  newBlkaddr : Nat
  footerBlkaddr : Option Nat
  deriving DecidableEq, Repr

/-- The tail of both allocation functions. -/
def allocation (sbi : Sbi) (page : Bool) (type : CursegType) (newBlkaddr : Nat) (state : State) :
    State × Allocation :=
  (state, ⟨newBlkaddr,
    if page && type.isNodeseg then some (nextFreeBlkaddr sbi state type) else none⟩)

/-- `allocate_data_block`. -/
def allocateDataBlock (sbi : Sbi) (env : Env) (page : Bool) (oldBlkaddr : Nat) (sum : Summary)
    (type : CursegType) (state : State) : Option (State × Allocation) :=
  let newBlkaddr := nextFreeBlkaddr sbi state type
  let refreshed := refreshNextBlkoff sbi type (addSumEntry type sum state)
  (if hasCursegSpace sbi refreshed type then some refreshed
    else allocateSegmentByDefault sbi env type false refreshed).bind fun state =>
      (refreshSitEntry sbi env.mtime oldBlkaddr newBlkaddr state).map
        (allocation sbi page type newBlkaddr)

/-- `allocate_dummy_data_block`. -/
def allocateDummyDataBlock (sbi : Sbi) (env : Env) (page : Bool) (type : CursegType)
    (state : State) : Option (State × Allocation) :=
  let newBlkaddr := nextFreeBlkaddr sbi state type
  (if hasCursegSpace sbi state type then some state
    else allocateSegmentByDefault sbi env type false state).bind fun state =>
      (updateSitEntry sbi env.mtime newBlkaddr (-1) state).bind fun state =>
        (locateDirtySegment sbi (sbi.getSegno newBlkaddr) state).map
          (allocation sbi page type newBlkaddr)

/-- The log `recover_data_page` puts a block into. -/
def recoveryLog (sbi : Sbi) (oldBlkaddr newBlkaddr : Nat) (state : State) : Option CursegType :=
  let segno := sbi.getSegno newBlkaddr
  let se := state.sit.sentries segno
  if sbi.mainSegments ≤ segno then none
  else if se.validBlocks = 0 ∧ isCurseg state segno = false then
    if oldBlkaddr = nullAddr then some .coldData else some .warmData
  else CursegType.ofNat? se.type

/-- `recover_data_page`. -/
def recoverDataPage (sbi : Sbi) (mtime : Nat) (sum : Summary) (oldBlkaddr newBlkaddr : Nat)
    (state : State) : Option State :=
  let segno := sbi.getSegno newBlkaddr
  (recoveryLog sbi oldBlkaddr newBlkaddr state).bind fun type =>
    let oldCursegno := (state.curseg type).segno
    (if segno ≠ oldCursegno then
        changeCurseg sbi type true
          (state.setCurseg type { state.curseg type with nextSegno := segno })
      else some state).bind fun state =>
        let placed := state.setCurseg type
          { state.curseg type with nextBlkoff := sbi.getBlkoffFromSeg0 newBlkaddr }
        (refreshSitEntry sbi mtime oldBlkaddr newBlkaddr (addSumEntry type sum placed)).bind
          fun state => locateDirtySegment sbi oldCursegno state

end F2fs
end StorageStack
