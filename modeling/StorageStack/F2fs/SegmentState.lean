import StorageStack.BitMap
import StorageStack.F2fs.Geometry

/-!
# The state of the segment manager

The in-memory structures of `segment.h` and the meta blocks the segment manager writes.  Arrays are
functions of their index; an access outside the array of the source, like every other access the
kernel does not survive, is a step without result.
-/

namespace StorageStack
namespace F2fs

/-- The six logs `CURSEG_XXX`. -/
inductive CursegType where
  | hotData
  | warmData
  | coldData
  | hotNode
  | warmNode
  | coldNode
  deriving DecidableEq, Repr

namespace CursegType

/-- The number of a log. -/
def toNat : CursegType → Nat
  | hotData => 0
  | warmData => 1
  | coldData => 2
  | hotNode => 3
  | warmNode => 4
  | coldNode => 5

/-- The log with a given number. -/
def ofNat? : Nat → Option CursegType
  | 0 => some hotData
  | 1 => some warmData
  | 2 => some coldData
  | 3 => some hotNode
  | 4 => some warmNode
  | 5 => some coldNode
  | _ => none

/-- `IS_DATASEG`. -/
def isDataseg : CursegType → Bool
  | hotData | warmData | coldData => true
  | hotNode | warmNode | coldNode => false

/-- `IS_NODESEG`. -/
def isNodeseg (type : CursegType) : Bool := !type.isDataseg

/-- The logs in the order of their numbers. -/
def all : List CursegType := [hotData, warmData, coldData, hotNode, warmNode, coldNode]

@[simp] theorem ofNat?_toNat (type : CursegType) : ofNat? type.toNat = some type := by
  cases type <;> rfl

@[simp] theorem mem_all (type : CursegType) : type ∈ all := by
  cases type <;> simp [all]

theorem toNat_injective {left right : CursegType} (equal : left.toNat = right.toNat) :
    left = right := by
  have same := congrArg ofNat? equal
  simpa using same

end CursegType

/-- `enum dirty_type`: the dirty list of a log, `DIRTY` and `PRE`. -/
inductive DirtyType where
  | log (type : CursegType)
  | dirty
  | pre
  deriving DecidableEq, Repr

/-- The dirty list with a given number. -/
def DirtyType.ofNat? : Nat → Option DirtyType
  | 6 => some dirty
  | 7 => some pre
  | number => (CursegType.ofNat? number).map log

@[simp] theorem DirtyType.ofNat?_toNat (type : CursegType) :
    DirtyType.ofNat? type.toNat = some (.log type) := by
  cases type <;> rfl

/-- The allocation modes of a log. -/
inductive AllocType where
  | lfs
  | ssr
  deriving DecidableEq, Repr

/-- `ALLOC_RIGHT` and `ALLOC_LEFT`. -/
inductive AllocDir where
  | right
  | left
  deriving DecidableEq, Repr

/-- `struct seg_entry`. -/
structure SegEntry where
  validBlocks : Nat
  curValidMap : BitMap
  ckptValidBlocks : Nat
  ckptValidMap : BitMap
  /-- Number of the log the segment belongs to. -/
  type : Nat
  mtime : Nat

/-- `struct f2fs_sit_entry`. -/
structure RawSit where
  /-- Type and valid blocks packed by `SIT_VBLOCKS_SHIFT`. -/
  vblocks : Nat
  validMap : BitMap
  mtime : Nat

/-- `struct sit_journal_entry`. -/
structure SitJournalEntry where
  segno : Nat
  se : RawSit

/-- `struct f2fs_summary`. -/
structure Summary where
  nid : Nat
  version : Nat
  ofsInNode : Nat
  deriving DecidableEq, Repr

/-- `SUM_TYPE_XXX`. -/
inductive SumType where
  | data
  | node
  deriving DecidableEq, Repr

/-- `struct f2fs_summary_block`; its journal is the SIT journal, the only one used here. -/
structure SummaryBlock where
  entries : Nat → Summary
  /-- `n_sits`. -/
  nSits : Nat
  /-- `sit_j`. -/
  sitJournal : Nat → SitJournalEntry
  /-- `footer.entry_type`. -/
  entryType : SumType

/-- `struct sit_info`. -/
structure SitInfo where
  sentries : Nat → SegEntry
  /-- `valid_blocks` of the section entries. -/
  secEntries : Nat → Nat
  dirtySentriesBitmap : BitMap
  dirtySentries : Nat
  writtenValidBlocks : Nat
  maxMtime : Nat
  sitBitmap : BitMap

/-- `struct free_segmap_info`. -/
structure FreeSegmap where
  freeSegments : Nat
  freeSections : Nat
  /-- A set bit is a segment in use. -/
  freeSegmap : BitMap
  /-- A set bit is a section with a segment in use. -/
  freeSecmap : BitMap

/-- `struct dirty_seglist_info`. -/
structure DirtySeglist where
  dirtySegmap : DirtyType → BitMap
  nrDirty : DirtyType → Nat
  victimSecmap : BitMap

/-- `struct curseg_info`. -/
structure Curseg where
  sumBlk : SummaryBlock
  allocType : AllocType
  segno : Nat
  nextBlkoff : Nat
  zone : Nat
  nextSegno : Nat

/-- `struct discard_entry`. -/
structure DiscardEntry where
  blkaddr : Nat
  len : Nat
  deriving DecidableEq, Repr

/-- The functions whose `f2fs_bug_on` leaves a warning in the kernel log. -/
inductive BugSite where
  | updateSitEntry
  | invalidateBlocks
  | locateDirtySegment
  | getNewSegment
  | flushSitEntries
  | initDirtySegmap
  deriving DecidableEq, Repr

/-- The segment manager. -/
structure State where
  sit : SitInfo
  free : FreeSegmap
  dirty : DirtySeglist
  curseg : CursegType → Curseg
  /-- The summary area, by segment. -/
  sumPages : Nat → SummaryBlock
  /-- The SIT area: block address and offset in the block. -/
  sitPages : Nat → Nat → RawSit
  discardList : List DiscardEntry
  nrDiscards : Nat
  /-- Arguments of `f2fs_issue_discard`, oldest first. -/
  issuedDiscards : List DiscardEntry
  /-- `last_victim[GC_GREEDY]`. -/
  lastVictim : Nat
  curVictimSec : Nat
  porDoing : Bool
  needFsck : Bool
  /-- Warnings of `f2fs_bug_on`, oldest first. -/
  warnings : List BugSite

/-- `f2fs_bug_on` as it is built without `CONFIG_F2FS_CHECK_FS`: warn and continue. -/
def bugOn (site : BugSite) (condition : Bool) (state : State) : State :=
  if condition then
    { state with needFsck := true, warnings := state.warnings ++ [site] }
  else state

/-- `IS_CURSEG`. -/
def isCurseg (state : State) (segno : Nat) : Bool :=
  CursegType.all.any fun type => segno == (state.curseg type).segno

/-- `IS_CURSEC`. -/
def isCursec (sbi : Sbi) (state : State) (secno : Nat) : Bool :=
  CursegType.all.any fun type => secno == (state.curseg type).segno / sbi.segsPerSec

/-- `sec_usage_check`. -/
def secUsageCheck (sbi : Sbi) (state : State) (secno : Nat) : Bool :=
  isCursec sbi state secno || state.curVictimSec == secno

/-- `NEXT_FREE_BLKADDR`. -/
def nextFreeBlkaddr (sbi : Sbi) (state : State) (type : CursegType) : Nat :=
  sbi.startBlock (state.curseg type).segno + (state.curseg type).nextBlkoff

/-- `get_valid_blocks`. -/
def getValidBlocks (sbi : Sbi) (state : State) (segno sections : Nat) : Nat :=
  if 1 < sections then state.sit.secEntries (sbi.getSecno segno)
  else (state.sit.sentries segno).validBlocks

/-- Replace the current segment of one log. -/
def State.setCurseg (state : State) (type : CursegType) (curseg : Curseg) : State :=
  { state with curseg := Function.update state.curseg type curseg }

theorem isCurseg_iff {state : State} {segno : Nat} :
    isCurseg state segno = true ↔ ∃ type, segno = (state.curseg type).segno := by
  simp [isCurseg, List.any_eq_true]

theorem isCurseg_eq_false_iff {state : State} {segno : Nat} :
    isCurseg state segno = false ↔ ∀ type, segno ≠ (state.curseg type).segno := by
  rw [← Bool.not_eq_true, isCurseg_iff, not_exists]

@[simp] theorem setCurseg_self (state : State) (type : CursegType) (curseg : Curseg) :
    (state.setCurseg type curseg).curseg type = curseg := by
  simp [State.setCurseg]

theorem setCurseg_of_ne {state : State} {type other : CursegType} {curseg : Curseg}
    (ne : other ≠ type) : (state.setCurseg type curseg).curseg other = state.curseg other := by
  simp [State.setCurseg, ne]

end F2fs
end StorageStack
