import StorageStack.F2fs.SegmentState

/-!
# The node manager

The node address table and the list of free node numbers.  An entry of the table is in the cache, in
the journal of the hot data log or in the current copy of its NAT block; the list of free numbers is
filled from the NAT blocks and corrected from the journal and the cache.
-/

namespace StorageStack
namespace F2fs

/-- `NAT_ENTRY_PER_BLOCK`. -/
def natEntryPerBlock : Nat := 455

/-- `NAT_JOURNAL_ENTRIES`. -/
def natJournalEntries : Nat := 38

/-- `FREE_NID_PAGES`. -/
def freeNidPages : Nat := 4

/-- `F2FS_RESERVED_NODE_NUM`. -/
def f2fsReservedNodeNum : Nat := 3

/-- `struct f2fs_nat_entry`. -/
structure RawNat where
  version : UInt8
  ino : Nat
  blockAddr : Nat
  deriving DecidableEq, Repr

/-- `struct node_info`. -/
structure NodeInfo where
  nid : Nat
  ino : Nat
  blkAddr : Nat
  version : UInt8
  deriving DecidableEq, Repr

/-- `node_info_from_raw_nat`. -/
def nodeInfoFromRawNat (nid : Nat) (raw : RawNat) : NodeInfo :=
  ⟨nid, raw.ino, raw.blockAddr, raw.version⟩

/-- `raw_nat_from_node_info`. -/
def rawNatFromNodeInfo (ni : NodeInfo) : RawNat := ⟨ni.version, ni.ino, ni.blkAddr⟩

@[simp] theorem rawNatFromNodeInfo_fromRaw (nid : Nat) (raw : RawNat) :
    rawNatFromNodeInfo (nodeInfoFromRawNat nid raw) = raw := rfl

/-- `struct nat_entry` with the bits of its `flag`. -/
structure NatEntry where
  ni : NodeInfo
  isCheckpointed : Bool
  hasFsyncedInode : Bool
  hasLastFsync : Bool
  isDirty : Bool
  deriving DecidableEq, Repr

/-- `nat_reset_flag`. -/
def natResetFlag (entry : NatEntry) : NatEntry :=
  { entry with isCheckpointed := true, hasFsyncedInode := false, hasLastFsync := true }

/-- `struct nat_entry_set`. -/
structure NatEntrySet where
  set : Nat
  /-- The node numbers on `entry_list`. -/
  entryList : List Nat
  entryCnt : Nat
  deriving DecidableEq, Repr

/-- The cached entries of `struct f2fs_nm_info`. -/
structure NatCache where
  natRoot : Nat → Option NatEntry
  /-- The node numbers on the list of clean entries. -/
  natEntries : List Nat
  natSetRoot : Nat → Option NatEntrySet
  natCnt : Nat
  dirtyNatCnt : Nat

/-- `struct nat_journal_entry`. -/
structure NatJournalEntry where
  nid : Nat
  ne : RawNat
  deriving DecidableEq, Repr

/-- The NAT journal in the summary block of the hot data log. -/
structure NatJournal where
  nNats : Nat
  natJ : Nat → NatJournalEntry

/-- The table outside the cache. -/
structure NatStore where
  journal : NatJournal
  /-- The NAT area: block address and offset in the block. -/
  natPages : Nat → Nat → RawNat
  natBitmap : BitMap

/-- `enum nid_state`. -/
inductive NidState where
  | new
  | alloc
  deriving DecidableEq, Repr

/-- `struct free_nid`. -/
structure FreeNid where
  nid : Nat
  state : NidState
  deriving DecidableEq, Repr

/-- The free node numbers of `struct f2fs_nm_info`. -/
structure FreeNidInfo where
  freeNidList : List FreeNid
  fcnt : Nat
  nextScanNid : Nat

/-- `struct f2fs_nm_info`. -/
structure NmInfo where
  cache : NatCache
  store : NatStore
  free : FreeNidInfo
  /-- Set by `f2fs_bug_on`. -/
  needFsck : Bool

/-- `f2fs_bug_on` in the node manager. -/
def NmInfo.bugOn (condition : Bool) (nm : NmInfo) : NmInfo :=
  { nm with needFsck := nm.needFsck || condition }

/-- The fields of the superblock which place the NAT area. -/
structure NatSuper where
  sbi : Sbi
  natBlkaddr : Nat
  /-- Half of `segment_count_nat`. -/
  natSegs : Nat

namespace NatSuper

variable (sup : NatSuper)

/-- The number of NAT blocks, each with two copies. -/
def natBlocks : Nat := sup.natSegs * 2 ^ sup.sbi.logBlocksPerSeg

/-- `max_nid`. -/
def maxNid : Nat := natEntryPerBlock * sup.natBlocks

/-- `available_nids`. -/
def availableNids : Nat := sup.maxNid - f2fsReservedNodeNum

end NatSuper

/-! ## NAT blocks and the journal -/

/-- `NAT_BLOCK_OFFSET`. -/
def natBlockOffset (nid : Nat) : Nat := nid / natEntryPerBlock

/-- `START_NID`. -/
def startNid (nid : Nat) : Nat := nid / natEntryPerBlock * natEntryPerBlock

/-- `current_nat_addr`. -/
def currentNatAddr (sup : NatSuper) (natBitmap : BitMap) (start : Nat) : Nat :=
  let blockOff := natBlockOffset start
  let segOff := blockOff >>> sup.sbi.logBlocksPerSeg
  let blockAddr := sup.natBlkaddr + (segOff <<< sup.sbi.logBlocksPerSeg <<< 1) +
    (blockOff &&& (2 ^ sup.sbi.logBlocksPerSeg - 1))
  if natBitmap blockOff then blockAddr + sup.sbi.blocksPerSeg else blockAddr

/-- `next_nat_addr`. -/
def nextNatAddr (sup : NatSuper) (blockAddr : Nat) : Nat :=
  let offset := blockAddr - sup.natBlkaddr
  (if (offset >>> sup.sbi.logBlocksPerSeg) % 2 = 1 then offset - sup.sbi.blocksPerSeg
    else offset + sup.sbi.blocksPerSeg) + sup.natBlkaddr

/-- `set_to_next_nat`. -/
def setToNextNat (start : Nat) (natBitmap : BitMap) : BitMap :=
  Function.update natBitmap (natBlockOffset start) (!natBitmap (natBlockOffset start))

/-- `get_next_nat_page`: the store and the address of the new copy. -/
def getNextNatPage (sup : NatSuper) (start : Nat) (store : NatStore) : NatStore × Nat :=
  let srcOff := currentNatAddr sup store.natBitmap start
  let dstOff := nextNatAddr sup srcOff
  ({ store with
      natPages := Function.update store.natPages dstOff (store.natPages srcOff)
      natBitmap := setToNextNat start store.natBitmap }, dstOff)

/-- `lookup_journal_in_cursum` for `NAT_JOURNAL` without `alloc`. -/
def lookupNatInCursum (journal : NatJournal) (nid : Nat) : Option Nat :=
  (List.range journal.nNats).find? fun index => (journal.natJ index).nid == nid

/-- `lookup_journal_in_cursum` for `NAT_JOURNAL` with `alloc`. -/
def allocNatInCursum (journal : NatJournal) (nid : Nat) : Option (NatJournal × Nat) :=
  match lookupNatInCursum journal nid with
  | some index => some (journal, index)
  | none =>
      if journal.nNats < natJournalEntries then
        some ({ journal with nNats := journal.nNats + 1 }, journal.nNats)
      else none

/-- `MAX_NAT_JENTRIES`. -/
def maxNatJentries (journal : NatJournal) : Nat := natJournalEntries - journal.nNats

/-- `__has_cursum_space` for `NAT_JOURNAL`. -/
def hasNatSpace (journal : NatJournal) (size : Nat) : Bool := decide (size ≤ maxNatJentries journal)

/-- The raw entry which `get_node_info` reads when the entry is not cached. -/
def NatStore.rawNat (sup : NatSuper) (store : NatStore) (nid : Nat) : RawNat :=
  match lookupNatInCursum store.journal nid with
  | some index => (store.journal.natJ index).ne
  | none => store.natPages (currentNatAddr sup store.natBitmap (startNid nid)) (nid - startNid nid)

/-! ## The cache -/

/-- `grab_nat_entry`. -/
def grabNatEntry (entry : NatEntry) (cache : NatCache) : NatCache :=
  { cache with
    natRoot := Function.update cache.natRoot entry.ni.nid (some entry)
    natEntries := cache.natEntries ++ [entry.ni.nid]
    natCnt := cache.natCnt + 1 }

/-- A new entry with the flags `grab_nat_entry` gives it. -/
def newNatEntry (ni : NodeInfo) : NatEntry := ⟨ni, true, false, true, false⟩

/-- `cache_nat_entry`. -/
def cacheNatEntry (nid : Nat) (raw : RawNat) (cache : NatCache) : NatCache :=
  match cache.natRoot nid with
  | some _ => cache
  | none => grabNatEntry (newNatEntry (nodeInfoFromRawNat nid raw)) cache

/-- Replace a cached entry. -/
def NatCache.setEntry (cache : NatCache) (entry : NatEntry) : NatCache :=
  { cache with natRoot := Function.update cache.natRoot entry.ni.nid (some entry) }

/-- The set of a number, a new one when there is none. -/
def NatCache.setOf (cache : NatCache) (set : Nat) : NatEntrySet :=
  (cache.natSetRoot set).getD ⟨set, [], 0⟩

/-- `__set_nat_cache_dirty`. -/
def setNatCacheDirty (entry : NatEntry) (cache : NatCache) : NatCache :=
  if entry.isDirty then cache
  else
    let set := natBlockOffset entry.ni.nid
    let head := cache.setOf set
    { cache.setEntry { entry with isDirty := true } with
      natEntries := cache.natEntries.erase entry.ni.nid
      natSetRoot := Function.update cache.natSetRoot set (some
        { head with entryList := head.entryList ++ [entry.ni.nid], entryCnt := head.entryCnt + 1 })
      dirtyNatCnt := cache.dirtyNatCnt + 1 }

/-- `__clear_nat_cache_dirty`. -/
def clearNatCacheDirty (entry : NatEntry) (cache : NatCache) : NatCache :=
  let set := natBlockOffset entry.ni.nid
  match cache.natSetRoot set with
  | none => cache
  | some head =>
      { cache.setEntry { entry with isDirty := false } with
        natEntries := cache.natEntries ++ [entry.ni.nid]
        natSetRoot := Function.update cache.natSetRoot set (some
          { head with
            entryList := head.entryList.erase entry.ni.nid
            entryCnt := head.entryCnt - 1 })
        dirtyNatCnt := cache.dirtyNatCnt - 1 }

/-- The entry `set_node_addr` works on, before its address changes. -/
def entryForUpdate (ni : NodeInfo) (newBlkaddr : Nat) (cache : NatCache) : NatCache × NatEntry :=
  match cache.natRoot ni.nid with
  | none => (grabNatEntry (newNatEntry ni) cache, newNatEntry ni)
  | some entry =>
      if newBlkaddr = newAddr then (cache, { entry with ni := ni }) else (cache, entry)

/-- The entry after its address has changed. -/
def NatEntry.withAddr (entry : NatEntry) (newBlkaddr : Nat) : NatEntry :=
  let version :=
    if entry.ni.blkAddr ≠ newAddr ∧ newBlkaddr = nullAddr then entry.ni.version + 1
    else entry.ni.version
  { entry with
    ni := { entry.ni with blkAddr := newBlkaddr, version := version }
    isCheckpointed :=
      if newBlkaddr = newAddr ∨ newBlkaddr = nullAddr then false else entry.isCheckpointed }

/-- The fsync marks `set_node_addr` leaves at the entry of the inode. -/
def markFsync (ni : NodeInfo) (fsyncDone : Bool) (cache : NatCache) : NatCache :=
  match cache.natRoot ni.ino with
  | none => cache
  | some entry =>
      cache.setEntry
        { entry with
          hasFsyncedInode := entry.hasFsyncedInode || (fsyncDone && ni.nid == ni.ino)
          hasLastFsync := fsyncDone }

/-- The sanity checks of `set_node_addr`. -/
def addrCheckFails (ni : NodeInfo) (newBlkaddr : Nat) (cached : Option NatEntry)
    (entry : NatEntry) : Bool :=
  let old := entry.ni.blkAddr
  decide ((cached = none ∧ ni.blkAddr = newAddr) ∨
    (cached ≠ none ∧ newBlkaddr = newAddr ∧ ni.blkAddr ≠ nullAddr) ∨
    old ≠ ni.blkAddr ∨ (old = nullAddr ∧ newBlkaddr = nullAddr) ∨
    (old = newAddr ∧ newBlkaddr = newAddr) ∨
    (old ≠ newAddr ∧ old ≠ nullAddr ∧ newBlkaddr = newAddr))

/-- `set_node_addr`. -/
def setNodeAddr (ni : NodeInfo) (newBlkaddr : Nat) (fsyncDone : Bool) (nm : NmInfo) : NmInfo :=
  let (cache, entry) := entryForUpdate ni newBlkaddr nm.cache
  let changed := entry.withAddr newBlkaddr
  let cache := setNatCacheDirty changed (cache.setEntry changed)
  { nm.bugOn (addrCheckFails ni newBlkaddr (nm.cache.natRoot ni.nid) entry) with
    cache := markFsync ni fsyncDone cache }

/-- `__del_from_nat_cache` of the first clean entry, `nrShrink` times. -/
def shrinkNats : Nat → NatCache → NatCache
  | 0, cache => cache
  | nrShrink + 1, cache =>
      match cache.natEntries with
      | [] => cache
      | nid :: rest =>
          shrinkNats nrShrink
            { cache with
              natRoot := Function.update cache.natRoot nid none
              natEntries := rest
              natCnt := cache.natCnt - 1 }

/-- `try_to_free_nats`; `enough` is what `available_free_memory` answers. -/
def tryToFreeNats (enough : Bool) (nrShrink : Nat) (nm : NmInfo) : NmInfo :=
  if enough then nm else { nm with cache := shrinkNats nrShrink nm.cache }

/-- `get_node_info`. -/
def getNodeInfo (sup : NatSuper) (nid : Nat) (nm : NmInfo) : NodeInfo × NmInfo :=
  match nm.cache.natRoot nid with
  | some entry => (⟨nid, entry.ni.ino, entry.ni.blkAddr, entry.ni.version⟩, nm)
  | none =>
      let raw := nm.store.rawNat sup nid
      (nodeInfoFromRawNat nid raw, { nm with cache := cacheNatEntry nid raw nm.cache })

/-! ## Free node numbers -/

/-- `add_free_nid`: the new list, and whether it found too little memory.  `room` is what
`available_free_memory` answers, by the length of the list. -/
def addFreeNid (room : Nat → Bool) (cache : NatCache) (nid : Nat) (build : Bool)
    (free : FreeNidInfo) : FreeNidInfo × Bool :=
  if !room free.fcnt then (free, true)
  else if nid = 0 then (free, false)
  else
    let allocated := build && (match cache.natRoot nid with
      | some entry => !entry.isCheckpointed || entry.ni.blkAddr != nullAddr
      | none => false)
    if allocated then (free, false)
    else if free.freeNidList.any fun i => i.nid == nid then (free, false)
    else
      ({ free with
          freeNidList := free.freeNidList ++ [⟨nid, .new⟩]
          fcnt := free.fcnt + 1 }, false)

/-- `remove_free_nid`. -/
def removeFreeNid (nid : Nat) (free : FreeNidInfo) : FreeNidInfo :=
  if ⟨nid, .new⟩ ∈ free.freeNidList then
    { free with freeNidList := free.freeNidList.erase ⟨nid, .new⟩, fcnt := free.fcnt - 1 }
  else free

/-- `scan_nat_page` of the last `count` entries of a page. -/
def scanNatPage (sup : NatSuper) (room : Nat → Bool) (cache : NatCache) (page : Nat → RawNat) :
    (count start : Nat) → FreeNidInfo × Bool → FreeNidInfo × Bool
  | 0, _, scan => scan
  | count + 1, start, (free, bug) =>
      if sup.maxNid ≤ start then (free, bug)
      else
        let blkAddr := (page (natEntryPerBlock - (count + 1))).blockAddr
        let bug := bug || blkAddr == newAddr
        if blkAddr = nullAddr then
          let (free, failed) := addFreeNid room cache start true free
          if failed then (free, bug)
          else scanNatPage sup room cache page count (start + 1) (free, bug)
        else scanNatPage sup room cache page count (start + 1) (free, bug)

/-- The loop over NAT pages in `build_free_nids`: the next node number, the list and whether a check
has failed. -/
def scanNatPages (sup : NatSuper) (room : Nat → Bool) (nm : NmInfo) :
    (pages nid : Nat) → FreeNidInfo × Bool → Nat × FreeNidInfo × Bool
  | 0, nid, scan => (nid, scan)
  | pages + 1, nid, scan =>
      let page := nm.store.natPages (currentNatAddr sup nm.store.natBitmap nid)
      let scan := scanNatPage sup room nm.cache page
        (natEntryPerBlock - nid % natEntryPerBlock) nid scan
      let next := nid + (natEntryPerBlock - nid % natEntryPerBlock)
      scanNatPages sup room nm pages (if sup.maxNid ≤ next then 0 else next) scan

/-- The correction from one journal entry in `build_free_nids`. -/
def correctFromJournal (room : Nat → Bool) (nm : NmInfo) (free : FreeNidInfo) (index : Nat) :
    FreeNidInfo :=
  let slot := nm.store.journal.natJ index
  if slot.ne.blockAddr = nullAddr then (addFreeNid room nm.cache slot.nid true free).1
  else removeFreeNid slot.nid free

/-- `build_free_nids`. -/
def buildFreeNids (sup : NatSuper) (room : Nat → Bool) (nm : NmInfo) : NmInfo :=
  if natEntryPerBlock < nm.free.fcnt then nm
  else
    let (nid, free, bug) :=
      scanNatPages sup room nm (freeNidPages + 1) nm.free.nextScanNid (nm.free, false)
    let scanned := { free with nextScanNid := nid }
    { nm.bugOn bug with
      free := (List.range nm.store.journal.nNats).foldl (correctFromJournal room nm) scanned }

/-- The first `NID_NEW` element of the list becomes `NID_ALLOC`. -/
def takeFreeNid : List FreeNid → Option (Nat × List FreeNid)
  | [] => none
  | i :: rest =>
      if i.state = .new then some (i.nid, ⟨i.nid, .alloc⟩ :: rest)
      else (takeFreeNid rest).map fun (nid, rest) => (nid, i :: rest)

/-- `alloc_nid` with at most `fuel` rounds: the number, if there is one left, or no result when the
search goes on. -/
def allocNid (sup : NatSuper) (room : Nat → Bool) (totalValidNodeCount : Nat) :
    (fuel : Nat) → NmInfo → Option (Option Nat × NmInfo)
  | 0, _ => none
  | fuel + 1, nm =>
      if sup.availableNids < totalValidNodeCount + 1 then some (none, nm)
      else if 0 < nm.free.fcnt then
        (takeFreeNid nm.free.freeNidList).map fun (nid, list) =>
          (some nid, { nm with free := { nm.free with
            freeNidList := list
            fcnt := nm.free.fcnt - 1 } })
      else allocNid sup room totalValidNodeCount fuel (buildFreeNids sup room nm)

/-- The list element of a number, which the radix tree finds. -/
def lookupFreeNid (free : FreeNidInfo) (nid : Nat) : Option FreeNid :=
  free.freeNidList.find? fun i => i.nid == nid

/-- `alloc_nid_done`.  Without an element it follows a null pointer and has no result. -/
def allocNidDone (nid : Nat) (nm : NmInfo) : Option NmInfo :=
  (lookupFreeNid nm.free nid).map fun i =>
    { nm.bugOn (i.state != .alloc) with
      free := { nm.free with freeNidList := nm.free.freeNidList.erase i } }

/-- `alloc_nid_failed`. -/
def allocNidFailed (room : Nat → Bool) (nid : Nat) (nm : NmInfo) : Option NmInfo :=
  if nid = 0 then some nm
  else
    (lookupFreeNid nm.free nid).map fun i =>
      let free :=
        if !room nm.free.fcnt then { nm.free with freeNidList := nm.free.freeNidList.erase i }
        else
          { nm.free with
            freeNidList := nm.free.freeNidList.map fun j => if j.nid = nid then ⟨nid, .new⟩ else j
            fcnt := nm.free.fcnt + 1 }
      { nm.bugOn (i.state != .alloc) with free := free }

/-! ## Writing the table -/

/-- One round of `remove_nats_in_journal`. -/
def removeNatInJournal (store : NatStore) (cache : NatCache) (index : Nat) : NatCache :=
  let slot := store.journal.natJ index
  match cache.natRoot slot.nid with
  | some entry => setNatCacheDirty entry cache
  | none =>
      let entry := newNatEntry (nodeInfoFromRawNat slot.nid slot.ne)
      setNatCacheDirty entry (grabNatEntry entry cache)

/-- `remove_nats_in_journal`. -/
def removeNatsInJournal (nm : NmInfo) : NmInfo :=
  { nm with
    cache := (List.range nm.store.journal.nNats).foldl (removeNatInJournal nm.store) nm.cache
    store := { nm.store with journal := { nm.store.journal with nNats := 0 } } }

/-- The loop of `__adjust_nat_entry_set`. -/
def insertNatEntrySet (nes : NatEntrySet) : List NatEntrySet → List NatEntrySet
  | [] => [nes]
  | cur :: rest =>
      if nes.entryCnt ≤ cur.entryCnt then nes :: cur :: rest
      else cur :: insertNatEntrySet nes rest

/-- `__adjust_nat_entry_set`. -/
def adjustNatEntrySet (max : Nat) (head : List NatEntrySet) (nes : NatEntrySet) :
    List NatEntrySet :=
  if max ≤ nes.entryCnt then head ++ [nes] else insertNatEntrySet nes head

/-- Where `__flush_nat_entry_set` writes: the journal, or the NAT block with an address. -/
inductive NatTarget where
  | journal
  | page (address start : Nat)
  deriving DecidableEq, Repr

/-- The raw entry of one node.  A journal without a slot for it leaves no place to write to. -/
def writeRawNat (target : NatTarget) (ni : NodeInfo) (store : NatStore) : Option NatStore :=
  match target with
  | .journal =>
      (allocNatInCursum store.journal ni.nid).map fun (journal, offset) =>
        { store with
          journal := { journal with
            natJ := Function.update journal.natJ offset ⟨ni.nid, rawNatFromNodeInfo ni⟩ } }
  | .page address start =>
      some { store with
        natPages := Function.update store.natPages address
          (Function.update (store.natPages address) (ni.nid - start) (rawNatFromNodeInfo ni)) }

/-- One round of the loop in `__flush_nat_entry_set`. -/
def flushNatEntry (room : Nat → Bool) (target : NatTarget) (nm : NmInfo) (nid : Nat) :
    Option NmInfo :=
  (nm.cache.natRoot nid).bind fun entry =>
    if entry.ni.blkAddr = newAddr then some nm
    else
      (writeRawNat target entry.ni nm.store).map fun store =>
        let cache := clearNatCacheDirty (natResetFlag entry) nm.cache
        let free :=
          if entry.ni.blkAddr = nullAddr then (addFreeNid room cache nid false nm.free).1
          else nm.free
        { nm with cache := cache, store := store, free := free }

/-- Delete an empty set. -/
def dropEmptySet (set : Nat) (cache : NatCache) : NatCache :=
  if (cache.setOf set).entryCnt = 0 then
    { cache with natSetRoot := Function.update cache.natSetRoot set none }
  else cache

/-- `__flush_nat_entry_set`. -/
def flushNatEntrySet (sup : NatSuper) (room : Nat → Bool) (nm : NmInfo) (set : Nat) :
    Option NmInfo :=
  let head := nm.cache.setOf set
  let start := set * natEntryPerBlock
  let opened : NmInfo × NatTarget :=
    if hasNatSpace nm.store.journal head.entryCnt then (nm, .journal)
    else
      let (store, address) := getNextNatPage sup start nm.store
      ({ nm with store := store }, .page address start)
  (head.entryList.foldlM (flushNatEntry room opened.2) opened.1).map fun nm =>
    { nm with cache := dropEmptySet set nm.cache }

/-- The sets in the order in which `flush_nat_entries` writes them. -/
def setsToFlush (sup : NatSuper) (nm : NmInfo) : List NatEntrySet :=
  ((List.range sup.natBlocks).filterMap nm.cache.natSetRoot).foldl
    (adjustNatEntrySet (maxNatJentries nm.store.journal)) []

/-- `flush_nat_entries`. -/
def flushNatEntries (sup : NatSuper) (room : Nat → Bool) (nm : NmInfo) : Option NmInfo :=
  let nm :=
    if hasNatSpace nm.store.journal nm.cache.dirtyNatCnt then nm else removeNatsInJournal nm
  if nm.cache.dirtyNatCnt = 0 then some nm
  else
    (((setsToFlush sup nm).map NatEntrySet.set).foldlM (flushNatEntrySet sup room) nm).map fun nm =>
      nm.bugOn (nm.cache.dirtyNatCnt != 0)

end F2fs
end StorageStack
