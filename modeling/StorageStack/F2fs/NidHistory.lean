import StorageStack.F2fs.FreeNids
import StorageStack.F2fs.NatHistory

/-!
# Histories of node numbers

Numbers are allocated, get nodes, lose them and are found again by scans and flushes.  A number that
is given out has no node, and nobody else holds it.
-/

namespace StorageStack
namespace F2fs

variable {sup : NatSuper}

/-- The node manager, the numbers which `alloc_nid` has given out and neither `alloc_nid_done` nor
`alloc_nid_failed` has settled, and those whose nodes have gone since the last flush and which
`alloc_nid_failed` has not put back. -/
structure NidWorld where
  nm : NmInfo
  outstanding : Finset Nat
  freed : Finset Nat

/-- The operations on node numbers and on the table. -/
inductive NidOperation where
  | nat (operation : NatOperation)
  | buildFreeNids (room : Nat → Bool)
  | allocNid (room : Nat → Bool) (totalValidNodeCount fuel : Nat)
  | allocNidDone (nid : Nat)
  | allocNidFailed (room : Nat → Bool) (nid : Nat)

/-- The numbers freed since the last flush. -/
def freedAfter (freed : Finset Nat) : NatOperation → Finset Nat
  | .setNodeAddr ni newBlkaddr _ => if newBlkaddr = nullAddr then insert ni.nid freed else freed
  | .flushNatEntries _ => ∅
  | .getNodeInfo _ | .tryToFreeNats _ _ => freed

/-- One operation. -/
def nidStep (sup : NatSuper) (world : NidWorld) : NidOperation → Option NidWorld
  | .nat operation => (natStep sup world.nm operation).map fun nm =>
      ⟨nm, world.outstanding, freedAfter world.freed operation⟩
  | .buildFreeNids room => some { world with nm := buildFreeNids sup room world.nm }
  | .allocNid room totalValidNodeCount fuel =>
      (allocNid sup room totalValidNodeCount fuel world.nm).map fun (result, nm) =>
        ⟨nm, world.outstanding ∪ result.toFinset, world.freed⟩
  | .allocNidDone nid => (allocNidDone nid world.nm).map fun nm =>
      ⟨nm, world.outstanding.erase nid, world.freed⟩
  | .allocNidFailed room nid => (allocNidFailed room nid world.nm).map fun nm =>
      ⟨nm, world.outstanding.erase nid, world.freed.erase nid⟩

/-- The calls in the source: a new node gets a number that is outstanding, only a node that exists
moves or goes, and `alloc_nid_done` and `alloc_nid_failed` settle an outstanding number, the latter
one without a node. -/
def NidAdmitted (sup : NatSuper) (world : NidWorld) : NidOperation → Prop
  | .nat operation => NatAdmitted sup world.nm operation ∧
      ∀ ni newBlkaddr fsyncDone, operation = .setNodeAddr ni newBlkaddr fsyncDone →
        if newBlkaddr = newAddr then ni.nid ∈ world.outstanding
        else (world.nm.rawNat sup ni.nid).blockAddr ≠ nullAddr
  | .allocNidDone nid => nid ∈ world.outstanding
  | .allocNidFailed _ nid => nid = 0 ∨
      (nid ∈ world.outstanding ∧ (world.nm.rawNat sup nid).blockAddr = nullAddr)
  | .buildFreeNids _ | .allocNid _ _ _ => True

/-- A history of operations. -/
inductive NidRun (sup : NatSuper) : NidWorld → List NidOperation → NidWorld → Prop where
  | nil (world : NidWorld) : NidRun sup world [] world
  | cons {world middle last : NidWorld} {operation : NidOperation} {operations : List NidOperation}
      (admitted : NidAdmitted sup world operation) (stepped : nidStep sup world operation = some middle)
      (rest : NidRun sup middle operations last) : NidRun sup world (operation :: operations) last

/-- After a mount nothing is cached and no number is known. -/
structure NidMounted (sup : NatSuper) (world : NidWorld) : Prop where
  nat : NatMounted sup world.nm
  freeNidList : world.nm.free.freeNidList = []
  fcnt : world.nm.free.fcnt = 0
  outstanding : world.outstanding = ∅
  freed : world.freed = ∅

/-! ## The invariant -/

/-- The list of free numbers fits the table. -/
structure NidSound (sup : NatSuper) (world : NidWorld) : Prop where
  nat : NatSound sup world.nm
  free : FreeSound world.nm.free
  alloc : ∀ nid, world.nm.free.ListedAs nid .alloc ↔ nid ∈ world.outstanding
  outstanding : ∀ nid ∈ world.outstanding, nid ≠ 0 ∧ nid < sup.maxNid
  new : ∀ nid, world.nm.free.ListedAs nid .new →
    nid ≠ 0 ∧ sup.Unallocated world.nm nid ∧ nid ∉ world.freed
  /-- The cache remembers the nodes which have gone since the last flush. -/
  freed : ∀ nid ∈ world.freed, (world.nm.rawNat sup nid).blockAddr = nullAddr →
    ∃ ni, world.nm.cache.core nid = some (ni, false, true)

theorem NidMounted.sound {world : NidWorld} (mounted : NidMounted sup world) :
    NidSound sup world where
  nat := mounted.nat.sound
  free := ⟨by rw [mounted.freeNidList]; exact List.nodup_nil,
    by rw [mounted.freeNidList, mounted.fcnt]; rfl⟩
  alloc nid := by simp [FreeNidInfo.ListedAs, mounted.freeNidList, mounted.outstanding]
  outstanding nid member := by simp [mounted.outstanding] at member
  new nid listed := by simp [FreeNidInfo.ListedAs, mounted.freeNidList] at listed
  freed nid member := by simp [mounted.freed] at member

/-- An outstanding number cannot be given out. -/
theorem NidSound.not_new {world : NidWorld} (sound : NidSound sup world) {nid : Nat}
    (outstanding : nid ∈ world.outstanding) : ¬ world.nm.free.ListedAs nid .new :=
  sound.free.not_new ((sound.alloc nid).mpr outstanding)

theorem getNodeInfo_free (nid : Nat) (nm : NmInfo) : (getNodeInfo sup nid nm).2.free = nm.free := by
  unfold getNodeInfo
  cases nm.cache.natRoot nid <;> rfl

theorem tryToFreeNats_free (enough : Bool) (nrShrink : Nat) (nm : NmInfo) :
    (tryToFreeNats enough nrShrink nm).free = nm.free := by
  unfold tryToFreeNats
  split <;> rfl

/-- A step that leaves the map, the list and the nodes which have gone as they are. -/
theorem NidSound.kept {world : NidWorld} (sound : NidSound sup world) {nm : NmInfo}
    (nat : NatSound sup nm) (rawNat : ∀ nid, nm.rawNat sup nid = world.nm.rawNat sup nid)
    (free : nm.free = world.nm.free)
    (core : ∀ nid ni, world.nm.cache.core nid = some (ni, false, true) →
      nm.cache.core nid = some (ni, false, true)) :
    NidSound sup { world with nm := nm } where
  nat := nat
  free := by rw [free]; exact sound.free
  alloc := by rw [free]; exact sound.alloc
  outstanding := sound.outstanding
  new nid listed := by
    change nm.free.ListedAs nid .new at listed
    rw [free] at listed
    obtain ⟨nonzero, unallocated, notFreed⟩ := sound.new nid listed
    exact ⟨nonzero, (unallocated_congr rawNat) ▸ unallocated, notFreed⟩
  freed nid member isNull := by
    change (nm.rawNat sup nid).blockAddr = nullAddr at isNull
    rw [rawNat] at isNull
    obtain ⟨ni, stored⟩ := sound.freed nid member isNull
    exact ⟨ni, core nid ni stored⟩

theorem mem_freedAfter_set {freed : Finset Nat} {ni : NodeInfo} {newBlkaddr nid : Nat}
    {fsyncDone : Bool} : nid ∈ freedAfter freed (.setNodeAddr ni newBlkaddr fsyncDone) ↔
      (newBlkaddr = nullAddr ∧ nid = ni.nid) ∨ nid ∈ freed := by
  rw [freedAfter]
  split
  · next isNull => simp [isNull]
  · next notNull => simp [notNull]

theorem NidSound.setNodeAddr {world : NidWorld} (sound : NidSound sup world) {ni : NodeInfo}
    {newBlkaddr : Nat} {fsyncDone : Bool}
    (admitted : NidAdmitted sup world (.nat (.setNodeAddr ni newBlkaddr fsyncDone))) :
    NidSound sup ⟨setNodeAddr ni newBlkaddr fsyncDone world.nm, world.outstanding,
      freedAfter world.freed (.setNodeAddr ni newBlkaddr fsyncDone)⟩ := by
  obtain ⟨⟨inRange, current⟩, caller⟩ := admitted
  have caller := caller ni newBlkaddr fsyncDone rfl
  have set := setNodeAddr_addrSet sound.nat fsyncDone inRange current
  have address : ((F2fs.setNodeAddr ni newBlkaddr fsyncDone world.nm).rawNat sup ni.nid).blockAddr =
      newBlkaddr := by
    rw [set.rawNat, if_pos rfl]
    rfl
  refine ⟨set.sound, by rw [set.free]; exact sound.free, by rw [set.free]; exact sound.alloc,
    sound.outstanding, ?_, ?_⟩
  · intro nid listed
    dsimp only at listed ⊢
    rw [set.free] at listed
    obtain ⟨nonzero, unallocated, notFreed⟩ := sound.new nid listed
    have ne : nid ≠ ni.nid := by
      rintro rfl
      split at caller
      · exact sound.not_new caller listed
      · exact caller unallocated.2
    refine ⟨nonzero, ⟨unallocated.1, ?_⟩, ?_⟩
    · rw [set.rawNat, if_neg ne]
      exact unallocated.2
    · intro member
      rcases mem_freedAfter_set.mp member with ⟨_, here⟩ | earlier
      · exact ne here
      · exact notFreed earlier
  · intro nid member isNull
    dsimp only at member isNull ⊢
    by_cases here : nid = ni.nid
    · subst here
      rw [address] at isNull
      obtain ⟨info, checkpointed, stored, unchecked⟩ := set.here
      rw [unchecked (.inr isNull)] at stored
      exact ⟨info, stored⟩
    · rw [set.rawNat, if_neg here] at isNull
      have earlier : nid ∈ world.freed :=
        (mem_freedAfter_set.mp member).resolve_left fun gone => here gone.2
      obtain ⟨info, stored⟩ := sound.freed nid earlier isNull
      exact ⟨info, (set.core nid here).trans stored⟩

theorem NidSound.nat_step {world next : NidWorld} (sound : NidSound sup world)
    {operation : NatOperation} (admitted : NidAdmitted sup world (.nat operation))
    (stepped : nidStep sup world (.nat operation) = some next) : NidSound sup next := by
  obtain ⟨nm, step, rfl⟩ := Option.map_eq_some_iff.mp stepped
  cases operation with
  | getNodeInfo nid =>
      cases step
      have looked := getNodeInfo_lookedUp sound.nat nid
      exact sound.kept looked.sound looked.rawNat (getNodeInfo_free nid world.nm)
        fun other ni stored => looked.cached other _ stored
  | setNodeAddr ni newBlkaddr fsyncDone =>
      cases step
      exact sound.setNodeAddr admitted
  | tryToFreeNats enough nrShrink =>
      cases step
      have shrunk := tryToFreeNats_shrunk sound.nat enough nrShrink
      apply sound.kept shrunk.sound shrunk.rawNat (tryToFreeNats_free enough nrShrink world.nm)
      intro nid ni stored
      have same := shrunk.dirty nid (dirtyAt_iff_core.mpr ⟨ni, false, stored⟩)
      rw [NatCache.core, same]
      exact stored
  | flushNatEntries room =>
      obtain ⟨_, flush, flushed⟩ := flushNatEntries_natFlushed room sound.nat
      have same := step.symm.trans flush
      cases same
      have grown := flushed.free.changed
      refine ⟨flushed.sound, grown.sound sound.free, ?_, sound.outstanding, ?_, ?_⟩
      · intro nid
        exact (grown.alloc nid).trans (sound.alloc nid)
      · intro nid listed
        have unallocated : nid ≠ 0 ∧ sup.Unallocated world.nm nid := by
          rcases grown.new nid listed with earlier | added
          · exact ⟨(sound.new nid earlier).1, (sound.new nid earlier).2.1⟩
          · exact added
        exact ⟨unallocated.1, (unallocated_congr flushed.rawNat) ▸ unallocated.2,
          Finset.notMem_empty nid⟩
      · intro nid member
        exact absurd member (Finset.notMem_empty nid)

theorem NidSound.build {world : NidWorld} {nm : NmInfo} (sound : NidSound sup world)
    (built : FreeBuilt sup world.nm nm) : NidSound sup { world with nm := nm } := by
  have rawNat (nid : Nat) : nm.rawNat sup nid = world.nm.rawNat sup nid := by
    rw [NmInfo.rawNat, NmInfo.rawNat, built.cache, built.store]
  have nat : NatSound sup nm :=
    ⟨built.cache ▸ sound.nat.cache, built.store ▸ sound.nat.journal, built.store ▸ sound.nat.inRange,
      by rw [built.cache, built.store]; exact sound.nat.clean⟩
  refine ⟨nat, built.sound sound.free, fun nid => (built.alloc nid).trans (sound.alloc nid),
    sound.outstanding, ?_, ?_⟩
  · intro nid listed
    dsimp only
    rw [unallocated_congr rawNat]
    rcases built.new sound.free nid listed with earlier | available
    · exact sound.new nid earlier
    · refine ⟨available.nonzero, available.unallocated, ?_⟩
      -- a node that has gone since the last flush is cached without the checkpointed flag
      intro freed
      obtain ⟨ni, stored⟩ := sound.freed nid freed available.unallocated.2
      exact absurd (available.admitted ni false true stored).1 Bool.false_ne_true
  · intro nid member isNull
    dsimp only at isNull ⊢
    rw [rawNat] at isNull
    rw [built.cache]
    exact sound.freed nid member isNull

/-- A number has moved from one state to another. -/
theorem NidSound.moved {world : NidWorld} {nm : NmInfo} {nid : Nat} {state : Option NidState}
    {outstanding freed : Finset Nat} (sound : NidSound sup world) (cache : nm.cache = world.nm.cache)
    (store : nm.store = world.nm.store) (moved : FreeMoved nid state world.nm.free nm.free)
    (others : ∀ other, other ≠ nid → (other ∈ outstanding ↔ other ∈ world.outstanding))
    (here : nid ∈ outstanding ↔ state = some .alloc) (fewer : freed ⊆ world.freed)
    (able : state ≠ none → nid ≠ 0 ∧ nid < sup.maxNid)
    (unused : state = some .new → (world.nm.rawNat sup nid).blockAddr = nullAddr ∧ nid ∉ freed) :
    NidSound sup ⟨nm, outstanding, freed⟩ := by
  have rawNat (nid : Nat) : nm.rawNat sup nid = world.nm.rawNat sup nid := by
    rw [NmInfo.rawNat, NmInfo.rawNat, cache, store]
  have nat : NatSound sup nm :=
    ⟨cache ▸ sound.nat.cache, store ▸ sound.nat.journal, store ▸ sound.nat.inRange,
      by rw [cache, store]; exact sound.nat.clean⟩
  refine ⟨nat, moved.sound, ?_, ?_, ?_, ?_⟩
  · intro other
    by_cases same : other = nid
    · subst same
      exact (moved.here .alloc).trans here.symm
    · rw [others other same]
      exact (moved.others other same .alloc).trans (sound.alloc other)
  · intro other member
    by_cases same : other = nid
    · subst same
      exact able (by rw [here.mp member]; exact Option.some_ne_none _)
    · exact sound.outstanding other ((others other same).mp member)
  · intro other listed
    dsimp only
    rw [unallocated_congr rawNat]
    by_cases same : other = nid
    · subst same
      have isNew := (moved.here .new).mp listed
      obtain ⟨nonzero, inRange⟩ := able (by rw [isNew]; exact Option.some_ne_none _)
      exact ⟨nonzero, ⟨inRange, (unused isNew).1⟩, (unused isNew).2⟩
    · obtain ⟨nonzero, unallocated, notFreed⟩ :=
        sound.new other ((moved.others other same .new).mp listed)
      exact ⟨nonzero, unallocated, fun member => notFreed (fewer member)⟩
  · intro other member isNull
    dsimp only at isNull ⊢
    rw [rawNat] at isNull
    rw [cache]
    exact sound.freed other (fewer member) isNull

/-! ## Steps and runs -/

/-- A number which nobody holds and whose node is not there. -/
structure NidFresh (sup : NatSuper) (world : NidWorld) (nid : Nat) : Prop where
  nonzero : nid ≠ 0
  inRange : nid < sup.maxNid
  unallocated : (world.nm.rawNat sup nid).blockAddr = nullAddr
  notOutstanding : nid ∉ world.outstanding
  notFreed : nid ∉ world.freed

theorem NidSound.alloc_step {world : NidWorld} {nm : NmInfo} {result : Option Nat}
    (sound : NidSound sup world) {room : Nat → Bool} {totalValidNodeCount fuel : Nat}
    (run : allocNid sup room totalValidNodeCount fuel world.nm = some (result, nm)) :
    NidSound sup ⟨nm, world.outstanding ∪ result.toFinset, world.freed⟩ ∧
      ∀ nid, result = some nid → NidFresh sup world nid := by
  obtain ⟨middle, built, cache, store, none', some'⟩ := 
    allocNid_spec sound.nat sound.free room totalValidNodeCount fuel run
  have soundMiddle := sound.build built
  cases result with
  | none =>
      constructor
      · rw [Option.toFinset_none, Finset.union_empty]
        apply soundMiddle.kept _ _ (none' rfl)
        · intro nid ni stored
          rw [cache]
          exact stored
        · exact ⟨cache ▸ soundMiddle.nat.cache, store ▸ soundMiddle.nat.journal,
            store ▸ soundMiddle.nat.inRange, by rw [cache, store]; exact soundMiddle.nat.clean⟩
        · intro nid
          rw [NmInfo.rawNat, NmInfo.rawNat, cache, store]
      · intro nid impossible
        cases impossible
  | some nid =>
      obtain ⟨listed, moved⟩ := some' nid rfl
      obtain ⟨nonzero, unallocated, notFreed⟩ := soundMiddle.new nid listed
      constructor
      · apply soundMiddle.moved cache store moved _ _ (Finset.Subset.refl _)
        · exact fun _ => ⟨nonzero, unallocated.1⟩
        · intro impossible
          cases impossible
        · intro other ne
          simp [ne]
        · simp
      · rintro _ ⟨rfl⟩
        refine ⟨nonzero, unallocated.1, ?_, fun held => soundMiddle.not_new held listed, notFreed⟩
        have same : middle.rawNat sup nid = world.nm.rawNat sup nid := by
          rw [NmInfo.rawNat, NmInfo.rawNat, built.cache, built.store]
        rw [← same]
        exact unallocated.2

theorem nidStep_sound {world next : NidWorld} (sound : NidSound sup world)
    {operation : NidOperation} (admitted : NidAdmitted sup world operation)
    (stepped : nidStep sup world operation = some next) : NidSound sup next := by
  cases operation with
  | nat operation => exact sound.nat_step admitted stepped
  | buildFreeNids room =>
      cases stepped
      exact sound.build (buildFreeNids_built sound.nat room)
  | allocNid room totalValidNodeCount fuel =>
      obtain ⟨⟨result, nm⟩, run, rfl⟩ := Option.map_eq_some_iff.mp stepped
      exact (sound.alloc_step run).1
  | allocNidDone nid =>
      obtain ⟨nm, run, rfl⟩ := Option.map_eq_some_iff.mp stepped
      obtain ⟨_, run', cache, store, moved⟩ :=
        allocNidDone_moved sound.free ((sound.alloc nid).mpr admitted)
      rw [run] at run'
      cases run'
      apply sound.moved cache store moved _ _ (Finset.Subset.refl _)
      · exact fun impossible => absurd rfl impossible
      · intro impossible
        cases impossible
      · intro other ne
        simp [ne]
      · simp
  | allocNidFailed room nid =>
      obtain ⟨nm, run, rfl⟩ := Option.map_eq_some_iff.mp stepped
      by_cases zero : nid = 0
      · subst zero
        cases run
        have notListed : 0 ∉ world.outstanding := fun member => (sound.outstanding 0 member).1 rfl
        rw [Finset.erase_eq_of_notMem notListed]
        exact
          { sound with
            new := fun other listed => by
              obtain ⟨nonzero, unallocated, notFreed⟩ := sound.new other listed
              exact ⟨nonzero, unallocated, fun member => notFreed (Finset.mem_of_mem_erase member)⟩
            freed := fun other member => sound.freed other (Finset.mem_of_mem_erase member) }
      · obtain ⟨outstanding, isNull⟩ := admitted.resolve_left zero
        obtain ⟨_, state, run', cache, store, notAlloc, moved⟩ :=
          allocNidFailed_moved sound.free room zero ((sound.alloc nid).mpr outstanding)
        rw [run] at run'
        cases run'
        apply sound.moved cache store moved _ _ (Finset.erase_subset _ _)
        · exact fun _ => sound.outstanding nid outstanding
        · exact fun _ => ⟨isNull, Finset.notMem_erase _ _⟩
        · intro other ne
          simp [ne]
        · simp [notAlloc]

theorem nidRun_sound {world last : NidWorld} {operations : List NidOperation}
    (sound : NidSound sup world) (run : NidRun sup world operations last) : NidSound sup last := by
  induction run with
  | nil => exact sound
  | cons admitted stepped _ induction => exact induction (nidStep_sound sound admitted stepped)

/-- Before the first operation on the small table. -/
def emptyWorld : NidWorld := ⟨emptyTable, ∅, ∅⟩

theorem emptyWorld_mounted : NidMounted smallNat emptyWorld :=
  ⟨emptyTable_mounted smallNat, rfl, rfl, rfl, rfl⟩

end F2fs
end StorageStack
