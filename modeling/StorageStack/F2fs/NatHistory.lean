import StorageStack.F2fs.Mount
import StorageStack.F2fs.NatFlush

/-!
# Histories of the node address table

Over every history of lookups, changes of address, evictions and flushes the table answers like one
map in which only `set_node_addr` changes anything.
-/

namespace StorageStack
namespace F2fs

variable {sup : NatSuper} {nm : NmInfo}

/-- The operations on the node address table. -/
inductive NatOperation where
  | getNodeInfo (nid : Nat)
  | setNodeAddr (ni : NodeInfo) (newBlkaddr : Nat) (fsyncDone : Bool)
  | tryToFreeNats (enough : Bool) (nrShrink : Nat)
  | flushNatEntries (room : Nat → Bool)

/-- One operation. -/
def natStep (sup : NatSuper) (nm : NmInfo) : NatOperation → Option NmInfo
  | .getNodeInfo nid => some (getNodeInfo sup nid nm).2
  | .setNodeAddr ni newBlkaddr fsyncDone => some (setNodeAddr ni newBlkaddr fsyncDone nm)
  | .tryToFreeNats enough nrShrink => some (tryToFreeNats enough nrShrink nm)
  | .flushNatEntries room => flushNatEntries sup room nm

/-- What one operation does to the map of the table. -/
def natMapStep (map : Nat → RawNat) : NatOperation → Nat → RawNat
  | .setNodeAddr ni newBlkaddr _ =>
      Function.update map ni.nid (establishedNat ni newBlkaddr (map ni.nid))
  | .getNodeInfo _ | .tryToFreeNats _ _ | .flushNatEntries _ => map

/-- The calls of `set_node_addr` in the source: the node number is in range, and the information of
an old node is the one `get_node_info` has given. -/
def NatAdmitted (sup : NatSuper) (nm : NmInfo) : NatOperation → Prop
  | .setNodeAddr ni newBlkaddr _ => ni.nid < sup.maxNid ∧ NodeInfoCurrent sup ni newBlkaddr nm
  | .getNodeInfo _ | .tryToFreeNats _ _ | .flushNatEntries _ => True

/-- A history of operations. -/
inductive NatRun (sup : NatSuper) : NmInfo → List NatOperation → NmInfo → Prop where
  | nil (nm : NmInfo) : NatRun sup nm [] nm
  | cons {nm middle last : NmInfo} {operation : NatOperation} {operations : List NatOperation}
      (admitted : NatAdmitted sup nm operation) (stepped : natStep sup nm operation = some middle)
      (rest : NatRun sup middle operations last) : NatRun sup nm (operation :: operations) last

/-- The table after a mount: nothing is cached. -/
structure NatMounted (sup : NatSuper) (nm : NmInfo) : Prop where
  natRoot : nm.cache.natRoot = fun _ => none
  natEntries : nm.cache.natEntries = []
  natSetRoot : nm.cache.natSetRoot = fun _ => none
  dirtyNatCnt : nm.cache.dirtyNatCnt = 0
  journal : nm.store.journal.Sound
  inRange : nm.store.journal.InRange sup

theorem NatMounted.sound (mounted : NatMounted sup nm) : NatSound sup nm := by
  have notDirty (nid : Nat) : ¬ nm.cache.DirtyAt nid := by
    rintro ⟨_, found, _⟩
    rw [mounted.natRoot] at found
    cases found
  have notClean (nid : Nat) : ¬ nm.cache.CleanAt nid := by
    rintro ⟨_, found, _⟩
    rw [mounted.natRoot] at found
    cases found
  have setOf (set : Nat) : nm.cache.setOf set = ⟨set, [], 0⟩ := by
    rw [NatCache.setOf, mounted.natSetRoot, Option.getD_none]
  refine ⟨?_, mounted.journal, mounted.inRange, ?_⟩
  · exact
      { key := by
          intro nid entry found
          rw [mounted.natRoot] at found
          cases found
        inRange := fun nid dirty => absurd dirty (notDirty nid)
        nodup := by rw [mounted.natEntries]; exact List.nodup_nil
        clean := fun nid => by simp [mounted.natEntries, notClean nid]
        sets := fun set => by
          rw [setOf]
          exact ⟨rfl, List.nodup_nil, rfl, fun nid => by simp [notDirty nid]⟩
        dirtyCount := by simp [mounted.dirtyNatCnt, setOf] }
  · intro nid entry found
    rw [mounted.natRoot] at found
    cases found

/-! ## Counting dirty entries -/

/-- Whether a dirty entry is cached. -/
def NatCache.isDirty (cache : NatCache) (nid : Nat) : Bool :=
  (cache.natRoot nid).any NatEntry.isDirty

theorem isDirty_iff {cache : NatCache} {nid : Nat} : cache.isDirty nid = true ↔ cache.DirtyAt nid := by
  unfold NatCache.isDirty NatCache.DirtyAt
  cases cache.natRoot nid with
  | none => simp
  | some entry => simp

/-- `dirty_nat_cnt` is the number of dirty entries. -/
theorem CacheSound.dirtyNatCnt_eq_card {cache : NatCache} (sound : CacheSound sup cache) :
    cache.dirtyNatCnt =
      ((Finset.range sup.maxNid).filter fun nid => cache.isDirty nid = true).card := by
  rw [sound.dirtyCount]
  have inSets : ∀ nid ∈ (Finset.range sup.maxNid).filter (fun nid => cache.isDirty nid = true),
      nid / natEntryPerBlock ∈ Finset.range sup.natBlocks := by
    intro nid member
    have inRange := Finset.mem_range.mp (Finset.mem_filter.mp member).1
    exact Finset.mem_range.mpr (block_lt inRange)
  rw [Finset.card_eq_sum_card_fiberwise inSets]
  apply Finset.sum_congr rfl
  intro set _
  have head := sound.sets set
  rw [head.count, ← List.toFinset_card_of_nodup head.nodup]
  congr 1
  ext nid
  rw [List.mem_toFinset, head.mem, Finset.mem_filter, Finset.mem_filter, Finset.mem_range,
    isDirty_iff]
  constructor
  · rintro ⟨inSet, dirty⟩
    exact ⟨⟨sound.inRange nid dirty, dirty⟩, inSet⟩
  · rintro ⟨⟨_, dirty⟩, inSet⟩
    exact ⟨inSet, dirty⟩

/-! ## Steps and runs -/

/-- The table answers like a map, and its counters are those of its dirty entries. -/
structure NatAgrees (sup : NatSuper) (map : Nat → RawNat) (nm : NmInfo) : Prop where
  lookup : ∀ nid, (getNodeInfo sup nid nm).1 = nodeInfoFromRawNat nid (map nid)
  dirtyCount : nm.cache.dirtyNatCnt =
    ((Finset.range sup.maxNid).filter fun nid => nm.cache.isDirty nid = true).card
  setCount : nm.cache.dirtyNatCnt =
    ∑ set ∈ Finset.range sup.natBlocks, (nm.cache.setOf set).entryCnt

/-- No operation takes a dirty entry from the cache, an eviction leaves it as it is, and after a flush
in which no entry is at `NEW_ADDR` the journal and the NAT blocks hold the table. -/
structure NatStepSafe (sup : NatSuper) (operation : NatOperation) (nm next : NmInfo) : Prop where
  dirty : ∀ nid, nm.cache.DirtyAt nid → (next.cache.natRoot nid).isSome
  evicted : ∀ enough nrShrink, operation = .tryToFreeNats enough nrShrink →
    ∀ nid, nm.cache.DirtyAt nid → next.cache.natRoot nid = nm.cache.natRoot nid
  flushed : ∀ room, operation = .flushNatEntries room →
    (∀ nid, (nm.rawNat sup nid).blockAddr ≠ newAddr) →
      ∀ nid, next.store.rawNat sup nid = next.rawNat sup nid

/-- A step keeps the layers together and changes the map as it should. -/
structure NatStepped (sup : NatSuper) (operation : NatOperation) (nm next : NmInfo) : Prop where
  sound : NatSound sup next
  rawNat : next.rawNat sup = natMapStep (nm.rawNat sup) operation
  safe : NatStepSafe sup operation nm next

theorem isSome_of_core {cache : NatCache} {nid : Nat} {contents : NodeInfo × Bool × Bool}
    (core : cache.core nid = some contents) : (cache.natRoot nid).isSome := by
  obtain ⟨ni, checkpointed, dirty⟩ := contents
  obtain ⟨entry, cached, _⟩ := core_eq_some.mp core
  rw [cached]
  rfl

theorem natStep_stepped (sound : NatSound sup nm) {operation : NatOperation}
    (admitted : NatAdmitted sup nm operation) :
    ∃ next, natStep sup nm operation = some next ∧ NatStepped sup operation nm next := by
  cases operation with
  | getNodeInfo nid =>
      have looked := getNodeInfo_lookedUp sound nid
      refine ⟨_, rfl, looked.sound, funext looked.rawNat, ?_, ?_, ?_⟩
      · intro other dirty
        obtain ⟨ni, checkpointed, core⟩ := dirtyAt_iff_core.mp dirty
        exact isSome_of_core (looked.cached other _ core)
      · intro _ _ impossible
        cases impossible
      · intro _ impossible
        cases impossible
  | setNodeAddr ni newBlkaddr fsyncDone =>
      have set := setNodeAddr_addrSet sound fsyncDone admitted.1 admitted.2
      refine ⟨_, rfl, set.sound, ?_, ?_, ?_, ?_⟩
      · funext nid
        rw [set.rawNat]
        by_cases here : nid = ni.nid
        · subst here
          rw [if_pos rfl, natMapStep, Function.update_self]
        · rw [if_neg here, natMapStep, Function.update_of_ne here]
      · intro nid dirty
        by_cases here : nid = ni.nid
        · obtain ⟨_, _, core, _⟩ := set.here
          exact here ▸ isSome_of_core core
        · obtain ⟨_, _, core⟩ := dirtyAt_iff_core.mp dirty
          exact isSome_of_core ((set.core nid here).trans core)
      · intro _ _ impossible
        cases impossible
      · intro _ impossible
        cases impossible
  | tryToFreeNats enough nrShrink =>
      have shrunk := tryToFreeNats_shrunk sound enough nrShrink
      refine ⟨_, rfl, shrunk.sound, funext shrunk.rawNat, ?_, ?_, ?_⟩
      · intro nid dirty
        rw [shrunk.dirty nid dirty]
        obtain ⟨entry, cached, _⟩ := dirty
        rw [cached]
        rfl
      · rintro enough' nrShrink' _ nid dirty
        exact shrunk.dirty nid dirty
      · intro _ impossible
        cases impossible
  | flushNatEntries room =>
      obtain ⟨next, run, flushed⟩ := flushNatEntries_natFlushed room sound
      refine ⟨next, run, flushed.sound, funext flushed.rawNat, ?_, ?_, ?_⟩
      · intro nid dirty
        obtain ⟨ni, checkpointed, core⟩ := dirtyAt_iff_core.mp dirty
        obtain ⟨_, _, core'⟩ := flushed.cached nid ni checkpointed true core
        exact isSome_of_core core'
      · intro _ _ impossible
        cases impossible
      · intro _ _ placed nid
        symm
        apply flushed.sound.rawNat_of_not_dirtyAt
        intro dirty
        obtain ⟨ni, checkpointed, core⟩ := dirtyAt_iff_core.mp dirty
        have isNew := flushed.dirty nid ni checkpointed core
        have raw := @rawNat_of_core sup _ nid _ _ _ core
        apply placed nid
        rw [← flushed.rawNat nid, raw]
        exact isNew

theorem natRun_sound {ops : List NatOperation} {last : NmInfo} (sound : NatSound sup nm)
    (run : NatRun sup nm ops last) :
    NatSound sup last ∧ last.rawNat sup = ops.foldl natMapStep (nm.rawNat sup) := by
  induction run with
  | nil nm => exact ⟨sound, rfl⟩
  | cons admitted stepped _ induction =>
      obtain ⟨next, stepped', step⟩ := natStep_stepped sound admitted
      rw [stepped] at stepped'
      obtain rfl := Option.some.inj stepped'
      obtain ⟨sound', map⟩ := induction step.sound
      refine ⟨sound', ?_⟩
      rw [map, step.rawNat, List.foldl_cons]

theorem NatSound.agrees (sound : NatSound sup nm) : NatAgrees sup (nm.rawNat sup) nm where
  lookup nid := getNodeInfo_fst nid
  dirtyCount := sound.cache.dirtyNatCnt_eq_card
  setCount := sound.cache.dirtyCount

/-- The cache, the journal and the NAT blocks behave as one map over every history. -/
theorem natRun_agrees {operations : List NatOperation} {start last : NmInfo}
    (mounted : NatMounted sup start) (run : NatRun sup start operations last) :
    NatAgrees sup (operations.foldl natMapStep (start.rawNat sup)) last ∧
      ∀ operation, NatAdmitted sup last operation →
        ∃ next, natStep sup last operation = some next ∧ NatStepSafe sup operation last next := by
  obtain ⟨sound, map⟩ := natRun_sound mounted.sound run
  refine ⟨map ▸ sound.agrees, ?_⟩
  intro operation admitted
  obtain ⟨next, stepped, step⟩ := natStep_stepped sound admitted
  exact ⟨next, stepped, step.safe⟩

/-! ## A small table -/

/-- The node address table of the small volume. -/
def smallNat : NatSuper := ⟨smallVolume, 1024, 1⟩

/-- A table in which no node has a block. -/
def emptyTable : NmInfo where
  cache := ⟨fun _ => none, [], fun _ => none, 0, 0⟩
  store := ⟨⟨0, fun _ => ⟨0, ⟨0, 0, 0⟩⟩⟩, fun _ _ => ⟨0, 0, 0⟩, .empty⟩
  free := ⟨[], 0, 0⟩
  needFsck := false

theorem emptyTable_mounted (sup : NatSuper) : NatMounted sup emptyTable where
  natRoot := rfl
  natEntries := rfl
  natSetRoot := rfl
  dirtyNatCnt := rfl
  journal := ⟨fun _ impossible => absurd impossible (Nat.not_lt_zero _), Nat.zero_le _⟩
  inRange _ impossible := absurd impossible (Nat.not_lt_zero _)

/-- A node gets a block, its entry is flushed and evicted. -/
theorem natRun_agrees_example :
    let operations : List NatOperation :=
      [.setNodeAddr ⟨5, 5, nullAddr, 0⟩ newAddr false, .setNodeAddr ⟨5, 5, newAddr, 0⟩ 300 false,
        .flushNatEntries fun _ => true, .tryToFreeNats false 1]
    ∃ last, NatRun smallNat emptyTable operations last ∧
      NatAgrees smallNat (operations.foldl natMapStep (emptyTable.rawNat smallNat)) last ∧
      operations.foldl natMapStep (emptyTable.rawNat smallNat) 5 = ⟨0, 5, 300⟩ := by
  intro operations
  set created := setNodeAddr ⟨5, 5, nullAddr, 0⟩ newAddr false emptyTable
  set written := setNodeAddr ⟨5, 5, newAddr, 0⟩ 300 false created
  have cached : created.cache.natRoot 5 ≠ none := by decide
  have create : NatAdmitted smallNat emptyTable (.setNodeAddr ⟨5, 5, nullAddr, 0⟩ newAddr false) :=
    ⟨by decide, .inl rfl⟩
  have write : NatAdmitted smallNat created (.setNodeAddr ⟨5, 5, newAddr, 0⟩ 300 false) :=
    ⟨by decide, .inr (.inl cached)⟩
  obtain ⟨sound, _⟩ := natRun_sound (emptyTable_mounted smallNat).sound
    (.cons create rfl (.cons write rfl (.nil written)))
  obtain ⟨flushed, flush, _⟩ := flushNatEntries_natFlushed (fun _ => true) sound
  have run : NatRun smallNat emptyTable operations (tryToFreeNats false 1 flushed) :=
    .cons create rfl (.cons write rfl (.cons trivial flush (.cons trivial rfl (.nil _))))
  exact ⟨_, run, (natRun_agrees (emptyTable_mounted smallNat) run).1, by decide⟩

end F2fs
end StorageStack
