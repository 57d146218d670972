import StorageStack.F2fs.NatCache

/-!
# One table in three layers

What `get_node_info` answers is a map from node numbers to entries.  An entry which is cached and
clean is stored as it stands in the cache, so an eviction or a lookup leaves the map alone, and
`set_node_addr` changes the entry of one node.
-/

namespace StorageStack
namespace F2fs

variable {sup : NatSuper} {nm : NmInfo}

/-- The entry of a node: from the cache, else from the store. -/
def NmInfo.rawNat (sup : NatSuper) (nm : NmInfo) (nid : Nat) : RawNat :=
  match nm.cache.natRoot nid with
  | some entry => rawNatFromNodeInfo entry.ni
  | none => nm.store.rawNat sup nid

/-- The cache, the journal and the NAT blocks fit together. -/
structure NatSound (sup : NatSuper) (nm : NmInfo) : Prop where
  cache : CacheSound sup nm.cache
  journal : nm.store.journal.Sound
  inRange : nm.store.journal.InRange sup
  clean : ∀ nid entry, nm.cache.natRoot nid = some entry → entry.isDirty = false →
    rawNatFromNodeInfo entry.ni = nm.store.rawNat sup nid

/-- The entry of a node that is not dirty is stored. -/
theorem NatSound.rawNat_of_not_dirtyAt (sound : NatSound sup nm) {nid : Nat}
    (clean : ¬ nm.cache.DirtyAt nid) : nm.rawNat sup nid = nm.store.rawNat sup nid := by
  unfold NmInfo.rawNat
  cases cached : nm.cache.natRoot nid with
  | none => rfl
  | some entry =>
      cases dirty : entry.isDirty with
      | true => exact absurd ⟨entry, cached, dirty⟩ clean
      | false => exact sound.clean nid entry cached dirty

/-- `get_node_info` answers from the map. -/
theorem getNodeInfo_fst (nid : Nat) :
    (getNodeInfo sup nid nm).1 = nodeInfoFromRawNat nid (nm.rawNat sup nid) := by
  unfold getNodeInfo NmInfo.rawNat
  cases nm.cache.natRoot nid with
  | none => rfl
  | some entry => rfl

/-! ## The contents of the cache -/

/-- What of an entry decides about the map and the free node numbers. -/
def NatEntry.core (entry : NatEntry) : NodeInfo × Bool × Bool :=
  (entry.ni, entry.isCheckpointed, entry.isDirty)

/-- The contents of the cache. -/
def NatCache.core (cache : NatCache) (nid : Nat) : Option (NodeInfo × Bool × Bool) :=
  (cache.natRoot nid).map NatEntry.core

theorem core_eq_some {cache : NatCache} {nid : Nat} {ni : NodeInfo} {checkpointed dirty : Bool} :
    cache.core nid = some (ni, checkpointed, dirty) ↔
      ∃ entry, cache.natRoot nid = some entry ∧ entry.ni = ni ∧
        entry.isCheckpointed = checkpointed ∧ entry.isDirty = dirty := by
  unfold NatCache.core NatEntry.core
  rw [Option.map_eq_some_iff]
  simp only [Prod.mk.injEq]

theorem core_eq_none {cache : NatCache} {nid : Nat} :
    cache.core nid = none ↔ cache.natRoot nid = none := Option.map_eq_none_iff

theorem dirtyAt_iff_core {cache : NatCache} {nid : Nat} :
    cache.DirtyAt nid ↔ ∃ ni checkpointed, cache.core nid = some (ni, checkpointed, true) := by
  constructor
  · rintro ⟨entry, cached, dirty⟩
    exact ⟨entry.ni, entry.isCheckpointed, core_eq_some.mpr ⟨entry, cached, rfl, rfl, dirty⟩⟩
  · rintro ⟨_, _, found⟩
    obtain ⟨entry, cached, _, _, dirty⟩ := core_eq_some.mp found
    exact ⟨entry, cached, dirty⟩

/-- The map depends on the contents of the cache. -/
theorem rawNat_congr {next : NmInfo} {nid : Nat} (core : next.cache.core nid = nm.cache.core nid)
    (store : next.store.rawNat sup nid = nm.store.rawNat sup nid) :
    next.rawNat sup nid = nm.rawNat sup nid := by
  unfold NmInfo.rawNat
  cases cached : nm.cache.natRoot nid with
  | none =>
      have absent : next.cache.natRoot nid = none := by
        rw [← core_eq_none, core, core_eq_none]
        exact cached
      rw [absent]
      exact store
  | some entry =>
      have same : next.cache.core nid = some entry.core := by
        rw [core, NatCache.core, cached]
        rfl
      obtain ⟨entry', cached', ni, _, _⟩ := core_eq_some.mp same
      rw [cached']
      exact congrArg rawNatFromNodeInfo ni

theorem rawNat_of_core {nid : Nat} {ni : NodeInfo} {checkpointed dirty : Bool}
    (core : nm.cache.core nid = some (ni, checkpointed, dirty)) :
    nm.rawNat sup nid = rawNatFromNodeInfo ni := by
  obtain ⟨entry, cached, rfl, _, _⟩ := core_eq_some.mp core
  rw [NmInfo.rawNat, cached]

theorem core_update {cache next : NatCache} {entry : NatEntry} {nid : Nat}
    (root : next.natRoot = Function.update cache.natRoot nid (some entry)) :
    next.core = Function.update cache.core nid (some entry.core) := by
  funext other
  unfold NatCache.core
  rw [root]
  by_cases same : other = nid
  · rw [same, Function.update_self, Function.update_self, Option.map_some]
  · rw [Function.update_of_ne same, Function.update_of_ne same]

theorem core_setEntry (cache : NatCache) (entry : NatEntry) :
    (cache.setEntry entry).core = Function.update cache.core entry.ni.nid (some entry.core) :=
  core_update rfl

theorem core_grabNatEntry (cache : NatCache) (entry : NatEntry) :
    (grabNatEntry entry cache).core = Function.update cache.core entry.ni.nid (some entry.core) :=
  core_update rfl

/-- After `__set_nat_cache_dirty` of a cached entry. -/
theorem core_setNatCacheDirty {cache : NatCache} {entry : NatEntry}
    (cached : cache.natRoot entry.ni.nid = some entry) :
    (setNatCacheDirty entry cache).core =
      Function.update cache.core entry.ni.nid (some (entry.ni, entry.isCheckpointed, true)) := by
  unfold setNatCacheDirty
  split
  · next dirty =>
      have here : cache.core entry.ni.nid = some (entry.ni, entry.isCheckpointed, true) := by
        rw [NatCache.core, cached, Option.map_some, NatEntry.core, dirty]
      rw [← here, Function.update_eq_self]
  · refine @core_update cache _ { entry with isDirty := true } entry.ni.nid ?_
    rfl

/-! ## Lookups and evictions -/

theorem newNatEntry_clean (ni : NodeInfo) : (newNatEntry ni).isDirty = false := rfl

/-- The effect of a lookup. -/
structure LookedUp (sup : NatSuper) (nid : Nat) (nm next : NmInfo) : Prop where
  sound : NatSound sup next
  rawNat : ∀ other, next.rawNat sup other = nm.rawNat sup other
  cached : ∀ other contents, nm.cache.core other = some contents →
    next.cache.core other = some contents
  dirty : ∀ other, next.cache.DirtyAt other ↔ nm.cache.DirtyAt other

theorem getNodeInfo_lookedUp (sound : NatSound sup nm) (nid : Nat) :
    LookedUp sup nid nm (getNodeInfo sup nid nm).2 := by
  unfold getNodeInfo
  cases cached : nm.cache.natRoot nid with
  | some entry => exact ⟨sound, fun _ => rfl, fun _ _ found => found, fun _ => Iff.rfl⟩
  | none =>
      dsimp only
      rw [cacheNatEntry, cached]
      dsimp only
      set entry := newNatEntry (nodeInfoFromRawNat nid (nm.store.rawNat sup nid))
      have key : entry.ni.nid = nid := rfl
      have core := core_grabNatEntry nm.cache entry
      have root : (grabNatEntry entry nm.cache).natRoot =
        Function.update nm.cache.natRoot nid (some entry) := rfl
      rw [key] at core
      refine ⟨⟨sound.cache.grab cached rfl, sound.journal, sound.inRange, ?_⟩, ?_, ?_, ?_⟩
      · intro other found stored clean
        change (grabNatEntry entry nm.cache).natRoot other = some found at stored
        rw [root] at stored
        by_cases same : other = nid
        · rw [same, Function.update_self] at stored
          rw [← Option.some.inj stored, same]
          rfl
        · rw [Function.update_of_ne same] at stored
          exact sound.clean other found stored clean
      · intro other
        by_cases same : other = nid
        · subst same
          have here : (grabNatEntry entry nm.cache).core other = some entry.core := by
            rw [core, Function.update_self]
          rw [rawNat_of_core here, NmInfo.rawNat, cached]
          rfl
        · apply rawNat_congr
          · change (grabNatEntry entry nm.cache).core other = _
            rw [core, Function.update_of_ne same]
          · rfl
      · intro other contents found
        have ne : other ≠ nid := by
          rintro rfl
          rw [core_eq_none.mpr cached] at found
          cases found
        change (grabNatEntry entry nm.cache).core other = _
        rw [core, Function.update_of_ne ne]
        exact found
      · intro other
        by_cases same : other = nid
        · subst same
          rw [dirtyAt_update_self root, newNatEntry_clean]
          constructor
          · intro impossible
            cases impossible
          · rintro ⟨_, found, _⟩
            rw [cached] at found
            cases found
        · exact dirtyAt_update_of_ne root same

/-- Only clean entries have gone. -/
structure Evicted (sup : NatSuper) (cache next : NatCache) : Prop where
  sound : CacheSound sup next
  kept : ∀ nid, next.natRoot nid = cache.natRoot nid ∨
    (next.natRoot nid = none ∧ cache.CleanAt nid)

theorem shrinkNats_evicted {cache : NatCache} (sound : CacheSound sup cache) (nrShrink : Nat) :
    Evicted sup cache (shrinkNats nrShrink cache) := by
  induction nrShrink generalizing cache with
  | zero => exact ⟨sound, fun _ => .inl rfl⟩
  | succ nrShrink induction =>
      unfold shrinkNats
      cases listed : cache.natEntries with
      | nil => exact ⟨sound, fun _ => .inl rfl⟩
      | cons nid rest =>
          dsimp only
          set first : NatCache :=
            { cache with
              natRoot := Function.update cache.natRoot nid none
              natEntries := rest
              natCnt := cache.natCnt - 1 } with first_eq
          have nodup := sound.nodup
          rw [listed] at nodup
          obtain ⟨notLater, restNodup⟩ := List.nodup_cons.mp nodup
          have wasClean : cache.CleanAt nid :=
            (sound.clean nid).mp (by rw [listed]; exact List.mem_cons_self)
          have root : first.natRoot = Function.update cache.natRoot nid none := rfl
          have gone : first.natRoot nid = none := by rw [root, Function.update_self]
          have dirty (other : Nat) : first.DirtyAt other ↔ cache.DirtyAt other := by
            by_cases same : other = nid
            · subst same
              constructor
              · rintro ⟨_, found, _⟩
                rw [gone] at found
                cases found
              · intro isDirty
                exact absurd isDirty (not_dirtyAt_of_cleanAt wasClean)
            · exact dirtyAt_update_of_ne root same
          have firstSound : CacheSound sup first :=
            { key := by
                intro other found stored
                by_cases same : other = nid
                · rw [same, gone] at stored
                  cases stored
                · rw [root, Function.update_of_ne same] at stored
                  exact sound.key other found stored
              inRange := fun other isDirty => sound.inRange other ((dirty other).mp isDirty)
              nodup := restNodup
              clean := by
                intro other
                change other ∈ rest ↔ _
                by_cases same : other = nid
                · subst same
                  constructor
                  · intro member
                    exact absurd member notLater
                  · rintro ⟨_, found, _⟩
                    rw [gone] at found
                    cases found
                · rw [cleanAt_update_of_ne root same, ← sound.clean, listed]
                  simp [same]
              sets := fun set => (sound.sets set).congr fun other _ => dirty other
              dirtyCount := sound.dirtyCount }
          have rest := induction firstSound
          refine ⟨rest.sound, fun other => ?_⟩
          by_cases same : other = nid
          · subst same
            right
            refine ⟨?_, wasClean⟩
            rcases rest.kept other with kept | ⟨absent, _⟩
            · exact kept.trans gone
            · exact absent
          · rcases rest.kept other with kept | ⟨absent, clean⟩
            · left
              rw [kept, root, Function.update_of_ne same]
            · right
              exact ⟨absent, (cleanAt_update_of_ne root same).mp clean⟩

/-- The effect of `try_to_free_nats`. -/
structure Shrunk (sup : NatSuper) (nm next : NmInfo) : Prop where
  sound : NatSound sup next
  rawNat : ∀ nid, next.rawNat sup nid = nm.rawNat sup nid
  dirty : ∀ nid, nm.cache.DirtyAt nid → next.cache.natRoot nid = nm.cache.natRoot nid
  kept : ∀ nid, next.cache.natRoot nid = nm.cache.natRoot nid ∨
    (next.cache.natRoot nid = none ∧ nm.cache.CleanAt nid)

theorem tryToFreeNats_shrunk (sound : NatSound sup nm) (enough : Bool) (nrShrink : Nat) :
    Shrunk sup nm (tryToFreeNats enough nrShrink nm) := by
  unfold tryToFreeNats
  split
  · exact ⟨sound, fun _ => rfl, fun _ _ => rfl, fun _ => .inl rfl⟩
  · have evicted := shrinkNats_evicted sound.cache nrShrink
    refine ⟨⟨evicted.sound, sound.journal, sound.inRange, ?_⟩, ?_, ?_, evicted.kept⟩
    · intro nid entry cached clean
      rcases evicted.kept nid with kept | ⟨absent, _⟩
      · exact sound.clean nid entry (kept.symm.trans cached) clean
      · rw [absent] at cached
        cases cached
    · intro nid
      rcases evicted.kept nid with kept | ⟨absent, clean⟩
      · unfold NmInfo.rawNat
        simp only [kept]
      · rw [sound.rawNat_of_not_dirtyAt (not_dirtyAt_of_cleanAt clean), NmInfo.rawNat]
        simp only [absent]
    · intro nid dirty
      rcases evicted.kept nid with kept | ⟨_, clean⟩
      · exact kept
      · exact absurd dirty (not_dirtyAt_of_cleanAt clean)

/-! ## Changing an address -/

/-- The entry `set_node_addr` establishes for a node whose entry was `old`. -/
def establishedNat (ni : NodeInfo) (newBlkaddr : Nat) (old : RawNat) : RawNat :=
  let base := if newBlkaddr = newAddr then rawNatFromNodeInfo ni else old
  let version :=
    if base.blockAddr ≠ newAddr ∧ newBlkaddr = nullAddr then base.version + 1 else base.version
  ⟨version, base.ino, newBlkaddr⟩

/-- What a caller of `set_node_addr` passes: unless it makes a new node, the information that
`get_node_info` gave it, which matters when the entry is not cached any more. -/
def NodeInfoCurrent (sup : NatSuper) (ni : NodeInfo) (newBlkaddr : Nat) (nm : NmInfo) : Prop :=
  newBlkaddr = newAddr ∨ nm.cache.natRoot ni.nid ≠ none ∨
    rawNatFromNodeInfo ni = nm.rawNat sup ni.nid

/-- The effect of `set_node_addr`. -/
structure AddrSet (sup : NatSuper) (ni : NodeInfo) (newBlkaddr : Nat) (nm next : NmInfo) : Prop where
  sound : NatSound sup next
  rawNat : ∀ nid, next.rawNat sup nid =
    if nid = ni.nid then establishedNat ni newBlkaddr (nm.rawNat sup nid) else nm.rawNat sup nid
  core : ∀ nid, nid ≠ ni.nid → next.cache.core nid = nm.cache.core nid
  here : ∃ info checkpointed, next.cache.core ni.nid = some (info, checkpointed, true) ∧
    (newBlkaddr = newAddr ∨ newBlkaddr = nullAddr → checkpointed = false)
  store : next.store = nm.store
  free : next.free = nm.free

/-- The marks for fsync change nothing of what counts. -/
theorem markFsync_core (ni : NodeInfo) (fsyncDone : Bool) {cache : NatCache}
    (sound : CacheSound sup cache) :
    (markFsync ni fsyncDone cache).core = cache.core ∧
      CacheSound sup (markFsync ni fsyncDone cache) := by
  unfold markFsync
  cases found : cache.natRoot ni.ino with
  | none => exact ⟨rfl, sound⟩
  | some entry =>
      have key := sound.key _ _ found
      dsimp only
      constructor
      · rw [core_setEntry]
        dsimp only
        rw [key]
        have here : cache.core ni.ino = some entry.core := by
          rw [NatCache.core, found, Option.map_some]
        exact Function.update_eq_self_iff.mpr here.symm
      · have stored : cache.natRoot entry.ni.nid = some entry := by rw [key]; exact found
        exact sound.setEntry stored rfl

/-- The entry `set_node_addr` works on is the one of the map. -/
theorem entryForUpdate_spec (sound : NatSound sup nm) {ni : NodeInfo} {newBlkaddr : Nat}
    (current : NodeInfoCurrent sup ni newBlkaddr nm) :
    ∃ cache entry old, entryForUpdate ni newBlkaddr nm.cache = (cache, entry) ∧
      CacheSound sup cache ∧ (∀ nid, nid ≠ ni.nid → cache.natRoot nid = nm.cache.natRoot nid) ∧
      entry.ni.nid = ni.nid ∧ cache.natRoot ni.nid = some old ∧ entry.isDirty = old.isDirty ∧
      rawNatFromNodeInfo entry.ni =
        if newBlkaddr = newAddr then rawNatFromNodeInfo ni else nm.rawNat sup ni.nid := by
  unfold entryForUpdate
  cases cached : nm.cache.natRoot ni.nid with
  | none =>
      have same : rawNatFromNodeInfo ni =
          if newBlkaddr = newAddr then rawNatFromNodeInfo ni else nm.rawNat sup ni.nid := by
        split
        · rfl
        · next notNew =>
            rcases current with isNew | isCached | equal
            · exact absurd isNew notNew
            · exact absurd cached isCached
            · exact equal
      refine ⟨_, _, newNatEntry ni, rfl, sound.cache.grab cached rfl, ?_, rfl, ?_, rfl, same⟩
      · intro nid ne
        exact Function.update_of_ne ne _ _
      · exact Function.update_self _ _ _
  | some entry =>
      have key := sound.cache.key _ _ cached
      dsimp only
      split
      · next isNew =>
          exact ⟨_, _, entry, rfl, sound.cache, fun _ _ => rfl, rfl, cached, rfl, rfl⟩
      · next notNew =>
          refine ⟨_, _, entry, rfl, sound.cache, fun _ _ => rfl, key, cached, rfl, ?_⟩
          rw [NmInfo.rawNat, cached]

theorem setNodeAddr_addrSet (sound : NatSound sup nm) {ni : NodeInfo} {newBlkaddr : Nat}
    (fsyncDone : Bool) (inRange : ni.nid < sup.maxNid)
    (current : NodeInfoCurrent sup ni newBlkaddr nm) :
    AddrSet sup ni newBlkaddr nm (setNodeAddr ni newBlkaddr fsyncDone nm) := by
  obtain ⟨cache, entry, old, taken, cacheSound, others, key, cached, sameDirty, base⟩ :=
    entryForUpdate_spec sound current
  set changed := entry.withAddr newBlkaddr with changed_eq
  have changedKey : changed.ni.nid = ni.nid := key
  have changedDirty : changed.isDirty = old.isDirty := sameDirty
  have placed : CacheSound sup (cache.setEntry changed) :=
    cacheSound.setEntry (changedKey ▸ cached) changedDirty
  have placedRoot : (cache.setEntry changed).natRoot changed.ni.nid = some changed :=
    Function.update_self _ _ _
  have dirtied : CacheSound sup (setNatCacheDirty changed (cache.setEntry changed)) :=
    placed.setDirty placedRoot rfl (changedKey ▸ inRange)
  have dirtiedCore := core_setNatCacheDirty placedRoot
  rw [core_setEntry, Function.update_idem, changedKey] at dirtiedCore
  obtain ⟨markedCore, marked⟩ := markFsync_core ni fsyncDone dirtied
  set next := setNodeAddr ni newBlkaddr fsyncDone nm with next_eq
  have next_cache : next.cache =
      markFsync ni fsyncDone (setNatCacheDirty changed (cache.setEntry changed)) := by
    rw [next_eq, setNodeAddr, taken]
  have next_store : next.store = nm.store := by
    rw [next_eq, setNodeAddr, taken]
    rfl
  have next_free : next.free = nm.free := by
    rw [next_eq, setNodeAddr, taken]
    rfl
  have core : next.cache.core = Function.update cache.core ni.nid
      (some (changed.ni, changed.isCheckpointed, true)) := by
    rw [next_cache, markedCore, dirtiedCore]
  have coreOther (nid : Nat) (ne : nid ≠ ni.nid) : next.cache.core nid = nm.cache.core nid := by
    rw [core, Function.update_of_ne ne, NatCache.core, NatCache.core, others nid ne]
  have coreHere : next.cache.core ni.nid = some (changed.ni, changed.isCheckpointed, true) := by
    rw [core, Function.update_self]
  refine
    { sound := ⟨by rw [next_cache]; exact marked, by rw [next_store]; exact sound.journal,
        by rw [next_store]; exact sound.inRange, ?_⟩
      rawNat := ?_, core := coreOther, here := ⟨_, _, coreHere, ?_⟩, store := next_store,
      free := next_free }
  · intro nid found stored clean
    have same : next.cache.core nid = some found.core := by
      rw [NatCache.core, stored, Option.map_some]
    by_cases here : nid = ni.nid
    · subst here
      rw [coreHere] at same
      have dirty : found.isDirty = true := (congrArg (fun core => core.2.2) (Option.some.inj same)).symm
      rw [dirty] at clean
      cases clean
    · rw [coreOther nid here] at same
      obtain ⟨entry', cached', ni', _, dirty'⟩ := core_eq_some.mp same
      rw [next_store, ← ni']
      exact sound.clean nid entry' cached' (dirty'.trans clean)
  · intro nid
    split
    · next here =>
        subst here
        rw [rawNat_of_core coreHere, establishedNat]
        rw [← base]
        rfl
    · next ne => exact rawNat_congr (coreOther nid ne) (by rw [next_store])
  · intro special
    exact if_pos special

end F2fs
end StorageStack
