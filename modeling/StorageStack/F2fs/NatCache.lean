import StorageStack.F2fs.NatStorage

/-!
# The cache of the node address table

The clean entries are on one list, the dirty ones on the list of the set of their NAT block.  The
operations of the cache keep it so; only a clean entry is ever evicted.
-/

namespace StorageStack
namespace F2fs

variable {sup : NatSuper} {cache : NatCache}

/-- A dirty entry is cached for a node. -/
def NatCache.DirtyAt (cache : NatCache) (nid : Nat) : Prop :=
  ∃ entry, cache.natRoot nid = some entry ∧ entry.isDirty = true

/-- A clean entry is cached for a node. -/
def NatCache.CleanAt (cache : NatCache) (nid : Nat) : Prop :=
  ∃ entry, cache.natRoot nid = some entry ∧ entry.isDirty = false

/-- A set lists the dirty entries of its block and counts them. -/
structure SetSound (cache : NatCache) (set : Nat) (head : NatEntrySet) : Prop where
  set_eq : head.set = set
  nodup : head.entryList.Nodup
  count : head.entryCnt = head.entryList.length
  mem : ∀ nid, nid ∈ head.entryList ↔ nid / natEntryPerBlock = set ∧ cache.DirtyAt nid

/-- The lists and counters of the cache agree with its entries. -/
structure CacheSound (sup : NatSuper) (cache : NatCache) : Prop where
  key : ∀ nid entry, cache.natRoot nid = some entry → entry.ni.nid = nid
  inRange : ∀ nid, cache.DirtyAt nid → nid < sup.maxNid
  nodup : cache.natEntries.Nodup
  clean : ∀ nid, nid ∈ cache.natEntries ↔ cache.CleanAt nid
  sets : ∀ set, SetSound cache set (cache.setOf set)
  dirtyCount : cache.dirtyNatCnt = ∑ set ∈ Finset.range sup.natBlocks, (cache.setOf set).entryCnt

theorem not_dirtyAt_of_cleanAt {nid : Nat} (clean : cache.CleanAt nid) : ¬ cache.DirtyAt nid := by
  rintro ⟨entry, found, dirty⟩
  obtain ⟨entry', found', clean'⟩ := clean
  rw [found] at found'
  obtain rfl := Option.some.inj found'
  rw [dirty] at clean'
  cases clean'

theorem block_lt {nid : Nat} (inRange : nid < sup.maxNid) :
    nid / natEntryPerBlock < sup.natBlocks := by
  rw [Nat.div_lt_iff_lt_mul (by decide), Nat.mul_comm]
  exact inRange

/-- Caches with the same sets and the same dirty entries have sets alike. -/
theorem SetSound.congr {next : NatCache} {set : Nat} {head : NatEntrySet}
    (sound : SetSound cache set head)
    (dirty : ∀ nid, nid / natEntryPerBlock = set → (next.DirtyAt nid ↔ cache.DirtyAt nid)) :
    SetSound next set head where
  set_eq := sound.set_eq
  nodup := sound.nodup
  count := sound.count
  mem nid := by
    rw [sound.mem nid]
    constructor
    · rintro ⟨inSet, isDirty⟩
      exact ⟨inSet, (dirty nid inSet).mpr isDirty⟩
    · rintro ⟨inSet, isDirty⟩
      exact ⟨inSet, (dirty nid inSet).mp isDirty⟩

/-- A change of one entry leaves the dirty entries of the other nodes. -/
theorem dirtyAt_update_of_ne {next : NatCache} {nid other : Nat} {entry : Option NatEntry}
    (root : next.natRoot = Function.update cache.natRoot nid entry) (ne : other ≠ nid) :
    next.DirtyAt other ↔ cache.DirtyAt other := by
  unfold NatCache.DirtyAt
  rw [root, Function.update_of_ne ne]

theorem cleanAt_update_of_ne {next : NatCache} {nid other : Nat} {entry : Option NatEntry}
    (root : next.natRoot = Function.update cache.natRoot nid entry) (ne : other ≠ nid) :
    next.CleanAt other ↔ cache.CleanAt other := by
  unfold NatCache.CleanAt
  rw [root, Function.update_of_ne ne]

theorem dirtyAt_update_self {next : NatCache} {nid : Nat} {entry : NatEntry}
    (root : next.natRoot = Function.update cache.natRoot nid (some entry)) :
    next.DirtyAt nid ↔ entry.isDirty = true := by
  unfold NatCache.DirtyAt
  rw [root, Function.update_self]
  simp

theorem cleanAt_update_self {next : NatCache} {nid : Nat} {entry : NatEntry}
    (root : next.natRoot = Function.update cache.natRoot nid (some entry)) :
    next.CleanAt nid ↔ entry.isDirty = false := by
  unfold NatCache.CleanAt
  rw [root, Function.update_self]
  simp

/-! ## One entry -/

section Operations

variable {entry old : NatEntry}

theorem key_update (sound : CacheSound sup cache) {next : NatCache} {nid : Nat}
    (root : next.natRoot = Function.update cache.natRoot nid (some entry))
    (key : entry.ni.nid = nid) :
    ∀ other found, next.natRoot other = some found → found.ni.nid = other := by
  intro other found stored
  rw [root] at stored
  by_cases same : other = nid
  · rw [same, Function.update_self] at stored
    rw [same, ← Option.some.inj stored]
    exact key
  · rw [Function.update_of_ne same] at stored
    exact sound.key other found stored

/-- A clean entry for a node which is not cached. -/
theorem CacheSound.grab (sound : CacheSound sup cache) (absent : cache.natRoot entry.ni.nid = none)
    (clean : entry.isDirty = false) : CacheSound sup (grabNatEntry entry cache) := by
  have root : (grabNatEntry entry cache).natRoot =
    Function.update cache.natRoot entry.ni.nid (some entry) := rfl
  have notListed : entry.ni.nid ∉ cache.natEntries := by
    intro member
    obtain ⟨_, found, _⟩ := (sound.clean _).mp member
    rw [absent] at found
    cases found
  have dirty (nid : Nat) : (grabNatEntry entry cache).DirtyAt nid ↔ cache.DirtyAt nid := by
    by_cases same : nid = entry.ni.nid
    · subst same
      rw [dirtyAt_update_self root, clean]
      constructor
      · intro impossible
        cases impossible
      · rintro ⟨_, found, _⟩
        rw [absent] at found
        cases found
    · exact dirtyAt_update_of_ne root same
  exact
    { key := key_update sound root rfl
      inRange := fun nid isDirty => sound.inRange nid ((dirty nid).mp isDirty)
      nodup := List.nodup_append.mpr ⟨sound.nodup, List.nodup_singleton _, by
        rintro nid member other single rfl
        rw [List.mem_singleton.mp single] at member
        exact notListed member⟩
      clean := by
        intro nid
        change nid ∈ cache.natEntries ++ [entry.ni.nid] ↔ _
        rw [List.mem_append, List.mem_singleton, sound.clean]
        by_cases same : nid = entry.ni.nid
        · subst same
          rw [cleanAt_update_self root]
          simp [clean]
        · rw [cleanAt_update_of_ne root same]
          simp [same]
      sets := fun set => (sound.sets set).congr fun nid _ => dirty nid
      dirtyCount := sound.dirtyCount }

/-- Other contents for a cached entry. -/
theorem CacheSound.setEntry (sound : CacheSound sup cache)
    (cached : cache.natRoot entry.ni.nid = some old) (same : entry.isDirty = old.isDirty) :
    CacheSound sup (cache.setEntry entry) := by
  have root : (cache.setEntry entry).natRoot =
    Function.update cache.natRoot entry.ni.nid (some entry) := rfl
  have dirty (nid : Nat) : (cache.setEntry entry).DirtyAt nid ↔ cache.DirtyAt nid := by
    by_cases here : nid = entry.ni.nid
    · subst here
      rw [dirtyAt_update_self root, same]
      constructor
      · exact fun isDirty => ⟨old, cached, isDirty⟩
      · rintro ⟨found, stored, isDirty⟩
        rw [cached] at stored
        exact Option.some.inj stored ▸ isDirty
    · exact dirtyAt_update_of_ne root here
  have clean (nid : Nat) : (cache.setEntry entry).CleanAt nid ↔ cache.CleanAt nid := by
    by_cases here : nid = entry.ni.nid
    · subst here
      rw [cleanAt_update_self root, same]
      constructor
      · exact fun isClean => ⟨old, cached, isClean⟩
      · rintro ⟨found, stored, isClean⟩
        rw [cached] at stored
        exact Option.some.inj stored ▸ isClean
    · exact cleanAt_update_of_ne root here
  exact
    { key := key_update sound root rfl
      inRange := fun nid isDirty => sound.inRange nid ((dirty nid).mp isDirty)
      nodup := sound.nodup
      clean := fun nid => (sound.clean nid).trans (clean nid).symm
      sets := fun set => (sound.sets set).congr fun nid _ => dirty nid
      dirtyCount := sound.dirtyCount }

/-- The sum over the sets when one of them counts an entry more. -/
theorem sum_entryCnt_succ {before after : Nat → Nat} {limit set : Nat} (inside : set < limit)
    (here : after set = before set + 1) (others : ∀ other, other ≠ set → after other = before other) :
    ∑ other ∈ Finset.range limit, after other = (∑ other ∈ Finset.range limit, before other) + 1 := by
  have each (other : Nat) : after other = before other + if other = set then 1 else 0 := by
    split
    · next same => rw [same, here]
    · next ne => rw [others other ne, Nat.add_zero]
  rw [Finset.sum_congr rfl fun other _ => each other, Finset.sum_add_distrib, Finset.sum_ite_eq']
  rw [if_pos (Finset.mem_range.mpr inside)]

/-- A clean entry becomes dirty. -/
theorem CacheSound.setDirty (sound : CacheSound sup cache)
    (cached : cache.natRoot entry.ni.nid = some old) (same : entry.isDirty = old.isDirty)
    (inRange : entry.ni.nid < sup.maxNid) :
    CacheSound sup (setNatCacheDirty entry cache) := by
  unfold setNatCacheDirty
  split
  · exact sound
  next notDirty =>
  have clean : entry.isDirty = false := by simpa using notDirty
  set block := natBlockOffset entry.ni.nid with block_eq
  have block_eq' : entry.ni.nid / natEntryPerBlock = block := rfl
  dsimp only
  set next : NatCache := { cache.setEntry { entry with isDirty := true } with
    natEntries := cache.natEntries.erase entry.ni.nid
    natSetRoot := Function.update cache.natSetRoot block (some
      { cache.setOf block with
        entryList := (cache.setOf block).entryList ++ [entry.ni.nid]
        entryCnt := (cache.setOf block).entryCnt + 1 })
    dirtyNatCnt := cache.dirtyNatCnt + 1 } with next_eq
  have root : next.natRoot =
    Function.update cache.natRoot entry.ni.nid (some { entry with isDirty := true }) := rfl
  have setOf_here : next.setOf block = { cache.setOf block with
      entryList := (cache.setOf block).entryList ++ [entry.ni.nid]
      entryCnt := (cache.setOf block).entryCnt + 1 } := by
    simp [next_eq, NatCache.setOf]
  have setOf_other {other : Nat} (ne : other ≠ block) : next.setOf other = cache.setOf other := by
    simp [next_eq, NatCache.setOf, ne]
  have wasClean : cache.CleanAt entry.ni.nid := ⟨old, cached, same.symm.trans clean⟩
  have nowDirty : next.DirtyAt entry.ni.nid := (dirtyAt_update_self root).mpr rfl
  have notListed : entry.ni.nid ∉ (cache.setOf block).entryList := by
    intro member
    exact not_dirtyAt_of_cleanAt wasClean (((sound.sets block).mem _).mp member).2
  refine
    { key := key_update sound root rfl, inRange := ?_, nodup := sound.nodup.erase _, clean := ?_,
      sets := ?_, dirtyCount := ?_ }
  · intro nid isDirty
    by_cases here : nid = entry.ni.nid
    · exact here ▸ inRange
    · exact sound.inRange nid ((dirtyAt_update_of_ne root here).mp isDirty)
  · intro nid
    change nid ∈ cache.natEntries.erase entry.ni.nid ↔ _
    rw [sound.nodup.mem_erase_iff, sound.clean]
    by_cases here : nid = entry.ni.nid
    · subst here
      rw [cleanAt_update_self root]
      simp
    · rw [cleanAt_update_of_ne root here]
      simp [here]
  · intro set
    by_cases here : set = block
    · subst here
      rw [setOf_here]
      have before := sound.sets block
      exact
        { set_eq := before.set_eq
          nodup := List.nodup_append.mpr ⟨before.nodup, List.nodup_singleton _, by
            rintro nid member other single rfl
            rw [List.mem_singleton.mp single] at member
            exact notListed member⟩
          count := by simp [before.count]
          mem := by
            intro nid
            simp only [List.mem_append, List.mem_singleton, before.mem]
            by_cases same' : nid = entry.ni.nid
            · subst same'
              simp [nowDirty, block_eq']
            · rw [dirtyAt_update_of_ne root same']
              simp [same'] }
    · rw [setOf_other here]
      apply (sound.sets set).congr
      intro nid inSet
      apply dirtyAt_update_of_ne root
      rintro rfl
      exact here inSet.symm
  · have sum : ∑ set ∈ Finset.range sup.natBlocks, (next.setOf set).entryCnt =
        (∑ set ∈ Finset.range sup.natBlocks, (cache.setOf set).entryCnt) + 1 := by
      apply sum_entryCnt_succ (block_lt inRange)
      · rw [block_eq', setOf_here]
      · intro other ne
        rw [setOf_other ne]
    rw [sum, ← sound.dirtyCount]

/-- A dirty entry becomes clean. -/
theorem CacheSound.clearDirty (sound : CacheSound sup cache)
    (cached : cache.natRoot entry.ni.nid = some old) (dirty : old.isDirty = true) :
    CacheSound sup (clearNatCacheDirty entry cache) ∧
      (clearNatCacheDirty entry cache).natRoot =
        Function.update cache.natRoot entry.ni.nid (some { entry with isDirty := false }) ∧
      (clearNatCacheDirty entry cache).dirtyNatCnt + 1 = cache.dirtyNatCnt := by
  have wasDirty : cache.DirtyAt entry.ni.nid := ⟨old, cached, dirty⟩
  have inRange := sound.inRange _ wasDirty
  set block := natBlockOffset entry.ni.nid with block_eq
  have block_eq' : entry.ni.nid / natEntryPerBlock = block := rfl
  have before := sound.sets block
  have listed : entry.ni.nid ∈ (cache.setOf block).entryList :=
    (before.mem _).mpr ⟨block_eq', wasDirty⟩
  obtain ⟨head, found⟩ : ∃ head, cache.natSetRoot block = some head := by
    cases stored : cache.natSetRoot block with
    | none =>
        rw [NatCache.setOf, stored] at listed
        cases listed
    | some head => exact ⟨head, rfl⟩
  have head_eq : cache.setOf block = head := by rw [NatCache.setOf, found, Option.getD_some]
  rw [head_eq] at before listed
  have positive : 0 < head.entryCnt := by
    rw [before.count]
    exact List.length_pos_of_mem listed
  set next : NatCache := { cache.setEntry { entry with isDirty := false } with
    natEntries := cache.natEntries ++ [entry.ni.nid]
    natSetRoot := Function.update cache.natSetRoot block (some
      { head with entryList := head.entryList.erase entry.ni.nid, entryCnt := head.entryCnt - 1 })
    dirtyNatCnt := cache.dirtyNatCnt - 1 } with next_eq
  have cleared : clearNatCacheDirty entry cache = next := by
    unfold clearNatCacheDirty
    dsimp only
    rw [← block_eq, found]
  rw [cleared]
  have root : next.natRoot =
    Function.update cache.natRoot entry.ni.nid (some { entry with isDirty := false }) := rfl
  have setOf_here : next.setOf block =
      { head with entryList := head.entryList.erase entry.ni.nid, entryCnt := head.entryCnt - 1 } := by
    simp [next_eq, NatCache.setOf]
  have setOf_other {other : Nat} (ne : other ≠ block) : next.setOf other = cache.setOf other := by
    simp [next_eq, NatCache.setOf, ne]
  have nowClean : next.CleanAt entry.ni.nid := (cleanAt_update_self root).mpr rfl
  have notDirty : ¬ next.DirtyAt entry.ni.nid := not_dirtyAt_of_cleanAt nowClean
  have notListed : entry.ni.nid ∉ cache.natEntries := fun member =>
    not_dirtyAt_of_cleanAt ((sound.clean _).mp member) wasDirty
  have sum : ∑ set ∈ Finset.range sup.natBlocks, (cache.setOf set).entryCnt =
      (∑ set ∈ Finset.range sup.natBlocks, (next.setOf set).entryCnt) + 1 := by
    apply sum_entryCnt_succ (block_lt inRange)
    · rw [block_eq', head_eq, setOf_here]
      exact (Nat.sub_add_cancel positive).symm
    · intro other ne
      rw [setOf_other ne]
  have counted := sound.dirtyCount
  refine ⟨?_, root, ?_⟩
  · refine
      { key := key_update sound root rfl, inRange := ?_, nodup := ?_, clean := ?_, sets := ?_,
        dirtyCount := ?_ }
    · intro nid isDirty
      by_cases here : nid = entry.ni.nid
      · exact here ▸ inRange
      · exact sound.inRange nid ((dirtyAt_update_of_ne root here).mp isDirty)
    · refine List.nodup_append.mpr ⟨sound.nodup, List.nodup_singleton _, ?_⟩
      rintro nid member other single rfl
      rw [List.mem_singleton.mp single] at member
      exact notListed member
    · intro nid
      change nid ∈ cache.natEntries ++ [entry.ni.nid] ↔ _
      rw [List.mem_append, List.mem_singleton, sound.clean]
      by_cases here : nid = entry.ni.nid
      · subst here
        simp [nowClean]
      · rw [cleanAt_update_of_ne root here]
        simp [here]
    · intro set
      by_cases here : set = block
      · subst here
        rw [setOf_here]
        exact
          { set_eq := before.set_eq
            nodup := before.nodup.erase _
            count := by
              rw [List.length_erase_of_mem listed, ← before.count]
            mem := by
              intro nid
              simp only [before.nodup.mem_erase_iff, before.mem]
              by_cases same : nid = entry.ni.nid
              · subst same
                simp [notDirty]
              · rw [dirtyAt_update_of_ne root same]
                simp [same] }
      · rw [setOf_other here]
        apply (sound.sets set).congr
        intro nid inSet
        apply dirtyAt_update_of_ne root
        rintro rfl
        exact here inSet.symm
    · change cache.dirtyNatCnt - 1 = _
      omega
  · change cache.dirtyNatCnt - 1 + 1 = _
    omega

/-- An empty set can go. -/
theorem CacheSound.dropEmptySet (sound : CacheSound sup cache) (set : Nat) :
    CacheSound sup (dropEmptySet set cache) := by
  unfold F2fs.dropEmptySet
  split
  · next empty =>
      have before := sound.sets set
      have nothing : (cache.setOf set).entryList = [] := by
        rw [before.count] at empty
        exact List.length_eq_zero_iff.mp empty
      have same (other : Nat) : NatCache.setOf
          { cache with natSetRoot := Function.update cache.natSetRoot set none } other =
          cache.setOf other := by
        by_cases here : other = set
        · subst here
          have head : cache.setOf other = ⟨other, [], 0⟩ := by
            have number := before.set_eq
            cases stored : cache.setOf other with
            | mk set list count =>
                rw [stored] at empty nothing number
                dsimp only at empty nothing number
                rw [number, nothing, empty]
          rw [head]
          simp [NatCache.setOf]
        · simp [NatCache.setOf, here]
      exact
        { key := sound.key
          inRange := sound.inRange
          nodup := sound.nodup
          clean := sound.clean
          sets := fun other => by
            rw [same]
            exact (sound.sets other).congr fun _ _ => Iff.rfl
          dirtyCount := by
            rw [Finset.sum_congr rfl fun other _ => congrArg NatEntrySet.entryCnt (same other)]
            exact sound.dirtyCount }
  · exact sound

end Operations

end F2fs
end StorageStack
