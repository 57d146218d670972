import StorageStack.F2fs.NatTable

/-!
# Writing the node address table

`flush_nat_entries` writes the dirty entries to the journal when there is room for all of them.
Otherwise it takes the entries of the journal into the cache first, so that no slot of the journal
hides an entry which it writes to a NAT block.  The copies of the NAT blocks to which the bit map
refers before the flush are left alone.
-/

namespace StorageStack
namespace F2fs

variable {sup : NatSuper} {nm next : NmInfo}

theorem NatSound.ofCore (cache : CacheSound sup next.cache) (journal : next.store.journal.Sound)
    (inRange : next.store.journal.InRange sup)
    (clean : ∀ nid ni checkpointed, next.cache.core nid = some (ni, checkpointed, false) →
      rawNatFromNodeInfo ni = next.store.rawNat sup nid) : NatSound sup next where
  cache := cache
  journal := journal
  inRange := inRange
  clean nid entry cached isClean :=
    clean nid entry.ni entry.isCheckpointed (core_eq_some.mpr ⟨entry, cached, rfl, rfl, isClean⟩)

theorem NatSound.clean_core (sound : NatSound sup nm) {nid : Nat} {ni : NodeInfo}
    {checkpointed : Bool} (core : nm.cache.core nid = some (ni, checkpointed, false)) :
    rawNatFromNodeInfo ni = nm.store.rawNat sup nid := by
  obtain ⟨entry, cached, rfl, _, isClean⟩ := core_eq_some.mp core
  exact sound.clean nid entry cached isClean

/-! ## Taking the journal into the cache -/

/-- What `remove_nats_in_journal` has done with the first slots of the journal. -/
structure MergeProgress (sup : NatSuper) (nm : NmInfo) (count : Nat) (cache : NatCache) : Prop where
  sound : NatSound sup { nm with cache := cache }
  rawNat : ∀ nid, NmInfo.rawNat sup { nm with cache := cache } nid = nm.rawNat sup nid
  merged : ∀ index < count, cache.DirtyAt (nm.store.journal.keys index)
  kept : ∀ nid ni checkpointed dirty, nm.cache.core nid = some (ni, checkpointed, dirty) →
    ∃ dirty', cache.core nid = some (ni, checkpointed, dirty') ∧ (dirty = true → dirty' = true)

/-- A cached entry becomes dirty. -/
theorem NatSound.setDirty (sound : NatSound sup nm) {entry : NatEntry}
    (cached : nm.cache.natRoot entry.ni.nid = some entry) (inRange : entry.ni.nid < sup.maxNid) :
    NatSound sup { nm with cache := setNatCacheDirty entry nm.cache } := by
  have core := core_setNatCacheDirty cached
  refine NatSound.ofCore (sound.cache.setDirty cached rfl inRange) sound.journal sound.inRange ?_
  intro nid ni checkpointed stored
  change (setNatCacheDirty entry nm.cache).core nid = _ at stored
  rw [core] at stored
  by_cases here : nid = entry.ni.nid
  · rw [here, Function.update_self] at stored
    cases stored
  · rw [Function.update_of_ne here] at stored
    exact sound.clean_core stored

/-- Making a cached entry dirty keeps the map and all contents. -/
theorem setDirty_kept {entry : NatEntry} (cached : nm.cache.natRoot entry.ni.nid = some entry) :
    (∀ nid, NmInfo.rawNat sup { nm with cache := setNatCacheDirty entry nm.cache } nid =
      nm.rawNat sup nid) ∧
    (setNatCacheDirty entry nm.cache).DirtyAt entry.ni.nid ∧
    (∀ nid ni checkpointed dirty, nm.cache.core nid = some (ni, checkpointed, dirty) →
      ∃ dirty', (setNatCacheDirty entry nm.cache).core nid = some (ni, checkpointed, dirty') ∧
        (dirty = true → dirty' = true)) := by
  have core := core_setNatCacheDirty cached
  have coreHere : (setNatCacheDirty entry nm.cache).core entry.ni.nid =
      some (entry.ni, entry.isCheckpointed, true) := by rw [core, Function.update_self]
  have wasHere : nm.cache.core entry.ni.nid = some entry.core := by
    rw [NatCache.core, cached, Option.map_some]
  refine ⟨?_, dirtyAt_iff_core.mpr ⟨_, _, coreHere⟩, ?_⟩
  · intro nid
    by_cases here : nid = entry.ni.nid
    · subst here
      rw [rawNat_of_core coreHere, rawNat_of_core wasHere]
    · apply rawNat_congr
      · change (setNatCacheDirty entry nm.cache).core nid = _
        rw [core, Function.update_of_ne here]
      · rfl
  · intro nid ni checkpointed dirty stored
    by_cases here : nid = entry.ni.nid
    · subst here
      rw [wasHere] at stored
      cases stored
      exact ⟨true, coreHere, fun _ => rfl⟩
    · exact ⟨dirty, by rw [core, Function.update_of_ne here]; exact stored, id⟩

/-- A slot of the journal holds the entry of its node. -/
theorem NatSound.slot (sound : NatSound sup nm) {index : Nat} (inside : index < nm.store.journal.nNats) :
    nm.store.rawNat sup (nm.store.journal.keys index) = nm.store.journal.values index := by
  have found := (ShadowTable.indexOf_eq_some sound.journal.distinct).mpr
    (show index < nm.store.journal.nNats ∧ nm.store.journal.keys index =
      nm.store.journal.keys index from ⟨inside, rfl⟩)
  rw [rawNat_eq, ShadowTable.lookup, found]

theorem MergeProgress.step {count : Nat} {cache : NatCache}
    (progress : MergeProgress sup nm count cache) (inside : count < nm.store.journal.nNats) :
    MergeProgress sup nm (count + 1) (removeNatInJournal nm.store cache count) := by
  have sound := progress.sound
  have inRange : nm.store.journal.keys count < sup.maxNid := sound.inRange count inside
  have advance (middle next : NatCache) (entry : NatEntry)
      (middleSound : NatSound sup { nm with cache := middle })
      (middleRaw : ∀ nid, NmInfo.rawNat sup { nm with cache := middle } nid = nm.rawNat sup nid)
      (middleKept : ∀ nid contents, cache.core nid = some contents → middle.core nid = some contents)
      (key : entry.ni.nid = nm.store.journal.keys count)
      (cached : middle.natRoot entry.ni.nid = some entry)
      (next_eq : next = setNatCacheDirty entry middle) : MergeProgress sup nm (count + 1) next := by
    subst next_eq
    obtain ⟨raw, dirtyHere, kept⟩ := @setDirty_kept sup { nm with cache := middle } entry cached
    refine ⟨middleSound.setDirty cached (key ▸ inRange), fun nid => (raw nid).trans (middleRaw nid),
      ?_, ?_⟩
    · intro index earlier
      rcases Nat.lt_succ_iff_lt_or_eq.mp earlier with before | rfl
      · obtain ⟨ni, checkpointed, core⟩ := dirtyAt_iff_core.mp (progress.merged index before)
        obtain ⟨dirty', core', still⟩ := kept _ _ _ _ (middleKept _ _ core)
        exact dirtyAt_iff_core.mpr ⟨ni, checkpointed, still rfl ▸ core'⟩
      · exact key ▸ dirtyHere
    · intro nid ni checkpointed dirty stored
      obtain ⟨dirty', core, still⟩ := progress.kept nid ni checkpointed dirty stored
      obtain ⟨dirty'', core', still'⟩ := kept nid ni checkpointed dirty' (middleKept _ _ core)
      exact ⟨dirty'', core', still' ∘ still⟩
  unfold removeNatInJournal
  dsimp only
  cases cached : cache.natRoot (nm.store.journal.natJ count).nid with
  | some entry =>
      have key : entry.ni.nid = nm.store.journal.keys count := sound.cache.key _ _ cached
      dsimp only
      exact advance cache _ entry sound progress.rawNat (fun _ _ found => found) key
        (key ▸ cached) rfl
  | none =>
      dsimp only
      set entry := newNatEntry (nodeInfoFromRawNat (nm.store.journal.natJ count).nid
        (nm.store.journal.natJ count).ne) with entry_eq
      have key : entry.ni.nid = nm.store.journal.keys count := rfl
      have core := core_grabNatEntry cache entry
      have coreHere : (grabNatEntry entry cache).core entry.ni.nid = some (entry.ni, true, false) := by
        rw [core, Function.update_self]
        rfl
      have stored : rawNatFromNodeInfo entry.ni = nm.store.rawNat sup (nm.store.journal.keys count) :=
        (sound.slot inside).symm
      have absent : cache.core entry.ni.nid = none := core_eq_none.mpr cached
      refine advance (grabNatEntry entry cache) _ entry ?_ ?_ ?_ key
        (Function.update_self _ _ _) rfl
      · refine NatSound.ofCore (sound.cache.grab cached rfl) sound.journal sound.inRange ?_
        intro nid ni checkpointed found
        change (grabNatEntry entry cache).core nid = _ at found
        by_cases here : nid = entry.ni.nid
        · subst here
          rw [coreHere] at found
          cases found
          exact stored
        · rw [core, Function.update_of_ne here] at found
          exact sound.clean_core found
      · intro nid
        rw [← progress.rawNat nid]
        by_cases here : nid = entry.ni.nid
        · subst here
          have hit : NatCache.core (grabNatEntry entry cache) entry.ni.nid =
            some (entry.ni, true, false) := coreHere
          rw [@rawNat_of_core sup { nm with cache := grabNatEntry entry cache } _ _ _ _ hit, stored,
            @NmInfo.rawNat.eq_def sup { nm with cache := cache }]
          dsimp only
          rw [core_eq_none.mp absent, key]
        · apply rawNat_congr
          · change (grabNatEntry entry cache).core nid = cache.core nid
            rw [core, Function.update_of_ne here]
          · rfl
      · intro nid contents found
        have ne : nid ≠ entry.ni.nid := by
          rintro rfl
          rw [absent] at found
          cases found
        rw [core, Function.update_of_ne ne]
        exact found

/-- What `remove_nats_in_journal` leaves. -/
structure JournalMerged (sup : NatSuper) (nm next : NmInfo) : Prop where
  sound : NatSound sup next
  rawNat : ∀ nid, next.rawNat sup nid = nm.rawNat sup nid
  empty : next.store.journal.nNats = 0
  natPages : next.store.natPages = nm.store.natPages
  natBitmap : next.store.natBitmap = nm.store.natBitmap
  free : next.free = nm.free
  kept : ∀ nid ni checkpointed dirty, nm.cache.core nid = some (ni, checkpointed, dirty) →
    ∃ dirty', next.cache.core nid = some (ni, checkpointed, dirty')

theorem removeNatsInJournal_merged (sound : NatSound sup nm) :
    JournalMerged sup nm (removeNatsInJournal nm) := by
  have run (count : Nat) (inside : count ≤ nm.store.journal.nNats) :
      MergeProgress sup nm count
        ((List.range count).foldl (removeNatInJournal nm.store) nm.cache) := by
    induction count with
    | zero =>
        exact ⟨sound, fun _ => rfl, fun _ impossible => absurd impossible (Nat.not_lt_zero _),
          fun _ _ _ dirty stored => ⟨dirty, stored, id⟩⟩
    | succ count induction =>
        rw [List.range_succ, List.foldl_append, List.foldl_cons, List.foldl_nil]
        exact (induction (by omega)).step inside
  have progress := run nm.store.journal.nNats (Nat.le_refl _)
  set cache := (List.range nm.store.journal.nNats).foldl (removeNatInJournal nm.store) nm.cache
    with cache_eq
  -- a node which is not dirty has no slot in the journal
  have store_eq (nid : Nat) (clean : ¬ cache.DirtyAt nid) :
      (removeNatsInJournal nm).store.rawNat sup nid = nm.store.rawNat sup nid := by
    have absent : ShadowTable.indexOf nm.store.journal.keys nm.store.journal.nNats nid = none := by
      rw [ShadowTable.indexOf_eq_none]
      rintro index inside rfl
      exact clean (progress.merged index inside)
    rw [rawNat_eq, rawNat_eq, ShadowTable.lookup, ShadowTable.lookup, absent]
    rfl
  have next_cache : (removeNatsInJournal nm).cache = cache := rfl
  have clean_not_dirty {nid : Nat} {ni : NodeInfo} {checkpointed : Bool}
      (core : cache.core nid = some (ni, checkpointed, false)) : ¬ cache.DirtyAt nid := by
    intro dirty
    obtain ⟨_, _, core'⟩ := dirtyAt_iff_core.mp dirty
    rw [core] at core'
    cases core'
  refine ⟨NatSound.ofCore progress.sound.cache ⟨?_, Nat.zero_le _⟩ ?_ ?_, ?_, rfl, rfl, rfl, rfl, ?_⟩
  · intro _ impossible
    exact absurd impossible (Nat.not_lt_zero _)
  · intro _ impossible
    exact absurd impossible (Nat.not_lt_zero _)
  · intro nid ni checkpointed core
    rw [store_eq nid (clean_not_dirty core)]
    exact progress.sound.clean_core core
  · intro nid
    rw [← progress.rawNat nid]
    unfold NmInfo.rawNat
    rw [next_cache]
    cases cached : cache.natRoot nid with
    | some entry => rfl
    | none =>
        apply store_eq
        rintro ⟨_, found, _⟩
        rw [cached] at found
        cases found
  · intro nid ni checkpointed dirty stored
    obtain ⟨dirty', core, _⟩ := progress.kept nid ni checkpointed dirty stored
    exact ⟨dirty', core⟩

/-! ## One entry -/

/-- What `add_free_nid` has done with node numbers for which `ok` holds. -/
inductive FreeGrown (room : Nat → Bool) (ok : Nat → Prop) (free : FreeNidInfo) :
    FreeNidInfo → Prop where
  | refl : FreeGrown room ok free free
  | add (middle : FreeNidInfo) (cache : NatCache) (nid : Nat)
      (grown : FreeGrown room ok free middle) (good : ok nid) :
      FreeGrown room ok free (addFreeNid room cache nid false middle).1

theorem FreeGrown.trans {room : Nat → Bool} {ok : Nat → Prop} {first second third : FreeNidInfo}
    (left : FreeGrown room ok first second) (right : FreeGrown room ok second third) :
    FreeGrown room ok first third := by
  induction right with
  | refl => exact left
  | add middle cache nid _ good induction => exact .add middle cache nid induction good

/-- A node number in range whose node has no block. -/
def NatSuper.Unallocated (sup : NatSuper) (nm : NmInfo) (nid : Nat) : Prop :=
  nid < sup.maxNid ∧ (nm.rawNat sup nid).blockAddr = nullAddr

theorem unallocated_congr (rawNat : ∀ nid, next.rawNat sup nid = nm.rawNat sup nid) :
    sup.Unallocated next = sup.Unallocated nm := by
  funext nid
  rw [NatSuper.Unallocated, NatSuper.Unallocated, rawNat]

/-- The target can take so many entries of a block. -/
def NatTargetFits (sup : NatSuper) (nm : NmInfo) (block count : Nat) : NatTarget → Prop
  | .journal => nm.store.journal.nNats + count ≤ natJournalEntries
  | .page address start =>
      address = sup.natAddr block (nm.store.natBitmap block) ∧ start = block * natEntryPerBlock ∧
        nm.store.journal.Lacks block

/-- What the flush of entries of one block leaves as it is. -/
structure FlushFrame (sup : NatSuper) (room : Nat → Bool) (block : Nat) (target : NatTarget)
    (count : Nat) (nm next : NmInfo) : Prop where
  sound : NatSound sup next
  rawNat : ∀ nid, next.rawNat sup nid = nm.rawNat sup nid
  nNats : next.store.journal.nNats ≤ nm.store.journal.nNats + count
  total : next.cache.dirtyNatCnt + next.store.journal.nNats ≤
    nm.cache.dirtyNatCnt + nm.store.journal.nNats
  natBitmap : next.store.natBitmap = nm.store.natBitmap
  pages : ∀ address, address ≠ sup.natAddr block (nm.store.natBitmap block) ∨ target = .journal →
    next.store.natPages address = nm.store.natPages address
  lacks : ∀ other, other ≠ block → nm.store.journal.Lacks other → next.store.journal.Lacks other
  page : target ≠ .journal → next.store.journal = nm.store.journal
  free : FreeGrown room (sup.Unallocated nm) nm.free next.free

theorem FlushFrame.refl (sound : NatSound sup nm) (room : Nat → Bool) (block : Nat)
    (target : NatTarget) : FlushFrame sup room block target 0 nm nm where
  sound := sound
  rawNat _ := rfl
  nNats := Nat.le_refl _
  total := Nat.le_refl _
  natBitmap := rfl
  pages _ _ := rfl
  lacks _ _ lacks := lacks
  page _ := rfl
  free := .refl

theorem FlushFrame.trans {room : Nat → Bool} {block left right : Nat} {target : NatTarget}
    {last : NmInfo} (first : FlushFrame sup room block target left nm next)
    (second : FlushFrame sup room block target right next last) :
    FlushFrame sup room block target (left + right) nm last where
  sound := second.sound
  rawNat nid := (second.rawNat nid).trans (first.rawNat nid)
  nNats := by
    have before := first.nNats
    have after := second.nNats
    omega
  total := second.total.trans first.total
  natBitmap := second.natBitmap.trans first.natBitmap
  pages address outside := by
    rw [second.pages address (by rw [first.natBitmap]; exact outside), first.pages address outside]
  lacks other ne lacks := second.lacks other ne (first.lacks other ne lacks)
  page isPage := (second.page isPage).trans (first.page isPage)
  free := by
    apply first.free.trans
    have same := second.free
    rw [unallocated_congr first.rawNat] at same
    exact same

/-- The contents of the cache after the flush of a dirty entry. -/
def flushedCore (ni : NodeInfo) (checkpointed : Bool) : NodeInfo × Bool × Bool :=
  if ni.blkAddr = newAddr then (ni, checkpointed, true) else (ni, true, false)

theorem flushedCore_fst (ni : NodeInfo) (checkpointed : Bool) :
    (flushedCore ni checkpointed).1 = ni := by
  unfold flushedCore
  split <;> rfl

/-- The write of a raw entry succeeds when the target fits. -/
theorem writeRawNat_fits (sound : NatSound sup nm) {block count : Nat} {target : NatTarget}
    {ni : NodeInfo} (inBlock : ni.nid / natEntryPerBlock = block)
    (fits : NatTargetFits sup nm block (count + 1) target) :
    ∃ store, writeRawNat target ni nm.store = some store ∧ NatWritten sup ni nm.store store ∧
      store.journal.nNats ≤ nm.store.journal.nNats + 1 ∧
      (∀ address, address ≠ sup.natAddr block (nm.store.natBitmap block) ∨ target = .journal →
        store.natPages address = nm.store.natPages address) ∧
      (∀ other, other ≠ block → nm.store.journal.Lacks other → store.journal.Lacks other) ∧
      (target ≠ .journal → store.journal = nm.store.journal) := by
  cases target with
  | journal =>
      have space : nm.store.journal.nNats < natJournalEntries := by
        have room : nm.store.journal.nNats + (count + 1) ≤ natJournalEntries := fits
        omega
      obtain ⟨store, written, nat, pages, nNats, lacks⟩ :=
        @writeRawNat_journal sup nm.store ni sound.journal space
      refine ⟨store, written, nat, nNats, fun address _ => by rw [pages], ?_,
        fun impossible => absurd rfl impossible⟩
      intro other ne
      exact lacks other (by rw [inBlock]; exact ne)
  | page address start =>
      obtain ⟨rfl, rfl, lacks⟩ := fits
      obtain ⟨store, written, nat, journal, pages⟩ :=
        @writeRawNat_page sup nm.store ni block sound.journal inBlock lacks
      refine ⟨store, written, nat, by rw [journal]; exact Nat.le_succ _, ?_, ?_, fun _ => journal⟩
      · rintro address' (outside | impossible)
        · exact pages address' outside
        · cases impossible
      · intro other _ lacksOther
        rw [journal]
        exact lacksOther

/-- One round of the loop in `__flush_nat_entry_set`. -/
theorem flushNatEntry_flushed (sound : NatSound sup nm) (room : Nat → Bool) {block count nid : Nat}
    {target : NatTarget} {ni : NodeInfo} {checkpointed : Bool}
    (core : nm.cache.core nid = some (ni, checkpointed, true))
    (inBlock : nid / natEntryPerBlock = block)
    (fits : NatTargetFits sup nm block (count + 1) target) :
    ∃ next, flushNatEntry room target nm nid = some next ∧
      FlushFrame sup room block target 1 nm next ∧
      next.cache.core = Function.update nm.cache.core nid (some (flushedCore ni checkpointed)) := by
  obtain ⟨entry, cached, rfl, rfl, dirty⟩ := core_eq_some.mp core
  have key := sound.cache.key nid entry cached
  unfold flushNatEntry
  rw [cached, Option.bind_some]
  by_cases isNew : entry.ni.blkAddr = newAddr
  · rw [if_pos isNew]
    refine ⟨nm, rfl, ?_, ?_⟩
    · have same := FlushFrame.refl sound room block target
      exact { same with nNats := Nat.le_succ _ }
    · rw [flushedCore, if_pos isNew, ← core, Function.update_eq_self]
  · rw [if_neg isNew]
    have inBlock' : entry.ni.nid / natEntryPerBlock = block := by rw [key]; exact inBlock
    obtain ⟨store, written, nat, nNats, pages, lacks, page⟩ := writeRawNat_fits sound inBlock' fits
    have cachedKey : nm.cache.natRoot (natResetFlag entry).ni.nid = some entry := by
      rw [show (natResetFlag entry).ni = entry.ni from rfl, key]
      exact cached
    obtain ⟨cleared, root, counted⟩ := sound.cache.clearDirty cachedKey dirty
    rw [written, Option.map_some]
    refine ⟨_, rfl, ?_⟩
    dsimp only
    have coreNext : (clearNatCacheDirty (natResetFlag entry) nm.cache).core =
        Function.update nm.cache.core nid (some (entry.ni, true, false)) := by
      rw [core_update root]
      rw [show (natResetFlag entry).ni.nid = nid from key]
      rfl
    have rawHere : nm.rawNat sup nid = rawNatFromNodeInfo entry.ni := rawNat_of_core core
    constructor
    · refine
        { sound := NatSound.ofCore cleared nat.sound
            (nat.inRange (by rw [key]; exact sound.cache.inRange nid ⟨entry, cached, dirty⟩)
              sound.inRange) ?_
          rawNat := ?_, nNats := nNats, total := ?_, natBitmap := nat.bitmap, pages := pages,
          lacks := lacks, page := page, free := ?_ }
      · intro other ni' checkpointed' stored
        change (clearNatCacheDirty (natResetFlag entry) nm.cache).core other = _ at stored
        rw [nat.rawNat]
        rw [coreNext] at stored
        by_cases here : other = nid
        · rw [here, Function.update_self] at stored
          cases stored
          rw [if_pos (here.trans key.symm)]
        · rw [Function.update_of_ne here] at stored
          rw [if_neg (by rw [key]; exact here)]
          exact sound.clean_core stored
      · intro other
        by_cases here : other = nid
        · have hit : (clearNatCacheDirty (natResetFlag entry) nm.cache).core other =
              some (entry.ni, true, false) := by
            rw [coreNext, here, Function.update_self]
          rw [here, rawHere, ← here]
          exact rawNat_of_core hit
        · apply rawNat_congr
          · change (clearNatCacheDirty (natResetFlag entry) nm.cache).core other = _
            rw [coreNext, Function.update_of_ne here]
          · change store.rawNat sup other = _
            rw [nat.rawNat, if_neg (by rw [key]; exact here)]
      · change (clearNatCacheDirty (natResetFlag entry) nm.cache).dirtyNatCnt +
          store.journal.nNats ≤ _
        omega
      · split
        · next isNull =>
            exact .add _ _ _ .refl
              ⟨sound.cache.inRange nid ⟨entry, cached, dirty⟩, by rw [rawHere]; exact isNull⟩
        · exact .refl
    · rw [flushedCore, if_neg isNew]
      exact coreNext

/-! ## One set -/

theorem NatTargetFits.step {room : Nat → Bool} {block count : Nat} {target : NatTarget}
    (fits : NatTargetFits sup nm block (count + 1) target)
    (frame : FlushFrame sup room block target 1 nm next) :
    NatTargetFits sup next block count target := by
  cases target with
  | journal =>
      have before : nm.store.journal.nNats + (count + 1) ≤ natJournalEntries := fits
      have grown := frame.nNats
      change next.store.journal.nNats + count ≤ natJournalEntries
      omega
  | page address start =>
      obtain ⟨address_eq, start_eq, lacks⟩ := fits
      have journal : next.store.journal = nm.store.journal :=
        frame.page (fun impossible => by cases impossible)
      exact ⟨by rw [frame.natBitmap]; exact address_eq, start_eq, by rw [journal]; exact lacks⟩

/-- The contents of the cache after the flush of the dirty entries on a list. -/
structure CoreFlushed (nids : Nat → Prop) (nm next : NmInfo) : Prop where
  here : ∀ nid, nids nid → ∀ ni checkpointed, nm.cache.core nid = some (ni, checkpointed, true) →
    next.cache.core nid = some (flushedCore ni checkpointed)
  others : ∀ nid, ¬ nids nid → next.cache.core nid = nm.cache.core nid

/-- The loop in `__flush_nat_entry_set`. -/
theorem flushNatEntries_flushed (room : Nat → Bool) {block : Nat} {target : NatTarget}
    (nids : List Nat) (sound : NatSound sup nm) (nodup : nids.Nodup)
    (dirty : ∀ nid ∈ nids, nid / natEntryPerBlock = block ∧ nm.cache.DirtyAt nid)
    (fits : NatTargetFits sup nm block nids.length target) :
    ∃ next, nids.foldlM (flushNatEntry room target) nm = some next ∧
      FlushFrame sup room block target nids.length nm next ∧ CoreFlushed (· ∈ nids) nm next := by
  induction nids generalizing nm with
  | nil =>
      exact ⟨nm, rfl, FlushFrame.refl sound room block target,
        fun _ impossible => absurd impossible List.not_mem_nil, fun _ _ => rfl⟩
  | cons nid nids induction =>
      obtain ⟨notLater, restNodup⟩ := List.nodup_cons.mp nodup
      obtain ⟨inBlock, isDirty⟩ := dirty nid List.mem_cons_self
      obtain ⟨ni, checkpointed, core⟩ := dirtyAt_iff_core.mp isDirty
      obtain ⟨middle, flushed, frame, coreMiddle⟩ :=
        flushNatEntry_flushed sound room core inBlock fits
      have restDirty : ∀ other ∈ nids, other / natEntryPerBlock = block ∧
          middle.cache.DirtyAt other := by
        intro other member
        obtain ⟨inBlock', isDirty'⟩ := dirty other (List.mem_cons_of_mem _ member)
        have ne : other ≠ nid := fun same => notLater (same ▸ member)
        rw [dirtyAt_iff_core] at isDirty' ⊢
        rw [coreMiddle, Function.update_of_ne ne]
        exact ⟨inBlock', isDirty'⟩
      obtain ⟨last, run, frame', core'⟩ :=
        induction frame.sound restNodup restDirty (fits.step frame)
      refine ⟨last, ?_, ?_, ?_, ?_⟩
      · rw [List.foldlM_cons, flushed]
        exact run
      · rw [List.length_cons, Nat.add_comm]
        exact frame.trans frame'
      · intro other member ni' checkpointed' stored
        rcases List.mem_cons.mp member with rfl | later
        · rw [core'.others other notLater, coreMiddle, Function.update_self]
          rw [core] at stored
          cases stored
          rfl
        · have ne : other ≠ nid := fun same => notLater (same ▸ later)
          apply core'.here other later
          rw [coreMiddle, Function.update_of_ne ne]
          exact stored
      · intro other absent
        rw [List.mem_cons, not_or] at absent
        rw [core'.others other absent.2, coreMiddle, Function.update_of_ne absent.1]

/-- What the flush of one set does. -/
structure NatSetFlushed (sup : NatSuper) (room : Nat → Bool) (set : Nat) (nm next : NmInfo) :
    Prop where
  sound : NatSound sup next
  rawNat : ∀ nid, next.rawNat sup nid = nm.rawNat sup nid
  core : CoreFlushed (fun nid => nid / natEntryPerBlock = set ∧ nm.cache.DirtyAt nid) nm next
  total : next.cache.dirtyNatCnt + next.store.journal.nNats ≤
    nm.cache.dirtyNatCnt + nm.store.journal.nNats
  natBitmap : ∀ other, other ≠ set → next.store.natBitmap other = nm.store.natBitmap other
  pages : ∀ address, address ≠ sup.natAddr set (!nm.store.natBitmap set) →
    next.store.natPages address = nm.store.natPages address
  lacks : ∀ other, other ≠ set → nm.store.journal.Lacks other → next.store.journal.Lacks other
  free : FreeGrown room (sup.Unallocated nm) nm.free next.free

theorem entryCnt_le (sound : CacheSound sup nm.cache) (set : Nat) :
    (nm.cache.setOf set).entryCnt ≤ nm.cache.dirtyNatCnt := by
  rcases Nat.lt_or_ge set sup.natBlocks with inside | outside
  · rw [sound.dirtyCount]
    exact Finset.single_le_sum (fun other _ => Nat.zero_le (nm.cache.setOf other).entryCnt)
      (Finset.mem_range.mpr inside)
  · have empty : (nm.cache.setOf set).entryList = [] := by
      rw [List.eq_nil_iff_forall_not_mem]
      intro nid member
      obtain ⟨inSet, dirty⟩ := ((sound.sets set).mem nid).mp member
      have bounded := block_lt (sound.inRange nid dirty)
      omega
    rw [(sound.sets set).count, empty]
    exact Nat.zero_le _

/-- Deleting an empty set changes no entry. -/
theorem dropEmptySet_natRoot (set : Nat) (cache : NatCache) :
    (dropEmptySet set cache).natRoot = cache.natRoot ∧
      (dropEmptySet set cache).dirtyNatCnt = cache.dirtyNatCnt := by
  unfold dropEmptySet
  split
  · exact ⟨rfl, rfl⟩
  · exact ⟨rfl, rfl⟩

/-- The end of `__flush_nat_entry_set`. -/
theorem NatSound.dropEmptySet (sound : NatSound sup nm) (set : Nat) :
    NatSound sup { nm with cache := dropEmptySet set nm.cache } where
  cache := sound.cache.dropEmptySet set
  journal := sound.journal
  inRange := sound.inRange
  clean nid entry cached := by
    rw [show ({ nm with cache := F2fs.dropEmptySet set nm.cache } : NmInfo).cache.natRoot =
      nm.cache.natRoot from (dropEmptySet_natRoot set nm.cache).1] at cached
    exact sound.clean nid entry cached

/-- `__flush_nat_entry_set` of a set which fits the journal together with all dirty entries, or none
of whose nodes is in the journal. -/
theorem flushNatEntrySet_flushed (sound : NatSound sup nm) (room : Nat → Bool) (set : Nat)
    (space : nm.cache.dirtyNatCnt + nm.store.journal.nNats ≤ natJournalEntries ∨
      nm.store.journal.Lacks set) :
    ∃ next, flushNatEntrySet sup room nm set = some next ∧ NatSetFlushed sup room set nm next := by
  have head := sound.cache.sets set
  have dirty : ∀ nid ∈ (nm.cache.setOf set).entryList, nid / natEntryPerBlock = set ∧
      nm.cache.DirtyAt nid := fun nid member => (head.mem nid).mp member
  have finish (opened : NmInfo) {next : NmInfo} (cache : opened.cache = nm.cache) (free : opened.free = nm.free)
      {target : NatTarget} (rawNat : ∀ nid, opened.rawNat sup nid = nm.rawNat sup nid)
      (journal : opened.store.journal = nm.store.journal)
      (bitmap : ∀ other, other ≠ set → opened.store.natBitmap other = nm.store.natBitmap other)
      (openedPages : ∀ address, address ≠ sup.natAddr set (!nm.store.natBitmap set) →
        opened.store.natPages address = nm.store.natPages address)
      (place : target = .journal ∨ opened.store.natBitmap set = !nm.store.natBitmap set)
      (frame : FlushFrame sup room set target (nm.cache.setOf set).entryList.length opened next)
      (core : CoreFlushed (· ∈ (nm.cache.setOf set).entryList) opened next) :
      NatSetFlushed sup room set nm { next with cache := dropEmptySet set next.cache } := by
    obtain ⟨root, count⟩ := dropEmptySet_natRoot set next.cache
    have core_eq : NatCache.core (dropEmptySet set next.cache) = next.cache.core := by
      funext nid
      rw [NatCache.core, NatCache.core, root]
    refine
      { sound := frame.sound.dropEmptySet set, rawNat := ?_, core := ⟨?_, ?_⟩, total := ?_,
        natBitmap := ?_, pages := ?_, lacks := ?_, free := ?_ }
    · intro nid
      rw [← rawNat nid, ← frame.rawNat nid]
      exact rawNat_congr (congrFun core_eq nid) rfl
    · intro nid member ni checkpointed stored
      change NatCache.core (dropEmptySet set next.cache) nid = _
      rw [core_eq]
      apply core.here nid ((head.mem nid).mpr member)
      rw [cache]
      exact stored
    · intro nid absent
      change NatCache.core (dropEmptySet set next.cache) nid = _
      rw [core_eq, core.others nid (fun member => absent ((head.mem nid).mp member)), cache]
    · have total := frame.total
      rw [cache, journal] at total
      change (dropEmptySet set next.cache).dirtyNatCnt + next.store.journal.nNats ≤ _
      rw [count]
      exact total
    · intro other ne
      change next.store.natBitmap other = _
      rw [frame.natBitmap, bitmap other ne]
    · intro address outside
      change next.store.natPages address = _
      rw [frame.pages address, openedPages address outside]
      rcases place with rfl | flipped
      · exact .inr rfl
      · left
        rw [flipped]
        exact outside
    · intro other ne lacks
      exact frame.lacks other ne (by rw [journal]; exact lacks)
    · have grown := frame.free
      rw [unallocated_congr rawNat, free] at grown
      exact grown
  unfold flushNatEntrySet
  dsimp only
  by_cases journal : hasNatSpace nm.store.journal (nm.cache.setOf set).entryCnt = true
  · simp only [if_pos journal]
    have fits : NatTargetFits sup nm set (nm.cache.setOf set).entryList.length .journal := by
      have enough : (nm.cache.setOf set).entryCnt ≤ natJournalEntries - nm.store.journal.nNats :=
        of_decide_eq_true journal
      have bounded := sound.journal.bounded
      have count := head.count
      change nm.store.journal.nNats + _ ≤ natJournalEntries
      omega
    obtain ⟨next, run, frame, core⟩ :=
      flushNatEntries_flushed room _ sound head.nodup dirty fits
    refine ⟨_, by rw [run]; rfl, ?_⟩
    exact finish nm rfl rfl (fun _ => rfl) rfl (fun _ _ => rfl) (fun _ _ => rfl) (.inl rfl) frame core
  · simp only [if_neg journal]
    have lacks : nm.store.journal.Lacks set := by
      rcases space with roomy | lacks
      · exfalso
        apply journal
        have few := entryCnt_le sound.cache set
        apply decide_eq_true
        unfold maxNatJentries
        omega
      · exact lacks
    obtain ⟨switched, address⟩ := @getNextNatPage_switched sup nm.store set
    set opened : NmInfo :=
      { nm with store := (getNextNatPage sup (set * natEntryPerBlock) nm.store).1 } with opened_eq
    have openedStore : opened.store = (getNextNatPage sup (set * natEntryPerBlock) nm.store).1 := rfl
    rw [← openedStore] at switched
    have openedSound : NatSound sup opened :=
      { cache := sound.cache
        journal := by rw [switched.journal]; exact sound.journal
        inRange := by rw [switched.journal]; exact sound.inRange
        clean := fun nid entry cached clean => by
          rw [switched.rawNat]
          exact sound.clean nid entry cached clean }
    have flipped : opened.store.natBitmap set = !nm.store.natBitmap set := by
      rw [switched.bitmap, Function.update_self]
    have fits : NatTargetFits sup opened set (nm.cache.setOf set).entryList.length
        (.page (getNextNatPage sup (set * natEntryPerBlock) nm.store).2 (set * natEntryPerBlock)) := by
      refine ⟨?_, rfl, ?_⟩
      · rw [address, flipped]
      · rw [switched.journal]
        exact lacks
    obtain ⟨next, run, frame, core⟩ :=
      flushNatEntries_flushed room _ openedSound head.nodup dirty fits
    refine ⟨_, by rw [run]; rfl, ?_⟩
    refine finish opened rfl rfl ?_ switched.journal ?_ switched.others (.inr flipped) frame core
    · intro nid
      exact rawNat_congr rfl (switched.rawNat nid)
    · intro other ne
      rw [switched.bitmap, Function.update_of_ne ne]

/-! ## All sets -/

theorem insertNatEntrySet_perm (nes : NatEntrySet) (head : List NatEntrySet) :
    (insertNatEntrySet nes head).Perm (nes :: head) := by
  induction head with
  | nil => exact .refl _
  | cons cur rest induction =>
      unfold insertNatEntrySet
      split
      · exact .refl _
      · exact (induction.cons cur).trans (.swap nes cur rest)

theorem adjustNatEntrySet_perm (max : Nat) (head : List NatEntrySet) (nes : NatEntrySet) :
    (adjustNatEntrySet max head nes).Perm (nes :: head) := by
  unfold adjustNatEntrySet
  split
  · exact List.perm_append_comm
  · exact insertNatEntrySet_perm nes head

theorem foldl_adjustNatEntrySet_perm (max : Nat) (sets head : List NatEntrySet) :
    (sets.foldl (adjustNatEntrySet max) head).Perm (sets ++ head) := by
  induction sets generalizing head with
  | nil => exact .refl _
  | cons nes sets induction =>
      rw [List.foldl_cons, List.cons_append]
      have first := (adjustNatEntrySet_perm max head nes).append_left sets
      exact (induction _).trans (first.trans List.perm_middle)

/-- The sets which are flushed, each once. -/
theorem setsToFlush_spec (sound : CacheSound sup nm.cache) :
    ((setsToFlush sup nm).map NatEntrySet.set).Nodup ∧
      ∀ nid, nm.cache.DirtyAt nid →
        nid / natEntryPerBlock ∈ (setsToFlush sup nm).map NatEntrySet.set := by
  have number : ((List.range sup.natBlocks).filterMap nm.cache.natSetRoot).map NatEntrySet.set =
      (List.range sup.natBlocks).filter fun set => (nm.cache.natSetRoot set).isSome := by
    rw [List.map_filterMap, ← List.filterMap_eq_filter]
    apply List.filterMap_congr
    intro set _
    cases stored : nm.cache.natSetRoot set with
    | none => simp [Option.guard, stored]
    | some head =>
        have set_eq := (sound.sets set).set_eq
        rw [NatCache.setOf, stored, Option.getD_some] at set_eq
        simp [Option.guard, stored, set_eq]
  have perm : ((setsToFlush sup nm).map NatEntrySet.set).Perm
      ((List.range sup.natBlocks).filter fun set => (nm.cache.natSetRoot set).isSome) := by
    rw [← number]
    apply List.Perm.map
    have permuted := foldl_adjustNatEntrySet_perm (maxNatJentries nm.store.journal)
      ((List.range sup.natBlocks).filterMap nm.cache.natSetRoot) []
    rw [List.append_nil] at permuted
    exact permuted
  refine ⟨perm.nodup_iff.mpr (List.nodup_range.filter _), ?_⟩
  intro nid dirty
  rw [perm.mem_iff, List.mem_filter, List.mem_range]
  refine ⟨block_lt (sound.inRange nid dirty), ?_⟩
  have listed := ((sound.sets (nid / natEntryPerBlock)).mem nid).mpr ⟨rfl, dirty⟩
  cases stored : nm.cache.natSetRoot (nid / natEntryPerBlock) with
  | none =>
      rw [NatCache.setOf, stored] at listed
      cases listed
  | some head => rfl

/-- What the flush of a list of sets does. -/
structure NatSetsFlushed (sup : NatSuper) (room : Nat → Bool) (sets : List Nat) (nm next : NmInfo) :
    Prop where
  sound : NatSound sup next
  rawNat : ∀ nid, next.rawNat sup nid = nm.rawNat sup nid
  core : CoreFlushed (fun nid => nid / natEntryPerBlock ∈ sets ∧ nm.cache.DirtyAt nid) nm next
  pages : ∀ address, (∀ set ∈ sets, address ≠ sup.natAddr set (!nm.store.natBitmap set)) →
    next.store.natPages address = nm.store.natPages address
  natBitmap : ∀ other, other ∉ sets → next.store.natBitmap other = nm.store.natBitmap other
  free : FreeGrown room (sup.Unallocated nm) nm.free next.free

theorem flushNatEntrySets_flushed (room : Nat → Bool) (sets : List Nat) (sound : NatSound sup nm)
    (nodup : sets.Nodup)
    (space : nm.cache.dirtyNatCnt + nm.store.journal.nNats ≤ natJournalEntries ∨
      ∀ set ∈ sets, nm.store.journal.Lacks set) :
    ∃ next, sets.foldlM (flushNatEntrySet sup room) nm = some next ∧
      NatSetsFlushed sup room sets nm next := by
  induction sets generalizing nm with
  | nil =>
      refine ⟨nm, rfl, sound, fun _ => rfl, ⟨?_, fun _ _ => rfl⟩, fun _ _ => rfl, fun _ _ => rfl,
        .refl⟩
      rintro nid ⟨impossible, _⟩
      exact absurd impossible List.not_mem_nil
  | cons set sets induction =>
      obtain ⟨notLater, restNodup⟩ := List.nodup_cons.mp nodup
      have apart {other : Nat} (member : other ∈ sets) : other ≠ set :=
        fun same => notLater (same ▸ member)
      have here : nm.cache.dirtyNatCnt + nm.store.journal.nNats ≤ natJournalEntries ∨
          nm.store.journal.Lacks set :=
        space.imp_right fun lacks => lacks set List.mem_cons_self
      obtain ⟨middle, flushed, first⟩ := flushNatEntrySet_flushed sound room set here
      have rest : middle.cache.dirtyNatCnt + middle.store.journal.nNats ≤ natJournalEntries ∨
          ∀ other ∈ sets, middle.store.journal.Lacks other := by
        rcases space with roomy | lacks
        · exact .inl (first.total.trans roomy)
        · exact .inr fun other member =>
            first.lacks other (apart member) (lacks other (List.mem_cons_of_mem _ member))
      obtain ⟨last, run, second⟩ := induction first.sound restNodup rest
      have stillDirty {nid : Nat} (notHere : nid / natEntryPerBlock ≠ set) :
          middle.cache.core nid = nm.cache.core nid :=
        first.core.others nid fun absurdly => notHere absurdly.1
      refine ⟨last, ?_, second.sound, fun nid => (second.rawNat nid).trans (first.rawNat nid),
        ⟨?_, ?_⟩, ?_, ?_, ?_⟩
      · rw [List.foldlM_cons, flushed]
        exact run
      · rintro nid ⟨member, isDirty⟩ ni checkpointed stored
        rcases List.mem_cons.mp member with inSet | later
        · rw [second.core.others nid (fun absurdly => notLater (inSet ▸ absurdly.1))]
          exact first.core.here nid ⟨inSet, isDirty⟩ ni checkpointed stored
        · have same := stillDirty (apart later)
          apply second.core.here nid
          · rw [dirtyAt_iff_core] at isDirty ⊢
            rw [same]
            exact ⟨later, isDirty⟩
          · rw [same]
            exact stored
      · intro nid absent
        have firstAbsent : ¬ (nid / natEntryPerBlock = set ∧ nm.cache.DirtyAt nid) :=
          fun absurdly => absent ⟨List.mem_cons.mpr (.inl absurdly.1), absurdly.2⟩
        have same := first.core.others nid firstAbsent
        rw [second.core.others nid, same]
        rintro ⟨later, isDirty⟩
        apply absent
        rw [dirtyAt_iff_core, same, ← dirtyAt_iff_core] at isDirty
        exact ⟨List.mem_cons_of_mem _ later, isDirty⟩
      · intro address outside
        rw [second.pages address, first.pages address (outside set List.mem_cons_self)]
        intro other member
        rw [first.natBitmap other (apart member)]
        exact outside other (List.mem_cons_of_mem _ member)
      · intro other absent
        rw [List.mem_cons, not_or] at absent
        rw [second.natBitmap other absent.2, first.natBitmap other absent.1]
      · have grown := second.free
        rw [unallocated_congr first.rawNat] at grown
        exact first.free.trans grown

/-- What `flush_nat_entries` does. -/
structure NatFlushed (sup : NatSuper) (room : Nat → Bool) (nm next : NmInfo) : Prop where
  sound : NatSound sup next
  rawNat : ∀ nid, next.rawNat sup nid = nm.rawNat sup nid
  /-- Only an entry of a new node which has no block yet stays dirty. -/
  dirty : ∀ nid ni checkpointed, next.cache.core nid = some (ni, checkpointed, true) →
    ni.blkAddr = newAddr
  cached : ∀ nid ni checkpointed dirty, nm.cache.core nid = some (ni, checkpointed, dirty) →
    ∃ checkpointed' dirty', next.cache.core nid = some (ni, checkpointed', dirty')
  /-- The copies of the NAT blocks which were current before the flush. -/
  shadow : ∀ block, next.store.natPages (sup.natAddr block (nm.store.natBitmap block)) =
    nm.store.natPages (sup.natAddr block (nm.store.natBitmap block))
  free : FreeGrown room (sup.Unallocated nm) nm.free next.free

/-- The flush after the journal has been taken into the cache, when that was necessary. -/
theorem flushMerged_flushed (room : Nat → Bool) (sound : NatSound sup nm)
    (space : nm.cache.dirtyNatCnt + nm.store.journal.nNats ≤ natJournalEntries ∨
      nm.store.journal.nNats = 0) :
    ∃ next, (if nm.cache.dirtyNatCnt = 0 then some nm
      else (((setsToFlush sup nm).map NatEntrySet.set).foldlM (flushNatEntrySet sup room) nm).map
        fun nm => nm.bugOn (nm.cache.dirtyNatCnt != 0)) = some next ∧
      NatFlushed sup room nm next := by
  split
  · next clean =>
      refine ⟨nm, rfl, sound, fun _ => rfl, ?_,
        fun _ _ checkpointed dirty stored => ⟨checkpointed, dirty, stored⟩, fun _ => rfl, .refl⟩
      intro nid ni checkpointed stored
      exfalso
      have dirty : nm.cache.DirtyAt nid := dirtyAt_iff_core.mpr ⟨_, _, stored⟩
      have listed := ((sound.cache.sets (nid / natEntryPerBlock)).mem nid).mpr ⟨rfl, dirty⟩
      have positive := List.length_pos_of_mem listed
      have few := entryCnt_le sound.cache (nid / natEntryPerBlock)
      rw [(sound.cache.sets (nid / natEntryPerBlock)).count] at few
      omega
  · obtain ⟨nodup, covered⟩ := setsToFlush_spec sound.cache
    have room' : nm.cache.dirtyNatCnt + nm.store.journal.nNats ≤ natJournalEntries ∨
        ∀ set ∈ (setsToFlush sup nm).map NatEntrySet.set, nm.store.journal.Lacks set := by
      apply space.imp_right
      intro empty set _ index inside
      omega
    obtain ⟨next, run, flushed⟩ := flushNatEntrySets_flushed room _ sound nodup room'
    refine ⟨_, by rw [run]; rfl, ?_⟩
    have coreOf (nid : Nat) (ni : NodeInfo) (checkpointed : Bool)
        (stored : nm.cache.core nid = some (ni, checkpointed, true)) :
        next.cache.core nid = some (flushedCore ni checkpointed) := by
      have dirty : nm.cache.DirtyAt nid := dirtyAt_iff_core.mpr ⟨_, _, stored⟩
      exact flushed.core.here nid ⟨covered nid dirty, dirty⟩ ni checkpointed stored
    have unchanged (nid : Nat) (clean : ¬ nm.cache.DirtyAt nid) :
        next.cache.core nid = nm.cache.core nid :=
      flushed.core.others nid fun absurdly => clean absurdly.2
    refine ⟨⟨flushed.sound.cache, flushed.sound.journal, flushed.sound.inRange, flushed.sound.clean⟩,
      flushed.rawNat, ?_, ?_, ?_, flushed.free⟩
    · intro nid ni checkpointed stored
      change next.cache.core nid = _ at stored
      by_cases dirty : nm.cache.DirtyAt nid
      · obtain ⟨ni', checkpointed', before⟩ := dirtyAt_iff_core.mp dirty
        rw [coreOf nid ni' checkpointed' before, flushedCore] at stored
        split at stored
        · next isNew =>
            cases stored
            exact isNew
        · cases stored
      · rw [unchanged nid dirty] at stored
        exact absurd (dirtyAt_iff_core.mpr ⟨_, _, stored⟩) dirty
    · intro nid ni checkpointed dirty stored
      change ∃ checkpointed' dirty', next.cache.core nid = some (ni, checkpointed', dirty')
      cases dirty with
      | true =>
          refine ⟨(flushedCore ni checkpointed).2.1, (flushedCore ni checkpointed).2.2, ?_⟩
          rw [coreOf nid ni checkpointed stored]
          nth_rewrite 2 [← flushedCore_fst ni checkpointed]
          rfl
      | false =>
          refine ⟨checkpointed, false, ?_⟩
          rw [unchanged nid, stored]
          intro isDirty
          obtain ⟨_, _, stored'⟩ := dirtyAt_iff_core.mp isDirty
          rw [stored] at stored'
          cases stored'
    · intro block
      apply flushed.pages
      intro set _ equal
      obtain ⟨rfl, same⟩ := @separate_natAddr sup (max block set + 1) block (by omega) set (by omega)
        _ _ equal
      exact absurd same (Bool.not_ne_self _).symm

theorem flushNatEntries_natFlushed (room : Nat → Bool) (sound : NatSound sup nm) :
    ∃ next, flushNatEntries sup room nm = some next ∧ NatFlushed sup room nm next := by
  unfold flushNatEntries
  dsimp only
  by_cases enough : hasNatSpace nm.store.journal nm.cache.dirtyNatCnt = true
  · rw [if_pos enough]
    have fits : nm.cache.dirtyNatCnt ≤ natJournalEntries - nm.store.journal.nNats :=
      of_decide_eq_true enough
    have bounded := sound.journal.bounded
    exact flushMerged_flushed room sound (.inl (by omega))
  · rw [if_neg enough]
    have merged := removeNatsInJournal_merged sound
    obtain ⟨next, run, flushed⟩ := flushMerged_flushed room merged.sound (.inr merged.empty)
    refine ⟨next, run, flushed.sound, fun nid => (flushed.rawNat nid).trans (merged.rawNat nid),
      flushed.dirty, ?_, ?_, ?_⟩
    · intro nid ni checkpointed dirty stored
      obtain ⟨dirty', core⟩ := merged.kept nid ni checkpointed dirty stored
      exact flushed.cached nid ni checkpointed dirty' core
    · intro block
      have shadow := flushed.shadow block
      rw [merged.natPages, merged.natBitmap] at shadow
      exact shadow
    · have grown := flushed.free
      rw [unallocated_congr merged.rawNat, merged.free] at grown
      exact grown

end F2fs
end StorageStack
