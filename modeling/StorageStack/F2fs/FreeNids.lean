import StorageStack.F2fs.NatFlush

/-!
# The list of free node numbers

The numbers found in NAT blocks may be out of date with respect to the journal and the cache.  A
number stays in the list only when the table as a whole has no block for it.
-/

namespace StorageStack
namespace F2fs

variable {sup : NatSuper} {nm : NmInfo} {free next : FreeNidInfo}

/-- A number is in the list with a state. -/
def FreeNidInfo.ListedAs (free : FreeNidInfo) (nid : Nat) (state : NidState) : Prop :=
  ⟨nid, state⟩ ∈ free.freeNidList

/-- How many elements can be given out. -/
def newCount (list : List FreeNid) : Nat := list.countP fun i => decide (i.state = .new)

/-- Each number is listed once and `fcnt` counts those which can be given out. -/
structure FreeSound (free : FreeNidInfo) : Prop where
  nodup : (free.freeNidList.map FreeNid.nid).Nodup
  fcnt : free.fcnt = newCount free.freeNidList

/-- How a change of the list looks in which numbers for which `may` holds can become available. -/
structure FreeChanged (may : Nat → Prop) (free next : FreeNidInfo) : Prop where
  sound : FreeSound free → FreeSound next
  alloc : ∀ nid, next.ListedAs nid .alloc ↔ free.ListedAs nid .alloc
  new : ∀ nid, next.ListedAs nid .new → free.ListedAs nid .new ∨ may nid

theorem FreeChanged.refl (may : Nat → Prop) (free : FreeNidInfo) : FreeChanged may free free :=
  ⟨id, fun _ => Iff.rfl, fun _ => .inl⟩

theorem FreeChanged.trans {may : Nat → Prop} {middle : FreeNidInfo}
    (first : FreeChanged may free middle) (second : FreeChanged may middle next) :
    FreeChanged may free next where
  sound := second.sound ∘ first.sound
  alloc nid := (second.alloc nid).trans (first.alloc nid)
  new nid listed := (second.new nid listed).elim (first.new nid) .inr

theorem FreeChanged.mono {may might : Nat → Prop} (changed : FreeChanged may free next)
    (implies : ∀ nid, may nid → might nid) : FreeChanged might free next where
  sound := changed.sound
  alloc := changed.alloc
  new nid listed := (changed.new nid listed).imp_right (implies nid)

/-- `next_scan_nid` does not matter. -/
theorem FreeChanged.scan (may : Nat → Prop) (free : FreeNidInfo) (nextScanNid : Nat) :
    FreeChanged may free { free with nextScanNid := nextScanNid } :=
  ⟨fun sound => ⟨sound.nodup, sound.fcnt⟩, fun _ => Iff.rfl, fun _ => .inl⟩

/-! ## Adding and removing -/

/-- What the cache says against a number which a scan has found. -/
def NatCache.Admits (cache : NatCache) (nid : Nat) : Prop :=
  ∀ ni checkpointed dirty, cache.core nid = some (ni, checkpointed, dirty) →
    checkpointed = true ∧ ni.blkAddr = nullAddr

/-- The end of `add_free_nid`. -/
theorem listFreeNid_changed {may : Nat → Prop} {nid : Nat} (able : may nid) (free : FreeNidInfo) :
    FreeChanged may free
      (if free.freeNidList.any fun i => i.nid == nid then (free, false)
        else
          ({ free with
              freeNidList := free.freeNidList ++ [⟨nid, .new⟩]
              fcnt := free.fcnt + 1 }, false)).1 := by
  split
  · exact .refl _ free
  · next absent =>
      have unlisted : nid ∉ free.freeNidList.map FreeNid.nid := by
        intro listed
        obtain ⟨i, member, equal⟩ := List.mem_map.mp listed
        exact absent (List.any_eq_true.mpr ⟨i, member, by simp [equal]⟩)
      refine ⟨?_, ?_, ?_⟩
      · intro sound
        constructor
        · dsimp only
          rw [List.map_append, List.nodup_append]
          refine ⟨sound.nodup, List.nodup_singleton nid, ?_⟩
          rintro other listed _ member rfl
          rw [List.map_singleton, List.mem_singleton] at member
          rw [member] at listed
          exact unlisted listed
        · dsimp only
          rw [sound.fcnt, newCount, newCount, List.countP_append]
          rfl
      · intro other
        unfold FreeNidInfo.ListedAs
        rw [List.mem_append, List.mem_singleton]
        simp
      · intro other listed
        rcases List.mem_append.mp listed with member | member
        · exact .inl member
        · right
          cases List.mem_singleton.mp member
          exact able

theorem addFreeNid_changed (room : Nat → Bool) (cache : NatCache) (nid : Nat) (build : Bool)
    (free : FreeNidInfo) :
    FreeChanged (fun other => other = nid ∧ nid ≠ 0 ∧ (build = true → cache.Admits nid)) free
      (addFreeNid room cache nid build free).1 := by
  unfold addFreeNid
  split
  · exact .refl _ free
  · split
    · exact .refl _ free
    · next nonzero =>
        dsimp only
        cases cached : cache.natRoot nid with
        | none =>
            rw [Bool.and_false, if_neg Bool.false_ne_true]
            apply listFreeNid_changed
            refine ⟨rfl, nonzero, fun _ ni checkpointed dirty stored => ?_⟩
            rw [core_eq_none.mpr cached] at stored
            cases stored
        | some entry =>
            dsimp only
            split
            · exact .refl _ free
            · next admitted =>
                apply listFreeNid_changed
                refine ⟨rfl, nonzero, ?_⟩
                rintro rfl ni checkpointed dirty stored
                obtain ⟨_, cached', rfl, rfl, _⟩ := core_eq_some.mp stored
                rw [cached] at cached'
                cases cached'
                simpa using admitted

theorem newCount_erase {list : List FreeNid} {nid : Nat} (member : ⟨nid, .new⟩ ∈ list) :
    newCount (list.erase ⟨nid, .new⟩) = newCount list - 1 := by
  rw [newCount, List.countP_erase, if_pos ⟨member, decide_eq_true rfl⟩, newCount]

theorem erase_sublist {list : List FreeNid} (i : FreeNid) (nodup : (list.map FreeNid.nid).Nodup) :
    ((list.erase i).map FreeNid.nid).Nodup :=
  (List.erase_sublist.map FreeNid.nid).nodup nodup

theorem removeFreeNid_changed (nid : Nat) (free : FreeNidInfo) :
    FreeChanged (fun _ => False) free (removeFreeNid nid free) ∧
      (FreeSound free → ¬ (removeFreeNid nid free).ListedAs nid .new) := by
  unfold removeFreeNid
  split
  · next member =>
      constructor
      · refine ⟨?_, ?_, ?_⟩
        · intro sound
          exact ⟨erase_sublist _ sound.nodup, by
            dsimp only
            rw [newCount_erase member, sound.fcnt]⟩
        · intro other
          exact List.mem_erase_of_ne (by simp)
        · intro other listed
          exact .inl (List.mem_of_mem_erase listed)
      · intro sound listed
        have distinct : free.freeNidList.Nodup := List.Nodup.of_map FreeNid.nid sound.nodup
        exact (List.Nodup.mem_erase_iff distinct).mp listed |>.1 rfl
  · next absent => exact ⟨.refl _ free, fun _ listed => absent listed⟩

/-! ## Scanning NAT blocks -/

/-- A number below `max_nid` whose NAT block has no address for it and which the cache admits. -/
structure Scanned (sup : NatSuper) (nm : NmInfo) (nid : Nat) : Prop where
  nonzero : nid ≠ 0
  inRange : nid < sup.maxNid
  admitted : nm.cache.Admits nid
  unallocated : (nm.store.blockNat sup nid).blockAddr = nullAddr

/-- The NAT page of a number. -/
def NatStore.pageOf (sup : NatSuper) (store : NatStore) (nid : Nat) : Nat → RawNat :=
  store.natPages (currentNatAddr sup store.natBitmap nid)

theorem pageOf_mod (nid : Nat) :
    nm.store.pageOf sup nid (nid % natEntryPerBlock) = nm.store.blockNat sup nid := by
  rw [NatStore.pageOf, currentNatAddr_eq]
  rfl

theorem pageOf_congr {nid other : Nat} (same : nid / natEntryPerBlock = other / natEntryPerBlock) :
    nm.store.pageOf sup nid = nm.store.pageOf sup other := by
  rw [NatStore.pageOf, NatStore.pageOf, currentNatAddr_eq, currentNatAddr_eq, same]

theorem scanNatPage_changed (room : Nat → Bool) (count : Nat) (start : Nat)
    (scan : FreeNidInfo × Bool)
    (offset : count = 0 ∨ start % natEntryPerBlock + count = natEntryPerBlock) :
    FreeChanged (Scanned sup nm) scan.1
      (scanNatPage sup room nm.cache (nm.store.pageOf sup start) count start scan).1 := by
  induction count generalizing start scan with
  | zero => exact .refl _ scan.1
  | succ count induction =>
      obtain ⟨free, bug⟩ := scan
      have offset' : start % natEntryPerBlock + (count + 1) = natEntryPerBlock := by omega
      have nextOffset : count = 0 ∨ (start + 1) % natEntryPerBlock + count = natEntryPerBlock := by
        unfold natEntryPerBlock at offset' ⊢
        omega
      have nextPage : count = 0 ∨
          nm.store.pageOf sup (start + 1) = nm.store.pageOf sup start := by
        rcases Nat.eq_zero_or_pos count with none | some
        · exact .inl none
        · right
          apply pageOf_congr
          unfold natEntryPerBlock at offset' ⊢
          omega
      have continue' (scan : FreeNidInfo × Bool) : FreeChanged (Scanned sup nm) scan.1
          (scanNatPage sup room nm.cache (nm.store.pageOf sup start) count (start + 1) scan).1 := by
        rcases nextPage with none | same
        · subst none
          exact .refl _ scan.1
        · rw [← same]
          exact induction (start + 1) scan nextOffset
      unfold scanNatPage
      split
      · exact .refl _ free
      · next inRange =>
          have index : natEntryPerBlock - (count + 1) = start % natEntryPerBlock := by omega
          dsimp only
          rw [index, pageOf_mod]
          split
          · next unallocated =>
              have added : FreeChanged (Scanned sup nm) free
                  (addFreeNid room nm.cache start true free).1 := by
                apply (addFreeNid_changed room nm.cache start true free).mono
                rintro _ ⟨rfl, nonzero, admitted⟩
                exact ⟨nonzero, Nat.lt_of_not_le inRange, admitted rfl, unallocated⟩
              split
              · exact added
              · exact added.trans (continue' ((addFreeNid room nm.cache start true free).1,
                  bug || (nm.store.blockNat sup start).blockAddr == newAddr))
          · exact continue' (_, _)

theorem scanNatPages_changed (room : Nat → Bool) (pages nid : Nat) (scan : FreeNidInfo × Bool) :
    FreeChanged (Scanned sup nm) scan.1 (scanNatPages sup room nm pages nid scan).2.1 := by
  induction pages generalizing nid scan with
  | zero => exact .refl _ scan.1
  | succ pages induction =>
      unfold scanNatPages
      dsimp only
      have small : nid % natEntryPerBlock < natEntryPerBlock := Nat.mod_lt _ (by decide)
      have first := @scanNatPage_changed sup nm room (natEntryPerBlock - nid % natEntryPerBlock) nid
        scan (.inr (by omega))
      exact first.trans (induction _ _)

/-! ## Correcting the list from the journal -/

/-- What is known of a number after the first `count` slots of the journal. -/
def Corrected (sup : NatSuper) (nm : NmInfo) (count nid : Nat) : Prop :=
  nid ≠ 0 ∧ nid < sup.maxNid ∧ nm.cache.Admits nid ∧
    ((nm.store.blockNat sup nid).blockAddr = nullAddr ∨
      ∃ index < count, nm.store.journal.keys index = nid ∧
        (nm.store.journal.values index).blockAddr = nullAddr)

/-- The progress of the correction. -/
structure JournalProgress (sup : NatSuper) (nm : NmInfo) (free : FreeNidInfo) (count : Nat)
    (next : FreeNidInfo) : Prop where
  changed : FreeChanged (Corrected sup nm count) free next
  removed : FreeSound free → ∀ index < count,
    (nm.store.journal.values index).blockAddr ≠ nullAddr →
      ¬ next.ListedAs (nm.store.journal.keys index) .new

theorem Corrected.succ {count nid : Nat} (corrected : Corrected sup nm count nid) :
    Corrected sup nm (count + 1) nid := by
  obtain ⟨nonzero, inRange, admitted, unallocated⟩ := corrected
  refine ⟨nonzero, inRange, admitted, unallocated.imp_right ?_⟩
  rintro ⟨index, inside, found⟩
  exact ⟨index, Nat.lt_succ_of_lt inside, found⟩

theorem JournalProgress.step (sound : NatSound sup nm) (room : Nat → Bool) {count : Nat}
    (progress : JournalProgress sup nm free count next) (inside : count < nm.store.journal.nNats) :
    JournalProgress sup nm free (count + 1) (correctFromJournal room nm next count) := by
  have before : FreeChanged (Corrected sup nm (count + 1)) free next :=
    progress.changed.mono fun _ => Corrected.succ
  unfold correctFromJournal
  dsimp only
  split
  · next isNull =>
      have added := addFreeNid_changed room nm.cache (nm.store.journal.keys count) true next
      constructor
      · apply before.trans
        apply added.mono
        rintro _ ⟨rfl, nonzero, admitted⟩
        exact ⟨nonzero, sound.inRange count inside, admitted rfl,
          .inr ⟨count, Nat.lt_succ_self count, rfl, isNull⟩⟩
      · intro freeSound index below placed listed
        rcases Nat.lt_succ_iff_lt_or_eq.mp below with earlier | rfl
        · rcases added.new _ listed with listed | ⟨same, _⟩
          · exact progress.removed freeSound index earlier placed listed
          · have equal := sound.journal.distinct index (Nat.lt_trans earlier inside) count inside same
            omega
        · exact placed isNull
  · next placedHere =>
      obtain ⟨changed, gone⟩ := removeFreeNid_changed (nm.store.journal.keys count) next
      constructor
      · exact before.trans (changed.mono fun _ => False.elim)
      · intro freeSound index below placed listed
        rcases Nat.lt_succ_iff_lt_or_eq.mp below with earlier | rfl
        · rcases changed.new _ listed with listed | impossible
          · exact progress.removed freeSound index earlier placed listed
          · exact impossible
        · exact gone (progress.changed.sound freeSound) listed

theorem correctFromJournal_progress (sound : NatSound sup nm) (room : Nat → Bool)
    (free : FreeNidInfo) (count : Nat) (inside : count ≤ nm.store.journal.nNats) :
    JournalProgress sup nm free count
      ((List.range count).foldl (correctFromJournal room nm) free) := by
  induction count with
  | zero =>
      exact ⟨.refl _ free, fun _ index impossible => absurd impossible (Nat.not_lt_zero index)⟩
  | succ count induction =>
      rw [List.range_succ, List.foldl_append, List.foldl_cons, List.foldl_nil]
      exact (induction (Nat.le_of_succ_le inside)).step sound room inside

/-! ## Building the list -/

/-- A number whose node has no block, and none which the last checkpoint has not seen going. -/
structure Available (sup : NatSuper) (nm : NmInfo) (nid : Nat) : Prop where
  nonzero : nid ≠ 0
  unallocated : sup.Unallocated nm nid
  admitted : nm.cache.Admits nid

/-- A number which is stored without a block and which the cache admits. -/
structure Findable (sup : NatSuper) (nm : NmInfo) (nid : Nat) : Prop where
  nonzero : nid ≠ 0
  inRange : nid < sup.maxNid
  admitted : nm.cache.Admits nid
  stored : (nm.store.rawNat sup nid).blockAddr = nullAddr

theorem Findable.available {nid : Nat} (findable : Findable sup nm nid) : Available sup nm nid where
  nonzero := findable.nonzero
  admitted := findable.admitted
  unallocated := by
    refine ⟨findable.inRange, ?_⟩
    cases stored : nm.cache.core nid with
    | some contents =>
        obtain ⟨ni, checkpointed, dirty⟩ := contents
        rw [rawNat_of_core stored]
        exact (findable.admitted ni checkpointed dirty stored).2
    | none =>
        rw [NmInfo.rawNat, core_eq_none.mp stored]
        exact findable.stored

theorem Findable.congr {next : NmInfo} {nid : Nat} (findable : Findable sup next nid)
    (cache : next.cache = nm.cache) (store : next.store = nm.store) : Findable sup nm nid :=
  ⟨findable.nonzero, findable.inRange, cache ▸ findable.admitted, store ▸ findable.stored⟩

/-- The entry of a number which has survived the correction. -/
theorem findable_of_corrected (sound : NatSound sup nm) {nid : Nat}
    (corrected : Corrected sup nm nm.store.journal.nNats nid)
    (journal : ∀ index < nm.store.journal.nNats, nm.store.journal.keys index = nid →
      (nm.store.journal.values index).blockAddr = nullAddr) : Findable sup nm nid := by
  obtain ⟨nonzero, inRange, admitted, unallocated⟩ := corrected
  refine ⟨nonzero, inRange, admitted, ?_⟩
  rw [rawNat_eq, ShadowTable.lookup]
  cases found : ShadowTable.indexOf nm.store.journal.keys nm.store.journal.nNats nid with
  | some index =>
      obtain ⟨inside, key⟩ := (ShadowTable.indexOf_eq_some sound.journal.distinct).mp found
      exact journal index inside key
  | none =>
      rcases unallocated with inBlock | ⟨index, inside, key, _⟩
      · exact inBlock
      · exact absurd key (ShadowTable.indexOf_eq_none.mp found index inside)

/-- What `build_free_nids` does. -/
structure FreeBuilt (sup : NatSuper) (nm next : NmInfo) : Prop where
  cache : next.cache = nm.cache
  store : next.store = nm.store
  sound : FreeSound nm.free → FreeSound next.free
  alloc : ∀ nid, next.free.ListedAs nid .alloc ↔ nm.free.ListedAs nid .alloc
  new : FreeSound nm.free → ∀ nid, next.free.ListedAs nid .new →
    nm.free.ListedAs nid .new ∨ Available sup nm nid

theorem FreeBuilt.refl (sup : NatSuper) (nm : NmInfo) : FreeBuilt sup nm nm :=
  ⟨rfl, rfl, id, fun _ => Iff.rfl, fun _ _ => .inl⟩

theorem Available.congr {next : NmInfo} {nid : Nat} (available : Available sup next nid)
    (cache : next.cache = nm.cache) (store : next.store = nm.store) : Available sup nm nid where
  nonzero := available.nonzero
  unallocated := by
    have same := @unallocated_congr sup nm next fun nid => by
      rw [NmInfo.rawNat, NmInfo.rawNat, cache, store]
    exact same ▸ available.unallocated
  admitted := cache ▸ available.admitted

theorem FreeBuilt.trans {middle next : NmInfo} (first : FreeBuilt sup nm middle)
    (second : FreeBuilt sup middle next) : FreeBuilt sup nm next where
  cache := second.cache.trans first.cache
  store := second.store.trans first.store
  sound := second.sound ∘ first.sound
  alloc nid := (second.alloc nid).trans (first.alloc nid)
  new sound nid listed := by
    rcases second.new (first.sound sound) nid listed with earlier | available
    · exact first.new sound nid earlier
    · exact .inr (available.congr first.cache first.store)

/-- The numbers which `build_free_nids` lists. -/
theorem buildFreeNids_changed (sound : NatSound sup nm) (room : Nat → Bool) :
    FreeChanged (fun _ => True) nm.free (buildFreeNids sup room nm).free ∧
      (FreeSound nm.free → ∀ nid, (buildFreeNids sup room nm).free.ListedAs nid .new →
        nm.free.ListedAs nid .new ∨ Findable sup nm nid) := by
  unfold buildFreeNids
  split
  · exact ⟨.refl _ _, fun _ _ => .inl⟩
  · dsimp only
    have scanned := @scanNatPages_changed sup nm room (freeNidPages + 1) nm.free.nextScanNid
      (nm.free, false)
    generalize scanNatPages sup room nm (freeNidPages + 1) nm.free.nextScanNid (nm.free, false) =
      scan at scanned
    obtain ⟨nid, free, bug⟩ := scan
    have progress := correctFromJournal_progress sound room { free with nextScanNid := nid }
      nm.store.journal.nNats (Nat.le_refl _)
    have whole := (scanned.trans (.scan _ free nid)).mono
      fun other (found : Scanned sup nm other) =>
        (⟨found.nonzero, found.inRange, found.admitted, .inl found.unallocated⟩ :
          Corrected sup nm nm.store.journal.nNats other)
    have changed := whole.trans progress.changed
    refine ⟨changed.mono fun _ _ => trivial, ?_⟩
    intro freeSound other listed
    apply (changed.new other listed).imp_right
    intro corrected
    apply findable_of_corrected sound corrected
    intro index inside key
    by_contra placed
    exact progress.removed (whole.sound freeSound) index inside placed (key ▸ listed)

theorem buildFreeNids_cache (room : Nat → Bool) : (buildFreeNids sup room nm).cache = nm.cache := by
  unfold buildFreeNids
  split <;> rfl

theorem buildFreeNids_store (room : Nat → Bool) : (buildFreeNids sup room nm).store = nm.store := by
  unfold buildFreeNids
  split <;> rfl

theorem buildFreeNids_built (sound : NatSound sup nm) (room : Nat → Bool) :
    FreeBuilt sup nm (buildFreeNids sup room nm) := by
  obtain ⟨changed, new⟩ := buildFreeNids_changed sound room
  refine ⟨buildFreeNids_cache room, buildFreeNids_store room, changed.sound, changed.alloc, ?_⟩
  intro freeSound nid listed
  exact (new freeSound nid listed).imp_right Findable.available

theorem FreeBuilt.natSound {next : NmInfo} (built : FreeBuilt sup nm next)
    (sound : NatSound sup nm) : NatSound sup next where
  cache := built.cache ▸ sound.cache
  journal := built.store ▸ sound.journal
  inRange := built.store ▸ sound.inRange
  clean := by
    rw [built.cache, built.store]
    exact sound.clean

/-- A flush adds numbers whose nodes have no block. -/
theorem FreeGrown.changed {room : Nat → Bool} {ok : Nat → Prop}
    (grown : FreeGrown room ok free next) :
    FreeChanged (fun nid => nid ≠ 0 ∧ ok nid) free next := by
  induction grown with
  | refl => exact .refl _ free
  | add middle cache nid _ good induction =>
      apply induction.trans
      apply (addFreeNid_changed room cache nid false middle).mono
      rintro _ ⟨rfl, nonzero, _⟩
      exact ⟨nonzero, good⟩

/-! ## Changing one element -/

@[simp] theorem newCount_cons (i : FreeNid) (list : List FreeNid) :
    newCount (i :: list) = newCount list + if i.state = .new then 1 else 0 := by
  simp [newCount, List.countP_cons]

@[simp] theorem newCount_append (left right : List FreeNid) :
    newCount (left ++ right) = newCount left + newCount right := List.countP_append

/-- The numbers around an element of a list in which each number occurs once. -/
theorem nid_ne_of_nodup {before after : List FreeNid} {i : FreeNid}
    (nodup : ((before ++ i :: after).map FreeNid.nid).Nodup) :
    ∀ j, j ∈ before ∨ j ∈ after → j.nid ≠ i.nid := by
  rw [List.map_append, List.map_cons, List.nodup_middle, List.nodup_cons] at nodup
  intro j member equal
  apply nodup.1
  rw [← equal, ← List.map_append]
  exact List.mem_map_of_mem (List.mem_append.mpr member)

/-- A number that is held cannot be given out. -/
theorem FreeSound.not_new {nid : Nat} (sound : FreeSound free) (alloc : free.ListedAs nid .alloc) :
    ¬ free.ListedAs nid .new := by
  intro listed
  obtain ⟨before, after, split⟩ := List.append_of_mem alloc
  have nodup := sound.nodup
  rw [split] at nodup
  have member : (⟨nid, .new⟩ : FreeNid) ∈ before ++ ⟨nid, .alloc⟩ :: after := split ▸ listed
  exact nid_ne_of_nodup nodup ⟨nid, .new⟩ (by simpa using member) rfl

theorem FreeSound.fcnt_pos (sound : FreeSound free) :
    0 < free.fcnt ↔ ∃ nid, free.ListedAs nid .new := by
  rw [sound.fcnt, newCount, List.countP_pos_iff]
  constructor
  · rintro ⟨⟨nid, state⟩, member, isNew⟩
    obtain rfl : state = .new := by simpa using isNew
    exact ⟨nid, member⟩
  · rintro ⟨nid, listed⟩
    exact ⟨_, listed, rfl⟩

/-- `takeFreeNid` turns one element that can be given out into one that has been. -/
theorem takeFreeNid_eq_some {list rest : List FreeNid} {nid : Nat}
    (taken : takeFreeNid list = some (nid, rest)) :
    ∃ before after, list = before ++ ⟨nid, .new⟩ :: after ∧
      rest = before ++ ⟨nid, .alloc⟩ :: after := by
  induction list generalizing rest with
  | nil => cases taken
  | cons i list induction =>
      unfold takeFreeNid at taken
      split at taken
      · next isNew =>
          obtain ⟨other, state⟩ := i
          dsimp only at isNew taken
          cases taken
          rw [isNew]
          exact ⟨[], list, rfl, rfl⟩
      · obtain ⟨⟨other, tail⟩, taken', equal⟩ := Option.map_eq_some_iff.mp taken
        cases equal
        obtain ⟨before, after, rfl, rfl⟩ := induction taken'
        exact ⟨i :: before, after, rfl, rfl⟩

theorem exists_takeFreeNid {list : List FreeNid} (some' : 0 < newCount list) :
    ∃ nid rest, takeFreeNid list = some (nid, rest) := by
  induction list with
  | nil => exact absurd some' (Nat.lt_irrefl 0)
  | cons i list induction =>
      unfold takeFreeNid
      split
      · exact ⟨_, _, rfl⟩
      · next notNew =>
          rw [newCount_cons, if_neg notNew] at some'
          obtain ⟨nid, rest, taken⟩ := induction some'
          exact ⟨nid, i :: rest, by rw [taken]; rfl⟩

/-- How the list looks after the state of one number has changed. -/
structure FreeMoved (nid : Nat) (state : Option NidState) (free next : FreeNidInfo) : Prop where
  sound : FreeSound next
  here : ∀ other, next.ListedAs nid other ↔ state = some other
  others : ∀ other, other ≠ nid → ∀ state, next.ListedAs other state ↔ free.ListedAs other state

/-- One element gets another state or goes. -/
theorem freeMoved_of_split {nid : Nat} {before after : List FreeNid} {old : NidState}
    (state : Option NidState) (split : free.freeNidList = before ++ ⟨nid, old⟩ :: after)
    (list : next.freeNidList = before ++ (state.map (FreeNid.mk nid)).toList ++ after)
    (sound : FreeSound free) (fcnt : next.fcnt = newCount next.freeNidList) :
    FreeMoved nid state free next := by
  have nodup := sound.nodup
  rw [split] at nodup
  have apart := nid_ne_of_nodup nodup
  have notHere (other : NidState) : ∀ j, j ∈ before ∨ j ∈ after → j ≠ ⟨nid, other⟩ := by
    rintro j member rfl
    exact apart _ member rfl
  refine ⟨⟨?_, fcnt⟩, ?_, ?_⟩
  · rw [list]
    cases state with
    | none =>
        apply ((List.Sublist.map FreeNid.nid) _).nodup nodup
        simp
    | some state => simpa using nodup
  · intro other
    unfold FreeNidInfo.ListedAs
    rw [list]
    have outside : ¬ (⟨nid, other⟩ ∈ before ∨ ⟨nid, other⟩ ∈ after) :=
      fun member => notHere other _ member rfl
    rw [not_or] at outside
    cases state <;> simp [outside, eq_comm]
  · intro other ne otherState
    unfold FreeNidInfo.ListedAs
    rw [list, split]
    cases state <;> simp [ne]

/-- The element the radix tree finds for a number which is listed. -/
theorem lookupFreeNid_eq_some {nid : Nat} {state : NidState} (sound : FreeSound free)
    (listed : free.ListedAs nid state) : lookupFreeNid free nid = some ⟨nid, state⟩ := by
  obtain ⟨before, after, split⟩ := List.append_of_mem listed
  have nodup := sound.nodup
  rw [split] at nodup
  have apart := nid_ne_of_nodup nodup
  rw [lookupFreeNid, split, List.find?_append, List.find?_eq_none.mpr, Option.none_or,
    List.find?_cons_of_pos (by simp)]
  intro j member
  simpa using apart j (.inl member)

/-- `alloc_nid_done` takes the number off the list. -/
theorem allocNidDone_moved {nid : Nat} (sound : FreeSound nm.free)
    (outstanding : nm.free.ListedAs nid .alloc) :
    ∃ next, allocNidDone nid nm = some next ∧ next.cache = nm.cache ∧ next.store = nm.store ∧
      FreeMoved nid none nm.free next.free := by
  obtain ⟨before, after, split⟩ := List.append_of_mem outstanding
  have nodup := sound.nodup
  rw [split] at nodup
  have notBefore : ⟨nid, .alloc⟩ ∉ before := fun member =>
    nid_ne_of_nodup nodup _ (.inl member) rfl
  have erased : nm.free.freeNidList.erase ⟨nid, .alloc⟩ = before ++ after := by
    rw [split, List.erase_append_right _ notBefore, List.erase_cons_head]
  rw [allocNidDone, lookupFreeNid_eq_some sound outstanding]
  refine ⟨_, rfl, rfl, rfl, freeMoved_of_split none split ?_ sound ?_⟩
  · change nm.free.freeNidList.erase _ = _
    rw [erased]
    simp
  · change nm.free.fcnt = newCount (nm.free.freeNidList.erase _)
    rw [erased, sound.fcnt, split]
    simp

/-- `alloc_nid_failed` makes the number available again, or forgets it. -/
theorem allocNidFailed_moved {nid : Nat} (sound : FreeSound nm.free) (room : Nat → Bool)
    (nonzero : nid ≠ 0) (outstanding : nm.free.ListedAs nid .alloc) :
    ∃ next state, allocNidFailed room nid nm = some next ∧ next.cache = nm.cache ∧
      next.store = nm.store ∧ state ≠ some .alloc ∧ FreeMoved nid state nm.free next.free := by
  obtain ⟨before, after, split⟩ := List.append_of_mem outstanding
  have nodup := sound.nodup
  rw [split] at nodup
  have apart := nid_ne_of_nodup nodup
  have notBefore : ⟨nid, .alloc⟩ ∉ before := fun member => apart _ (.inl member) rfl
  have erased : nm.free.freeNidList.erase ⟨nid, .alloc⟩ = before ++ after := by
    rw [split, List.erase_append_right _ notBefore, List.erase_cons_head]
  have unmoved (part : List FreeNid) (others : ∀ j ∈ part, j.nid ≠ nid) :
      part.map (fun j => if j.nid = nid then ⟨nid, .new⟩ else j) = part := by
    conv_rhs => rw [← List.map_id part]
    exact List.map_congr_left fun j member => if_neg (others j member)
  have renewed : nm.free.freeNidList.map (fun j => if j.nid = nid then ⟨nid, .new⟩ else j) =
      before ++ ⟨nid, .new⟩ :: after := by
    rw [split, List.map_append, List.map_cons, if_pos rfl,
      unmoved before fun j member => apart j (.inl member),
      unmoved after fun j member => apart j (.inr member)]
  rw [allocNidFailed, if_neg nonzero, lookupFreeNid_eq_some sound outstanding, Option.map_some]
  rcases Bool.eq_false_or_eq_true (room nm.free.fcnt) with enough | full
  · refine ⟨_, some .new, rfl, rfl, rfl, by decide, freeMoved_of_split _ split ?_ sound ?_⟩
    · dsimp only
      rw [enough, Bool.not_true, if_neg Bool.false_ne_true, renewed]
      simp
    · dsimp only
      rw [enough, Bool.not_true, if_neg Bool.false_ne_true, renewed]
      dsimp only
      rw [sound.fcnt, split]
      simp
      ring
  · refine ⟨_, none, rfl, rfl, rfl, by decide, freeMoved_of_split _ split ?_ sound ?_⟩
    · dsimp only
      rw [full, Bool.not_false, if_pos rfl, erased]
      simp
    · dsimp only
      rw [full, Bool.not_false, if_pos rfl, erased]
      dsimp only
      rw [sound.fcnt, split]
      simp

/-- `alloc_nid` in any number of rounds. -/
theorem allocNid_spec (sound : NatSound sup nm) (free : FreeSound nm.free) (room : Nat → Bool)
    (totalValidNodeCount fuel : Nat) {result : Option Nat} {next : NmInfo}
    (run : allocNid sup room totalValidNodeCount fuel nm = some (result, next)) :
    ∃ middle, FreeBuilt sup nm middle ∧ next.cache = middle.cache ∧ next.store = middle.store ∧
      (result = none → next.free = middle.free) ∧
      ∀ nid, result = some nid → middle.free.ListedAs nid .new ∧
        FreeMoved nid (some .alloc) middle.free next.free := by
  induction fuel generalizing nm with
  | zero => cases run
  | succ fuel induction =>
      unfold allocNid at run
      split at run
      · cases run
        refine ⟨_, .refl sup _, rfl, rfl, fun _ => rfl, ?_⟩
        intro nid impossible
        cases impossible
      · split at run
        · obtain ⟨⟨nid, list⟩, taken, equal⟩ := Option.map_eq_some_iff.mp run
          cases equal
          obtain ⟨before, after, split, rfl⟩ := takeFreeNid_eq_some taken
          refine ⟨nm, .refl sup nm, rfl, rfl, ?_, ?_⟩
          · intro impossible
            cases impossible
          rintro _ ⟨rfl⟩
          constructor
          · rw [FreeNidInfo.ListedAs, split]
            simp
          · apply freeMoved_of_split _ split _ free
            · dsimp only
              rw [free.fcnt, split]
              simp
            · simp
        · have built := buildFreeNids_built sound room
          obtain ⟨middle, more, rest⟩ := induction (built.natSound sound) (built.sound free) run
          exact ⟨middle, built.trans more, rest⟩

end F2fs
end StorageStack
