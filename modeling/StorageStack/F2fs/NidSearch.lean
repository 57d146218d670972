import StorageStack.F2fs.NidHistory

/-!
# The search for a free node number

`alloc_nid` scans NAT blocks until there is a number to give out.  The scans go round the whole
table, so they find a number that is stored without a block, which the cache admits and nobody holds.
A number whose node has gone since the last flush is counted as free, but no scan takes it.
-/

namespace StorageStack
namespace F2fs

variable {sup : NatSuper} {nm : NmInfo} {free : FreeNidInfo} {room : Nat → Bool} {target : Nat}

/-- A number is in the list. -/
def FreeNidInfo.Listed (free : FreeNidInfo) (nid : Nat) : Prop :=
  ∃ state, free.ListedAs nid state

theorem FreeNidInfo.Listed.mono {next : FreeNidInfo} (listed : free.Listed target)
    (subset : free.freeNidList ⊆ next.freeNidList) : next.Listed target := by
  obtain ⟨state, member⟩ := listed
  exact ⟨state, subset member⟩

/-! ## One number -/

theorem addFreeNid_subset (cache : NatCache) (nid : Nat) (build : Bool) (free : FreeNidInfo) :
    free.freeNidList ⊆ (addFreeNid room cache nid build free).1.freeNidList := by
  rw [addFreeNid]
  generalize (build && _) = allocated
  split
  · exact List.Subset.refl _
  · split
    · exact List.Subset.refl _
    · dsimp only
      split
      · exact List.Subset.refl _
      · split
        · exact List.Subset.refl _
        · exact List.subset_append_left _ _

theorem addFreeNid_nextScanNid (cache : NatCache) (nid : Nat) (build : Bool)
    (free : FreeNidInfo) :
    (addFreeNid room cache nid build free).1.nextScanNid = free.nextScanNid := by
  rw [addFreeNid]
  generalize (build && _) = allocated
  split
  · rfl
  · split
    · rfl
    · dsimp only
      split
      · rfl
      · split <;> rfl

/-- With enough memory nothing stops a scan. -/
theorem addFreeNid_goes_on (enough : ∀ count, room count = true) (cache : NatCache) (nid : Nat)
    (build : Bool) (free : FreeNidInfo) : (addFreeNid room cache nid build free).2 = false := by
  rw [addFreeNid, enough, Bool.not_true, if_neg Bool.false_ne_true]
  generalize (build && _) = allocated
  split
  · rfl
  · dsimp only
    split
    · rfl
    · split <;> rfl

theorem addFreeNid_lists (enough : ∀ count, room count = true) {cache : NatCache}
    (nonzero : target ≠ 0) (admitted : cache.Admits target) (free : FreeNidInfo) :
    (addFreeNid room cache target true free).1.Listed target := by
  rw [addFreeNid, enough, Bool.not_true, if_neg Bool.false_ne_true, if_neg nonzero]
  dsimp only
  rw [if_neg]
  · split
    · next found =>
        obtain ⟨i, member, same⟩ := List.any_eq_true.mp found
        refine ⟨i.state, ?_⟩
        have equal : i.nid = target := by simpa using same
        rw [FreeNidInfo.ListedAs, ← equal]
        exact member
    · exact ⟨.new, List.mem_append_right _ (List.mem_singleton_self _)⟩
  · cases cached : cache.natRoot target with
    | none => exact Bool.false_ne_true
    | some entry =>
        obtain ⟨checkpointed, isNull⟩ := admitted entry.ni entry.isCheckpointed entry.isDirty
          (core_eq_some.mpr ⟨entry, cached, rfl, rfl, rfl⟩)
        simp [checkpointed, isNull]

/-- Another number stays in the list. -/
theorem removeFreeNid_keeps {nid : Nat} (listed : free.Listed target) (other : target ≠ nid) :
    (removeFreeNid nid free).Listed target := by
  obtain ⟨state, member⟩ := listed
  refine ⟨state, ?_⟩
  rw [removeFreeNid]
  split
  · exact (List.mem_erase_of_ne (by simp [other])).mpr member
  · exact member

theorem removeFreeNid_nextScanNid (nid : Nat) (free : FreeNidInfo) :
    (removeFreeNid nid free).nextScanNid = free.nextScanNid := by
  rw [removeFreeNid]
  split <;> rfl

/-! ## One round of scans -/

theorem scanNatPage_subset (page : Nat → RawNat) (count start : Nat) (scan : FreeNidInfo × Bool) :
    scan.1.freeNidList ⊆ (scanNatPage sup room nm.cache page count start scan).1.freeNidList := by
  induction count generalizing start scan with
  | zero => exact List.Subset.refl _
  | succ count induction =>
      obtain ⟨free, bug⟩ := scan
      rw [scanNatPage]
      split
      · exact List.Subset.refl _
      · dsimp only
        split
        · have added := @addFreeNid_subset room nm.cache start true free
          split
          · exact added
          · exact List.Subset.trans added
              (induction (start + 1) ((addFreeNid room nm.cache start true free).1,
                bug || (page (natEntryPerBlock - (count + 1))).blockAddr == newAddr))
        · exact induction (start + 1) (free, _)

/-- The scan of a page from a number on lists each number behind it. -/
theorem scanNatPage_lists (enough : ∀ count, room count = true) (scanned : Scanned sup nm target)
    (count start : Nat) (scan : FreeNidInfo × Bool)
    (offset : start % natEntryPerBlock + count = natEntryPerBlock) (behind : start ≤ target)
    (inPage : start / natEntryPerBlock = target / natEntryPerBlock) :
    (scanNatPage sup room nm.cache (nm.store.pageOf sup target) count start scan).1.Listed
      target := by
  have positive : 0 < natEntryPerBlock := by decide
  induction count generalizing start scan with
  | zero =>
      have small := Nat.mod_lt start positive
      omega
  | succ count induction =>
      obtain ⟨free, bug⟩ := scan
      have index : natEntryPerBlock - (count + 1) = start % natEntryPerBlock := by omega
      rw [scanNatPage, if_neg (by have := scanned.inRange; omega), index]
      dsimp only
      rcases Nat.eq_or_lt_of_le behind with rfl | before
      · rw [pageOf_mod, if_pos scanned.unallocated, addFreeNid_goes_on enough,
          if_neg Bool.false_ne_true]
        have listed := addFreeNid_lists enough scanned.nonzero scanned.admitted free
        exact listed.mono (scanNatPage_subset _ count (start + 1)
          ((addFreeNid room nm.cache start true free).1,
            bug || (nm.store.blockNat sup start).blockAddr == newAddr))
      · have nextInPage : (start + 1) / natEntryPerBlock = target / natEntryPerBlock := by
          apply Nat.le_antisymm
          · exact Nat.div_le_div_right before
          · rw [← inPage]
            exact Nat.div_le_div_right (Nat.le_succ start)
        have nextOffset : (start + 1) % natEntryPerBlock + count = natEntryPerBlock := by
          have here := Nat.div_add_mod start natEntryPerBlock
          have there := Nat.div_add_mod (start + 1) natEntryPerBlock
          rw [nextInPage, ← inPage] at there
          omega
        split
        · rw [addFreeNid_goes_on enough, if_neg Bool.false_ne_true]
          exact induction (start + 1) (_, _) nextOffset before nextInPage
        · exact induction (start + 1) (_, _) nextOffset before nextInPage

/-- The number with which the scan goes on after the page of a number. -/
def nextPage (sup : NatSuper) (nid : Nat) : Nat :=
  let next := nid + (natEntryPerBlock - nid % natEntryPerBlock)
  if sup.maxNid ≤ next then 0 else next

/-- How many pages at most the scans read from `nid` on before they come to the page of `target`. -/
def pagesUntil (sup : NatSuper) (target nid : Nat) : Nat :=
  if nid ≤ target then target / natEntryPerBlock - nid / natEntryPerBlock
  else sup.natBlocks - nid / natEntryPerBlock + 1 + target / natEntryPerBlock

theorem pagesUntil_nextPage {nid : Nat} (inRange : target < sup.maxNid)
    (elsewhere : ¬ (nid ≤ target ∧ nid / natEntryPerBlock = target / natEntryPerBlock)) :
    pagesUntil sup target (nextPage sup nid) < pagesUntil sup target nid := by
  have size : natEntryPerBlock = 455 := rfl
  rw [NatSuper.maxNid, size] at inRange
  rw [nextPage, pagesUntil, pagesUntil, NatSuper.maxNid]
  rw [size] at elsewhere ⊢
  split_ifs <;> omega

theorem scanNatPages_succ (pages nid : Nat) (scan : FreeNidInfo × Bool) :
    scanNatPages sup room nm (pages + 1) nid scan =
      scanNatPages sup room nm pages (nextPage sup nid)
        (scanNatPage sup room nm.cache (nm.store.pageOf sup nid)
          (natEntryPerBlock - nid % natEntryPerBlock) nid scan) := rfl

theorem scanNatPages_subset (pages nid : Nat) (scan : FreeNidInfo × Bool) :
    scan.1.freeNidList ⊆ (scanNatPages sup room nm pages nid scan).2.1.freeNidList := by
  induction pages generalizing nid scan with
  | zero => exact List.Subset.refl _
  | succ pages induction =>
      rw [scanNatPages_succ]
      exact List.Subset.trans (scanNatPage_subset _ _ nid scan) (induction _ _)

/-- The scans list a number, or come closer to its page with each page they read. -/
theorem scanNatPages_finds (enough : ∀ count, room count = true) (scanned : Scanned sup nm target)
    (pages nid : Nat) (scan : FreeNidInfo × Bool) :
    (scanNatPages sup room nm pages nid scan).2.1.Listed target ∨
      pagesUntil sup target (scanNatPages sup room nm pages nid scan).1 + pages ≤
        pagesUntil sup target nid := by
  induction pages generalizing nid scan with
  | zero => exact .inr (Nat.le_refl _)
  | succ pages induction =>
      rw [scanNatPages_succ]
      by_cases here : nid ≤ target ∧ nid / natEntryPerBlock = target / natEntryPerBlock
      · left
        have small : nid % natEntryPerBlock < natEntryPerBlock := Nat.mod_lt _ (by decide)
        rw [pageOf_congr here.2]
        have listed := scanNatPage_lists enough scanned (natEntryPerBlock - nid % natEntryPerBlock)
          nid scan (by omega) here.1 here.2
        exact listed.mono (scanNatPages_subset _ _ _)
      · have closer := pagesUntil_nextPage scanned.inRange here
        rcases induction (nextPage sup nid) _ with listed | left
        · exact .inl listed
        · right
          omega

/-! ## The journal -/

/-- The journal entry of a number that can be found has no block. -/
theorem Findable.journal (findable : Findable sup nm target) (sound : nm.store.journal.Sound)
    {index : Nat} (inside : index < nm.store.journal.nNats)
    (key : nm.store.journal.keys index = target) :
    (nm.store.journal.values index).blockAddr = nullAddr := by
  have stored := findable.stored
  rw [rawNat_eq, ShadowTable.lookup,
    (ShadowTable.indexOf_eq_some sound.distinct).mpr ⟨inside, key⟩] at stored
  exact stored

/-- A number that can be found is in the journal or free in its block. -/
theorem Findable.scanned (findable : Findable sup nm target) :
    (∃ index < nm.store.journal.nNats, nm.store.journal.keys index = target) ∨
      Scanned sup nm target := by
  have stored := findable.stored
  rw [rawNat_eq, ShadowTable.lookup] at stored
  cases found : ShadowTable.indexOf nm.store.journal.keys nm.store.journal.nNats target with
  | some index =>
      obtain ⟨inside, key⟩ := ShadowTable.indexOf_some found
      exact .inl ⟨index, inside, key⟩
  | none =>
      rw [found] at stored
      exact .inr ⟨findable.nonzero, findable.inRange, findable.admitted, stored⟩

theorem correctFromJournal_nextScanNid (free : FreeNidInfo) (indices : List Nat) :
    (indices.foldl (correctFromJournal room nm) free).nextScanNid = free.nextScanNid := by
  induction indices generalizing free with
  | nil => rfl
  | cons index indices induction =>
      rw [List.foldl_cons, induction, correctFromJournal]
      split
      · exact addFreeNid_nextScanNid nm.cache _ true free
      · exact removeFreeNid_nextScanNid _ free

/-- The correction lists a number in the journal and keeps one that is listed. -/
theorem correctFromJournal_lists (enough : ∀ count, room count = true)
    (sound : nm.store.journal.Sound) (findable : Findable sup nm target) (free : FreeNidInfo)
    (count : Nat) (inside : count ≤ nm.store.journal.nNats)
    (known : free.Listed target ∨ ∃ index < count, nm.store.journal.keys index = target) :
    ((List.range count).foldl (correctFromJournal room nm) free).Listed target := by
  induction count with
  | zero =>
      rcases known with listed | ⟨index, impossible, _⟩
      · exact listed
      · exact absurd impossible (Nat.not_lt_zero index)
  | succ count induction =>
      rw [List.range_succ, List.foldl_append, List.foldl_cons, List.foldl_nil, correctFromJournal]
      by_cases here : nm.store.journal.keys count = target
      · have isNull : (nm.store.journal.natJ count).ne.blockAddr = nullAddr :=
          findable.journal sound inside here
        have key : (nm.store.journal.natJ count).nid = target := here
        rw [if_pos isNull, key]
        exact addFreeNid_lists enough findable.nonzero findable.admitted _
      · have before := induction (Nat.le_of_succ_le inside) (known.imp_right (by
          rintro ⟨index, below, key⟩
          refine ⟨index, ?_, key⟩
          have ne : index ≠ count := fun same => here (same ▸ key)
          omega))
        split
        · exact before.mono (addFreeNid_subset nm.cache _ true _)
        · exact removeFreeNid_keeps before (Ne.symm here)

/-! ## The rounds of the search -/

/-- A round lists a number that can be found, or comes closer to its page. -/
theorem buildFreeNids_finds (enough : ∀ count, room count = true) (sound : NatSound sup nm)
    (findable : Findable sup nm target) (few : nm.free.fcnt ≤ natEntryPerBlock) :
    (buildFreeNids sup room nm).free.Listed target ∨
      pagesUntil sup target (buildFreeNids sup room nm).free.nextScanNid <
        pagesUntil sup target nm.free.nextScanNid := by
  rw [buildFreeNids, if_neg (Nat.not_lt.mpr few)]
  dsimp only
  rw [correctFromJournal_nextScanNid]
  rcases findable.scanned with journaled | scanned
  · left
    exact correctFromJournal_lists enough sound.journal findable _ _ (Nat.le_refl _)
      (.inr journaled)
  · apply (scanNatPages_finds enough scanned (freeNidPages + 1) nm.free.nextScanNid
      (nm.free, false)).imp
    · intro listed
      exact correctFromJournal_lists enough sound.journal findable _ _ (Nat.le_refl _)
        (.inl listed)
    · intro closer
      dsimp only
      omega

/-- `alloc_nid` returns at once. -/
def Answers (sup : NatSuper) (totalValidNodeCount : Nat) (nm : NmInfo) : Prop :=
  sup.availableNids < totalValidNodeCount + 1 ∨ 0 < nm.free.fcnt

theorem allocNid_answers {totalValidNodeCount : Nat}
    (answers : Answers sup totalValidNodeCount nm) (free : FreeSound nm.free) (fuel : Nat) :
    (allocNid sup room totalValidNodeCount (fuel + 1) nm).isSome := by
  rw [allocNid]
  split
  · rfl
  · next few =>
      have positive : 0 < nm.free.fcnt := answers.resolve_left few
      obtain ⟨nid, rest, taken⟩ := exists_takeFreeNid (free.fcnt ▸ positive)
      rw [if_pos positive, taken]
      rfl

theorem allocNid_retries {totalValidNodeCount : Nat}
    (searches : ¬ Answers sup totalValidNodeCount nm) (fuel : Nat) :
    allocNid sup room totalValidNodeCount (fuel + 1) nm =
      allocNid sup room totalValidNodeCount fuel (buildFreeNids sup room nm) := by
  obtain ⟨few, empty⟩ := not_or.mp searches
  rw [allocNid, if_neg few, if_neg empty]

/-- A listed number that nobody holds can be given out. -/
theorem fcnt_pos_of_listed (sound : FreeSound free) (listed : free.Listed target)
    (notHeld : ¬ free.ListedAs target .alloc) : 0 < free.fcnt := by
  obtain ⟨state, member⟩ := listed
  cases state with
  | alloc => exact absurd member notHeld
  | new => exact sound.fcnt_pos.mpr ⟨target, member⟩

/-- The search comes to an end. -/
theorem allocNid_returns (enough : ∀ count, room count = true) (sound : NatSound sup nm)
    (free : FreeSound nm.free) (findable : Findable sup nm target)
    (notHeld : ¬ nm.free.ListedAs target .alloc) (totalValidNodeCount : Nat) :
    ∃ fuel, (allocNid sup room totalValidNodeCount fuel nm).isSome := by
  induction distance : pagesUntil sup target nm.free.nextScanNid using Nat.strong_induction_on
    generalizing nm with
  | _ distance induction =>
      by_cases answers : Answers sup totalValidNodeCount nm
      · exact ⟨1, allocNid_answers answers free 0⟩
      · have empty : nm.free.fcnt = 0 := Nat.eq_zero_of_not_pos (not_or.mp answers).2
        have built := buildFreeNids_built sound room
        have freeBuilt := built.sound free
        have notHeldBuilt : ¬ (buildFreeNids sup room nm).free.ListedAs target .alloc :=
          fun listed => notHeld ((built.alloc target).mp listed)
        have finds := buildFreeNids_finds enough sound findable (empty ▸ Nat.zero_le _)
        rcases finds with listed | closer
        · refine ⟨2, ?_⟩
          rw [allocNid_retries answers]
          exact allocNid_answers (.inr (fcnt_pos_of_listed freeBuilt listed notHeldBuilt))
            freeBuilt 0
        · have findableBuilt : Findable sup (buildFreeNids sup room nm) target :=
            findable.congr built.cache.symm built.store.symm
          obtain ⟨fuel, returned⟩ := induction _ (distance ▸ closer) (built.natSound sound)
            freeBuilt findableBuilt notHeldBuilt rfl
          refine ⟨fuel + 1, ?_⟩
          rw [allocNid_retries answers]
          exact returned

/-- Without a number that can be found and is not held the search goes on for ever. -/
theorem allocNid_starves (sound : NatSound sup nm) (free : FreeSound nm.free)
    {totalValidNodeCount : Nat} (searches : ¬ Answers sup totalValidNodeCount nm)
    (held : ∀ nid, Findable sup nm nid → nm.free.ListedAs nid .alloc) (fuel : Nat) :
    allocNid sup room totalValidNodeCount fuel nm = none := by
  induction fuel generalizing nm with
  | zero => rfl
  | succ fuel induction =>
      rw [allocNid_retries searches]
      have built := buildFreeNids_built sound room
      have freeBuilt := built.sound free
      have noneBuilt (nid : Nat) : ¬ (buildFreeNids sup room nm).free.ListedAs nid .new := by
        intro listed
        rcases (buildFreeNids_changed sound room).2 free nid listed with earlier | findable
        · exact (not_or.mp searches).2 (free.fcnt_pos.mpr ⟨nid, earlier⟩)
        · exact freeBuilt.not_new ((built.alloc nid).mpr (held nid findable)) listed
      apply induction (built.natSound sound) freeBuilt
      · rintro (few | positive)
        · exact searches (.inl few)
        · obtain ⟨nid, listed⟩ := freeBuilt.fcnt_pos.mp positive
          exact noneBuilt nid listed
      · intro nid findable
        exact (built.alloc nid).mpr (held nid (findable.congr built.cache built.store))

/-- With enough memory `alloc_nid` returns just when the count of nodes turns it away, when a number
is at hand, or when some number that nobody holds is stored without a block and the cache does not
say that its node has changed since. -/
theorem allocNid_returns_iff {world : NidWorld} (sound : NidSound sup world)
    (enough : ∀ count, room count = true) (totalValidNodeCount : Nat) :
    (∃ fuel, (allocNid sup room totalValidNodeCount fuel world.nm).isSome) ↔
      sup.availableNids < totalValidNodeCount + 1 ∨ 0 < world.nm.free.fcnt ∨
        ∃ nid, Findable sup world.nm nid ∧ nid ∉ world.outstanding := by
  rw [← or_assoc]
  constructor
  · rintro ⟨fuel, returned⟩
    apply or_iff_not_imp_left.mpr
    intro searches
    by_contra noneFree
    have held (nid : Nat) (findable : Findable sup world.nm nid) :
        world.nm.free.ListedAs nid .alloc := by
      by_contra notHeld
      exact noneFree ⟨nid, findable, fun outstanding => notHeld ((sound.alloc nid).mpr outstanding)⟩
    rw [allocNid_starves sound.nat sound.free searches held] at returned
    cases returned
  · rintro (answers | ⟨nid, findable, notHeld⟩)
    · exact ⟨1, allocNid_answers answers sound.free 0⟩
    · apply allocNid_returns enough sound.nat sound.free findable
      exact fun alloc => notHeld ((sound.alloc nid).mp alloc)

/-- The first number of a new volume is found. -/
theorem allocNid_returns_empty :
    ∃ fuel, (allocNid smallNat (fun _ => true) 0 fuel emptyTable).isSome :=
  (allocNid_returns_iff emptyWorld_mounted.sound (fun _ => rfl) 0).mpr
    (.inr (.inr ⟨1, ⟨by decide, by decide, fun _ _ _ stored => (by cases stored), by decide⟩,
      by decide⟩))

/-! ## A volume without unused numbers -/

/-- Every node of the small volume has a block. -/
def fullTable : NmInfo :=
  { emptyTable with
    store := { emptyTable.store with
      natPages := fun address offset =>
        if address = 1024 ∧ offset = 0 then ⟨0, 0, nullAddr⟩ else ⟨0, 5, 300⟩ } }

/-- Only the number 0 has no block. -/
theorem fullTable_stored (nid : Nat)
    (isNull : (fullTable.store.rawNat smallNat nid).blockAddr = nullAddr) : nid = 0 := by
  rw [rawNat_eq] at isNull
  change (if smallNat.natAddr (nid / natEntryPerBlock) false = 1024 ∧ nid % natEntryPerBlock = 0
    then (⟨0, 0, nullAddr⟩ : RawNat) else ⟨0, 5, 300⟩).blockAddr = nullAddr at isNull
  split at isNull
  · next first =>
      have origin : smallNat.natAddr 0 false = 1024 := by decide
      have block := (separate_natAddr (nid / natEntryPerBlock + 1) _ (Nat.lt_succ_self _) 0
        (Nat.succ_pos _) false false (first.1.trans origin.symm)).1
      have whole := Nat.div_add_mod nid natEntryPerBlock
      rw [block, first.2] at whole
      exact whole.symm
  · cases isNull

/-- The last node of a full volume is removed.  Its number is the only one that is not in use, and
the search for a number does not end before the next checkpoint. -/
theorem allocNid_never_returns :
    NidMounted smallNat ⟨fullTable, ∅, ∅⟩ ∧
      ∃ world, NidRun smallNat ⟨fullTable, ∅, ∅⟩
        [.nat (.setNodeAddr ⟨5, 5, 300, 0⟩ nullAddr false)] world ∧
        ∀ fuel, allocNid smallNat (fun _ => true) (smallNat.availableNids - 1) fuel world.nm =
          none := by
  have nat : NatMounted smallNat fullTable := ⟨rfl, rfl, rfl, rfl,
    (emptyTable_mounted smallNat).journal, (emptyTable_mounted smallNat).inRange⟩
  have mounted : NidMounted smallNat ⟨fullTable, ∅, ∅⟩ := ⟨nat, rfl, rfl, rfl, rfl⟩
  have inUse : fullTable.rawNat smallNat 5 = ⟨0, 5, 300⟩ := by decide
  have removed : NidAdmitted smallNat ⟨fullTable, ∅, ∅⟩
      (.nat (.setNodeAddr ⟨5, 5, 300, 0⟩ nullAddr false)) := by
    refine ⟨⟨by decide, .inr (.inr inUse.symm)⟩, ?_⟩
    intro ni newBlkaddr fsyncDone equal
    cases equal
    rw [if_neg (by decide), inUse]
    decide
  have run := NidRun.cons removed rfl (.nil _)
  have sound := nidRun_sound mounted.sound run
  refine ⟨mounted, _, run, ?_⟩
  intro fuel
  have set := setNodeAddr_addrSet mounted.sound.nat false removed.1.1 removed.1.2
  apply allocNid_starves sound.nat sound.free
  · rintro (few | positive)
    · exact absurd few (by decide)
    · exact absurd positive (by decide)
  · intro nid findable
    exfalso
    rcases eq_or_ne nid 5 with rfl | other
    · obtain ⟨info, checkpointed, core, fresh⟩ := set.here
      have admitted := (findable.admitted info checkpointed true core).1
      rw [fresh (.inr rfl)] at admitted
      cases admitted
    · exact findable.nonzero (fullTable_stored nid (set.store ▸ findable.stored))

end F2fs
end StorageStack
