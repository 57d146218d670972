import StorageStack.F2fs.DirectoryHistory

/-!
# Entries that change their inode

A rename gives an entry to another inode and keeps its slot.  The first two slots of a directory
have `"."` and `".."`, so `f2fs_parent_dir` reads its entry there and `f2fs_empty_dir` begins its
search behind them.  The file follows `f2fs_set_link`, `f2fs_parent_dir` and `f2fs_empty_dir`.
-/

namespace StorageStack.F2fs

/-! ## The code -/

/-- The part of `f2fs_set_link` that changes a block. -/
def DentryBlock.setLink (blk : DentryBlock) (bitPos : Nat) (inode : InodeRef) : DentryBlock :=
  { blk with
    dentry := Function.update blk.dentry bitPos
      { blk.dentry bitPos with ino := inode.ino, fileType := deType inode.mode } }

/-- `f2fs_set_link`. -/
def f2fsSetLink (dir : Dir) (block bitPos : Nat) (inode : InodeRef) : Dir :=
  { dir with
    blocks := Function.update dir.blocks block
      ((dir.blocks block).map fun blk => blk.setLink bitPos inode) }

/-- `f2fs_parent_dir`; block 0 lies in every file, and reading it may fail. -/
def f2fsParentDir (dir : Dir) (fault : Bool) : Option FoundEntry :=
  if fault = true then none else (dir.blocks 0).map fun blk => ⟨0, 1, blk.dentry 1⟩

/-- `f2fs_find_entry` when some blocks of the directory cannot be read: to `find_in_level` they are
holes. -/
def findEntryReading (dir : Dir) (unreadable : Nat → Bool) (name : FileName) :
    Option (Dir × Option FoundEntry) :=
  (f2fsFindEntry { dir with
    blocks := fun block => if unreadable block = true then none else dir.blocks block } name).map
      fun result => ({ dir with chash := result.1.chash, clevel := result.1.clevel }, result.2)

/-- The slot from which `f2fs_empty_dir` searches a block. -/
def emptyStart (bidx : Nat) : Nat := if bidx = 0 then 2 else 0

/-- The loop of `f2fs_empty_dir`; a block that cannot be read counts as not empty. -/
def emptyFrom (dir : Dir) (faults : Nat → Bool) : Nat → Nat → Option Bool
  | 0, _ => some true
  | count + 1, bidx =>
      match getLockDataPage dir bidx with
      | none => none
      | some none => emptyFrom dir faults count (bidx + 1)
      | some (some blk) =>
          if faults bidx = true then some false
          else if blk.bitmap.findNextBit nrDentryInBlock (emptyStart bidx) < nrDentryInBlock then
            some false
          else emptyFrom dir faults count (bidx + 1)

/-- `f2fs_empty_dir`. -/
def f2fsEmptyDir (dir : Dir) (faults : Nat → Bool) : Option Bool :=
  emptyFrom dir faults (dirBlocks dir) 0

/-! ## Giving an entry to another inode -/

theorem BlockHolds.setLink {blk : DentryBlock} {held : Nat → FileName × InodeRef → Prop}
    (holds : BlockHolds blk held) {bitPos : Nat} {name : FileName} {old : InodeRef}
    (here : held bitPos (name, old)) (inode : InodeRef) :
    BlockHolds (blk.setLink bitPos inode) fun pos record =>
      (pos = bitPos ∧ record = (name, inode)) ∨ (pos ≠ bitPos ∧ held pos record) where
  packs := by
    refine holds.packs.relabel ?_ ?_ ?_
    · rintro pos record (⟨rfl, rfl⟩ | ⟨_, also⟩)
      · exact ⟨(name, old), here, rfl⟩
      · exact ⟨record, also, rfl⟩
    · intro pos record also
      by_cases same : pos = bitPos
      · subst same
        obtain rfl := holds.packs.unique also here
        exact ⟨(name, inode), Or.inl ⟨rfl, rfl⟩, rfl⟩
      · exact ⟨record, Or.inr ⟨same, also⟩, rfl⟩
    · rintro pos record second (⟨rfl, rfl⟩ | ⟨apart, also⟩) (⟨same, rfl⟩ | ⟨apart', also'⟩)
      · rfl
      · exact absurd rfl apart'
      · exact absurd same apart
      · exact holds.packs.unique also also'
  entry := by
    rintro pos record (⟨rfl, rfl⟩ | ⟨apart, also⟩)
    · refine (Function.update_self ..).trans ?_
      rw [holds.entry here]
      rfl
    · exact (Function.update_of_ne apart _ _).trans (holds.entry also)
  spelled := by
    rintro pos record (⟨rfl, rfl⟩ | ⟨_, also⟩)
    · exact @spelled _ _ holds _ (name, old) here
    · exact @spelled _ _ holds _ record also

namespace DirInv

variable {dir : Dir} {entries : FileName → Option EntryPlace} {name : FileName}

/-- The entry keeps its place. -/
theorem setLink (inv : DirInv dir entries) {place : EntryPlace} (here : entries name = some place)
    (inode : InodeRef) : DirInv (f2fsSetLink dir place.block place.bitPos inode)
      (Function.update entries name (some { place with inode := inode })) := by
  obtain ⟨blk, stored⟩ := inv.present here
  have changed : (f2fsSetLink dir place.block place.bitPos inode).blocks place.block =
      some (blk.setLink place.bitPos inode) := by
    refine (Function.update_self ..).trans ?_
    rw [stored, Option.map_some]
  have others : ∀ {other place'}, Function.update entries name (some { place with inode := inode })
      other = some place' → ∃ old, entries other = some old ∧ old.block = place'.block := by
    intro other place' also
    by_cases same : other = name
    · subst same
      rw [Function.update_self] at also
      cases also
      exact ⟨place, here, rfl⟩
    · rw [Function.update_of_ne same] at also
      exact ⟨place', also, rfl⟩
  constructor
  · intro block otherBlk shown
    by_cases touched : block = place.block
    · subst touched
      obtain rfl := Option.some.inj (changed.symm.trans shown)
      refine (@BlockHolds.setLink _ _ (inv.holds stored) _ name _ here inode).congr ?_
      rintro pos ⟨recordName, recordInode⟩
      simp only [heldIn, Prod.mk.injEq]
      by_cases same : recordName = name
      · subst same
        simp only [Function.update_self, Option.some.injEq, EntryPlace.mk.injEq, true_and, here]
        constructor
        · rintro ⟨rfl, rfl⟩
          exact Or.inl ⟨rfl, rfl⟩
        · rintro (⟨rfl, rfl⟩ | ⟨apart, held⟩)
          · exact ⟨rfl, rfl⟩
          · exact absurd (congrArg EntryPlace.bitPos held).symm apart
      · rw [Function.update_of_ne same]
        refine ⟨fun also => Or.inr ⟨?_, also⟩, ?_⟩
        · rintro rfl
          exact same (congrArg Prod.fst (@SlotPacking.Packs.unique _ _ _ _ _
            (inv.holds stored).packs _ (recordName, recordInode) (name, place.inode) also here))
        · rintro (⟨_, eq, _⟩ | ⟨_, held⟩)
          · exact absurd eq same
          · exact held
    · have before : dir.blocks block = some otherBlk :=
        (Function.update_of_ne touched _ _).symm.trans shown
      refine (inv.holds before).congr ?_
      rintro pos ⟨recordName, recordInode⟩
      simp only [heldIn]
      by_cases same : recordName = name
      · subst same
        simp only [Function.update_self, here, Option.some.injEq]
        constructor
        · intro held
          exact absurd (congrArg EntryPlace.block held).symm touched
        · intro held
          exact absurd (congrArg EntryPlace.block held).symm touched
      · rw [Function.update_of_ne same]
  · intro other place' also
    obtain ⟨old, before, sameBlock⟩ := others also
    by_cases touched : place'.block = place.block
    · exact ⟨_, (congrArg _ touched).trans changed⟩
    · obtain ⟨otherBlk, page⟩ := inv.present before
      exact ⟨otherBlk, (Function.update_of_ne touched _ _).trans (sameBlock ▸ page)⟩
  · intro other place' also
    obtain ⟨old, before, sameBlock⟩ := others also
    rw [← sameBlock]
    exact inv.leveled before
  · intro block otherBlk shown
    change block < dirBlocks dir
    by_cases touched : block = place.block
    · exact touched ▸ inv.sized stored
    · exact inv.sized ((Function.update_of_ne touched _ _).symm.trans shown)
  · exact inv.fits
  · exact inv.hinted
  · exact inv.shallow

end DirInv

/-! ## Lookups that cannot read every block -/

namespace DirInv

variable {dir : Dir} {entries : FileName → Option EntryPlace} {name : FileName}

/-- The entries that are left when some blocks cannot be read. -/
def readable (unreadable : Nat → Bool) (entries : FileName → Option EntryPlace) :
    FileName → Option EntryPlace :=
  fun name => (entries name).filter fun place => !unreadable place.block

theorem readable_eq_some {unreadable : Nat → Bool} {place : EntryPlace} :
    readable unreadable entries name = some place ↔
      entries name = some place ∧ unreadable place.block = false := by
  simp [readable, Option.filter_eq_some_iff]

theorem hide (inv : DirInv dir entries) (unreadable : Nat → Bool) :
    DirInv { dir with
      blocks := fun block => if unreadable block = true then none else dir.blocks block }
      (readable unreadable entries) := by
  have shown : ∀ {block blk},
      (if unreadable block = true then none else dir.blocks block) = some blk →
        unreadable block = false ∧ dir.blocks block = some blk := by
    intro block blk stored
    split at stored
    · cases stored
    · next visible => exact ⟨by simpa using visible, stored⟩
  constructor
  · intro block blk stored
    obtain ⟨visible, page⟩ := shown stored
    refine (inv.holds page).congr fun bitPos record => ?_
    rw [heldIn, heldIn, readable_eq_some]
    exact and_iff_left visible
  · intro other place here
    obtain ⟨before, visible⟩ := readable_eq_some.mp here
    obtain ⟨blk, page⟩ := inv.present before
    exact ⟨blk, by simp [visible, page]⟩
  · intro other place here
    exact inv.leveled (readable_eq_some.mp here).1
  · intro block blk stored
    exact inv.sized (shown stored).2
  · exact inv.fits
  · exact inv.hinted
  · exact inv.shallow

/-- A lookup only leaves a hint. -/
theorem findInLevel_frame {dir' : Dir} {level : Nat} {nameHash : BitVec 32}
    {result : Option FoundEntry} (ends : findInLevel dir level name nameHash = some (dir', result)) :
    dir'.iCurrentDepth = dir.iCurrentDepth := by
  rw [findInLevel] at ends
  split at ends
  · cases ends
  · cases ends
    rfl
  · split at ends
    · cases ends
      rfl
    · cases ends
      rfl

theorem findInLevels_frame {nameHash : BitVec 32} (rounds : Nat) : ∀ {dir dir' : Dir} {level : Nat}
    {result : Option FoundEntry},
    findInLevels name nameHash rounds dir level = some (dir', result) →
      dir'.iCurrentDepth = dir.iCurrentDepth := by
  induction rounds with
  | zero =>
      intro dir dir' level result ends
      rw [findInLevels] at ends
      split at ends <;> cases ends <;> rfl
  | succ rounds ih =>
      intro dir dir' level result ends
      rw [findInLevels] at ends
      cases search : findInLevel dir level name nameHash with
      | none =>
          rw [search] at ends
          cases ends
      | some pair =>
          obtain ⟨next, found⟩ := pair
          have kept := findInLevel_frame search
          rw [search] at ends
          cases found with
          | none => exact (ih ends).trans kept
          | some found =>
              cases ends
              exact kept

theorem f2fsFindEntry_frame {dir' : Dir} {result : Option FoundEntry}
    (ends : f2fsFindEntry dir name = some (dir', result)) :
    dir'.iCurrentDepth = dir.iCurrentDepth := by
  rw [f2fsFindEntry] at ends
  split at ends
  · cases ends
    rfl
  · exact findInLevels_frame _ ends

/-- A lookup that cannot read every block keeps the invariant and finds no other entry. -/
theorem findEntryReading (inv : DirInv dir entries) {unreadable : Nat → Bool} {dir' : Dir}
    {result : Option FoundEntry}
    (ends : F2fs.findEntryReading dir unreadable name = some (dir', result)) :
    DirInv dir' entries ∧ ∀ found, result = some found →
      ∃ place, entries name = some place ∧ found = place.found name := by
  obtain ⟨⟨next, found⟩, search, same⟩ := Option.map_eq_some_iff.mp ends
  obtain ⟨rfl, rfl⟩ := Prod.mk.inj same
  have hinted := ((inv.hide unreadable).findEntry search).hinted
  rw [f2fsFindEntry_frame search] at hinted
  refine ⟨inv.withHint _ hinted, ?_⟩
  rintro found rfl
  obtain ⟨place, here, eq⟩ := ((inv.hide unreadable).f2fsFindEntry_iff found).mp ⟨next, search⟩
  exact ⟨place, (readable_eq_some.mp here).1, eq⟩

/-- An entry in a block that can be read is found. -/
theorem findEntryReading_some (inv : DirInv dir entries) {unreadable : Nat → Bool}
    {place : EntryPlace} (here : entries name = some place)
    (visible : unreadable place.block = false) : ∃ dir',
      F2fs.findEntryReading dir unreadable name = some (dir', some (place.found name)) := by
  obtain ⟨next, search⟩ := ((inv.hide unreadable).f2fsFindEntry_iff (place.found name)).mpr
    ⟨place, readable_eq_some.mpr ⟨here, visible⟩, rfl⟩
  exact ⟨_, Option.map_eq_some_iff.mpr ⟨_, search, rfl⟩⟩

end DirInv

/-! ## Directories with `"."` and `".."` -/

/-- The directory holds the entries, and the first two slots are those of the directory and its
parent. -/
structure DirNames (dir : Dir) (entries : FileName → Option EntryPlace) (own parent : InodeRef) :
    Prop where
  inv : DirInv dir entries
  dot : entries dotName = some ⟨own, 0, 0⟩
  dotDot : entries dotDotName = some ⟨parent, 0, 1⟩

/-- A name which the VFS passes to a call that changes entries. -/
def FileName.Proper (name : FileName) : Prop := name ≠ dotName ∧ name ≠ dotDotName

namespace DirNames

variable {dir : Dir} {entries : FileName → Option EntryPlace} {own parent : InodeRef}
  {name : FileName}

theorem findEntry (names : DirNames dir entries own parent) {unreadable : Nat → Bool} {dir' : Dir}
    {result : Option FoundEntry}
    (ends : findEntryReading dir unreadable name = some (dir', result)) :
    DirNames dir' entries own parent ∧ ∀ found, result = some found →
      ∃ place, entries name = some place ∧ found = place.found name := by
  obtain ⟨kept, only⟩ := names.inv.findEntryReading ends
  exact ⟨{ names with inv := kept }, only⟩

theorem addLink (names : DirNames dir entries own parent) (proper : name.Proper) {inode : InodeRef}
    {faults : AddFaults} (absent : entries name = none) {dir' : Dir}
    {result : Except Errno (Nat × Nat)}
    (ends : f2fsAddLink dir name inode faults = some (dir', result)) :
    (∀ err, result = .error err → DirNames dir' entries own parent) ∧
    ∀ block bitPos, result = .ok (block, bitPos) →
      DirNames dir' (Function.update entries name (some ⟨inode, block, bitPos⟩)) own parent := by
  obtain ⟨failed, added⟩ := names.inv.addLink absent ends
  refine ⟨fun err same => { names with inv := failed err same }, fun block bitPos same => ?_⟩
  exact {
    inv := added block bitPos same
    dot := (Function.update_of_ne (Ne.symm proper.1) _ _).trans names.dot
    dotDot := (Function.update_of_ne (Ne.symm proper.2) _ _).trans names.dotDot }

theorem deleteEntry (names : DirNames dir entries own parent) (proper : name.Proper)
    {place : EntryPlace} (here : entries name = some place) :
    DirNames (f2fsDeleteEntry dir place.block place.bitPos) (Function.update entries name none) own
      parent where
  inv := names.inv.deleteEntry here
  dot := (Function.update_of_ne (Ne.symm proper.1) _ _).trans names.dot
  dotDot := (Function.update_of_ne (Ne.symm proper.2) _ _).trans names.dotDot

theorem setLink (names : DirNames dir entries own parent) (proper : name.Proper)
    {place : EntryPlace} (here : entries name = some place) (inode : InodeRef) :
    DirNames (f2fsSetLink dir place.block place.bitPos inode)
      (Function.update entries name (some { place with inode := inode })) own parent where
  inv := names.inv.setLink here inode
  dot := (Function.update_of_ne (Ne.symm proper.1) _ _).trans names.dot
  dotDot := (Function.update_of_ne (Ne.symm proper.2) _ _).trans names.dotDot

/-- The directory gets another parent. -/
theorem setParent (names : DirNames dir entries own parent) (inode : InodeRef) :
    DirNames (f2fsSetLink dir 0 1 inode)
      (Function.update entries dotDotName (some ⟨inode, 0, 1⟩)) own inode where
  inv := names.inv.setLink names.dotDot inode
  dot := (Function.update_of_ne (by decide) _ _).trans names.dot
  dotDot := Function.update_self ..

/-- An entry of another name lies behind the first two slots. -/
theorem two_le (names : DirNames dir entries own parent) (proper : name.Proper)
    {place : EntryPlace} (here : entries name = some place) (first : place.block = 0) :
    2 ≤ place.bitPos := by
  obtain ⟨blk, stored⟩ := names.inv.present here
  have apart : ∀ other otherPlace, entries other = some otherPlace → otherPlace.block = 0 →
      other ≠ name → otherPlace.bitPos ≠ place.bitPos := by
    intro other otherPlace also atFirst different same
    have mine : heldIn entries place.block place.bitPos (name, place.inode) := here
    have others : heldIn entries place.block place.bitPos (other, otherPlace.inode) := by
      rw [heldIn, also, ← same, first, ← atFirst]
    exact different (congrArg Prod.fst ((names.inv.holds stored).packs.unique others mine))
  have notDot := apart dotName _ names.dot rfl (Ne.symm proper.1)
  have notDotDot := apart dotDotName _ names.dotDot rfl (Ne.symm proper.2)
  dsimp only at notDot notDotDot
  omega

/-- The loop of `f2fs_empty_dir` passes blocks without further entries only. -/
theorem emptyFrom_spec (names : DirNames dir entries own parent) {faults : Nat → Bool}
    (count : Nat) : ∀ {bidx : Nat}, emptyFrom dir faults count bidx = some true →
      ∀ name place, name.Proper → entries name = some place → bidx ≤ place.block →
        bidx + count ≤ place.block := by
  induction count with
  | zero => exact fun _ _ _ _ _ low => low
  | succ count ih =>
      intro bidx empty name place proper here low
      rw [emptyFrom] at empty
      obtain ⟨blk, stored⟩ := names.inv.present here
      rw [getLockDataPage] at empty
      by_cases inside : bidx < maxFileBlocks dir.inlineXattr
      · rw [if_pos inside] at empty
        by_cases same : place.block = bidx
        · exfalso
          rw [← same, stored] at empty
          dsimp only at empty
          split at empty
          · cases empty
          · split at empty
            · cases empty
            · next past =>
                have held : heldIn entries place.block place.bitPos (name, place.inode) := here
                have packs := (names.inv.holds stored).packs
                have within := packs.inside held
                have positive := packs.positive held
                have behind : emptyStart place.block ≤ place.bitPos := by
                  rw [emptyStart]
                  split
                  · next first => exact names.two_le proper here first
                  · exact Nat.zero_le _
                have stop := packs.findNextBit_le held behind
                omega
        · have later : bidx + 1 ≤ place.block := by omega
          have rest : emptyFrom dir faults count (bidx + 1) = some true := by
            cases page : dir.blocks bidx with
            | none => rwa [page] at empty
            | some other =>
                rw [page] at empty
                dsimp only at empty
                split at empty
                · cases empty
                · split at empty
                  · cases empty
                  · exact empty
          have beyond := ih rest name place proper here later
          omega
      · rw [if_neg inside] at empty
        cases empty

/-- A directory that `f2fs_empty_dir` finds empty has no further entries. -/
theorem eq_none_of_empty (names : DirNames dir entries own parent) {faults : Nat → Bool}
    (empty : f2fsEmptyDir dir faults = some true) (proper : name.Proper) : entries name = none := by
  cases here : entries name with
  | none => rfl
  | some place =>
      obtain ⟨blk, stored⟩ := names.inv.present here
      have sized := names.inv.sized stored
      have beyond := names.emptyFrom_spec _ empty name place proper here (Nat.zero_le _)
      omega

end DirNames

/-- The two entries of a new directory. -/
theorem dirNames_emptyDir (dirLevel : Nat) (inlineXattr : Bool) (inode : InodeRef)
    (parent : BitVec 32) :
    DirNames (emptyDir dirLevel inlineXattr inode parent) (initialEntries inode parent) inode
      ⟨parent, inode.mode⟩ where
  inv := emptyDir_inv dirLevel inlineXattr inode parent
  dot := (Function.update_of_ne (by decide) _ _).trans (Function.update_self ..)
  dotDot := Function.update_self ..

/-- A new directory has no further entries. -/
theorem initialEntries_eq_none {inode : InodeRef} {parent : BitVec 32} {name : FileName}
    (proper : name.Proper) : initialEntries inode parent name = none :=
  (Function.update_of_ne proper.2 _ _).trans (Function.update_of_ne proper.1 _ _)

end StorageStack.F2fs
