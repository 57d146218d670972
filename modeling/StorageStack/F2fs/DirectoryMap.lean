import StorageStack.F2fs.Directory

/-!
# A directory is a map from names to inodes

The invariant of a directory says where the entry of each name lies: in a block of the name's bucket
on some level below the current depth, in slots of its own.  A lookup visits these buckets level by
level, so it finds the entry; the hint that lookups leave only chooses the level on which an add
starts.  Adds, failed adds, deletions and lookups keep the invariant.
-/

namespace StorageStack.F2fs

/-! ## Buckets -/

theorem maxFileBlocks_le (inlineXattr : Bool) : maxFileBlocks inlineXattr ≤ 2 ^ 30 := by
  rw [maxFileBlocks, addrsPerInode]
  split <;> norm_num

theorem dirBuckets_pos (level dirLevel : Nat) : 0 < dirBuckets level dirLevel := by
  rw [dirBuckets]
  split
  · positivity
  · norm_num [maxDirBuckets]

theorem bucketBlocks_of_lt {level : Nat} (shallow : level < 31) : bucketBlocks level = 2 := by
  rw [bucketBlocks, maxDirHashDepth, if_pos]
  omega

theorem pow_le_dirBuckets {level : Nat} (dirLevel : Nat) (shallow : level < 31) :
    2 ^ level ≤ dirBuckets level dirLevel := by
  rw [dirBuckets]
  split
  · exact Nat.pow_le_pow_right (by norm_num) (by omega)
  · rw [maxDirBuckets]
    exact Nat.pow_le_pow_right (by norm_num) (by omega)

/-- The size of a level, as long as its 32-bit product does not wrap. -/
theorem levelStart_succ {level : Nat} (dirLevel : Nat) (shallow : level < 31) :
    levelStart dirLevel (level + 1) = levelStart dirLevel level + 2 * dirBuckets level dirLevel := by
  have le := dirBuckets_le level dirLevel
  rw [levelStart, bucketBlocks_of_lt shallow, Nat.mod_eq_of_lt (by omega)]
  omega

theorem le_levelStart (dirLevel : Nat) {level : Nat} (shallow : level ≤ 31) :
    2 ^ (level + 1) ≤ levelStart dirLevel level + 2 := by
  induction level with
  | zero => simp
  | succ level ih =>
      have below := ih (by omega)
      have power := pow_le_dirBuckets dirLevel (show level < 31 by omega)
      rw [levelStart_succ dirLevel (by omega), pow_succ]
      omega

/-- Levels that begin inside the largest file are shallow. -/
theorem lt_of_levelStart_lt {dirLevel level : Nat} (inside : levelStart dirLevel level < 2 ^ 30) :
    level < 31 := by
  by_contra deep
  have start := le_levelStart dirLevel (Nat.le_refl 31)
  have mono := levelStart_mono dirLevel (show 31 ≤ level by omega)
  norm_num at start inside
  omega

/-- The first block of the bucket of a name on a level. -/
def bucketStart (dirLevel : Nat) (name : FileName) (level : Nat) : Nat :=
  dirBlockIndex level dirLevel ((f2fsDentryHash name).toNat % dirBuckets level dirLevel)

theorem levelStart_le_bucketStart (dirLevel : Nat) (name : FileName) (level : Nat) :
    levelStart dirLevel level ≤ bucketStart dirLevel name level := by
  rw [bucketStart, dirBlockIndex]
  omega

theorem bucketStart_eq {dirLevel level : Nat} (name : FileName) (shallow : level < 31) :
    bucketStart dirLevel name level = levelStart dirLevel level +
      2 * ((f2fsDentryHash name).toNat % dirBuckets level dirLevel) := by
  have small := Nat.mod_lt (f2fsDentryHash name).toNat (dirBuckets_pos level dirLevel)
  have le := dirBuckets_le level dirLevel
  rw [bucketStart, dirBlockIndex, bucketBlocks_of_lt shallow, Nat.mod_eq_of_lt (by omega)]
  omega

/-- A bucket ends before the next level begins. -/
theorem bucketStart_add_le {dirLevel level : Nat} (name : FileName) (shallow : level < 31) :
    bucketStart dirLevel name level + bucketBlocks level ≤ levelStart dirLevel (level + 1) := by
  have small := Nat.mod_lt (f2fsDentryHash name).toNat (dirBuckets_pos level dirLevel)
  rw [bucketStart_eq name shallow, bucketBlocks_of_lt shallow, levelStart_succ dirLevel shallow]
  omega

/-- On a level that begins inside the largest file the block numbers of `find_in_level` fit. -/
theorem bucketStart_lt {dirLevel level : Nat} (name : FileName)
    (inside : levelStart dirLevel level < 2 ^ 30) :
    bucketStart dirLevel name level + bucketBlocks level < 2 ^ 32 := by
  have shallow := lt_of_levelStart_lt inside
  have ends := @bucketStart_add_le dirLevel level name shallow
  have le := dirBuckets_le level dirLevel
  rw [levelStart_succ dirLevel shallow] at ends
  omega

/-! ## The invariant -/

/-- An entry: the inode it records and its place. -/
structure EntryPlace where
  inode : InodeRef
  block : Nat
  bitPos : Nat
deriving DecidableEq

/-- The entries of one block. -/
def heldIn (entries : FileName → Option EntryPlace) (block : Nat) :
    Nat → FileName × InodeRef → Prop :=
  fun bitPos record => entries record.1 = some ⟨record.2, block, bitPos⟩

/-- The directory holds the entries. -/
structure DirInv (dir : Dir) (entries : FileName → Option EntryPlace) : Prop where
  holds : ∀ {block blk}, dir.blocks block = some blk → BlockHolds blk (heldIn entries block)
  present : ∀ {name place}, entries name = some place → ∃ blk, dir.blocks place.block = some blk
  leveled : ∀ {name place}, entries name = some place → ∃ level < dir.iCurrentDepth,
    bucketStart dir.iDirLevel name level ≤ place.block ∧
      place.block < bucketStart dir.iDirLevel name level + bucketBlocks level
  sized : ∀ {block blk}, dir.blocks block = some blk → block < dirBlocks dir
  fits : dirBlocks dir ≤ maxFileBlocks dir.inlineXattr
  hinted : dir.clevel < dir.iCurrentDepth
  shallow : ∀ level < dir.iCurrentDepth, levelStart dir.iDirLevel level < maxFileBlocks dir.inlineXattr

/-- What `f2fs_find_entry` returns for an entry. -/
def EntryPlace.found (place : EntryPlace) (name : FileName) : FoundEntry :=
  ⟨place.block, place.bitPos, dirEntryOf name place.inode⟩

/-- The block is in the bucket of the name on the level. -/
def InBucket (dirLevel : Nat) (name : FileName) (level block : Nat) : Prop :=
  bucketStart dirLevel name level ≤ block ∧
    block < bucketStart dirLevel name level + bucketBlocks level

theorem findDataPage_some {dir : Dir} {index : Nat} {blk : DentryBlock}
    (page : dir.blocks index = some blk) : findDataPage dir index = some (some blk) := by
  rw [findDataPage, page]

theorem findDataPage_hole {dir : Dir} {index : Nat} (page : dir.blocks index = none)
    (inside : index < maxFileBlocks dir.inlineXattr) : findDataPage dir index = some none := by
  rw [findDataPage, page]
  exact if_pos inside

theorem findDataPage_bug {dir : Dir} {index : Nat} (page : dir.blocks index = none)
    (outside : ¬ index < maxFileBlocks dir.inlineXattr) : findDataPage dir index = none := by
  rw [findDataPage, page]
  exact if_neg outside

namespace DirInv

variable {dir : Dir} {entries : FileName → Option EntryPlace} {name : FileName}

theorem block_lt (inv : DirInv dir entries) {place : EntryPlace} (here : entries name = some place) :
    place.block < maxFileBlocks dir.inlineXattr := by
  obtain ⟨blk, found⟩ := inv.present here
  have sized := inv.sized found
  have fits := inv.fits
  omega

/-- The hint is not part of what the directory holds. -/
theorem withHint (inv : DirInv dir entries) (chash : BitVec 32) {clevel : Nat}
    (hinted : clevel < dir.iCurrentDepth) :
    DirInv { dir with chash := chash, clevel := clevel } entries :=
  { holds := inv.holds, present := inv.present, leveled := inv.leveled, sized := inv.sized,
    fits := inv.fits, hinted := hinted, shallow := inv.shallow }

/-! ## Lookup -/

/-- What the search of some blocks returns: only the entry of the name, and the entry when it lies
there; it fails only past the largest file. -/
theorem findInBucket_spec (inv : DirInv dir entries) (count : Nat) :
    ∀ bidx room maxSlots,
      (∀ found room', findInBucket dir name (f2fsDentryHash name) count bidx room maxSlots =
        some (some found, room') →
          ∃ place, entries name = some place ∧ found = place.found name) ∧
      (∀ place, entries name = some place → bidx ≤ place.block → place.block < bidx + count →
        ∃ room', findInBucket dir name (f2fsDentryHash name) count bidx room maxSlots =
          some (some (place.found name), room')) ∧
      (findInBucket dir name (f2fsDentryHash name) count bidx room maxSlots = none →
        maxFileBlocks dir.inlineXattr < bidx + count) := by
  induction count with
  | zero =>
      intro bidx room maxSlots
      refine ⟨fun found room' hit => (by simp [findInBucket] at hit), fun place _ low high => ?_,
        fun crash => by simp [findInBucket] at crash⟩
      omega
  | succ count ih =>
      intro bidx room maxSlots
      rw [findInBucket]
      cases page : dir.blocks bidx with
      | none =>
          by_cases inside : bidx < maxFileBlocks dir.inlineXattr
          · rw [findDataPage_hole page inside]
            obtain ⟨only, hits, crash⟩ := ih (bidx + 1) true maxSlots
            refine ⟨only, fun place here low high => ?_, fun failed => ?_⟩
            · obtain ⟨blk, stored⟩ := inv.present here
              have ne : place.block ≠ bidx := by
                rintro same
                rw [same, page] at stored
                cases stored
              exact hits place here (by omega) (by omega)
            · have bound := crash failed
              omega
          · rw [findDataPage_bug page inside]
            refine ⟨fun found room' hit => (by cases hit), fun place here low high => ?_,
              fun _ => by omega⟩
            have within := inv.block_lt here
            omega
      | some blk =>
          have holds := inv.holds page
          rw [findDataPage_some page]
          dsimp only
          split
          · next bitPos slots located =>
              obtain ⟨inode, here⟩ := holds.findInBlock_some (congrArg Prod.fst located)
              have entry := holds.entry here
              refine ⟨fun found room' hit => ?_, fun place also _ _ => ?_, fun crash => by
                cases crash⟩
              · simp only [Option.some.injEq, Prod.mk.injEq] at hit
                refine ⟨⟨inode, bidx, bitPos⟩, here, ?_⟩
                rw [← hit.1, entry, EntryPlace.found]
              · obtain rfl : ⟨inode, bidx, bitPos⟩ = place := Option.some.inj (here.symm.trans also)
                exact ⟨room, by rw [entry, EntryPlace.found]⟩
          · next slots missing =>
              obtain ⟨only, hits, crash⟩ := ih (bidx + 1)
                (room || decide (getDentrySlots name.bytes.length ≤ slots)) slots
              refine ⟨only, fun place here low high => ?_, fun failed => ?_⟩
              · have ne : place.block ≠ bidx := by
                  rintro same
                  have absent := holds.findInBlock_none (congrArg Prod.fst missing) place.bitPos
                    place.inode
                  exact absent (by rw [heldIn, here, ← same])
                exact hits place here (by omega) (by omega)
              · have bound := crash failed
                omega

/-- `find_in_level` on a level whose block numbers fit. -/
theorem findInLevel_eq {dir : Dir} {level : Nat} (name : FileName)
    (inside : levelStart dir.iDirLevel level < 2 ^ 30) :
    findInLevel dir level name (f2fsDentryHash name) =
      match findInBucket dir name (f2fsDentryHash name) (bucketBlocks level)
        (bucketStart dir.iDirLevel name level) false 0 with
      | none => none
      | some (some de, _) => some (dir, some de)
      | some (none, room) =>
          if room = true ∧ dir.chash ≠ f2fsDentryHash name then
            some ({ dir with chash := f2fsDentryHash name, clevel := level }, none)
          else some (dir, none) := by
  have word := bucketStart_lt name inside
  have start : bucketStart dir.iDirLevel name level % 2 ^ 32 =
      bucketStart dir.iDirLevel name level := Nat.mod_eq_of_lt (by omega)
  rw [findInLevel]
  rw [← bucketStart, start, Nat.mod_eq_of_lt word, Nat.add_sub_cancel_left] <;> rfl

/-- What the search of one level returns, and the directory it leaves. -/
theorem findInLevel_spec (inv : DirInv dir entries) {level : Nat}
    (below : level < dir.iCurrentDepth) :
    (∀ dir' found, findInLevel dir level name (f2fsDentryHash name) = some (dir', some found) →
      DirInv dir' entries ∧ ∃ place, entries name = some place ∧ found = place.found name) ∧
    (∀ place, entries name = some place → InBucket dir.iDirLevel name level place.block →
      findInLevel dir level name (f2fsDentryHash name) = some (dir, some (place.found name))) ∧
    (∀ dir', findInLevel dir level name (f2fsDentryHash name) = some (dir', none) →
      DirInv dir' entries ∧ dir'.iDirLevel = dir.iDirLevel ∧
        dir'.iCurrentDepth = dir.iCurrentDepth) ∧
    (findInLevel dir level name (f2fsDentryHash name) = none →
      maxFileBlocks dir.inlineXattr < bucketStart dir.iDirLevel name level + bucketBlocks level) := by
  have inside := lt_of_lt_of_le (inv.shallow level below) (maxFileBlocks_le _)
  obtain ⟨only, hits, crash⟩ := @findInBucket_spec _ _ name inv (bucketBlocks level)
    (bucketStart dir.iDirLevel name level) false 0
  rw [findInLevel_eq name inside]
  cases result : findInBucket dir name (f2fsDentryHash name) (bucketBlocks level)
    (bucketStart dir.iDirLevel name level) false 0 with
  | none =>
      refine ⟨fun _ _ hit => (by cases hit), fun place here bucket => ?_, fun _ hit => (by cases hit),
        fun _ => crash result⟩
      obtain ⟨room, hit⟩ := hits place here bucket.1 bucket.2
      rw [result] at hit
      cases hit
  | some pair =>
      rcases pair with ⟨_ | de, room⟩
      · refine ⟨fun dir' found hit => ?_, fun place here bucket => ?_, fun dir' missed => ?_,
          fun failed => ?_⟩
        · dsimp only at hit
          split at hit <;> cases hit
        · obtain ⟨room', hit⟩ := hits place here bucket.1 bucket.2
          rw [result] at hit
          cases hit
        · dsimp only at missed
          split at missed
          · cases missed
            exact ⟨inv.withHint _ below, rfl, rfl⟩
          · cases missed
            exact ⟨inv, rfl, rfl⟩
        · dsimp only at failed
          split at failed <;> cases failed
      · refine ⟨fun dir' found hit => ?_, fun place here bucket => ?_, fun dir' missed => ?_,
          fun failed => by cases failed⟩
        · cases hit
          exact ⟨inv, only de room result⟩
        · obtain ⟨room', hit⟩ := hits place here bucket.1 bucket.2
          rw [result] at hit
          cases hit
          rfl
        · cases missed

/-- The loop over the levels finds the entry that lies on one of them, finds no other, and leaves
only a hint. -/
theorem findInLevels_spec (rounds : Nat) : ∀ {dir : Dir} {level : Nat}, DirInv dir entries →
    level + rounds = dir.iCurrentDepth →
    (∀ dir' result, findInLevels name (f2fsDentryHash name) rounds dir level = some (dir', result) →
      DirInv dir' entries ∧ ∀ found, result = some found →
        ∃ place, entries name = some place ∧ found = place.found name) ∧
    (∀ place target, entries name = some place → level ≤ target → target < level + rounds →
      InBucket dir.iDirLevel name target place.block →
      ∃ dir', findInLevels name (f2fsDentryHash name) rounds dir level =
        some (dir', some (place.found name))) := by
  induction rounds with
  | zero =>
      intro dir level inv depth
      have hinted := inv.hinted
      constructor
      · intro dir' result ends
        rw [findInLevels] at ends
        split at ends
        · cases ends
          refine ⟨inv.withHint _ ?_, fun found hit => by cases hit⟩
          have shallow := lt_of_levelStart_lt (lt_of_lt_of_le
            (inv.shallow (level - 1) (by omega)) (maxFileBlocks_le _))
          omega
        · cases ends
          exact ⟨inv, fun found hit => by cases hit⟩
      · intro place target _ from_level before
        omega
  | succ rounds ih =>
      intro dir level inv depth
      obtain ⟨only, hits, missed, crash⟩ := @findInLevel_spec _ _ name inv level (by omega)
      rw [findInLevels]
      cases result : findInLevel dir level name (f2fsDentryHash name) with
      | none =>
          refine ⟨fun _ _ ends => (by cases ends), fun place target here from_level _ bucket => ?_⟩
          -- the bucket of this level ends before the level of the entry begins
          have past := crash result
          have inside := inv.block_lt here
          by_cases same : target = level
          · subst same
            rw [hits place here bucket] at result
            cases result
          · have shallow := lt_of_levelStart_lt (lt_of_lt_of_le
              (inv.shallow level (by omega)) (maxFileBlocks_le _))
            have ends := @bucketStart_add_le dir.iDirLevel level name shallow
            have mono := levelStart_mono dir.iDirLevel (show level + 1 ≤ target by omega)
            have start := levelStart_le_bucketStart dir.iDirLevel name target
            have low := bucket.1
            omega
      | some pair =>
          rcases pair with ⟨next, _ | found⟩
          · obtain ⟨inv', sameLevel, sameDepth⟩ := missed next result
            obtain ⟨returns, finds⟩ := @ih next (level + 1) inv' (by omega)
            refine ⟨returns, fun place target here from_level before bucket => ?_⟩
            by_cases same : target = level
            · subst same
              rw [hits place here bucket] at result
              cases result
            · exact finds place target here (by omega) (by omega) (sameLevel ▸ bucket)
          · obtain ⟨inv', place, here, eq⟩ := only next found result
            constructor
            · intro dir' final ends
              cases ends
              refine ⟨inv', fun found' hit => ?_⟩
              cases hit
              exact ⟨place, here, eq⟩
            · intro place' target also _ _ _
              obtain rfl : place = place' := Option.some.inj (here.symm.trans also)
              exact ⟨next, by rw [eq]⟩

/-- `f2fs_find_entry` returns an entry exactly when the directory has one for the name. -/
theorem f2fsFindEntry_iff (inv : DirInv dir entries) (found : FoundEntry) :
    (∃ dir', f2fsFindEntry dir name = some (dir', some found)) ↔
      ∃ place, entries name = some place ∧ found = place.found name := by
  obtain ⟨returns, finds⟩ := @findInLevels_spec entries name dir.iCurrentDepth dir 0 inv (by omega)
  rw [f2fsFindEntry]
  constructor
  · rintro ⟨dir', hit⟩
    split at hit
    · cases hit
    · exact (returns dir' _ hit).2 found rfl
  · rintro ⟨place, here, rfl⟩
    obtain ⟨blk, page⟩ := inv.present here
    have sized := inv.sized page
    obtain ⟨level, below, bucket⟩ := inv.leveled here
    rw [if_neg (by omega)]
    exact finds place level here (by omega) (by omega) bucket

/-- A lookup keeps the invariant. -/
theorem findEntry (inv : DirInv dir entries) {dir' : Dir} {result : Option FoundEntry}
    (ends : f2fsFindEntry dir name = some (dir', result)) : DirInv dir' entries := by
  rw [f2fsFindEntry] at ends
  split at ends
  · cases ends
    exact inv
  · exact ((@findInLevels_spec entries name dir.iCurrentDepth dir 0 inv (by omega)).1 _ _ ends).1

/-! ## Adding -/

/-- A page of zeros in a hole holds nothing. -/
theorem newPage (inv : DirInv dir entries) {index : Nat} (inside : index < maxFileBlocks dir.inlineXattr)
    (hole : dir.blocks index = none) :
    DirInv { dir with
      blocks := Function.update dir.blocks index (some .zero)
      iSize := if dir.iSize < (index + 1) * pageCacheSize then (index + 1) * pageCacheSize
        else dir.iSize } entries := by
  have grown : ∀ size, dirBlocks { dir with
      blocks := Function.update dir.blocks index (some .zero), iSize := size } =
        (size + pageCacheSize - 1) / pageCacheSize := fun _ => rfl
  have bound : (index + 1) * pageCacheSize + pageCacheSize - 1 =
      pageCacheSize - 1 + pageCacheSize * (index + 1) := by
    rw [pageCacheSize]
    omega
  have needed : ((index + 1) * pageCacheSize + pageCacheSize - 1) / pageCacheSize = index + 1 := by
    rw [bound, Nat.add_mul_div_left _ _ (by norm_num [pageCacheSize]),
      Nat.div_eq_of_lt (by norm_num [pageCacheSize])]
    omega
  have absent : ∀ other place, entries other = some place → place.block ≠ index := by
    rintro other place here rfl
    obtain ⟨blk, stored⟩ := inv.present here
    rw [hole] at stored
    cases stored
  constructor
  · intro block blk stored
    by_cases new : block = index
    · subst new
      obtain rfl : DentryBlock.zero = blk := by simpa using stored
      refine blockHolds_zero.congr fun bitPos record => ?_
      simp only [heldIn, iff_false]
      intro here
      exact absent _ _ here rfl
    · dsimp only at stored
      rw [Function.update_of_ne new] at stored
      exact inv.holds stored
  · intro other place here
    obtain ⟨blk, stored⟩ := inv.present here
    exact ⟨blk, (Function.update_of_ne (absent _ _ here) _ _).trans stored⟩
  · exact inv.leveled
  · intro block blk stored
    rw [grown]
    by_cases new : block = index
    · subst new
      split
      · omega
      · next large =>
          rw [Nat.lt_iff_add_one_le, ← needed]
          exact Nat.div_le_div_right (by omega)
    · dsimp only at stored
      rw [Function.update_of_ne new] at stored
      have sized := inv.sized stored
      refine lt_of_lt_of_le sized (Nat.div_le_div_right ?_)
      split <;> omega
  · rw [grown]
    change _ ≤ maxFileBlocks dir.inlineXattr
    split
    · omega
    · exact inv.fits
  · exact inv.hinted
  · exact inv.shallow

/-- What `get_new_data_page` does to a directory: nothing that an entry could tell. -/
theorem getNewDataPage_spec (inv : DirInv dir entries) {index : Nat} {fault : Option Errno}
    {dir' : Dir} {result : Except Errno DentryBlock}
    (ends : getNewDataPage dir index fault = some (dir', result)) :
    DirInv dir' entries ∧ dir'.iDirLevel = dir.iDirLevel ∧
      dir'.iCurrentDepth = dir.iCurrentDepth ∧ index < maxFileBlocks dir.inlineXattr ∧
      maxFileBlocks dir'.inlineXattr = maxFileBlocks dir.inlineXattr ∧
      ∀ blk, result = .ok blk → dir'.blocks index = some blk := by
  rw [getNewDataPage.eq_def] at ends
  by_cases inside : index < maxFileBlocks dir.inlineXattr
  · rw [if_pos inside] at ends
    cases fault with
    | some err =>
        cases ends
        exact ⟨inv, rfl, rfl, inside, rfl, fun blk impossible => by cases impossible⟩
    | none =>
        cases page : dir.blocks index with
        | some blk =>
            rw [page] at ends
            cases ends
            refine ⟨inv, rfl, rfl, inside, rfl, fun blk' same => ?_⟩
            cases same
            exact page
        | none =>
            rw [page] at ends
            cases ends
            refine ⟨inv.newPage inside page, rfl, rfl, inside, rfl, fun blk same => ?_⟩
            cases same
            exact Function.update_self ..
  · rw [if_neg inside] at ends
    cases ends

/-- What the search for room in a bucket does and returns. -/
theorem findRoom_spec (slots : Nat) (faults : AddFaults) (count : Nat) :
    ∀ {dir : Dir} {block : Nat} {dir' : Dir} {result : Except Errno (Option (Nat × Nat))},
      DirInv dir entries → findRoom slots faults count dir block = some (dir', result) →
      DirInv dir' entries ∧ dir'.iDirLevel = dir.iDirLevel ∧
        dir'.iCurrentDepth = dir.iCurrentDepth ∧ maxFileBlocks dir'.inlineXattr = maxFileBlocks dir.inlineXattr ∧
        (0 < count → block < maxFileBlocks dir.inlineXattr) ∧
        ∀ place bitPos, result = .ok (some (place, bitPos)) →
          block ≤ place ∧ place < block + count ∧ ∃ blk, dir'.blocks place = some blk ∧
            bitPos = roomForFilename blk slots ∧ bitPos < nrDentryInBlock := by
  induction count with
  | zero =>
      intro dir block dir' result inv ends
      cases ends
      exact ⟨inv, rfl, rfl, rfl, fun impossible => (by omega), fun place bitPos same => by
        cases same⟩
  | succ count ih =>
      intro dir block dir' result inv ends
      rw [findRoom] at ends
      cases page : getNewDataPage dir block (faults.page block) with
      | none =>
          rw [page] at ends
          cases ends
      | some pair =>
          rcases pair with ⟨next, err | blk⟩
          · obtain ⟨inv', level, depth, inside, limit, -⟩ := inv.getNewDataPage_spec page
            rw [page] at ends
            cases ends
            exact ⟨inv', level, depth, limit, fun _ => inside, fun place bitPos same => by
              cases same⟩
          · obtain ⟨inv', level, depth, inside, limit, stored⟩ := inv.getNewDataPage_spec page
            rw [page] at ends
            dsimp only at ends
            by_cases room : roomForFilename blk slots < nrDentryInBlock
            · rw [if_pos room] at ends
              cases ends
              refine ⟨inv', level, depth, limit, fun _ => inside, fun place bitPos same => ?_⟩
              cases same
              exact ⟨Nat.le_refl _, by omega, blk, stored blk rfl, rfl, room⟩
            · rw [if_neg room] at ends
              obtain ⟨inv'', level', depth', limit', -, found⟩ := ih inv' ends
              refine ⟨inv'', level'.trans level, depth'.trans depth, limit'.trans limit,
                fun _ => inside, fun place bitPos same => ?_⟩
              obtain ⟨low, high, rest⟩ := found place bitPos same
              exact ⟨by omega, by omega, rest⟩

/-- Filling an entry in a run of clear slots of the bucket adds it to the map. -/
theorem addEntry (inv : DirInv dir entries) (inode : InodeRef) (absent : entries name = none)
    {block bitPos level currentDepth : Nat} {blk : DentryBlock}
    (stored : dir.blocks block = some blk)
    (inside : bitPos + getDentrySlots name.bytes.length ≤ nrDentryInBlock)
    (free : ∀ bit, bitPos ≤ bit → bit < bitPos + getDentrySlots name.bytes.length →
      blk.bitmap bit = false)
    (below : level < currentDepth) (bucket : InBucket dir.iDirLevel name level block)
    (deeper : dir.iCurrentDepth ≤ currentDepth)
    (shallow : ∀ level < currentDepth, levelStart dir.iDirLevel level < maxFileBlocks dir.inlineXattr) :
    DirInv { dir with
      blocks := Function.update dir.blocks block
        ((dir.blocks block).map fun blk => blk.addDentry bitPos name inode)
      iCurrentDepth := currentDepth }
      (Function.update entries name (some ⟨inode, block, bitPos⟩)) := by
  have hinted := inv.hinted
  have filled : Function.update dir.blocks block
      ((dir.blocks block).map fun blk => blk.addDentry bitPos name inode) block =
        some (blk.addDentry bitPos name inode) := by
    rw [Function.update_self, stored, Option.map_some]
  constructor
  · intro other otherBlk page
    dsimp only at page
    by_cases here : other = block
    · subst here
      rw [filled] at page
      cases page
      refine ((inv.holds stored).addDentry inside free).congr fun pos record => ?_
      obtain ⟨recordName, recordInode⟩ := record
      simp only [heldIn]
      by_cases same : recordName = name
      · subst same
        simp only [Function.update_self, absent, Option.some.injEq, EntryPlace.mk.injEq, Prod.mk.injEq,
          true_and, reduceCtorEq, false_or]
        constructor
        · rintro ⟨rfl, rfl⟩
          exact ⟨rfl, rfl⟩
        · rintro ⟨rfl, rfl⟩
          exact ⟨rfl, rfl⟩
      · simp [same]
    · rw [Function.update_of_ne here] at page
      refine (inv.holds page).congr fun pos record => ?_
      obtain ⟨recordName, recordInode⟩ := record
      simp only [heldIn]
      by_cases same : recordName = name
      · subst same
        simp [absent, Ne.symm here]
      · rw [Function.update_of_ne same]
  · intro other place here
    by_cases same : other = name
    · subst same
      rw [Function.update_self] at here
      cases here
      exact ⟨_, filled⟩
    · rw [Function.update_of_ne same] at here
      obtain ⟨otherBlk, page⟩ := inv.present here
      by_cases touched : place.block = block
      · rw [touched]
        exact ⟨_, filled⟩
      · exact ⟨otherBlk, (Function.update_of_ne touched _ _).trans page⟩
  · intro other place here
    by_cases same : other = name
    · subst same
      rw [Function.update_self] at here
      cases here
      exact ⟨level, below, bucket⟩
    · rw [Function.update_of_ne same] at here
      obtain ⟨level, shallower, range⟩ := inv.leveled here
      exact ⟨level, lt_of_lt_of_le shallower deeper, range⟩
  · intro other otherBlk page
    dsimp only at page
    change other < dirBlocks dir
    by_cases here : other = block
    · exact here ▸ inv.sized stored
    · rw [Function.update_of_ne here] at page
      exact inv.sized page
  · exact inv.fits
  · exact lt_of_lt_of_le hinted deeper
  · exact shallow

/-- The levels that an add tries; the entry it makes and the directory it leaves. -/
theorem addLinkFrom_spec {inode : InodeRef} (faults : AddFaults) (absent : entries name = none)
    (rounds : Nat) :
    ∀ {dir : Dir} {level currentDepth : Nat} {dir' : Dir} {result : Except Errno (Nat × Nat)},
      DirInv dir entries → level ≤ currentDepth → dir.iCurrentDepth ≤ currentDepth →
      (∀ level < currentDepth, levelStart dir.iDirLevel level < maxFileBlocks dir.inlineXattr) →
      addLinkFrom name inode faults rounds dir level currentDepth = some (dir', result) →
      (∀ err, result = .error err → DirInv dir' entries) ∧
      ∀ block bitPos, result = .ok (block, bitPos) →
        DirInv dir' (Function.update entries name (some ⟨inode, block, bitPos⟩)) := by
  induction rounds with
  | zero =>
      intro dir level currentDepth dir' result inv _ _ _ ends
      cases ends
      exact ⟨fun _ _ => inv, fun block bitPos impossible => by cases impossible⟩
  | succ rounds ih =>
      intro dir level currentDepth dir' result inv reach deeper shallow ends
      rw [addLinkFrom] at ends
      split at ends
      · cases ends
        exact ⟨fun _ _ => inv, fun block bitPos impossible => by cases impossible⟩
      · dsimp only at ends
        rw [← bucketStart] at ends
        generalize depth : (if level = currentDepth then currentDepth + 1 else currentDepth) =
          newDepth at ends
        have below : level < newDepth := by
          rw [← depth]
          split <;> omega
        have grows : currentDepth ≤ newDepth := by
          rw [← depth]
          split <;> omega
        have within : ∀ other < newDepth, other < currentDepth ∨ other = level := by
          intro other less
          rw [← depth] at less
          split at less <;> omega
        cases search : findRoom (getDentrySlots name.bytes.length) faults (bucketBlocks level) dir
          (bucketStart dir.iDirLevel name level) with
        | none =>
            rw [search] at ends
            cases ends
        | some pair =>
            rcases pair with ⟨next, err | place⟩
            · rw [search] at ends
              cases ends
              have kept := (inv.findRoom_spec _ _ _ search).1
              exact ⟨fun _ _ => kept, fun block bitPos impossible => by cases impossible⟩
            · obtain ⟨inv', sameLevel, sameDepth, limit, started, found⟩ :=
                findRoom_spec _ _ _ inv search
              -- the level that was tried begins inside the largest file
              have begins := started (bucketBlocks_pos level)
              have start := levelStart_le_bucketStart dir.iDirLevel name level
              have shallow' : ∀ other < newDepth,
                  levelStart next.iDirLevel other < maxFileBlocks next.inlineXattr := by
                intro other less
                rw [limit, sameLevel]
                rcases within other less with old | rfl
                · exact shallow other old
                · omega
              rw [search] at ends
              rcases place with _ | ⟨block, bitPos⟩
              · exact ih inv' (by omega) (by omega) shallow' ends
              · obtain ⟨low, high, blk, stored, rfl, room⟩ := found block bitPos rfl
                obtain ⟨inside, free⟩ := roomForFilename_spec room
                dsimp only at ends
                rw [addDentryAt.eq_def] at ends
                cases fault : faults.metadata with
                | some err =>
                    rw [fault] at ends
                    cases ends
                    exact ⟨fun _ _ => inv', fun block bitPos impossible => by cases impossible⟩
                | none =>
                    rw [fault] at ends
                    cases ends
                    refine ⟨fun err impossible => (by cases impossible), fun block' bitPos' same => ?_⟩
                    cases same
                    exact inv'.addEntry inode absent stored inside free below
                      (sameLevel ▸ ⟨low, high⟩) (by omega) shallow'

/-- An add puts the name into the map or fails and leaves the map. -/
theorem addLink (inv : DirInv dir entries) {inode : InodeRef} {faults : AddFaults}
    (absent : entries name = none) {dir' : Dir} {result : Except Errno (Nat × Nat)}
    (ends : f2fsAddLink dir name inode faults = some (dir', result)) :
    (∀ err, result = .error err → DirInv dir' entries) ∧
    ∀ block bitPos, result = .ok (block, bitPos) →
      DirInv dir' (Function.update entries name (some ⟨inode, block, bitPos⟩)) := by
  have hinted := inv.hinted
  rw [f2fsAddLink] at ends
  split at ends
  · exact addLinkFrom_spec faults absent _ (inv.withHint 0 hinted) (Nat.le_of_lt hinted)
      (Nat.le_refl _) inv.shallow ends
  · exact addLinkFrom_spec faults absent _ inv (Nat.zero_le _) (Nat.le_refl _) inv.shallow ends

/-! ## Deleting -/

/-- Deleting an entry takes the name out of the map. -/
theorem deleteEntry (inv : DirInv dir entries) {place : EntryPlace}
    (here : entries name = some place) :
    DirInv (f2fsDeleteEntry dir place.block place.bitPos) (Function.update entries name none) := by
  obtain ⟨blk, stored⟩ := inv.present here
  have cleared : BlockHolds (blk.clearDentry place.bitPos)
      (heldIn (Function.update entries name none) place.block) := by
    refine (@BlockHolds.clearDentry _ _ (inv.holds stored) _ (name, place.inode) here).congr ?_
    rintro pos ⟨recordName, recordInode⟩
    simp only [heldIn]
    by_cases same : recordName = name
    · subst same
      rw [Function.update_self, here]
      simp only [reduceCtorEq, false_iff, Option.some.injEq, not_and, not_not]
      rintro eq
      rw [eq]
    · rw [Function.update_of_ne same]
      refine ⟨fun also => ⟨also, ?_⟩, And.left⟩
      rintro rfl
      have unique := @SlotPacking.Packs.unique _ _ _ _ _ (inv.holds stored).packs _
        (recordName, recordInode) (name, place.inode) also here
      exact same (congrArg Prod.fst unique)
  have others : ∀ {other place'}, Function.update entries name none other = some place' →
      other ≠ name ∧ entries other = some place' := by
    intro other place' also
    by_cases same : other = name
    · subst same
      rw [Function.update_self] at also
      cases also
    · rw [Function.update_of_ne same] at also
      exact ⟨same, also⟩
  rw [f2fsDeleteEntry]
  generalize punched : ((dir.blocks place.block).bind fun blk =>
    if (blk.clearDentry place.bitPos).bitmap.findNextBit nrDentryInBlock 0 = nrDentryInBlock then
      none
    else some (blk.clearDentry place.bitPos)) = page
  rw [stored, Option.bind_some] at punched
  have kept : ∀ blk', page = some blk' → blk' = blk.clearDentry place.bitPos := by
    rintro blk' rfl
    split at punched
    · cases punched
    · exact (Option.some.inj punched).symm
  constructor
  · intro other otherBlk shown
    dsimp only at shown
    by_cases touched : other = place.block
    · subst touched
      rw [Function.update_self] at shown
      exact kept otherBlk shown ▸ cleared
    · rw [Function.update_of_ne touched] at shown
      refine (inv.holds shown).congr ?_
      rintro pos ⟨recordName, recordInode⟩
      simp only [heldIn]
      by_cases same : recordName = name
      · subst same
        rw [Function.update_self, here]
        simp only [reduceCtorEq, false_iff, Option.some.injEq]
        rintro rfl
        exact touched rfl
      · rw [Function.update_of_ne same]
  · intro other place' also
    obtain ⟨ne, also⟩ := others also
    obtain ⟨otherBlk, page'⟩ := inv.present also
    by_cases touched : place'.block = place.block
    · have left : ¬ (blk.clearDentry place.bitPos).bitmap.findNextBit nrDentryInBlock 0 =
          nrDentryInBlock := by
        rw [cleared.packs.findNextBit_eq_size_iff]
        intro empty
        refine empty place'.bitPos (other, place'.inode) ?_
        simp only [heldIn]
        rw [Function.update_of_ne ne, also, ← touched]
      rw [if_neg left] at punched
      exact ⟨blk.clearDentry place.bitPos, by
        dsimp only
        rw [touched, Function.update_self, punched]⟩
    · exact ⟨otherBlk, (Function.update_of_ne touched _ _).trans page'⟩
  · intro other place' also
    exact inv.leveled (others also).2
  · intro other otherBlk shown
    dsimp only at shown
    change other < dirBlocks dir
    by_cases touched : other = place.block
    · exact touched ▸ inv.sized stored
    · rw [Function.update_of_ne touched] at shown
      exact inv.sized shown
  · exact inv.fits
  · exact inv.hinted
  · exact inv.shallow

end DirInv

end StorageStack.F2fs
