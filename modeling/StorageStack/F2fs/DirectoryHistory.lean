import StorageStack.F2fs.DirectoryMap

/-!
# Histories of a directory

The entries that a listing emits, and what holds after any sequence of adds, deletions and lookups
that begins with an empty directory.
-/

namespace StorageStack.F2fs

/-! ## Listing -/

namespace DirInv

variable {dir : Dir} {entries : FileName → Option EntryPlace}

end DirInv

/-! ## The empty directory -/

@[simp] theorem f2fsDentryHash_dotName : f2fsDentryHash dotName = 0 := rfl

@[simp] theorem f2fsDentryHash_dotDotName : f2fsDentryHash dotDotName = 0 := rfl

/-- The two names of a new directory. -/
def initialNames (inode : InodeRef) (parent : BitVec 32) : FileName → Option InodeRef :=
  Function.update (Function.update (fun _ => none) dotName (some inode))
    dotDotName (some ⟨parent, inode.mode⟩)

/-- The two entries of a new directory. -/
def initialEntries (inode : InodeRef) (parent : BitVec 32) : FileName → Option EntryPlace :=
  Function.update (Function.update (fun _ => none) dotName (some ⟨inode, 0, 0⟩))
    dotDotName (some ⟨⟨parent, inode.mode⟩, 0, 1⟩)

/-- The block of a new directory is a page of zeros to which the two entries have been added. -/
theorem makeEmptyDir_eq (inode : InodeRef) (parent : BitVec 32) :
    makeEmptyDir inode parent =
      (DentryBlock.zero.addDentry 0 dotName inode).addDentry 1 dotDotName
        ⟨parent, inode.mode⟩ := by
  have names : (makeEmptyDir inode parent).filename =
      ((DentryBlock.zero.addDentry 0 dotName inode).addDentry 1 dotDotName
        ⟨parent, inode.mode⟩).filename := by
    funext i
    rcases Nat.lt_or_ge i 10 with small | large
    · interval_cases i <;> rfl
    · have past : ¬ (i = 0 ∨ i = 8 ∨ i = 9) := by omega
      have pastFirst : ¬ (8 * 0 ≤ i ∧ i < 8 * 0 + dotName.bytes.length) := by
        change ¬ (8 * 0 ≤ i ∧ i < 8 * 0 + 1)
        omega
      have pastSecond : ¬ (8 * 1 ≤ i ∧ i < 8 * 1 + dotDotName.bytes.length) := by
        change ¬ (8 * 1 ≤ i ∧ i < 8 * 1 + 2)
        omega
      simp only [makeEmptyDir, DentryBlock.addDentry, DentryBlock.zero]
      rw [if_neg past, if_neg pastFirst, if_neg pastSecond]
  rw [DentryBlock.addDentry, DentryBlock.addDentry] at names ⊢
  rw [makeEmptyDir] at names ⊢
  exact congrArg (DentryBlock.mk _ _) names

theorem initialEntries_eq_some {inode : InodeRef} {parent : BitVec 32} {name : FileName}
    {place : EntryPlace} (here : initialEntries inode parent name = some place) :
    (name = dotName ∧ place = ⟨inode, 0, 0⟩) ∨
      (name = dotDotName ∧ place = ⟨⟨parent, inode.mode⟩, 0, 1⟩) := by
  rw [initialEntries] at here
  by_cases second : name = dotDotName
  · subst second
    rw [Function.update_self] at here
    exact Or.inr ⟨rfl, (Option.some.inj here).symm⟩
  · rw [Function.update_of_ne second] at here
    by_cases first : name = dotName
    · subst first
      rw [Function.update_self] at here
      exact Or.inl ⟨rfl, (Option.some.inj here).symm⟩
    · rw [Function.update_of_ne first] at here
      cases here

/-- A new directory holds its two entries. -/
theorem emptyDir_inv (dirLevel : Nat) (inlineXattr : Bool) (inode : InodeRef)
    (parent : BitVec 32) :
    DirInv (emptyDir dirLevel inlineXattr inode parent) (initialEntries inode parent) := by
  have first := @BlockHolds.addDentry _ _ blockHolds_zero 0 dotName inode (by decide)
    fun _ _ _ => rfl
  have second := @BlockHolds.addDentry _ _ first 1 dotDotName ⟨parent, inode.mode⟩ (by decide) (by
    intro bit low high
    change bit < 1 + 1 at high
    obtain rfl : bit = 1 := by omega
    rfl)
  rw [← makeEmptyDir_eq] at second
  have start : ∀ {name place}, initialEntries inode parent name = some place →
      f2fsDentryHash name = 0 ∧ place.block = 0 := by
    intro name place here
    rcases initialEntries_eq_some here with ⟨rfl, rfl⟩ | ⟨rfl, rfl⟩
    · exact ⟨rfl, rfl⟩
    · exact ⟨rfl, rfl⟩
  have one : dirBlocks (emptyDir dirLevel inlineXattr inode parent) = 1 := by
    norm_num [dirBlocks, emptyDir, pageCacheSize]
  have only : ∀ {block blk}, (emptyDir dirLevel inlineXattr inode parent).blocks block =
      some blk → block = 0 ∧ blk = makeEmptyDir inode parent := by
    intro block blk page
    change Function.update (fun _ => none) 0 (some (makeEmptyDir inode parent)) block = _ at page
    by_cases zero : block = 0
    · subst zero
      rw [Function.update_self] at page
      exact ⟨rfl, (Option.some.inj page).symm⟩
    · rw [Function.update_of_ne zero] at page
      cases page
  constructor
  · intro block blk page
    obtain ⟨rfl, rfl⟩ := only page
    refine second.congr ?_
    rintro bitPos ⟨name, ref⟩
    simp only [heldIn, false_or]
    constructor
    · intro here
      rcases initialEntries_eq_some here with ⟨rfl, eq⟩ | ⟨rfl, eq⟩
      · cases eq
        exact Or.inl ⟨rfl, rfl⟩
      · cases eq
        exact Or.inr ⟨rfl, rfl⟩
    · rintro (⟨rfl, eq⟩ | ⟨rfl, eq⟩)
      · cases eq
        rfl
      · cases eq
        rfl
  · intro name place here
    rw [(start here).2]
    exact ⟨_, rfl⟩
  · intro name place here
    obtain ⟨hash, block⟩ := start here
    refine ⟨0, Nat.one_pos, ?_⟩
    rw [block, bucketStart, dirBlockIndex, hash]
    simp [levelStart, bucketBlocks, maxDirHashDepth]
  · intro block blk page
    rw [(only page).1, one]
    exact Nat.one_pos
  · rw [one]
    change 1 ≤ maxFileBlocks inlineXattr
    rw [maxFileBlocks]
    omega
  · exact Nat.one_pos
  · intro level below
    obtain rfl : level = 0 := by
      change level < 1 at below
      omega
    change 0 < maxFileBlocks inlineXattr
    rw [maxFileBlocks]
    omega

/-! ## Histories -/

/-- The states that a directory reaches, with the names that have been added and not deleted
since.  An add is of a name that the directory does not have; it may fail at any point, and a
deletion is of an entry that a lookup has found. -/
inductive DirHistory : Dir → (FileName → Option InodeRef) → Prop
  | empty (dirLevel : Nat) (inlineXattr : Bool) (inode : InodeRef) (parent : BitVec 32) :
      DirHistory (emptyDir dirLevel inlineXattr inode parent) (initialNames inode parent)
  | add {dir dir' : Dir} {names : FileName → Option InodeRef} {name : FileName}
      {inode : InodeRef} {faults : AddFaults} {place : Nat × Nat} :
      DirHistory dir names → names name = none →
      f2fsAddLink dir name inode faults = some (dir', .ok place) →
      DirHistory dir' (Function.update names name (some inode))
  | addFailed {dir dir' : Dir} {names : FileName → Option InodeRef} {name : FileName}
      {inode : InodeRef} {faults : AddFaults} {err : Errno} :
      DirHistory dir names → names name = none →
      f2fsAddLink dir name inode faults = some (dir', .error err) → DirHistory dir' names
  | find {dir dir' : Dir} {names : FileName → Option InodeRef} {name : FileName}
      {result : Option FoundEntry} :
      DirHistory dir names → f2fsFindEntry dir name = some (dir', result) → DirHistory dir' names
  | delete {dir dir' : Dir} {names : FileName → Option InodeRef} {name : FileName}
      {found : FoundEntry} :
      DirHistory dir names → f2fsFindEntry dir name = some (dir', some found) →
      DirHistory (f2fsDeleteEntry dir' found.block found.bitPos)
        (Function.update names name none)

/-- After any history the directory holds an entry for each name that is present. -/
theorem DirHistory.inv {dir : Dir} {names : FileName → Option InodeRef}
    (history : DirHistory dir names) :
    ∃ entries, DirInv dir entries ∧ ∀ name, names name = (entries name).map EntryPlace.inode := by
  have absent : ∀ {entries : FileName → Option EntryPlace} {names : FileName → Option InodeRef}
      {name : FileName}, (∀ name, names name = (entries name).map EntryPlace.inode) →
      names name = none → entries name = none := by
    intro entries names name agree missing
    rwa [agree, Option.map_eq_none_iff] at missing
  induction history with
  | empty dirLevel inlineXattr inode parent =>
      refine ⟨_, emptyDir_inv dirLevel inlineXattr inode parent, fun name => ?_⟩
      rw [initialNames, initialEntries]
      by_cases second : name = dotDotName
      · subst second
        rw [Function.update_self, Function.update_self, Option.map_some]
      · rw [Function.update_of_ne second, Function.update_of_ne second]
        by_cases first : name = dotName
        · subst first
          rw [Function.update_self, Function.update_self, Option.map_some]
        · rw [Function.update_of_ne first, Function.update_of_ne first, Option.map_none]
  | @add _ _ _ name _ _ place _ missing ends ih =>
      obtain ⟨entries, inv, agree⟩ := ih
      refine ⟨_, (inv.addLink (absent agree missing) ends).2 place.1 place.2 rfl, fun other => ?_⟩
      by_cases same : other = name
      · subst same
        rw [Function.update_self, Function.update_self, Option.map_some]
      · rw [Function.update_of_ne same, Function.update_of_ne same, agree]
  | addFailed _ missing ends ih =>
      obtain ⟨entries, inv, agree⟩ := ih
      exact ⟨entries, (inv.addLink (absent agree missing) ends).1 _ rfl, agree⟩
  | find _ ends ih =>
      obtain ⟨entries, inv, agree⟩ := ih
      exact ⟨entries, inv.findEntry ends, agree⟩
  | @delete _ _ _ name found _ ends ih =>
      obtain ⟨entries, inv, agree⟩ := ih
      obtain ⟨place, here, rfl⟩ := (inv.f2fsFindEntry_iff found).mp ⟨_, ends⟩
      refine ⟨_, (inv.findEntry ends).deleteEntry here, fun other => ?_⟩
      by_cases same : other = name
      · subst same
        rw [Function.update_self, Function.update_self, Option.map_none]
      · rw [Function.update_of_ne same, Function.update_of_ne same, agree]

end StorageStack.F2fs
