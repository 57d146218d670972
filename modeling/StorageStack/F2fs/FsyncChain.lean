import Mathlib.Data.Finset.Card
import StorageStack.F2fs.Directory

/-!
# The chain of fsynced nodes

Roll-forward recovery follows the `next_blkaddr` of node blocks from the first free block of the
warm node log, as long as the blocks have the version of the checkpoint.  `find_fsync_dnodes` goes
through this chain once to list the inodes, `recover_data` a second time to recover them.  The
functions they call are parameters: they give an answer in each round.
-/

namespace StorageStack
namespace F2fs

/-- What the loops read in a node block. -/
structure DnodeBlock where
  cpVer : Nat
  nextBlkaddr : Nat
  ino : Nat
  isInode : Bool
  isFsyncDnode : Bool
  isDentDnode : Bool
deriving DecidableEq, Repr

/-- The disk, its main area and the version of the checkpoint. -/
structure ChainDisk where
  block : Nat → DnodeBlock
  mainBlkaddr : Nat
  maxBlkaddr : Nat
  cpVer : Nat

namespace ChainDisk

/-- The address lies in the main area. -/
def InMain (disk : ChainDisk) (blkaddr : Nat) : Prop :=
  disk.mainBlkaddr ≤ blkaddr ∧ blkaddr < disk.maxBlkaddr

instance (disk : ChainDisk) (blkaddr : Nat) : Decidable (disk.InMain blkaddr) :=
  inferInstanceAs (Decidable (_ ∧ _))

/-- `struct fsync_inode_entry`, with the flag `FI_INC_LINK` of its inode. -/
structure FsyncInodeEntry where
  ino : Nat
  incLink : Bool
  blkaddr : Nat
  lastInode : Nat
  lastDentry : Nat
deriving DecidableEq, Repr

/-- The list of inodes and the variable `err` of a loop. -/
structure Recovery where
  head : List FsyncInodeEntry
  err : Option Errno
deriving DecidableEq

/-- The blocks that a loop read, and what it leaves and returns. -/
structure Scan where
  visited : List Nat
  result : Recovery
deriving DecidableEq

/-- Both loops: the tests of the address and of the version, the work on the page, the next block.
Outside the main area `find_fsync_dnodes` returns 0; in `recover_data` there is no error then. -/
def scan (disk : ChainDisk) (visit : Nat → Nat → Recovery → Except Recovery Recovery) :
    (fuel round blkaddr : Nat) → Recovery → Option Scan
  | 0, _, _, _ => none
  | fuel + 1, round, blkaddr, state =>
      if ¬ disk.InMain blkaddr then some ⟨[], { state with err := none }⟩
      else if (disk.block blkaddr).cpVer ≠ disk.cpVer then some ⟨[blkaddr], state⟩
      else
        match visit round blkaddr state with
        | .error failed => some ⟨[blkaddr], failed⟩
        | .ok state =>
            (disk.scan visit fuel (round + 1) (disk.block blkaddr).nextBlkaddr state).map
              fun rest => { rest with visited := blkaddr :: rest.visited }

/-! ## The work on a page -/

/-- The answers of `recover_inode_page`, `kmem_cache_alloc` and `f2fs_iget`. -/
structure FindAnswer where
  recoverInodePage : Option Errno
  allocated : Bool
  iget : Option Errno

/-- The addresses that an entry keeps of a page. -/
def FsyncInodeEntry.mark (entry : FsyncInodeEntry) (page : DnodeBlock) (blkaddr : Nat) :
    FsyncInodeEntry :=
  { entry with
    blkaddr := blkaddr
    lastInode := if page.isInode then blkaddr else entry.lastInode
    lastDentry := if page.isInode ∧ page.isDentDnode then blkaddr else entry.lastDentry }

/-- A page in `find_fsync_dnodes`. -/
def findVisit (disk : ChainDisk) (answers : Nat → FindAnswer) (round blkaddr : Nat)
    (state : Recovery) : Except Recovery Recovery :=
  let page := disk.block blkaddr
  let answer := answers round
  if page.isFsyncDnode = false then .ok state
  else
    match state.head.findIdx? fun entry => entry.ino == page.ino with
    | some index =>
        .ok { state with
          head := state.head.modify index fun entry =>
            { entry with incLink := entry.incLink || (page.isInode && page.isDentDnode) }.mark
              page blkaddr }
    | none =>
        let dentInode := page.isInode && page.isDentDnode
        if dentInode = true ∧ answer.recoverInodePage ≠ none then
          .error { state with err := answer.recoverInodePage }
        else if answer.allocated = false then .error { state with err := some .nomem }
        else
          match answer.iget with
          | none =>
              .ok ⟨state.head ++ [FsyncInodeEntry.mark ⟨page.ino, false, 0, 0, 0⟩ page blkaddr],
                if dentInode then none else state.err⟩
          -- the variable keeps this error when the loop goes on
          | some .noent => .ok { state with err := some .noent }
          | some error => .error { state with err := some error }

def findFsyncDnodes (disk : ChainDisk) (answers : Nat → FindAnswer) (fuel blkaddr : Nat) :
    Option Scan :=
  disk.scan (disk.findVisit answers) fuel 0 blkaddr ⟨[], none⟩

/-- The answers of `recover_dentry` and `do_recover_data`. -/
structure RecoverAnswer where
  recoverDentry : Option Errno
  doRecoverData : Option Errno

/-- A page in `recover_data`. -/
def recoverVisit (disk : ChainDisk) (answers : Nat → RecoverAnswer) (round blkaddr : Nat)
    (state : Recovery) : Except Recovery Recovery :=
  let page := disk.block blkaddr
  let answer := answers round
  match state.head.findIdx? fun entry => entry.ino == page.ino with
  | none => .ok state
  | some index =>
      match state.head[index]? with
      | none => .ok state
      | some entry =>
          if entry.lastDentry = blkaddr ∧ answer.recoverDentry ≠ none then
            .error { state with err := answer.recoverDentry }
          else if answer.doRecoverData ≠ none then
            .error { state with err := answer.doRecoverData }
          else if entry.blkaddr = blkaddr then .ok ⟨state.head.eraseIdx index, none⟩
          else .ok { state with err := none }

def recoverData (disk : ChainDisk) (answers : Nat → RecoverAnswer) (head : List FsyncInodeEntry)
    (fuel blkaddr : Nat) : Option Scan :=
  disk.scan (disk.recoverVisit answers) fuel 0 blkaddr ⟨head, none⟩

/-! ## The chain -/

/-- The block behind an address, if the loops go on from it. -/
def next (disk : ChainDisk) (blkaddr : Nat) : Option Nat :=
  if disk.InMain blkaddr ∧ (disk.block blkaddr).cpVer = disk.cpVer then
    some (disk.block blkaddr).nextBlkaddr
  else none

/-- The address after so many steps. -/
def reach (disk : ChainDisk) (start : Nat) : Nat → Option Nat
  | 0 => some start
  | steps + 1 => (disk.next start).bind fun blkaddr => disk.reach blkaddr steps

/-- No address comes twice on the way from the start. -/
def NoRepeat (disk : ChainDisk) (start : Nat) : Prop :=
  ∀ early late blkaddr, early < late → disk.reach start early = some blkaddr →
    disk.reach start late ≠ some blkaddr

/-- A loop ends: every block was visited at most once, or an error is reported. -/
def Ends (run : Nat → Option Scan) : Prop :=
  ∃ fuel scan, run fuel = some scan ∧ (scan.visited.Nodup ∨ scan.result.err ≠ none)

variable {disk : ChainDisk}

theorem next_of_continues {blkaddr : Nat} (inside : disk.InMain blkaddr)
    (version : (disk.block blkaddr).cpVer = disk.cpVer) :
    disk.next blkaddr = some (disk.block blkaddr).nextBlkaddr := by
  simp [next, inside, version]

theorem inMain_of_next {blkaddr other : Nat} (h : disk.next blkaddr = some other) :
    disk.InMain blkaddr := by
  simp only [next] at h
  split at h
  · next continues => exact continues.1
  · cases h

theorem reach_add (start : Nat) (first second : Nat) :
    disk.reach start (first + second) =
      (disk.reach start first).bind fun blkaddr => disk.reach blkaddr second := by
  induction first generalizing start with
  | zero => simp [reach]
  | succ first ih =>
    rw [Nat.add_right_comm, reach, reach]
    cases disk.next start with
    | none => rfl
    | some other => exact ih other

theorem reach_succ (start steps : Nat) :
    disk.reach start (steps + 1) = (disk.reach start steps).bind disk.next := by
  rw [reach_add]
  congr 1
  funext blkaddr
  simp only [reach]
  cases disk.next blkaddr <;> rfl

/-- Every address but the last lies in the main area. -/
theorem inMain_of_reach {start steps : Nat} (more : disk.reach start (steps + 1) ≠ none) :
    ∃ blkaddr, disk.reach start steps = some blkaddr ∧ disk.InMain blkaddr := by
  obtain ⟨other, hother⟩ := Option.ne_none_iff_exists'.1 more
  rw [reach_succ, Option.bind_eq_some_iff] at hother
  obtain ⟨blkaddr, here, step⟩ := hother
  exact ⟨blkaddr, here, inMain_of_next step⟩

theorem reach_none_mono {start early late : Nat} (le : early ≤ late)
    (stopped : disk.reach start early = none) : disk.reach start late = none := by
  obtain ⟨more, rfl⟩ := Nat.exists_eq_add_of_le le
  rw [reach_add, stopped, Option.bind_none]

/-- A repeat goes on for ever. -/
theorem reach_ne_none_of_repeat {start early late blkaddr : Nat} (lt : early < late)
    (first : disk.reach start early = some blkaddr)
    (again : disk.reach start late = some blkaddr) (steps : Nat) :
    disk.reach start steps ≠ none := by
  obtain ⟨gap, rfl⟩ := Nat.exists_eq_add_of_lt lt
  have period : disk.reach blkaddr (gap + 1) = some blkaddr := by
    rw [Nat.add_assoc, reach_add, first] at again
    exact again
  have rounds : ∀ count, disk.reach blkaddr (count * (gap + 1)) = some blkaddr := by
    intro count
    induction count with
    | zero => simp [reach]
    | succ count ih => rw [Nat.succ_mul, reach_add, ih, Option.bind_some, period]
  intro stopped
  have far : disk.reach start (early + steps * (gap + 1)) = none := by
    apply reach_none_mono _ stopped
    calc steps ≤ steps * (gap + 1) := Nat.le_mul_of_pos_right steps (Nat.succ_pos gap)
      _ ≤ early + steps * (gap + 1) := Nat.le_add_left _ _
  rw [reach_add, first, Option.bind_some, rounds steps] at far
  cases far

/-- Without a repeat the chain has no more addresses than the main area has blocks. -/
theorem exists_reach_none {start : Nat} (noRepeat : disk.NoRepeat start) :
    ∃ steps, disk.reach start steps = none := by
  by_contra endless
  have stays (steps : Nat) : ∃ blkaddr, disk.reach start steps = some blkaddr ∧
      disk.InMain blkaddr := by
    apply inMain_of_reach
    intro stopped
    exact endless ⟨steps + 1, stopped⟩
  choose address here inside using stays
  have injective : Function.Injective address := by
    intro first second same
    by_contra differ
    rcases Nat.lt_or_gt_of_ne differ with lt | lt
    · exact noRepeat first second _ lt (here first) (same ▸ here second)
    · exact noRepeat second first _ lt (here second) (same ▸ here first)
  have bounded := Finset.card_le_card_of_injOn (s := Finset.range (disk.maxBlkaddr + 1))
    (t := Finset.range disk.maxBlkaddr) address
    (fun steps _ => Finset.mem_coe.2 (Finset.mem_range.2 (inside steps).2)) injective.injOn
  simp only [Finset.card_range] at bounded
  omega

/-! ## The loops follow the chain -/

/-- The visited blocks are the chain's, in its order. -/
theorem scan_visited {visit : Nat → Nat → Recovery → Except Recovery Recovery}
    {fuel round start : Nat} {state : Recovery} {result : Scan}
    (h : disk.scan visit fuel round start state = some result) (index : Nat)
    (lt : index < result.visited.length) : disk.reach start index = result.visited[index]? := by
  induction fuel generalizing round start state result index with
  | zero => cases h
  | succ fuel ih =>
    rw [scan] at h
    split at h
    · cases h
      exact absurd lt (Nat.not_lt_zero index)
    next inside =>
    split at h
    · cases h
      obtain rfl : index = 0 := by simpa using lt
      rfl
    next version =>
    split at h
    · cases h
      obtain rfl : index = 0 := by simpa using lt
      rfl
    · obtain ⟨rest, hrest, rfl⟩ := Option.map_eq_some_iff.1 h
      cases index with
      | zero => rfl
      | succ index =>
        rw [reach, next_of_continues (not_not.1 inside) (not_not.1 version), Option.bind_some,
          List.getElem?_cons_succ]
        exact ih hrest index (by simpa using lt)

theorem visited_nodup {visit : Nat → Nat → Recovery → Except Recovery Recovery}
    {fuel round start : Nat} {state : Recovery} {result : Scan} (noRepeat : disk.NoRepeat start)
    (h : disk.scan visit fuel round start state = some result) : result.visited.Nodup := by
  rw [List.nodup_iff_getElem?_ne_getElem?]
  intro first second lt bound same
  have early := scan_visited h first (Nat.lt_trans lt bound)
  have late := scan_visited h second bound
  rw [List.getElem?_eq_getElem (Nat.lt_trans lt bound)] at early same
  exact noRepeat first second _ lt early (late.trans same.symm)

/-- The loop ends when the chain does. -/
theorem scan_isSome_of_reach_none {visit : Nat → Nat → Recovery → Except Recovery Recovery}
    {fuel round start : Nat} {state : Recovery} (stopped : disk.reach start fuel = none) :
    (disk.scan visit fuel round start state).isSome := by
  induction fuel generalizing round start state with
  | zero => cases stopped
  | succ fuel ih =>
    rw [scan]
    split
    · rfl
    next inside =>
    split
    · rfl
    next version =>
    split
    · rfl
    · rw [Option.isSome_map]
      apply ih
      rw [reach, next_of_continues (not_not.1 inside) (not_not.1 version)] at stopped
      exact stopped

/-- A loop without errors ends only when the chain does. -/
theorem reach_none_of_scan {visit : Nat → Nat → Recovery → Except Recovery Recovery}
    {fuel round start : Nat} {state : Recovery} {result : Scan}
    (clean : ∀ round blkaddr state, ∃ after, visit round blkaddr state = .ok after)
    (h : disk.scan visit fuel round start state = some result) :
    disk.reach start fuel = none := by
  induction fuel generalizing round start state result with
  | zero => cases h
  | succ fuel ih =>
    rw [scan] at h
    rw [reach]
    split at h
    next outside => simp [next, outside]
    next inside =>
    split at h
    next version => simp [next, version]
    next version =>
    obtain ⟨after, hafter⟩ := clean round start state
    rw [hafter] at h
    obtain ⟨rest, hrest, -⟩ := Option.map_eq_some_iff.1 h
    rw [next_of_continues (not_not.1 inside) (not_not.1 version), Option.bind_some]
    exact ih hrest

theorem ends_of_noRepeat {visit : Nat → Nat → Recovery → Except Recovery Recovery} {start : Nat}
    (noRepeat : disk.NoRepeat start) (state : Recovery) :
    Ends fun fuel => disk.scan visit fuel 0 start state := by
  obtain ⟨fuel, stopped⟩ := exists_reach_none noRepeat
  obtain ⟨result, h⟩ := Option.isSome_iff_exists.1 (scan_isSome_of_reach_none stopped)
  exact ⟨fuel, result, h, .inl (visited_nodup noRepeat h)⟩

theorem noRepeat_of_ends {visit : Nat → Nat → Recovery → Except Recovery Recovery} {start : Nat}
    {state : Recovery}
    (clean : ∀ round blkaddr state, ∃ after, visit round blkaddr state = .ok after)
    (ends : Ends fun fuel => disk.scan visit fuel 0 start state) : disk.NoRepeat start := by
  obtain ⟨fuel, result, h, -⟩ := ends
  intro early late blkaddr lt first again
  exact reach_ne_none_of_repeat lt first again fuel (reach_none_of_scan clean h)

/-! ## The work on a page does not end the loop -/

/-- All calls succeed. -/
def FindAnswer.good : FindAnswer := ⟨none, true, none⟩

theorem findVisit_good (disk : ChainDisk) (round blkaddr : Nat) (state : Recovery) :
    ∃ after, disk.findVisit (fun _ => .good) round blkaddr state = .ok after := by
  simp only [findVisit, FindAnswer.good]
  split
  · exact ⟨_, rfl⟩
  split
  · exact ⟨_, rfl⟩
  · simp

/-- Both loops end, with every answer of the functions they call, exactly when the chain does not
come twice to one address. -/
theorem chain_ends_iff (disk : ChainDisk) (start : Nat) :
    (∀ (findAnswers : Nat → FindAnswer) (recoverAnswers : Nat → RecoverAnswer)
        (head : List FsyncInodeEntry),
      Ends (fun fuel => disk.findFsyncDnodes findAnswers fuel start) ∧
        Ends fun fuel => disk.recoverData recoverAnswers head fuel start) ↔
      disk.NoRepeat start := by
  constructor
  · intro ends
    obtain ⟨find, -⟩ := ends (fun _ => .good) (fun _ => ⟨none, none⟩) []
    exact noRepeat_of_ends (findVisit_good disk) find
  · intro noRepeat findAnswers recoverAnswers head
    exact ⟨ends_of_noRepeat noRepeat _, ends_of_noRepeat noRepeat _⟩

/-- A block of the warm node log that points to itself and has the version of the checkpoint. -/
def selfLinked : ChainDisk where
  block _ := ⟨1, 4096, 3, false, false, false⟩
  mainBlkaddr := 4096
  maxBlkaddr := 8192
  cpVer := 1

theorem selfLinked_scan {visit : Nat → Nat → Recovery → Except Recovery Recovery}
    (same : ∀ round, visit round 4096 ⟨[], none⟩ = .ok ⟨[], none⟩) (fuel round : Nat) :
    selfLinked.scan visit fuel round 4096 ⟨[], none⟩ = none := by
  induction fuel generalizing round with
  | zero => rfl
  | succ fuel ih =>
    have inside : selfLinked.InMain 4096 := by decide
    have version : (selfLinked.block 4096).cpVer = selfLinked.cpVer := rfl
    have link : (selfLinked.block 4096).nextBlkaddr = 4096 := rfl
    rw [scan, if_neg (not_not.2 inside), if_neg (not_not.2 version), same]
    simp only [link, ih, Option.map_none]

/-- Both loops read it again and again. -/
theorem selfLinked_not_ends :
    (∀ answers, ¬ Ends fun fuel => selfLinked.findFsyncDnodes answers fuel 4096) ∧
      ∀ answers, ¬ Ends fun fuel => selfLinked.recoverData answers [] fuel 4096 := by
  constructor
  · rintro answers ⟨fuel, result, h, -⟩
    cases h.symm.trans (selfLinked_scan (fun _ => rfl) fuel 0)
  · rintro answers ⟨fuel, result, h, -⟩
    cases h.symm.trans (selfLinked_scan (fun _ => rfl) fuel 0)

end ChainDisk

end F2fs
end StorageStack
