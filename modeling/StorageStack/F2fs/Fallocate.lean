import StorageStack.F2fs.Directory

/-!
# Preallocation

`expand_inode_data` reserves the pages of a range one by one and adds up the size of the file on the
way.  It starts from the old size even when the range does not, so a failure in the middle of a range
that starts at a page boundary below the old size adds the pages behind the end of the file.
-/

namespace StorageStack
namespace F2fs
namespace Fallocate

/-- What a reservation reads and changes of an inode and its file system. -/
structure Inode where
  isize : Nat
  iBlocks : Nat
  /-- `FI_NO_ALLOC`. -/
  noAlloc : Bool
  /-- The addresses of the pages. -/
  blkaddr : Nat → Nat
  totalValidBlockCount : Nat
  userBlockCount : Nat

/-- `inc_valid_block_count`. -/
def incValidBlockCount (inode : Inode) (count : Nat) : Option Inode :=
  if inode.userBlockCount < inode.totalValidBlockCount + count then none
  else
    some { inode with
      iBlocks := inode.iBlocks + count
      totalValidBlockCount := inode.totalValidBlockCount + count }

/-- `reserve_new_block`. -/
def reserveNewBlock (inode : Inode) (index : Nat) : Except Errno Inode :=
  if inode.noAlloc then .error .perm
  else
    match incValidBlockCount inode 1 with
    | none => .error .nospc
    | some inode => .ok { inode with blkaddr := Function.update inode.blkaddr index newAddr }

/-- The nodes that `get_dnode_of_data` allocates on the way to a page, or its error. -/
abbrev Dnodes := Inode → Nat → Except Errno Nat

/-- `f2fs_reserve_block` without an inode page. -/
def f2fsReserveBlock (dnodes : Dnodes) (inode : Inode) (index : Nat) : Except Errno Inode :=
  match dnodes inode index with
  | .error err => .error err
  | .ok nodes =>
      let inode : Inode := { inode with
        iBlocks := inode.iBlocks + nodes
        totalValidBlockCount := inode.totalValidBlockCount + nodes }
      if inode.blkaddr index = nullAddr then reserveNewBlock inode index else .ok inode

/-- The arguments of `expand_inode_data`, and what the functions it calls before the loop answer. -/
structure Request where
  offset : Nat
  len : Nat
  /-- `FALLOC_FL_KEEP_SIZE`. -/
  keepSize : Bool
  /-- The error of `inode_newsize_ok`. -/
  newsizeErr : Option Errno
  /-- The error of `f2fs_convert_inline_data`. -/
  convertErr : Option Errno
  dnodes : Dnodes

namespace Request

variable (request : Request)

def pgStart : Nat := request.offset / pageCacheSize

def pgEnd : Nat := (request.offset + request.len) / pageCacheSize

def offStart : Nat := request.offset % pageCacheSize

def offEnd : Nat := (request.offset + request.len) % pageCacheSize

/-- The new size after a round. -/
def grow (index newSize : Nat) : Nat :=
  if request.pgStart = request.pgEnd then request.offset + request.len
  else if index = request.pgStart ∧ request.offStart ≠ 0 then (index + 1) * pageCacheSize
  else if index = request.pgEnd then index * pageCacheSize + request.offEnd
  else newSize + pageCacheSize

/-- The reservation in a round; the last page is left alone when the range ends before it. -/
def reserve (inode : Inode) (index : Nat) : Except Errno Inode :=
  if index = request.pgEnd ∧ request.offEnd = 0 then .ok inode
  else f2fsReserveBlock request.dnodes inode index

end Request

/-- The state in which the loop ends, with the page that could not be reserved and the error. -/
structure LoopEnd where
  inode : Inode
  newSize : Nat
  failed : Option (Nat × Errno)

/-- The loop of `expand_inode_data`. -/
def expandLoop (request : Request) : (rounds index : Nat) → Inode → (newSize : Nat) → LoopEnd
  | 0, _, inode, newSize => ⟨inode, newSize, none⟩
  | rounds + 1, index, inode, newSize =>
      match request.reserve inode index with
      | .error err => ⟨inode, newSize, some (index, err)⟩
      | .ok inode => expandLoop request rounds (index + 1) inode (request.grow index newSize)

/-- What `expand_inode_data` returns and leaves, with the page that could not be reserved. -/
structure Expanded where
  ret : Option Errno
  inode : Inode
  failed : Option Nat

/-- `expand_inode_data`. -/
def expandInodeData (request : Request) (inode : Inode) : Expanded :=
  match request.newsizeErr, request.convertErr with
  | some err, _ => ⟨some err, inode, none⟩
  | none, some err => ⟨some err, inode, none⟩
  | none, none =>
      let loop := expandLoop request (request.pgEnd + 1 - request.pgStart) request.pgStart inode
        inode.isize
      let size := if request.keepSize = false ∧ loop.inode.isize < loop.newSize then loop.newSize
        else loop.inode.isize
      ⟨loop.failed.map Prod.snd, { loop.inode with isize := size }, loop.failed.map Prod.fst⟩

/-! ## What the size should be -/

/-- A size is earned: after a success it is the end of the range, or the old size; after a failed
reservation it is at most the end of the reserved pages, or the old size. -/
structure SizeEarned (request : Request) (inode : Inode) : Prop where
  success : (expandInodeData request inode).ret = none → request.keepSize = false →
    (expandInodeData request inode).inode.isize = max inode.isize (request.offset + request.len)
  failure : ∀ page, (expandInodeData request inode).failed = some page →
    (expandInodeData request inode).inode.isize ≤
      max inode.isize (min (request.offset + request.len) (page * pageCacheSize))
  unchanged : ∀ page, (expandInodeData request inode).failed = some page →
    min (request.offset + request.len) (page * pageCacheSize) ≤ inode.isize →
      (expandInodeData request inode).inode.isize = inode.isize
  grows : inode.isize ≤ (expandInodeData request inode).inode.isize

/-- Some pages are reserved in turn, and the next one cannot be. -/
def FailsAfter (request : Request) : (count index : Nat) → Inode → Prop
  | 0, index, inode => ∃ err, request.reserve inode index = .error err
  | count + 1, index, inode =>
      ∃ next, request.reserve inode index = .ok next ∧ FailsAfter request count (index + 1) next

/-- A page of the range behind its first one cannot be reserved. -/
def FailsInside (request : Request) (inode : Inode) : Prop :=
  request.newsizeErr = none ∧ request.convertErr = none ∧
    ∃ count, 0 < count ∧ request.pgStart + count ≤ request.pgEnd ∧
      FailsAfter request count request.pgStart inode

/-! ## The loop -/

theorem isize_of_reserveNewBlock {inode next : Inode} {index : Nat}
    (done : reserveNewBlock inode index = .ok next) : next.isize = inode.isize := by
  rw [reserveNewBlock] at done
  split at done
  next => cases done
  next =>
    rw [incValidBlockCount] at done
    split at done
    next => cases done
    next counted found =>
      split at found
      next => cases found
      next =>
        cases found
        cases done
        rfl

/-- A reservation leaves the size alone. -/
theorem isize_of_reserve {request : Request} {inode next : Inode} {index : Nat}
    (done : request.reserve inode index = .ok next) : next.isize = inode.isize := by
  rw [Request.reserve] at done
  split at done
  next =>
    cases done
    rfl
  next =>
    rw [f2fsReserveBlock] at done
    split at done
    next => cases done
    next nodes _ =>
      dsimp only at done
      split at done
      next =>
        have same := isize_of_reserveNewBlock done
        exact same
      next =>
        cases done
        rfl

/-- The new size after so many rounds. -/
def sizeAfter (request : Request) (isize : Nat) : Nat → Nat
  | 0 => isize
  | count + 1 => request.grow (request.pgStart + count) (sizeAfter request isize count)

variable {request : Request} {inode : Inode} {isize : Nat}

/-- How the loop ends: all its pages are reserved, or one of them cannot be. -/
inductive Ends (request : Request) (isize start rounds : Nat) (inode : Inode) (loop : LoopEnd) : Prop
  | all (none : loop.failed = none) (size : loop.inode.isize = inode.isize)
      (grown : loop.newSize = sizeAfter request isize (start + rounds))
      (reserved : ∀ count < rounds, ¬ FailsAfter request count (request.pgStart + start) inode)
  | fails {count : Nat} {err : Errno} (inside : count < rounds)
      (some : loop.failed = some (request.pgStart + (start + count), err))
      (size : loop.inode.isize = inode.isize)
      (grown : loop.newSize = sizeAfter request isize (start + count))
      (here : FailsAfter request count (request.pgStart + start) inode)

theorem expandLoop_ends {rounds start : Nat} :
    Ends request isize start rounds inode
      (expandLoop request rounds (request.pgStart + start) inode
        (sizeAfter request isize start)) := by
  induction rounds generalizing start inode with
  | zero => exact .all rfl rfl rfl fun count before => by omega
  | succ rounds ih =>
      rw [expandLoop]
      cases step : request.reserve inode (request.pgStart + start) with
      | error err => exact .fails (Nat.succ_pos _) rfl rfl rfl ⟨err, step⟩
      | ok next =>
          have same := isize_of_reserve step
          have rest : Ends request isize (start + 1) rounds next _ := ih
          show Ends _ _ _ _ _ (expandLoop request rounds (request.pgStart + start + 1) next
            (request.grow (request.pgStart + start) (sizeAfter request isize start)))
          cases rest with
          | all none size grown reserved =>
              refine .all none (size.trans same) (grown.trans ?_) fun count before => ?_
              · rw [Nat.add_right_comm, Nat.add_assoc]
              · cases count with
                | zero =>
                    rintro ⟨err, failed⟩
                    rw [step] at failed
                    cases failed
                | succ count =>
                    rintro ⟨other, found, later⟩
                    rw [step] at found
                    cases found
                    exact reserved count (by omega) later
          | @fails count err inside some size grown here =>
              have place : start + 1 + count = start + (count + 1) := by omega
              rw [place] at some grown
              exact .fails (Nat.succ_lt_succ inside) some (size.trans same) grown ⟨next, step, here⟩

/-- The failure of a reservation is unique. -/
theorem FailsAfter.unique {count other index : Nat} (first : FailsAfter request count index inode)
    (second : FailsAfter request other index inode) : count = other := by
  induction count generalizing other index inode with
  | zero =>
      obtain ⟨err, failed⟩ := first
      cases other with
      | zero => rfl
      | succ other =>
          obtain ⟨next, done, -⟩ := second
          rw [failed] at done
          cases done
  | succ count ih =>
      obtain ⟨next, done, later⟩ := first
      cases other with
      | zero =>
          obtain ⟨err, failed⟩ := second
          rw [failed] at done
          cases done
      | succ other =>
          obtain ⟨next_other, done_other, later_other⟩ := second
          rw [done] at done_other
          cases done_other
          rw [ih later later_other]

/-! ## The size -/

theorem pgStart_le_pgEnd (request : Request) : request.pgStart ≤ request.pgEnd :=
  Nat.div_le_div_right (Nat.le_add_right _ _)

/-- After all rounds the new size is the end of the range. -/
theorem sizeAfter_all (request : Request) (isize : Nat) :
    sizeAfter request isize (request.pgEnd + 1 - request.pgStart) =
      request.offset + request.len := by
  have le := pgStart_le_pgEnd request
  have rounds : request.pgEnd + 1 - request.pgStart = request.pgEnd - request.pgStart + 1 := by omega
  have last : request.pgStart + (request.pgEnd - request.pgStart) = request.pgEnd := by omega
  rw [rounds, sizeAfter, last, Request.grow]
  split
  next => rfl
  next several =>
    rw [if_neg (by omega), if_pos rfl, Request.pgEnd, Request.offEnd, Nat.mul_comm]
    exact Nat.div_add_mod _ _

/-- Before the last page the new size is the end of the reserved pages when the range starts inside a
page, and otherwise so much more than the old size. -/
theorem sizeAfter_inside {count : Nat} (pos : 0 < count)
    (inside : request.pgStart + count ≤ request.pgEnd) :
    sizeAfter request isize count =
      if request.offStart ≠ 0 then (request.pgStart + count) * pageCacheSize
      else isize + count * pageCacheSize := by
  induction count with
  | zero => omega
  | succ count ih =>
      rw [sizeAfter, Request.grow, if_neg (by omega)]
      rcases Nat.eq_zero_or_pos count with rfl | later
      · split
        next first => rw [if_pos first.2]
        next aligned =>
          have start : ¬ request.offStart ≠ 0 := fun inner => aligned ⟨rfl, inner⟩
          rw [if_neg (by omega), if_neg start, sizeAfter, Nat.one_mul]
      · rw [if_neg (by omega), if_neg (by omega), ih later (by omega)]
        split
        next => rw [← Nat.add_assoc, Nat.succ_mul (request.pgStart + count)]
        next => rw [Nat.succ_mul, Nat.add_assoc]

/-- The end of the reserved pages lies in the range when a later page fails. -/
theorem reserved_le {count : Nat} (inside : request.pgStart + count ≤ request.pgEnd) :
    (request.pgStart + count) * pageCacheSize ≤ request.offset + request.len := by
  calc
    (request.pgStart + count) * pageCacheSize ≤ request.pgEnd * pageCacheSize :=
      Nat.mul_le_mul_right _ inside
    _ ≤ request.offset + request.len := Nat.div_mul_le_self _ _

/-- The size that a call leaves when its loop ends with a new size. -/
def sizeLeft (request : Request) (isize newSize : Nat) : Nat :=
  if request.keepSize = false ∧ isize < newSize then newSize else isize

theorem sizeLeft_eq (request : Request) (isize newSize : Nat) :
    sizeLeft request isize newSize = if request.keepSize then isize else max isize newSize := by
  rw [sizeLeft]
  cases request.keepSize with
  | true => rfl
  | false =>
      rcases Nat.lt_or_ge isize newSize with larger | smaller
      · simp [larger, Nat.max_eq_right larger.le]
      · simp [Nat.not_lt.2 smaller, Nat.max_eq_left smaller]

/-- The loop from its start. -/
theorem loop_ends (request : Request) (inode : Inode) :
    Ends request inode.isize 0 (request.pgEnd + 1 - request.pgStart) inode
      (expandLoop request (request.pgEnd + 1 - request.pgStart) request.pgStart inode
        inode.isize) :=
  @expandLoop_ends request inode inode.isize _ 0

/-- What a call does: nothing, all of the range, or the pages before one that cannot be reserved. -/
inductive Result (request : Request) (inode : Inode) : Prop
  | refused (ret : (expandInodeData request inode).ret ≠ none)
      (failed : (expandInodeData request inode).failed = none)
      (size : (expandInodeData request inode).inode.isize = inode.isize)
      (inside : ¬ FailsInside request inode)
  | all (failed : (expandInodeData request inode).failed = none)
      (size : (expandInodeData request inode).inode.isize =
        if request.keepSize then inode.isize
        else max inode.isize (request.offset + request.len))
      (inside : ¬ FailsInside request inode)
  | fails {count : Nat} (before : request.pgStart + count ≤ request.pgEnd)
      (ret : (expandInodeData request inode).ret ≠ none)
      (failed : (expandInodeData request inode).failed = some (request.pgStart + count))
      (size : (expandInodeData request inode).inode.isize =
        if request.keepSize then inode.isize
        else max inode.isize (sizeAfter request inode.isize count))
      (inside : FailsInside request inode ↔ 0 < count)

theorem result (request : Request) (inode : Inode) : Result request inode := by
  cases newsize : request.newsizeErr with
  | some err =>
      have call : expandInodeData request inode = ⟨some err, inode, none⟩ := by
        rw [expandInodeData, newsize]
      refine .refused ?_ ?_ ?_ fun inside => ?_
      · rw [call]
        exact Option.some_ne_none _
      · rw [call]
      · rw [call]
      · have passed := inside.1
        rw [newsize] at passed
        cases passed
  | none =>
  cases convert : request.convertErr with
  | some err =>
      have call : expandInodeData request inode = ⟨some err, inode, none⟩ := by
        rw [expandInodeData, newsize, convert]
      refine .refused ?_ ?_ ?_ fun inside => ?_
      · rw [call]
        exact Option.some_ne_none _
      · rw [call]
      · rw [call]
      · have passed := inside.2.1
        rw [convert] at passed
        cases passed
  | none =>
  have le := pgStart_le_pgEnd request
  have ends := loop_ends request inode
  have ret : (expandInodeData request inode).ret = (expandLoop request
      (request.pgEnd + 1 - request.pgStart) request.pgStart inode inode.isize).failed.map
        Prod.snd := by
    rw [expandInodeData, newsize, convert]
  have failed : (expandInodeData request inode).failed = (expandLoop request
      (request.pgEnd + 1 - request.pgStart) request.pgStart inode inode.isize).failed.map
        Prod.fst := by
    rw [expandInodeData, newsize, convert]
  have size : (expandInodeData request inode).inode.isize = sizeLeft request (expandLoop request
      (request.pgEnd + 1 - request.pgStart) request.pgStart inode inode.isize).inode.isize
        (expandLoop request (request.pgEnd + 1 - request.pgStart) request.pgStart inode
          inode.isize).newSize := by
    rw [expandInodeData, newsize, convert]
    rfl
  cases ends with
  | all none same grown reserved =>
      rw [none] at failed
      rw [same, grown, Nat.zero_add, sizeAfter_all, sizeLeft_eq] at size
      refine .all failed size ?_
      rintro ⟨-, -, count, -, inside, fails⟩
      exact reserved count (by omega) fails
  | @fails count err inside some same grown here =>
      rw [some] at ret failed
      rw [same, grown, Nat.zero_add, sizeLeft_eq] at size
      rw [Nat.zero_add] at failed
      refine .fails (by omega) ?_ failed size ?_
      · rw [ret]
        exact Option.some_ne_none _
      · constructor
        · rintro ⟨-, -, other, pos, -, fails⟩
          rw [here.unique fails]
          exact pos
        · exact fun pos => ⟨newsize, convert, count, pos, by omega, here⟩

theorem le_keep_or_max (keep : Bool) (isize newSize : Nat) :
    isize ≤ if keep then isize else max isize newSize := by
  split
  · exact Nat.le_refl _
  · exact Nat.le_max_left _ _

/-- `expand_inode_data` sets the size it earned exactly when it keeps the size, the range starts
inside a page or not below the old size, or no page behind the first one fails. -/
theorem sizeEarned_iff (request : Request) (inode : Inode) :
    SizeEarned request inode ↔
      request.keepSize = true ∨ request.offset % pageCacheSize ≠ 0 ∨
        inode.isize ≤ request.offset ∨ ¬ FailsInside request inode := by
  cases result request inode with
  | refused ret failed size inside =>
      refine iff_of_true ⟨fun success => absurd success ret, ?_, ?_, size.ge⟩
        (.inr (.inr (.inr inside)))
      · intro page some
        rw [failed] at some
        cases some
      · intro page some
        rw [failed] at some
        cases some
  | all failed size inside =>
      refine iff_of_true ⟨fun _ sets => ?_, ?_, ?_, ?_⟩ (.inr (.inr (.inr inside)))
      · rw [size, sets]
        rfl
      · intro page some
        rw [failed] at some
        cases some
      · intro page some
        rw [failed] at some
        cases some
      · rw [size]
        exact le_keep_or_max _ _ _
  | @fails count before ret failed size inside =>
      have grows : inode.isize ≤ (expandInodeData request inode).inode.isize := by
        rw [size]
        exact le_keep_or_max _ _ _
      have end_le := reserved_le before
      -- The two clauses on the failed page say that the size is at most that of the reserved pages.
      have earned_iff : SizeEarned request inode ↔
          (expandInodeData request inode).inode.isize ≤
            max inode.isize ((request.pgStart + count) * pageCacheSize) := by
        constructor
        · intro earned
          have bound := earned.failure _ failed
          rwa [Nat.min_eq_right end_le] at bound
        · intro bound
          refine ⟨fun success => absurd success ret, ?_, ?_, grows⟩
          · intro page some
            rw [failed] at some
            cases some
            rwa [Nat.min_eq_right end_le]
          · intro page some within
            rw [failed] at some
            cases some
            rw [Nat.min_eq_right end_le] at within
            rw [Nat.max_eq_left within] at bound
            exact Nat.le_antisymm bound grows
      rw [earned_iff, size, inside]
      have start : request.offset = request.pgStart * pageCacheSize + request.offStart := by
        rw [Nat.mul_comm]
        exact (Nat.div_add_mod _ _).symm
      have aligned : request.offset % pageCacheSize = request.offStart := rfl
      rw [aligned]
      cases request.keepSize with
      | true => exact iff_of_true (Nat.le_max_left _ _) (.inl rfl)
      | false =>
          rw [if_neg Bool.false_ne_true]
          rcases Nat.eq_zero_or_pos count with rfl | pos
          · refine iff_of_true ?_ (.inr (.inr (.inr (Nat.lt_irrefl 0))))
            rw [sizeAfter, Nat.max_self]
            exact Nat.le_max_left _ _
          · rw [sizeAfter_inside pos before, Nat.add_mul]
            have some := Nat.mul_pos pos (show 0 < pageCacheSize by decide)
            split
            next inner => exact iff_of_true (Nat.le_of_eq rfl) (.inr (.inl inner))
            next outer =>
              have zero : request.offStart = 0 := Classical.not_not.1 outer
              rw [zero] at start
              simp only [zero, ne_eq, not_true_eq_false, Bool.false_eq_true, false_or, pos, or_false]
              rw [Nat.max_eq_right (Nat.le_add_right _ _), le_max_iff]
              omega

/-- A file of one hundred pages, with room for one block more. -/
def almostFull : Inode where
  isize := 100 * 4096
  iBlocks := 1
  noAlloc := false
  blkaddr := fun _ => nullAddr
  totalValidBlockCount := 9
  userBlockCount := 10

/-- The preallocation of its first two pages. -/
def firstTwoPages : Request where
  offset := 0
  len := 2 * 4096
  keepSize := false
  newsizeErr := none
  convertErr := none
  dnodes := fun _ _ => .ok 0

/-- The second page cannot be reserved, and the file is a page larger. -/
theorem size_not_earned : ¬ ∀ (request : Request) (inode : Inode), SizeEarned request inode := by
  intro always
  have earned := always firstTwoPages almostFull
  have failed : (expandInodeData firstTwoPages almostFull).failed = some 1 := by decide
  have size : (expandInodeData firstTwoPages almostFull).inode.isize = 101 * 4096 := by decide
  have bound := earned.failure 1 failed
  rw [size] at bound
  exact absurd bound (by decide)

end Fallocate
end F2fs
end StorageStack
