import StorageStack.F2fs.TruncationTail

/-!
# Seeking data and holes

`f2fs_seek_block` walks through the direct nodes of a file from an offset on, slot by slot, and skips
the nodes that do not exist.  It looks at the size of the file only between nodes, and at one dirty
page only, the first behind the offset.
-/

namespace StorageStack
namespace F2fs
namespace SeekBlock

open Truncation

/-- `SEEK_DATA` and `SEEK_HOLE`. -/
inductive Whence where
  | data
  | hole
  deriving DecidableEq, Repr

/-- What `lseek` returns: a position, `-ENXIO` or `-EINVAL`. -/
inductive SeekResult where
  | pos (offset : Nat)
  | enxio
  | einval
  deriving DecidableEq, Repr

/-- A file as a seek sees it. -/
structure SeekFile where
  tree : FileTree
  /-- `f2fs_has_inline_data`. -/
  inlineData : Bool
  /-- The dirty pages of the page cache. -/
  dirty : Finset Nat
  isize : Nat

/-- `LONG_MAX`. -/
def longMax : Nat := 2 ^ 63 - 1

/-- `s_maxbytes`, from `max_file_size`. -/
def maxFileSize : Nat := maxFileBlocks true * pageCacheSize

/-- `ADDRS_PER_PAGE` of a direct node at the end of a path of this level. -/
def addrsPerPage (inlineXattr : Bool) (level : Nat) : Nat :=
  if level = 0 then addrsPerInode inlineXattr else addrsPerBlock

/-- `PGOFS_OF_NEXT_DNODE`. -/
def pgofsOfNextDnode (inlineXattr : Bool) (pgofs : Nat) : Nat :=
  if pgofs < addrsPerInode inlineXattr then addrsPerInode inlineXattr
  else
    (pgofs - addrsPerInode inlineXattr + addrsPerBlock) / addrsPerBlock * addrsPerBlock +
      addrsPerInode inlineXattr

/-- `__get_first_dirty_index`. -/
def getFirstDirtyIndex (dirty : Finset Nat) (pgofs : Nat) : Whence → Nat
  | .data => ((dirty.filter (pgofs ≤ ·)).min).untopD longMax
  | .hole => 0

/-- `__found_offset`. -/
def foundOffset (blkaddr dirty pgofs : Nat) : Whence → Bool
  | .data => (blkaddr = newAddr ∧ dirty = pgofs) ∨ (blkaddr ≠ newAddr ∧ blkaddr ≠ nullAddr)
  | .hole => blkaddr = nullAddr

/-- The loop over the slots of a direct node: the position found, or the page behind the node. -/
def seekNode (node : Truncation.Dnode) (whence : Whence) (dirty : Nat) :
    (rounds ofs pgofs dataOfs : Nat) → Nat ⊕ Nat
  | 0, _, pgofs, _ => .inr pgofs
  | rounds + 1, ofs, pgofs, dataOfs =>
      if foundOffset (node ofs) dirty pgofs whence then .inl dataOfs
      else seekNode node whence dirty rounds (ofs + 1) (pgofs + 1) ((pgofs + 1) * pageCacheSize)

/-- The end of `f2fs_seek_block` at `found`, with `vfs_setpos`. -/
def finish (file : SeekFile) (whence : Whence) (dataOfs : Nat) : SeekResult :=
  let dataOfs := if whence = .hole ∧ file.isize < dataOfs then file.isize else dataOfs
  if maxFileSize < dataOfs then .einval else .pos dataOfs

/-- The loop over the direct nodes; a read of a node answers no other error than `-ENOENT`. -/
def seekLoop (file : SeekFile) (whence : Whence) (dirty : Nat) :
    (fuel pgofs dataOfs : Nat) → Option SeekResult
  | 0, _, _ => none
  | fuel + 1, pgofs, dataOfs =>
      if file.isize ≤ dataOfs then
        some (if whence = .data then .enxio else finish file whence dataOfs)
      else
        (getNodePath file.tree.inlineXattr pgofs).bind fun path =>
          match file.tree.dnodeOfData path with
          | none =>
              match whence with
              | .data =>
                  let pgofs := pgofsOfNextDnode file.tree.inlineXattr pgofs
                  seekLoop file whence dirty fuel pgofs (pgofs * pageCacheSize)
              | .hole => some (finish file whence dataOfs)
          | some (node, ofs) =>
              match seekNode node whence dirty
                  (addrsPerPage file.tree.inlineXattr path.level - ofs) ofs pgofs dataOfs with
              | .inl dataOfs => some (finish file whence dataOfs)
              | .inr pgofs => seekLoop file whence dirty fuel pgofs (pgofs * pageCacheSize)

/-- `f2fs_seek_block`. -/
def f2fsSeekBlock (file : SeekFile) (offset : Nat) (whence : Whence) (fuel : Nat) :
    Option SeekResult :=
  if file.isize ≤ offset then some .enxio
  else if file.inlineData then
    some (finish file whence (if whence = .hole then file.isize else offset))
  else
    let pgofs := offset / pageCacheSize
    seekLoop file whence (getFirstDirtyIndex file.dirty pgofs whence) fuel pgofs offset

/-! ## What a seek should find -/

namespace SeekFile

variable (file : SeekFile)

/-- The address of a page of the file; there is none in a node that does not exist. -/
def address (page : Nat) : Nat := (file.tree.mapped page).getD nullAddr

/-- The page has data: it has a block, or it is reserved and dirty. -/
def Mapped (page : Nat) : Prop :=
  file.inlineData = true ∨ (file.address page ≠ newAddr ∧ file.address page ≠ nullAddr)

def HasData (page : Nat) : Prop :=
  file.Mapped page ∨ (file.address page = newAddr ∧ page ∈ file.dirty)

/-- The positions with data from an offset on. -/
def dataPositions (offset : Nat) : Set Nat :=
  {pos | offset ≤ pos ∧ pos < file.isize ∧ file.HasData (pos / pageCacheSize)}

/-- The end of the file, and the positions before it without a block, from an offset on. -/
def holePositions (offset : Nat) : Set Nat :=
  {pos | offset ≤ pos ∧ (pos = file.isize ∨ (pos < file.isize ∧ file.inlineData = false ∧
    file.address (pos / pageCacheSize) = nullAddr))}

/-- The right answer of `SEEK_DATA`: the first position that has data, or `-ENXIO`. -/
def FirstData (offset : Nat) : SeekResult → Prop
  | .pos pos => IsLeast (file.dataPositions offset) pos
  | .enxio => file.dataPositions offset = ∅
  | .einval => False

/-- With enough rounds `SEEK_DATA` returns the right answer. -/
def SeeksData (offset : Nat) : Prop :=
  ∃ result enough, (∀ fuel ≥ enough, f2fsSeekBlock file offset .data fuel = some result) ∧
    file.FirstData offset result

/-- With enough rounds `SEEK_HOLE` returns the first position without a block. -/
def SeeksHole (offset : Nat) : Prop :=
  ∃ pos enough, (∀ fuel ≥ enough, f2fsSeekBlock file offset .hole fuel = some (.pos pos)) ∧
    IsLeast (file.holePositions offset) pos

/-- A direct node that does not exist has no page before the one at which a seek goes on. -/
def SkipsNothing : Prop :=
  ∀ pgofs path, getNodePath file.tree.inlineXattr pgofs = some path →
    pgofs < pgofsOfNextDnode file.tree.inlineXattr pgofs ∧
      (file.tree.dnodeOfData path = none → ∀ page, pgofs ≤ page →
        page < pgofsOfNextDnode file.tree.inlineXattr pgofs → file.address page = nullAddr)

end SeekFile

/-! ## Direct nodes -/

theorem pageCacheSize_pos : 0 < pageCacheSize := by decide

theorem lt_nextDnode (inlineXattr : Bool) (pgofs : Nat) :
    pgofs < pgofsOfNextDnode inlineXattr pgofs := by
  have addrs : addrsPerBlock = 1018 := rfl
  rw [pgofsOfNextDnode, addrs]
  split <;> omega

/-- The pages up to the next direct node have the same next direct node. -/
theorem nextDnode_eq {inlineXattr : Bool} {pgofs page : Nat} (le : pgofs ≤ page)
    (before : page < pgofsOfNextDnode inlineXattr pgofs) :
    pgofsOfNextDnode inlineXattr page = pgofsOfNextDnode inlineXattr pgofs := by
  have addrs : addrsPerBlock = 1018 := rfl
  rw [pgofsOfNextDnode, addrs] at before ⊢
  rw [pgofsOfNextDnode, addrs]
  split at before
  next inode => rw [if_pos before, if_pos inode]
  next behind =>
    rw [if_neg (by omega), if_neg behind]
    omega

theorem nextDnode_blockOf {inlineXattr : Bool} {number slot : Nat} (slot_lt : slot < addrsPerBlock) :
    pgofsOfNextDnode inlineXattr (blockOf inlineXattr number slot) =
      blockOf inlineXattr number slot + (addrsPerBlock - slot) := by
  have addrs : addrsPerBlock = 1018 := rfl
  rw [pgofsOfNextDnode, blockOf, addrs]
  rw [addrs] at slot_lt
  rw [if_neg (by omega)]
  omega

/-- The addresses of the pages from a page up to the next direct node: all missing, or in the slots of
one node. -/
inductive NodeView (file : SeekFile) (pgofs : Nat) (path : NodePath) : Prop
  | missing (found : file.tree.dnodeOfData path = none)
      (null : ∀ page, pgofs ≤ page → page < pgofsOfNextDnode file.tree.inlineXattr pgofs →
        file.address page = nullAddr)
  | node {node : Truncation.Dnode} {ofs : Nat} (found : file.tree.dnodeOfData path = some (node, ofs))
      (count : pgofs + (addrsPerPage file.tree.inlineXattr path.level - ofs) =
        pgofsOfNextDnode file.tree.inlineXattr pgofs)
      (slots : ∀ step < addrsPerPage file.tree.inlineXattr path.level - ofs,
        file.address (pgofs + step) = node (ofs + step))

theorem getD_nonNull (addr : Nat) : (nonNull addr).getD nullAddr = addr := by
  rw [nonNull]
  split
  next null => exact null.symm
  next => rfl

/-- A lookup of a page of a file reaches the slot with its address, in a node with those of the pages
behind it. -/
theorem nodeView (file : SeekFile) {pgofs : Nat}
    (pgofs_lt : pgofs < maxFileBlocks file.tree.inlineXattr) :
    ∃ path, getNodePath file.tree.inlineXattr pgofs = some path ∧ NodeView file pgofs path := by
  rcases block_cases pgofs_lt with inode | ⟨number, number_lt, slot, slot_lt, rfl⟩
  · refine ⟨_, (PathShape.inode inode).getNodePath, .node rfl ?_ ?_⟩
    · rw [addrsPerPage, if_pos rfl, pgofsOfNextDnode, if_pos inode]
      omega
    · intro step step_lt
      rw [addrsPerPage, if_pos rfl] at step_lt
      rw [SeekFile.address, FileTree.mapped_inode (by omega), getD_nonNull]
  · obtain ⟨path, way⟩ := numberPath_exists file.tree.inlineXattr slot number_lt
    have next := @nextDnode_blockOf file.tree.inlineXattr number slot slot_lt
    have found := way.dnodeOfData
    -- The address of the page so many steps further on.
    have further : ∀ step < addrsPerBlock - slot,
        file.address (blockOf file.tree.inlineXattr number slot + step) =
          ((file.tree.dnode number).bind fun node => nonNull (node (slot + step))).getD nullAddr := by
      intro step step_lt
      have moved : blockOf file.tree.inlineXattr number slot + step =
          blockOf file.tree.inlineXattr number (slot + step) := by
        rw [blockOf, blockOf, Nat.add_assoc]
      rw [SeekFile.address, moved, FileTree.mapped_number number_lt (by omega)]
    refine ⟨path, way.getNodePath slot_lt, ?_⟩
    cases held : file.tree.dnode number with
    | none =>
        rw [held] at found
        refine .missing found fun page le before => ?_
        rw [next] at before
        obtain ⟨step, rfl⟩ := Nat.exists_eq_add_of_le le
        rw [further step (by omega), held]
        rfl
    | some node =>
        rw [held] at found
        refine .node found ?_ ?_
        · rw [addrsPerPage, if_neg way.level, next]
        · intro step step_lt
          rw [addrsPerPage, if_neg way.level] at step_lt
          rw [further step step_lt, held]
          exact getD_nonNull _

/-! ## The scan -/

/-- The page at which the scan stops. -/
def Hit (file : SeekFile) (whence : Whence) (dirty page : Nat) : Prop :=
  foundOffset (file.address page) dirty page whence = true

/-- The first hit from a page on, before another one. -/
structure FirstHit (file : SeekFile) (whence : Whence) (dirty start stop page : Nat) : Prop where
  ge : start ≤ page
  lt : page < stop
  hit : Hit file whence dirty page
  first : ∀ earlier, start ≤ earlier → earlier < page → ¬ Hit file whence dirty earlier

/-- There is no hit from a page on, before another one. -/
def NoHit (file : SeekFile) (whence : Whence) (dirty start stop : Nat) : Prop :=
  ∀ page, start ≤ page → page < stop → ¬ Hit file whence dirty page

variable {file : SeekFile} {whence : Whence} {dirty : Nat}

theorem FirstHit.of_noHit {start middle stop page : Nat}
    (first : FirstHit file whence dirty middle stop page) (le : start ≤ middle)
    (none : NoHit file whence dirty start middle) :
    FirstHit file whence dirty start stop page := by
  refine ⟨le.trans first.ge, first.lt, first.hit, fun earlier from_start before => ?_⟩
  rcases Nat.lt_or_ge earlier middle with early | late
  · exact none earlier from_start early
  · exact first.first earlier late before

theorem NoHit.trans {start middle stop : Nat} (early : NoHit file whence dirty start middle)
    (late : NoHit file whence dirty middle stop) : NoHit file whence dirty start stop := by
  intro page from_start before
  rcases Nat.lt_or_ge page middle with first | second
  · exact early page from_start first
  · exact late page second before

/-- The scan of a node stops at its first hit, or behind the node. -/
theorem seekNode_spec {node : Truncation.Dnode} {rounds ofs pgofs dataOfs : Nat}
    (slots : ∀ step < rounds, file.address (pgofs + step) = node (ofs + step))
    (place : dataOfs / pageCacheSize = pgofs) :
    (∃ page, FirstHit file whence dirty pgofs (pgofs + rounds) page ∧
      seekNode node whence dirty rounds ofs pgofs dataOfs =
        .inl (max dataOfs (page * pageCacheSize))) ∨
    (NoHit file whence dirty pgofs (pgofs + rounds) ∧
      seekNode node whence dirty rounds ofs pgofs dataOfs = .inr (pgofs + rounds)) := by
  induction rounds generalizing ofs pgofs dataOfs with
  | zero => exact .inr ⟨fun page le before => by omega, rfl⟩
  | succ rounds ih =>
      rw [seekNode]
      have at_pgofs : file.address pgofs = node ofs := slots 0 (Nat.succ_pos _)
      have start_le : pgofs * pageCacheSize ≤ dataOfs := place ▸ Nat.div_mul_le_self _ _
      split
      next found =>
        refine .inl ⟨pgofs, ⟨Nat.le_refl _, by omega, ?_, fun earlier le before => by omega⟩, ?_⟩
        · rw [Hit, at_pgofs]
          exact found
        · rw [Nat.max_eq_left start_le]
      next passed =>
        have none_here : NoHit file whence dirty pgofs (pgofs + 1) := by
          intro page le before
          obtain rfl : page = pgofs := by omega
          rw [Hit, at_pgofs]
          exact passed
        have slots_next : ∀ step < rounds,
            file.address (pgofs + 1 + step) = node (ofs + 1 + step) := by
          intro step step_lt
          have := slots (step + 1) (Nat.succ_lt_succ step_lt)
          rwa [Nat.add_right_comm pgofs, Nat.add_right_comm ofs]
        have place_next : (pgofs + 1) * pageCacheSize / pageCacheSize = pgofs + 1 :=
          Nat.mul_div_cancel _ pageCacheSize_pos
        have count : pgofs + (rounds + 1) = pgofs + 1 + rounds := by omega
        rw [count]
        rcases ih slots_next place_next with ⟨page, first, found⟩ | ⟨none, ended⟩
        · refine .inl ⟨page, first.of_noHit (Nat.le_succ _) none_here, ?_⟩
          have from_next := Nat.mul_le_mul_right pageCacheSize first.ge
          have before_next : dataOfs < (pgofs + 1) * pageCacheSize := by
            rw [← place, Nat.mul_comm]
            exact Nat.lt_mul_div_succ dataOfs pageCacheSize_pos
          rw [found, Nat.max_eq_right from_next, Nat.max_eq_right (by omega)]
        · exact .inr ⟨none_here.trans none, ended⟩

/-- The page behind the direct node with the last byte of the file. -/
def SeekFile.scanEnd (file : SeekFile) : Nat :=
  pgofsOfNextDnode file.tree.inlineXattr ((file.isize - 1) / pageCacheSize)

/-- A node that starts before the end of the file ends before the scan does, and one that reaches the
end of the file ends with it. -/
theorem nextDnode_le_scanEnd {pgofs : Nat} (start_lt : pgofs * pageCacheSize < file.isize) :
    pgofsOfNextDnode file.tree.inlineXattr pgofs ≤ file.scanEnd ∧
      (file.isize ≤ pgofsOfNextDnode file.tree.inlineXattr pgofs * pageCacheSize →
        pgofsOfNextDnode file.tree.inlineXattr pgofs = file.scanEnd) := by
  have size : pageCacheSize = 4096 := rfl
  have last : pgofs ≤ (file.isize - 1) / pageCacheSize := by
    rw [size] at start_lt ⊢
    omega
  rcases Nat.lt_or_ge ((file.isize - 1) / pageCacheSize)
    (pgofsOfNextDnode file.tree.inlineXattr pgofs) with inside | behind
  · have same := nextDnode_eq last inside
    exact ⟨same.ge, fun _ => same.symm⟩
  · have further := lt_nextDnode file.tree.inlineXattr ((file.isize - 1) / pageCacheSize)
    refine ⟨Nat.le_of_lt (Nat.lt_of_le_of_lt behind further), fun reached => ?_⟩
    rw [size] at reached behind
    have started := start_lt
    rw [size] at started
    omega

/-- What the loop returns when the scan meets a page, or none. -/
structure LoopResult (file : SeekFile) (whence : Whence) (dirty pgofs dataOfs : Nat)
    (result : SeekResult) : Prop where
  hit : ∀ page, FirstHit file whence dirty pgofs file.scanEnd page →
    result = finish file whence (max dataOfs (page * pageCacheSize))
  miss : NoHit file whence dirty pgofs file.scanEnd →
    result = if whence = .data then .enxio else finish file whence (file.scanEnd * pageCacheSize)

theorem FirstHit.unique {start stop page other : Nat}
    (first : FirstHit file whence dirty start stop page)
    (second : FirstHit file whence dirty start stop other) : page = other := by
  rcases Nat.lt_trichotomy page other with before | same | after
  · exact absurd first.hit (second.first page first.ge before)
  · exact same
  · exact absurd second.hit (first.first other second.ge after)

theorem LoopResult.of_hit {pgofs dataOfs page : Nat}
    (first : FirstHit file whence dirty pgofs file.scanEnd page) :
    LoopResult file whence dirty pgofs dataOfs
      (finish file whence (max dataOfs (page * pageCacheSize))) := by
  constructor
  · intro other second
    rw [first.unique second]
  · intro none
    exact absurd first.hit (none page first.ge first.lt)

/-- Behind pages without a hit the result is that of the rest of the scan. -/
theorem LoopResult.of_rest {pgofs next dataOfs : Nat} {result : SeekResult}
    (rest : LoopResult file whence dirty next (next * pageCacheSize) result) (le : pgofs ≤ next)
    (place : dataOfs ≤ next * pageCacheSize) (none : NoHit file whence dirty pgofs next) :
    LoopResult file whence dirty pgofs dataOfs result := by
  constructor
  · intro page first
    have ge : next ≤ page := by
      by_contra before
      exact none page first.ge (Nat.not_le.1 before) first.hit
    have from_next := Nat.mul_le_mul_right pageCacheSize ge
    rw [rest.hit page ⟨ge, first.lt, first.hit, fun earlier from_next before =>
      first.first earlier (le.trans from_next) before⟩, Nat.max_eq_right from_next,
      Nat.max_eq_right (place.trans from_next)]
  · intro none_all
    exact rest.miss fun page from_next before => none_all page (le.trans from_next) before

theorem hit_null : Hit file .hole dirty pgofs ↔ file.address pgofs = nullAddr := by
  simp [Hit, foundOffset]

theorem not_hit_data_null {page : Nat} (null : file.address page = nullAddr) :
    ¬ Hit file .data dirty page := by
  have differ : nullAddr ≠ newAddr := by decide
  simp [Hit, foundOffset, null, differ]

/-- With rounds for every page the loop ends, and answers with its first hit. -/
theorem seekLoop_spec (bounded : file.isize ≤ maxFileSize) {fuel pgofs dataOfs : Nat}
    (place : dataOfs / pageCacheSize = pgofs) (le : pgofs ≤ file.scanEnd)
    (stopped : file.isize ≤ dataOfs → pgofs = file.scanEnd ∧ dataOfs = pgofs * pageCacheSize)
    (enough : file.scanEnd - pgofs < fuel) :
    ∃ result, seekLoop file whence dirty fuel pgofs dataOfs = some result ∧
      LoopResult file whence dirty pgofs dataOfs result := by
  induction fuel generalizing pgofs dataOfs with
  | zero => omega
  | succ fuel ih =>
      rw [seekLoop.eq_def]
      dsimp only
      split
      next past =>
        obtain ⟨rfl, rfl⟩ := stopped past
        refine ⟨_, rfl, fun page first => ?_, fun _ => rfl⟩
        exact absurd first.lt (Nat.not_lt.2 first.ge)
      next inside =>
      have start_le : pgofs * pageCacheSize ≤ dataOfs := place ▸ Nat.div_mul_le_self _ _
      have start_lt : pgofs * pageCacheSize < file.isize := by omega
      obtain ⟨next_le, next_end⟩ := nextDnode_le_scanEnd start_lt
      have further := lt_nextDnode file.tree.inlineXattr pgofs
      have pgofs_lt : pgofs < maxFileBlocks file.tree.inlineXattr := by
        have fewer : maxFileBlocks true ≤ maxFileBlocks file.tree.inlineXattr := by
          cases file.tree.inlineXattr <;> decide
        rw [maxFileSize] at bounded
        exact Nat.lt_of_lt_of_le
          (Nat.lt_of_mul_lt_mul_right (Nat.lt_of_lt_of_le start_lt bounded)) fewer
      have behind : dataOfs ≤ pgofsOfNextDnode file.tree.inlineXattr pgofs * pageCacheSize := by
        have before_next : dataOfs < (pgofs + 1) * pageCacheSize := by
          rw [← place, Nat.mul_comm]
          exact Nat.lt_mul_div_succ dataOfs pageCacheSize_pos
        exact Nat.le_of_lt (Nat.lt_of_lt_of_le before_next (Nat.mul_le_mul_right _ further))
      -- The rest of the scan, behind a node without a hit.
      have rest : NoHit file whence dirty pgofs (pgofsOfNextDnode file.tree.inlineXattr pgofs) →
          ∃ result, seekLoop file whence dirty fuel
              (pgofsOfNextDnode file.tree.inlineXattr pgofs)
              (pgofsOfNextDnode file.tree.inlineXattr pgofs * pageCacheSize) = some result ∧
            LoopResult file whence dirty pgofs dataOfs result := by
        intro none
        obtain ⟨result, looped, spec⟩ := ih (Nat.mul_div_cancel _ pageCacheSize_pos) next_le
          (fun past => ⟨next_end past, rfl⟩) (by omega)
        exact ⟨result, looped, spec.of_rest (Nat.le_of_lt further) behind none⟩
      obtain ⟨path, walked, view⟩ := nodeView file pgofs_lt
      rw [walked, Option.bind_some]
      cases view with
      | missing found null =>
          rw [found]
          cases whence with
          | data =>
              exact rest fun page from_start before =>
                not_hit_data_null (null page from_start before)
          | hole =>
              have first : FirstHit file .hole dirty pgofs file.scanEnd pgofs :=
                ⟨Nat.le_refl _, Nat.lt_of_lt_of_le further next_le,
                  hit_null.2 (null pgofs (Nat.le_refl _) further),
                  fun earlier from_start before => by omega⟩
              have spec := @LoopResult.of_hit file .hole dirty pgofs dataOfs pgofs first
              rw [Nat.max_eq_left start_le] at spec
              exact ⟨_, rfl, spec⟩
      | node found count slots =>
          rw [found]
          dsimp only
          rcases @seekNode_spec file whence dirty _ _ _ _ _ slots place with
            ⟨page, first, step⟩ | ⟨none, step⟩
          · rw [step]
            refine ⟨_, rfl, .of_hit ⟨first.ge, ?_, first.hit, first.first⟩⟩
            exact Nat.lt_of_lt_of_le first.lt (count ▸ next_le)
          · rw [step, count]
            rw [count] at none
            exact rest none

/-! ## Data -/

namespace SeekFile

/-- The scan from a page on sees that a page has data: it has a block, or it is reserved and the
first dirty page. -/
def InView (file : SeekFile) (start page : Nat) : Prop :=
  file.Mapped page ∨ (file.address page = newAddr ∧ page ∈ file.dirty ∧
    ∀ other ∈ file.dirty, start ≤ other → page ≤ other)

/-- The pages of the file with data from a page on. -/
def dataPages (file : SeekFile) (start : Nat) : Set Nat :=
  {page | start ≤ page ∧ page * pageCacheSize < file.isize ∧ file.HasData page}

/-- The first page with data is in view, or there is none, and then no page is that lies behind the
end of the file in the direct node of its last byte. -/
structure DataInView (file : SeekFile) (start : Nat) : Prop where
  first : ∀ page, IsLeast (file.dataPages start) page → file.InView start page
  behind : file.dataPages start = ∅ → ∀ page, file.isize ≤ page * pageCacheSize →
    page < file.scanEnd → ¬ file.InView start page

theorem InView.hasData {start page : Nat} (inView : file.InView start page) :
    file.HasData page := by
  rcases inView with mapped | ⟨reserved, dirty, -⟩
  · exact .inl mapped
  · exact .inr ⟨reserved, dirty⟩

theorem exists_least {start page : Nat} (mem : page ∈ file.dataPages start) :
    ∃ first, IsLeast (file.dataPages start) first ∧ first ≤ page :=
  ⟨_, ⟨Nat.sInf_mem ⟨page, mem⟩, fun _ other => Nat.sInf_le other⟩, Nat.sInf_le mem⟩

/-- The first position of a page from an offset on. -/
theorem position_div {offset page : Nat} (le : offset / pageCacheSize ≤ page) :
    max offset (page * pageCacheSize) / pageCacheSize = page := by
  have size : pageCacheSize = 4096 := rfl
  rw [size] at le ⊢
  omega

theorem mem_dataPositions {offset page : Nat} (offset_lt : offset < file.isize)
    (mem : page ∈ file.dataPages (offset / pageCacheSize)) :
    max offset (page * pageCacheSize) ∈ file.dataPositions offset := by
  obtain ⟨le, before, data⟩ := mem
  refine ⟨Nat.le_max_left _ _, Nat.max_lt.2 ⟨offset_lt, before⟩, ?_⟩
  rw [position_div le]
  exact data

theorem mem_dataPages {offset pos : Nat} (mem : pos ∈ file.dataPositions offset) :
    pos / pageCacheSize ∈ file.dataPages (offset / pageCacheSize) := by
  obtain ⟨le, before, data⟩ := mem
  exact ⟨Nat.div_le_div_right le, (Nat.div_mul_le_self _ _).trans_lt before, data⟩

/-- The positions have a least one, at the first page with data. -/
theorem isLeast_position {offset page : Nat} (offset_lt : offset < file.isize)
    (least : IsLeast (file.dataPages (offset / pageCacheSize)) page) :
    IsLeast (file.dataPositions offset) (max offset (page * pageCacheSize)) := by
  refine ⟨mem_dataPositions offset_lt least.1, fun pos mem => Nat.max_le.2 ⟨mem.1, ?_⟩⟩
  calc
    page * pageCacheSize ≤ pos / pageCacheSize * pageCacheSize :=
      Nat.mul_le_mul_right _ (least.2 (mem_dataPages mem))
    _ ≤ pos := Nat.div_mul_le_self _ _

theorem dataPositions_eq_empty_iff {offset : Nat} (offset_lt : offset < file.isize) :
    file.dataPositions offset = ∅ ↔ file.dataPages (offset / pageCacheSize) = ∅ := by
  rw [Set.eq_empty_iff_forall_notMem, Set.eq_empty_iff_forall_notMem]
  constructor
  · exact fun none page mem => none _ (mem_dataPositions offset_lt mem)
  · exact fun none pos mem => none _ (mem_dataPages mem)

theorem lt_scanEnd {page : Nat} (before : page * pageCacheSize < file.isize) :
    page < file.scanEnd :=
  Nat.lt_of_lt_of_le (lt_nextDnode file.tree.inlineXattr page) (nextDnode_le_scanEnd before).1

end SeekFile

/-- The first dirty page behind a page. -/
theorem firstDirty_eq_iff {dirtyPages : Finset Nat} {start page : Nat} (le : start ≤ page)
    (small : page < longMax) :
    getFirstDirtyIndex dirtyPages start .data = page ↔
      page ∈ dirtyPages ∧ ∀ other ∈ dirtyPages, start ≤ other → page ≤ other := by
  rw [getFirstDirtyIndex]
  rcases (dirtyPages.filter (start ≤ ·)).eq_empty_or_nonempty with none | some
  · rw [none, Finset.min_empty, WithTop.untopD_top]
    constructor
    · omega
    · rintro ⟨mem, -⟩
      have : page ∈ dirtyPages.filter (start ≤ ·) := Finset.mem_filter.2 ⟨mem, le⟩
      rw [none] at this
      cases this
  · rw [← Finset.coe_min' some, WithTop.untopD_coe]
    have least := Finset.isLeast_min' _ some
    constructor
    · rintro rfl
      refine ⟨(Finset.mem_filter.1 least.1).1, fun other mem from_start => ?_⟩
      exact least.2 (Finset.mem_coe.2 (Finset.mem_filter.2 ⟨mem, from_start⟩))
    · rintro ⟨mem, first⟩
      have found := Finset.mem_filter.1 least.1
      apply Nat.le_antisymm
      · exact least.2 (Finset.mem_coe.2 (Finset.mem_filter.2 ⟨mem, le⟩))
      · exact first _ found.1 found.2

/-- The scan for data stops at the pages in view. -/
theorem hit_data_iff {start page : Nat} (plain : file.inlineData = false) (le : start ≤ page)
    (small : page < longMax) :
    Hit file .data (getFirstDirtyIndex file.dirty start .data) page ↔ file.InView start page := by
  rw [Hit, foundOffset, decide_eq_true_iff, firstDirty_eq_iff le small, SeekFile.InView,
    SeekFile.Mapped, plain]
  simp only [Bool.false_eq_true, false_or]
  exact or_comm

theorem scanEnd_small (bounded : file.isize ≤ maxFileSize) : file.scanEnd < longMax := by
  have addrs : addrsPerBlock = 1018 := rfl
  have size : pageCacheSize = 4096 := rfl
  have most : maxFileSize = (1018 * 1018 * 1018 + 2 * (1018 * 1018) + 2 * 1018 + 873) * 4096 := rfl
  have inode : addrsPerInode file.tree.inlineXattr ≤ 923 := by
    rw [addrsPerInode]
    split <;> decide
  have long : longMax = 2 ^ 63 - 1 := rfl
  rw [most] at bounded
  rw [SeekFile.scanEnd, pgofsOfNextDnode, addrs, size, long]
  split <;> omega

theorem firstHit_or_noHit (file : SeekFile) (whence : Whence) (dirty start stop : Nat) :
    (∃ page, FirstHit file whence dirty start stop page) ∨ NoHit file whence dirty start stop := by
  rcases Classical.em (∃ page, start ≤ page ∧ page < stop ∧ Hit file whence dirty page) with
    some | none
  · left
    classical
    refine ⟨Nat.find some, ?_, ?_, ?_, fun earlier from_start before hit => ?_⟩
    · exact (Nat.find_spec some).1
    · exact (Nat.find_spec some).2.1
    · exact (Nat.find_spec some).2.2
    · exact Nat.find_min some before
        ⟨from_start, before.trans (Nat.find_spec some).2.1, hit⟩
  · right
    intro page from_start before hit
    exact none ⟨page, from_start, before, hit⟩

/-- A seek in a file without inline data, with rounds for all its pages. -/
theorem f2fsSeekBlock_spec (bounded : file.isize ≤ maxFileSize) (plain : file.inlineData = false)
    {offset fuel : Nat} (offset_lt : offset < file.isize) (enough : file.scanEnd + 1 ≤ fuel) :
    ∃ result, f2fsSeekBlock file offset whence fuel = some result ∧
      LoopResult file whence (getFirstDirtyIndex file.dirty (offset / pageCacheSize) whence)
        (offset / pageCacheSize) offset result := by
  rw [f2fsSeekBlock, if_neg (Nat.not_le.2 offset_lt), plain]
  have start_lt : offset / pageCacheSize * pageCacheSize < file.isize :=
    (Nat.div_mul_le_self _ _).trans_lt offset_lt
  have rounds : file.scanEnd - offset / pageCacheSize < fuel :=
    Nat.lt_of_le_of_lt (Nat.sub_le _ _) enough
  exact seekLoop_spec bounded rfl (Nat.le_of_lt (SeekFile.lt_scanEnd start_lt))
    (fun past => absurd past (Nat.not_le.2 offset_lt)) rounds

/-- All seeks with enough rounds return the same, and `SEEK_DATA` is right exactly when that is. -/
theorem seeksData_iff_of {offset : Nat} {result : SeekResult}
    (step : ∀ fuel ≥ file.scanEnd + 1, f2fsSeekBlock file offset .data fuel = some result) :
    file.SeeksData offset ↔ file.FirstData offset result := by
  constructor
  · rintro ⟨other, enough, always, right⟩
    have same : other = result := by
      have left := always (max enough (file.scanEnd + 1)) (Nat.le_max_left _ _)
      rw [step _ (Nat.le_max_right _ _)] at left
      exact (Option.some.inj left).symm
    rw [← same]
    exact right
  · exact fun right => ⟨result, _, step, right⟩

theorem finish_data {dataOfs : Nat} :
    finish file .data dataOfs = if maxFileSize < dataOfs then .einval else .pos dataOfs := by
  rw [finish]
  simp

/-- `SEEK_DATA` is right exactly when the first page with data is in view, or there is none and none
behind the end of the file is in view. -/
theorem seeksData_iff (bounded : file.isize ≤ maxFileSize) {offset : Nat}
    (offset_lt : offset < file.isize) :
    file.SeeksData offset ↔ file.DataInView (offset / pageCacheSize) := by
  have start_mul : offset / pageCacheSize * pageCacheSize < file.isize :=
    (Nat.div_mul_le_self _ _).trans_lt offset_lt
  cases plain : file.inlineData with
  | true =>
      have mapped : ∀ page, file.Mapped page := fun _ => .inl plain
      have least : IsLeast (file.dataPositions offset) offset :=
        ⟨⟨Nat.le_refl _, offset_lt, .inl (mapped _)⟩, fun _ mem => mem.1⟩
      have step : ∀ fuel ≥ file.scanEnd + 1,
          f2fsSeekBlock file offset .data fuel = some (.pos offset) := by
        intro fuel _
        rw [f2fsSeekBlock, if_neg (Nat.not_le.2 offset_lt), if_pos plain, if_neg (by decide),
          finish_data, if_neg (by omega)]
      refine iff_of_true ((seeksData_iff_of step).2 least) ⟨fun page _ => .inl (mapped _), ?_⟩
      intro none
      have mem : offset / pageCacheSize ∈ file.dataPages (offset / pageCacheSize) :=
        ⟨Nat.le_refl _, start_mul, .inl (mapped _)⟩
      rw [none] at mem
      cases mem
  | false =>
  have hit_iff : ∀ {page}, offset / pageCacheSize ≤ page → page < file.scanEnd →
      (Hit file .data (getFirstDirtyIndex file.dirty (offset / pageCacheSize) .data) page ↔
        file.InView (offset / pageCacheSize) page) := by
    intro page le before
    exact hit_data_iff plain le (before.trans (scanEnd_small bounded))
  -- A first page with data that is in view is a hit.
  have hit_first : ∀ {page}, IsLeast (file.dataPages (offset / pageCacheSize)) page →
      file.DataInView (offset / pageCacheSize) →
      Hit file .data (getFirstDirtyIndex file.dirty (offset / pageCacheSize) .data) page := by
    intro page least inView
    exact (hit_iff least.1.1 (SeekFile.lt_scanEnd least.1.2.1)).2 (inView.first page least)
  rcases firstHit_or_noHit file .data
    (getFirstDirtyIndex file.dirty (offset / pageCacheSize) .data) (offset / pageCacheSize)
    file.scanEnd with ⟨page, first⟩ | none
  · have step : ∀ fuel ≥ file.scanEnd + 1, f2fsSeekBlock file offset .data fuel =
        some (finish file .data (max offset (page * pageCacheSize))) := by
      intro fuel enough
      obtain ⟨result, found, spec⟩ := @f2fsSeekBlock_spec file .data bounded plain _ _ offset_lt enough
      rw [found, spec.hit page first]
    have page_inView := (hit_iff first.ge first.lt).1 first.hit
    rw [seeksData_iff_of step, finish_data]
    rcases Nat.lt_or_ge (page * pageCacheSize) file.isize with before | past
    · have position_lt : max offset (page * pageCacheSize) < file.isize :=
        Nat.max_lt.2 ⟨offset_lt, before⟩
      have mem : page ∈ file.dataPages (offset / pageCacheSize) :=
        ⟨first.ge, before, page_inView.hasData⟩
      obtain ⟨least_page, least, least_le⟩ := SeekFile.exists_least mem
      rw [if_neg (by omega)]
      constructor
      · intro position
        have same := position.unique (SeekFile.isLeast_position offset_lt least)
        have same_page : page = least_page := by
          rw [← SeekFile.position_div first.ge, same, SeekFile.position_div least.1.1]
        refine ⟨fun other least_other => ?_, fun none => ?_⟩
        · rw [least_other.unique least, ← same_page]
          exact page_inView
        · rw [none] at mem
          cases mem
      · intro inView
        have same : least_page = page := by
          apply Nat.le_antisymm least_le
          by_contra before_page
          exact first.first _ least.1.1 (Nat.not_le.1 before_page) (hit_first least inView)
        exact same ▸ SeekFile.isLeast_position offset_lt least
    · have not_data : ¬ file.DataInView (offset / pageCacheSize) := by
        intro inView
        rcases Set.eq_empty_or_nonempty (file.dataPages (offset / pageCacheSize)) with
          empty | ⟨other, mem⟩
        · exact inView.behind empty page past first.lt page_inView
        · obtain ⟨least_page, least, -⟩ := SeekFile.exists_least mem
          have before : least_page < page := by
            have inside := least.1.2.1
            exact Nat.lt_of_mul_lt_mul_right (Nat.lt_of_lt_of_le inside past)
          exact first.first _ least.1.1 before (hit_first least inView)
      refine iff_of_false ?_ not_data
      split
      next => exact id
      next =>
        rintro ⟨mem, -⟩
        have inside := mem.2.1
        omega
  · have step : ∀ fuel ≥ file.scanEnd + 1,
        f2fsSeekBlock file offset .data fuel = some .enxio := by
      intro fuel enough
      obtain ⟨result, found, spec⟩ := @f2fsSeekBlock_spec file .data bounded plain _ _ offset_lt enough
      rw [found, spec.miss none, if_pos rfl]
    rw [seeksData_iff_of step, SeekFile.FirstData]
    rw [SeekFile.dataPositions_eq_empty_iff offset_lt]
    constructor
    · intro empty
      refine ⟨fun page least => ?_, fun _ page past before inView => ?_⟩
      · rw [empty] at least
        cases least.1
      · have le : offset / pageCacheSize ≤ page := by
          apply Nat.le_of_lt
          exact Nat.lt_of_mul_lt_mul_right (Nat.lt_of_lt_of_le start_mul past)
        exact none page le before ((hit_iff le before).2 inView)
    · intro inView
      apply Set.eq_empty_iff_forall_notMem.2
      intro page mem
      obtain ⟨least_page, least, -⟩ := SeekFile.exists_least mem
      exact none _ least.1.1 (SeekFile.lt_scanEnd least.1.2.1) (hit_first least inView)

/-! ## Holes -/

theorem finish_hole (bounded : file.isize ≤ maxFileSize) (dataOfs : Nat) :
    finish file .hole dataOfs = .pos (min dataOfs file.isize) := by
  have clipped : (if Whence.hole = .hole ∧ file.isize < dataOfs then file.isize else dataOfs) =
      min dataOfs file.isize := by
    rcases Nat.lt_or_ge file.isize dataOfs with past | inside
    · rw [if_pos ⟨rfl, past⟩, Nat.min_eq_right past.le]
    · rw [if_neg fun both => absurd both.2 (Nat.not_lt.2 inside), Nat.min_eq_left inside]
  rw [finish, clipped, if_neg (by omega)]

/-- `SEEK_HOLE` is always right. -/
theorem seeksHole (bounded : file.isize ≤ maxFileSize) {offset : Nat}
    (offset_lt : offset < file.isize) : file.SeeksHole offset := by
  cases plain : file.inlineData with
  | true =>
      refine ⟨file.isize, 0, fun fuel _ => ?_, ⟨offset_lt.le, .inl rfl⟩, ?_⟩
      · rw [f2fsSeekBlock, if_neg (Nat.not_le.2 offset_lt), if_pos plain, if_pos rfl,
          finish_hole bounded, Nat.min_self]
      · rintro pos ⟨_, rfl | ⟨_, not_inline, _⟩⟩
        · exact Nat.le_refl _
        · rw [plain] at not_inline
          cases not_inline
  | false =>
  -- Behind the offset, holes of the file are hits.
  have hit_of_hole : ∀ {pos}, pos ∈ file.holePositions offset → pos < file.isize →
      Hit file .hole 0 (pos / pageCacheSize) := by
    rintro pos ⟨_, rfl | ⟨_, _, null⟩⟩ before
    · exact absurd before (Nat.lt_irrefl _)
    · exact hit_null.2 null
  rcases firstHit_or_noHit file .hole 0 (offset / pageCacheSize) file.scanEnd with
    ⟨page, first⟩ | none
  · refine ⟨min (max offset (page * pageCacheSize)) file.isize, file.scanEnd + 1,
      fun fuel enough => ?_, ⟨Nat.le_min.2 ⟨Nat.le_max_left _ _, offset_lt.le⟩, ?_⟩, ?_⟩
    · obtain ⟨result, found, spec⟩ := @f2fsSeekBlock_spec file .hole bounded plain _ _ offset_lt enough
      rw [found, spec.hit page first, finish_hole bounded]
    · rcases Nat.lt_or_ge (max offset (page * pageCacheSize)) file.isize with before | past
      · rw [Nat.min_eq_left before.le]
        refine .inr ⟨before, plain, ?_⟩
        rw [SeekFile.position_div first.ge]
        exact hit_null.1 first.hit
      · exact .inl (Nat.min_eq_right past)
    · intro pos mem
      rcases Nat.lt_or_ge pos file.isize with before | past
      · have page_le : page ≤ pos / pageCacheSize := by
          by_contra early
          exact first.first _ (Nat.div_le_div_right mem.1) (Nat.not_le.1 early)
            (hit_of_hole mem before)
        apply (Nat.min_le_left _ _).trans
        apply Nat.max_le.2
        exact ⟨mem.1, (Nat.mul_le_mul_right _ page_le).trans (Nat.div_mul_le_self _ _)⟩
      · exact (Nat.min_le_right _ _).trans past
  · have past_end : file.isize ≤ file.scanEnd * pageCacheSize := by
      have size : pageCacheSize = 4096 := rfl
      have further := lt_nextDnode file.tree.inlineXattr ((file.isize - 1) / pageCacheSize)
      rw [← SeekFile.scanEnd, size] at further
      rw [size]
      omega
    refine ⟨file.isize, file.scanEnd + 1, fun fuel enough => ?_, ⟨offset_lt.le, .inl rfl⟩, ?_⟩
    · obtain ⟨result, found, spec⟩ := @f2fsSeekBlock_spec file .hole bounded plain _ _ offset_lt enough
      rw [found, spec.miss none, if_neg (by decide), finish_hole bounded,
        Nat.min_eq_right past_end]
    · intro pos mem
      by_contra before
      have before := Nat.not_le.1 before
      have inside : pos / pageCacheSize < file.scanEnd :=
        SeekFile.lt_scanEnd ((Nat.div_mul_le_self _ _).trans_lt before)
      exact none _ (Nat.div_le_div_right mem.1) inside (hit_of_hole mem before)

theorem skipsNothing (file : SeekFile) : file.SkipsNothing := by
  intro pgofs path walked
  refine ⟨lt_nextDnode _ _, fun missing page le before => ?_⟩
  have pgofs_lt : pgofs < maxFileBlocks file.tree.inlineXattr := by
    rw [← getNodePath_isSome_iff, walked]
    rfl
  obtain ⟨other, walked_other, view⟩ := nodeView file pgofs_lt
  obtain rfl := Option.some.inj (walked.symm.trans walked_other)
  cases view with
  | missing _ null => exact null page le before
  | node found _ _ =>
      rw [missing] at found
      cases found

/-- Seeks end; those for holes are right, and those for data exactly when the first data is in
view. -/
theorem f2fsSeekBlock_iff (bounded : file.isize ≤ maxFileSize) {offset : Nat}
    (offset_lt : offset < file.isize) :
    (file.SeeksData offset ∧ file.SeeksHole offset ∧ file.SkipsNothing) ↔
      file.DataInView (offset / pageCacheSize) := by
  rw [← seeksData_iff bounded offset_lt]
  constructor
  · exact fun all => all.1
  · exact fun data => ⟨data, seeksHole bounded offset_lt, skipsNothing file⟩

/-- A file of one byte, with a block for its second page but none for its first. -/
def blockBehindEnd : SeekFile where
  tree :=
    { inlineXattr := false
      addr := fun slot => if slot = 1 then 1000 else 0
      direct := fun _ => ⟨0, .absent⟩
      indirect := fun _ => ⟨0, .absent⟩
      double := ⟨0, .absent⟩ }
  inlineData := false
  dirty := ∅
  isize := 1

theorem address_blockBehindEnd {page : Nat} (inode : page < 923) :
    blockBehindEnd.address page = if page = 1 then 1000 else 0 := by
  have inside : page < addrsPerInode blockBehindEnd.tree.inlineXattr := inode
  rw [SeekFile.address, FileTree.mapped_inode inside, getD_nonNull]
  rfl

/-- The seek for data answers with the block behind the end of the file. -/
theorem seek_past_end : ¬ ∀ (file : SeekFile) (offset : Nat), file.isize ≤ maxFileSize →
    offset < file.isize → file.SeeksData offset := by
  intro always
  have seeks := always blockBehindEnd 0 (by decide) (by decide)
  rw [seeksData_iff (by decide) (by decide)] at seeks
  have empty : blockBehindEnd.dataPages (0 / pageCacheSize) = ∅ := by
    apply Set.eq_empty_iff_forall_notMem.2
    rintro page ⟨-, before, data⟩
    have first : page = 0 := by
      have one : blockBehindEnd.isize = 1 := rfl
      have size : pageCacheSize = 4096 := rfl
      rw [one, size] at before
      omega
    subst first
    have null := @address_blockBehindEnd 0 (by decide)
    rcases data with (inline | ⟨_, nonnull⟩) | ⟨reserved, _⟩
    · cases inline
    · exact nonnull null
    · rw [null] at reserved
      exact absurd reserved (by decide)
  apply seeks.behind empty 1 (by decide) (by decide)
  have addr := @address_blockBehindEnd 1 (by decide)
  exact .inl (.inr (by rw [addr]; decide))

/-- A file of two pages with a block for the second one. -/
def blockInside : SeekFile := { blockBehindEnd with isize := 8192 }

theorem f2fsSeekBlock_inside : blockInside.SeeksData 0 ∧ blockInside.SeeksHole 0 := by
  have addr : ∀ {page}, page < 923 → blockInside.address page = if page = 1 then 1000 else 0 :=
    fun inode => address_blockBehindEnd inode
  have small : ∀ {page}, page * pageCacheSize < blockInside.isize → page < 2 := by
    intro page before
    have two : blockInside.isize = 8192 := rfl
    have size : pageCacheSize = 4096 := rfl
    rw [two, size] at before
    omega
  have mapped : blockInside.Mapped 1 := .inr (by rw [addr (by decide)]; decide)
  have inView : blockInside.DataInView (0 / pageCacheSize) := by
    refine ⟨?_, fun none => ?_⟩
    · rintro page ⟨⟨_, before, data⟩, -⟩
      have two := small before
      rcases (by omega : page = 0 ∨ page = 1) with rfl | rfl
      · have null := addr (show 0 < 923 by decide)
        rcases data with plain | ⟨_, dirty⟩
        · exact .inl plain
        · cases dirty
      · exact .inl mapped
    · have mem : 1 ∈ blockInside.dataPages (0 / pageCacheSize) :=
        ⟨by decide, by decide, .inl mapped⟩
      rw [none] at mem
      cases mem
  have all := (@f2fsSeekBlock_iff blockInside (by decide) 0 (by decide)).2 inView
  exact ⟨all.1, all.2.1⟩

end SeekBlock
end F2fs
end StorageStack
