import StorageStack.F2fs.NodePath
import StorageStack.F2fs.SegmentState

/-!
# Cleaning a segment

`gc_data_segment` and `gc_node_segment` move the valid blocks of a segment away, in the foreground
again and again until no block is valid.  The node tree, the NAT and the page cache answer their
calls; these answers do not change during the cleaning, but for the addresses of moved blocks.
-/

namespace StorageStack
namespace F2fs
namespace SegmentCleaning

/-- The segment, its summary block, and the addresses that a move allocates. -/
structure Victim where
  /-- `START_BLOCK`. -/
  startAddr : Nat
  blocksPerSeg : Nat
  sum : Nat → Summary
  /-- The addresses of `allocate_data_block`, in their order. -/
  allocate : Nat → Nat
  startAddr_pos : nullAddr < startAddr
  /-- The victim is no current segment. -/
  elsewhere : ∀ call offset, offset < blocksPerSeg → allocate call ≠ startAddr + offset

/-- The valid blocks after the old address of a block is given up. -/
def Victim.invalidate (victim : Victim) (old : Nat) (valid : BitMap) : BitMap :=
  if victim.startAddr ≤ old ∧ old < victim.startAddr + victim.blocksPerSeg then
    valid.clear (old - victim.startAddr)
  else valid

/-- The numbers of valid blocks before and after each execution of the last phase. -/
abbrev Rounds := List (Nat × Nat)

/-- Every execution of the last phase with valid blocks leaves fewer. -/
def Rounds.Decrease (rounds : Rounds) : Prop := ∀ round ∈ rounds, round.1 ≠ 0 → round.2 < round.1

theorem Victim.invalidate_own (victim : Victim) {offset : Nat}
    (inSegment : offset < victim.blocksPerSeg) (valid : BitMap) :
    victim.invalidate (victim.startAddr + offset) valid = valid.clear offset := by
  rw [invalidate, if_pos (by omega), Nat.add_sub_cancel_left]

/-- A block loses its validity only when its own address is given up. -/
theorem Victim.invalidate_apply (victim : Victim) {old offset : Nat} {valid : BitMap}
    (wasValid : valid offset = true) (now : victim.invalidate old valid offset = false) :
    old = victim.startAddr + offset := by
  rw [invalidate] at now
  split at now
  next inside =>
    by_contra differ
    rw [BitMap.clear_of_ne (by omega), wasValid] at now
    cases now
  · rw [wasValid] at now
    cases now

theorem Victim.valid_of_invalidate (victim : Victim) {old offset : Nat} {valid : BitMap}
    (now : victim.invalidate old valid offset = true) : valid offset = true := by
  rw [invalidate] at now
  split at now
  · rw [BitMap.clear_apply] at now
    split at now
    · cases now
    · exact now
  · exact now

/-! ## Data segments -/

/-- `version` and `ino` of `struct node_info`. -/
structure NodeInfo where
  version : Nat
  ino : Nat
  deriving DecidableEq, Repr

/-- A segment of data blocks with what the calls of `gc_data_segment` answer. -/
structure DataVictim extends Victim where
  /-- `ofs_of_node` of the page that `get_node_page` returns. -/
  getNodePage : Nat → Option Nat
  getNodeInfo : Nat → NodeInfo
  /-- Whether `f2fs_iget` returns a good inode. -/
  iget : Nat → Bool
  /-- Whether the inode has inline extended attributes. -/
  inlineXattr : Nat → Bool
  /-- Whether `find_data_page` and `get_lock_data_page` return a page. -/
  findDataPage : Nat → Nat → Bool
  getLockDataPage : Nat → Nat → Bool
  /-- The node and the index that `get_dnode_of_data` finds. -/
  getDnodeOfData : Nat → Nat → Option (Nat × Nat)

/-- What the cleaning of a data segment changes. -/
structure DataState where
  /-- `datablock_addr`, by the number of the node and the index. -/
  addr : Nat → Nat → Nat
  valid : BitMap
  /-- The inode numbers of `ilist`. -/
  ilist : List Nat
  allocated : Nat

namespace DataVictim

variable (victim : DataVictim)

/-- `check_dnode` and the inode of the node: the place of the node in its file and the inode. -/
def checkDnode (state : DataState) (offset : Nat) : Option (Nat × Nat) :=
  let entry := victim.sum offset
  match victim.getNodePage entry.nid with
  | none => none
  | some nofs =>
      let dni := victim.getNodeInfo entry.nid
      if entry.version ≠ dni.version then none
      else if state.addr entry.nid entry.ofsInNode ≠ victim.startAddr + offset then none
      else some (nofs, dni.ino)

/-- The index of the page of a block in its file. -/
def pageIndex (nofs ino offset : Nat) : Nat :=
  (startBidxOfNode (victim.inlineXattr ino) nofs + (victim.sum offset).ofsInNode) % 2 ^ 32

/-- `move_data_page` with `do_write_data_page`, in the foreground. -/
def moveDataPage (ino index : Nat) (state : DataState) : DataState :=
  match victim.getDnodeOfData ino index with
  | none => state
  | some (nid, ofsInNode) =>
      let old := state.addr nid ofsInNode
      if old = nullAddr then state
      else
        { state with
          addr := Function.update state.addr nid
            (Function.update (state.addr nid) ofsInNode (victim.allocate state.allocated))
          valid := victim.invalidate old state.valid
          allocated := state.allocated + 1 }

/-- A block in one of the phases; the first two only read ahead. -/
def visit (phase : Nat) (state : DataState) (offset : Nat) : DataState :=
  if state.valid offset = false then state
  else if phase = 0 then state
  else
    match victim.checkDnode state offset with
    | none => state
    | some (nofs, ino) =>
        if phase = 1 then state
        else if phase = 2 then
          if victim.iget ino = false then state
          else if victim.findDataPage ino (victim.pageIndex nofs ino offset) = false then state
          else if ino ∈ state.ilist then state
          else { state with ilist := state.ilist ++ [ino] }
        else if ino ∈ state.ilist then
          if victim.getLockDataPage ino (victim.pageIndex nofs ino offset) = false then state
          else victim.moveDataPage ino (victim.pageIndex nofs ino offset) state
        else state

/-- One phase. -/
def phase (number : Nat) (state : DataState) : DataState :=
  (List.range victim.blocksPerSeg).foldl (victim.visit number) state

/-- `gc_data_segment` in the foreground, with the valid blocks around each last phase. -/
def gcDataSegment (fuel number : Nat) (state : DataState) : Option (DataState × Rounds) :=
  match fuel with
  | 0 => none
  | fuel + 1 =>
      let after := victim.phase number state
      if number + 1 < 4 then gcDataSegment fuel (number + 1) after
      else
        let round := (state.valid.popCount victim.blocksPerSeg,
          after.valid.popCount victim.blocksPerSeg)
        if round.2 ≠ 0 then
          (gcDataSegment fuel 2 after).map fun rest => (rest.1, round :: rest.2)
        else some (after, [round])

/-- The cleaning ends, and every execution of the last phase with valid blocks leaves fewer. -/
def Ends (state : DataState) : Prop :=
  ∃ fuel result, victim.gcDataSegment fuel 0 state = some result ∧ result.2.Decrease

/-- The inode of some valid block gets into the list: the block's node, the inode and its page can
be read. -/
def Listed (state : DataState) (ino : Nat) : Prop :=
  ino ∈ state.ilist ∨ ∃ offset < victim.blocksPerSeg, ∃ nofs, state.valid offset = true ∧
    victim.checkDnode state offset = some (nofs, ino) ∧ victim.iget ino = true ∧
    victim.findDataPage ino (victim.pageIndex nofs ino offset) = true

/-- The summary of a block leads to a node which has its address; the inode of the node is listed,
the page can be read, and the file has the block at this page. -/
def Movable (state : DataState) (offset : Nat) : Prop :=
  ∃ nofs ino nid ofsInNode, victim.checkDnode state offset = some (nofs, ino) ∧
    victim.Listed state ino ∧
    victim.getLockDataPage ino (victim.pageIndex nofs ino offset) = true ∧
    victim.getDnodeOfData ino (victim.pageIndex nofs ino offset) = some (nid, ofsInNode) ∧
    state.addr nid ofsInNode = victim.startAddr + offset

/-- Every valid block can be moved. -/
def AllMovable (state : DataState) : Prop :=
  ∀ offset < victim.blocksPerSeg, state.valid offset = true → victim.Movable state offset

variable {victim}

/-- The ways a block can change the state. -/
theorem visit_cases {number offset : Nat} {state next : DataState}
    (visited : victim.visit number state offset = next) :
    next = state ∨
    (∃ nofs ino, state.valid offset = true ∧ victim.checkDnode state offset = some (nofs, ino) ∧
      victim.iget ino = true ∧ victim.findDataPage ino (victim.pageIndex nofs ino offset) = true ∧
      next = { state with ilist := state.ilist ++ [ino] }) ∨
    ∃ nofs ino nid ofsInNode, state.valid offset = true ∧
      victim.checkDnode state offset = some (nofs, ino) ∧ ino ∈ state.ilist ∧
      victim.getLockDataPage ino (victim.pageIndex nofs ino offset) = true ∧
      victim.getDnodeOfData ino (victim.pageIndex nofs ino offset) = some (nid, ofsInNode) ∧
      next = { state with
        addr := Function.update state.addr nid
          (Function.update (state.addr nid) ofsInNode (victim.allocate state.allocated))
        valid := victim.invalidate (state.addr nid ofsInNode) state.valid
        allocated := state.allocated + 1 } := by
  subst visited
  rw [visit]
  split
  · exact .inl rfl
  next isValid =>
  have isValid : state.valid offset = true := by simpa using isValid
  split
  · exact .inl rfl
  split
  · exact .inl rfl
  next nofs ino checked =>
  split
  · exact .inl rfl
  split
  · split
    · exact .inl rfl
    next good =>
    split
    · exact .inl rfl
    next page =>
    split
    · exact .inl rfl
    · right; left
      exact ⟨nofs, ino, isValid, checked, by simpa using good, by simpa using page, rfl⟩
  split
  next listed =>
    split
    · exact .inl rfl
    next page =>
    rw [moveDataPage]
    split
    · exact .inl rfl
    next nid ofsInNode found =>
    simp only
    split
    · exact .inl rfl
    · right; right
      exact ⟨nofs, ino, nid, ofsInNode, isValid, checked, listed, by simpa using page, found, rfl⟩
  · exact .inl rfl

/-- Addresses change to places outside the segment only. -/
def Reflects (victim : DataVictim) (before after : DataState) : Prop :=
  ∀ nid ofsInNode, ∀ offset < victim.blocksPerSeg,
    after.addr nid ofsInNode = victim.startAddr + offset →
      before.addr nid ofsInNode = victim.startAddr + offset

theorem Reflects.checkDnode {before after : DataState} (reflects : victim.Reflects before after)
    {offset : Nat} (inSegment : offset < victim.blocksPerSeg) {found : Nat × Nat}
    (checked : victim.checkDnode after offset = some found) :
    victim.checkDnode before offset = some found := by
  rw [DataVictim.checkDnode] at checked ⊢
  split at checked
  · cases checked
  next nofs page =>
  simp only at checked ⊢
  split at checked
  · cases checked
  next version =>
  split at checked
  · cases checked
  next address =>
  rw [if_neg version, if_neg (not_not.2 (reflects _ _ _ inSegment (not_not.1 address)))]
  exact checked

theorem reflects_update (victim : DataVictim) (state : DataState) (nid ofsInNode : Nat)
    (valid : BitMap) (ilist : List Nat) : victim.Reflects state
      ⟨Function.update state.addr nid
        (Function.update (state.addr nid) ofsInNode (victim.allocate state.allocated)),
        valid, ilist, state.allocated + 1⟩ := by
  intro other index offset inSegment address
  simp only [Function.update_apply] at address
  split at address
  next same =>
    subst same
    rw [Function.update_apply] at address
    split at address
    · exact absurd address (victim.elsewhere _ _ inSegment)
    · exact address
  · exact address

/-- A block that stays valid and can be moved afterwards could be moved before. -/
theorem Movable.before {before after : DataState} (reflects : victim.Reflects before after)
    (valid : ∀ offset, after.valid offset = true → before.valid offset = true)
    (listed : ∀ ino ∈ after.ilist, victim.Listed before ino) {offset : Nat}
    (inSegment : offset < victim.blocksPerSeg) (movable : victim.Movable after offset) :
    victim.Movable before offset := by
  obtain ⟨nofs, ino, nid, ofsInNode, checked, list, page, found, address⟩ := movable
  refine ⟨nofs, ino, nid, ofsInNode, reflects.checkDnode inSegment checked, ?_, page, found,
    reflects _ _ _ inSegment address⟩
  rcases list with mem | ⟨other, inside, nofs, isValid, checked, good, page⟩
  · exact listed ino mem
  · right
    exact ⟨other, inside, nofs, valid other isValid, reflects.checkDnode inside checked, good, page⟩

/-- The visit of a block moves no block that could not be moved, and leaves none behind. -/
theorem allMovable_of_visit {number offset : Nat} {state : DataState}
    (inSegment : offset < victim.blocksPerSeg)
    (after : victim.AllMovable (victim.visit number state offset)) : victim.AllMovable state := by
  rcases visit_cases (rfl : victim.visit number state offset = _) with
    same | ⟨nofs, ino, isValid, checked, good, page, next⟩ |
      ⟨nofs, ino, nid, ofsInNode, isValid, checked, listed, page, found, next⟩
  · rw [same] at after
    exact after
  · rw [next] at after
    have reflects : victim.Reflects state { state with ilist := state.ilist ++ [ino] } :=
      fun _ _ _ _ address => address
    have listed : ∀ other ∈ state.ilist ++ [ino], victim.Listed state other := by
      intro other mem
      rcases List.mem_append.1 mem with old | new
      · exact .inl old
      · obtain rfl := List.mem_singleton.1 new
        right
        exact ⟨offset, inSegment, nofs, isValid, checked, good, page⟩
    intro other inside otherValid
    exact (after other inside otherValid).before reflects (fun _ valid => valid) listed inside
  · rw [next] at after
    have reflects := reflects_update victim state nid ofsInNode
      (victim.invalidate (state.addr nid ofsInNode) state.valid) state.ilist
    have valid : ∀ other, victim.invalidate (state.addr nid ofsInNode) state.valid other = true →
        state.valid other = true := fun other => victim.valid_of_invalidate
    intro other inside otherValid
    cases still : victim.invalidate (state.addr nid ofsInNode) state.valid other with
    | true => exact (after other inside still).before reflects valid (fun _ mem => .inl mem) inside
    | false =>
      have address := victim.invalidate_apply otherValid still
      rcases eq_or_ne other offset with rfl | differ
      · exact ⟨nofs, ino, nid, ofsInNode, checked, .inl listed, page, found, address⟩
      · -- the visited block is still valid, but the address it would need is given up
        exfalso
        have offsetValid :
            victim.invalidate (state.addr nid ofsInNode) state.valid offset = true := by
          by_contra lost
          have := victim.invalidate_apply isValid (by simpa using lost)
          omega
        obtain ⟨nofs', ino', nid', ofsInNode', checked', -, -, found', address'⟩ :=
          after offset inSegment offsetValid
        have same := (reflects.checkDnode inSegment checked').symm.trans checked
        cases same
        cases found'.symm.trans found
        simp only [Function.update_self] at address'
        exact victim.elsewhere _ _ inSegment address'

theorem allMovable_of_phase {number : Nat} {state : DataState}
    (after : victim.AllMovable (victim.phase number state)) : victim.AllMovable state := by
  have fold (offsets : List Nat) (inside : ∀ offset ∈ offsets, offset < victim.blocksPerSeg)
      (start : DataState)
      (after : victim.AllMovable (offsets.foldl (victim.visit number) start)) :
      victim.AllMovable start := by
    induction offsets generalizing start with
    | nil => exact after
    | cons offset offsets ih =>
      apply allMovable_of_visit (inside offset List.mem_cons_self)
      exact ih (fun other mem => inside other (List.mem_cons_of_mem _ mem)) _ after
  exact fold _ (fun offset mem => List.mem_range.1 mem) state after

/-- When the cleaning ends, every valid block could be moved. -/
theorem allMovable_of_ends {fuel number : Nat} {state : DataState} {result : DataState × Rounds}
    (ended : victim.gcDataSegment fuel number state = some result) : victim.AllMovable state := by
  induction fuel generalizing number state result with
  | zero => cases ended
  | succ fuel ih =>
    rw [gcDataSegment] at ended
    simp only at ended
    suffices after : victim.AllMovable (victim.phase number state) from allMovable_of_phase after
    split at ended
    · exact ih ended
    split at ended
    · obtain ⟨rest, ended, -⟩ := Option.map_eq_some_iff.1 ended
      exact ih ended
    next empty =>
      intro offset inSegment isValid
      rw [ne_eq, not_not, BitMap.popCount_eq_zero_iff] at empty
      rw [empty offset inSegment] at isValid
      cases isValid

/-! ### One repetition moves all blocks that can be moved -/

theorem phase_early {number : Nat} (early : number ≤ 1) (state : DataState) :
    victim.phase number state = state := by
  have stays (offset : Nat) (start : DataState) : victim.visit number start offset = start := by
    rcases Nat.le_one_iff_eq_zero_or_eq_one.1 early with rfl | rfl
    · simp [visit]
    · rw [visit]
      split
      · rfl
      · rw [if_neg Nat.one_ne_zero]
        split <;> rfl
  rw [phase]
  induction List.range victim.blocksPerSeg with
  | nil => rfl
  | cons offset offsets ih => rw [List.foldl_cons, stays, ih]

/-- The second phase lists the inode of every valid block whose page it finds. -/
theorem visit_two (victim : DataVictim) (state : DataState) (offset : Nat) :
    ∃ ilist, victim.visit 2 state offset = { state with ilist := ilist } ∧
      (∀ ino ∈ state.ilist, ino ∈ ilist) ∧
      ∀ nofs ino, state.valid offset = true → victim.checkDnode state offset = some (nofs, ino) →
        victim.iget ino = true →
          victim.findDataPage ino (victim.pageIndex nofs ino offset) = true → ino ∈ ilist := by
  cases isValid : state.valid offset with
  | false =>
    refine ⟨state.ilist, by simp [visit, isValid], fun _ mem => mem, ?_⟩
    intro nofs ino impossible
    cases impossible
  | true =>
  cases checked : victim.checkDnode state offset with
  | none =>
    refine ⟨state.ilist, by simp [visit, isValid, checked], fun _ mem => mem, ?_⟩
    intro nofs ino _ impossible
    cases impossible
  | some found =>
  obtain ⟨nofs, ino⟩ := found
  by_cases listed : ino ∈ state.ilist
  · refine ⟨state.ilist, ?_, fun _ mem => mem, ?_⟩
    · rw [visit]
      simp [isValid, checked, listed]
    · rintro _ _ - ⟨⟩ - -
      exact listed
  · cases good : victim.iget ino with
    | false =>
      refine ⟨state.ilist, by simp [visit, isValid, checked, good], fun _ mem => mem, ?_⟩
      rintro _ _ - ⟨⟩ impossible
      rw [good] at impossible
      cases impossible
    | true =>
    cases page : victim.findDataPage ino (victim.pageIndex nofs ino offset) with
    | false =>
      refine ⟨state.ilist, by simp [visit, isValid, checked, good, page], fun _ mem => mem, ?_⟩
      rintro _ _ - ⟨⟩ - impossible
      rw [page] at impossible
      cases impossible
    | true =>
      refine ⟨state.ilist ++ [ino], by simp [visit, isValid, checked, good, page, listed], ?_, ?_⟩
      · intro other mem
        exact List.mem_append_left _ mem
      · rintro _ _ - ⟨⟩ - -
        simp

theorem phase_two (victim : DataVictim) (state : DataState) :
    ∃ ilist, victim.phase 2 state = { state with ilist := ilist } ∧
      ∀ ino, victim.Listed state ino → ino ∈ ilist := by
  have fold (offsets : List Nat) (start : List Nat) :
      ∃ ilist, offsets.foldl (victim.visit 2) { state with ilist := start } =
          { state with ilist := ilist } ∧ (∀ ino ∈ start, ino ∈ ilist) ∧
        ∀ offset ∈ offsets, ∀ nofs ino, state.valid offset = true →
          victim.checkDnode state offset = some (nofs, ino) → victim.iget ino = true →
            victim.findDataPage ino (victim.pageIndex nofs ino offset) = true → ino ∈ ilist := by
    induction offsets generalizing start with
    | nil => exact ⟨start, rfl, fun _ mem => mem, fun _ mem => absurd mem List.not_mem_nil⟩
    | cons offset offsets ih =>
      obtain ⟨middle, visited, old, new⟩ := visit_two victim { state with ilist := start } offset
      obtain ⟨ilist, rest, kept, later⟩ := ih middle
      refine ⟨ilist, ?_, fun ino mem => kept ino (old ino mem), ?_⟩
      · rw [List.foldl_cons, visited]
        exact rest
      · rintro other (_ | ⟨_, mem⟩) nofs ino isValid checked good page
        · exact kept ino (new nofs ino isValid checked good page)
        · exact later other mem nofs ino isValid checked good page
  obtain ⟨ilist, folded, kept, listed⟩ := fold (List.range victim.blocksPerSeg) state.ilist
  refine ⟨ilist, folded, ?_⟩
  rintro ino (mem | ⟨offset, inSegment, nofs, isValid, checked, good, page⟩)
  · exact kept ino mem
  · exact listed offset (List.mem_range.2 inSegment) nofs ino isValid checked good page

/-- The block can be moved in the last phase. -/
def Ready (victim : DataVictim) (state : DataState) (offset : Nat) : Prop :=
  ∃ nofs ino nid ofsInNode, victim.checkDnode state offset = some (nofs, ino) ∧
    ino ∈ state.ilist ∧ victim.getLockDataPage ino (victim.pageIndex nofs ino offset) = true ∧
    victim.getDnodeOfData ino (victim.pageIndex nofs ino offset) = some (nid, ofsInNode) ∧
    state.addr nid ofsInNode = victim.startAddr + offset

theorem addr_of_checkDnode {state : DataState} {offset : Nat} {found : Nat × Nat}
    (checked : victim.checkDnode state offset = some found) :
    state.addr (victim.sum offset).nid (victim.sum offset).ofsInNode =
      victim.startAddr + offset := by
  rw [checkDnode] at checked
  split at checked
  · cases checked
  simp only at checked
  split at checked
  · cases checked
  split at checked
  · cases checked
  next address => exact not_not.1 address

theorem checkDnode_congr {before after : DataState} {offset : Nat}
    (same : after.addr (victim.sum offset).nid (victim.sum offset).ofsInNode =
      before.addr (victim.sum offset).nid (victim.sum offset).ofsInNode) :
    victim.checkDnode after offset = victim.checkDnode before offset := by
  simp only [checkDnode, same]

/-- The last phase moves a ready block and leaves the others ready. -/
theorem Ready.visit {state : DataState} {offset : Nat} (inSegment : offset < victim.blocksPerSeg)
    (isValid : state.valid offset = true) (ready : victim.Ready state offset) :
    (victim.visit 3 state offset).valid = state.valid.clear offset ∧
      ∀ other, other ≠ offset → victim.Ready state other →
        victim.Ready (victim.visit 3 state offset) other := by
  obtain ⟨nofs, ino, nid, ofsInNode, checked, listed, page, found, address⟩ := ready
  have notNull : victim.startAddr + offset ≠ nullAddr := by
    have := victim.startAddr_pos
    omega
  have visited : victim.visit 3 state offset = { state with
      addr := Function.update state.addr nid
        (Function.update (state.addr nid) ofsInNode (victim.allocate state.allocated))
      valid := state.valid.clear offset
      allocated := state.allocated + 1 } := by
    simp only [DataVictim.visit, isValid, checked, listed, page, moveDataPage, found, address,
      victim.invalidate_own inSegment, notNull]
    simp
  rw [visited]
  refine ⟨rfl, ?_⟩
  rintro other differ ⟨nofs', ino', nid', ofsInNode', checked', listed', page', found', address'⟩
  -- the slot of the moved block holds the moved block only
  have kept : ∀ slot index, state.addr slot index = victim.startAddr + other →
      Function.update state.addr nid (Function.update (state.addr nid) ofsInNode
        (victim.allocate state.allocated)) slot index = state.addr slot index := by
    intro slot index here
    rcases eq_or_ne slot nid with rfl | elsewhere
    · rcases eq_or_ne index ofsInNode with rfl | elsewhere
      · omega
      · rw [Function.update_self, Function.update_of_ne elsewhere]
    · rw [Function.update_of_ne elsewhere]
  refine ⟨nofs', ino', nid', ofsInNode', ?_, listed', page', found', ?_⟩
  · rw [checkDnode_congr (kept _ _ (addr_of_checkDnode checked'))]
    exact checked'
  · rw [← address']
    exact kept _ _ address'

theorem phase_three {state : DataState}
    (ready : ∀ offset < victim.blocksPerSeg, state.valid offset = true →
      victim.Ready state offset) :
    (victim.phase 3 state).valid.popCount victim.blocksPerSeg = 0 := by
  have fold (offsets : List Nat) (inside : ∀ offset ∈ offsets, offset < victim.blocksPerSeg)
      (start : DataState)
      (ready : ∀ offset < victim.blocksPerSeg, start.valid offset = true →
        victim.Ready start offset) :
      ∀ offset, (offsets.foldl (victim.visit 3) start).valid offset = true →
        start.valid offset = true ∧ offset ∉ offsets := by
    induction offsets generalizing start with
    | nil => exact fun offset isValid => ⟨isValid, List.not_mem_nil⟩
    | cons first offsets ih =>
      have inSegment := inside first List.mem_cons_self
      have rest := fun other mem => inside other (List.mem_cons_of_mem first mem)
      intro offset isValid
      rw [List.foldl_cons] at isValid
      cases firstValid : start.valid first with
      | false =>
        have stays : victim.visit 3 start first = start := by simp [DataVictim.visit, firstValid]
        rw [stays] at isValid
        obtain ⟨wasValid, notMem⟩ := ih rest start ready offset isValid
        refine ⟨wasValid, ?_⟩
        rintro (_ | ⟨_, mem⟩)
        · rw [firstValid] at wasValid
          cases wasValid
        · exact notMem mem
      | true =>
        obtain ⟨cleared, others⟩ := (ready first inSegment firstValid).visit inSegment firstValid
        have later : ∀ other < victim.blocksPerSeg,
            (victim.visit 3 start first).valid other = true →
              victim.Ready (victim.visit 3 start first) other := by
          intro other inside otherValid
          rw [cleared, BitMap.clear_apply] at otherValid
          split at otherValid
          · cases otherValid
          next differ => exact others other differ (ready other inside otherValid)
        obtain ⟨wasValid, notMem⟩ := ih rest _ later offset isValid
        rw [cleared, BitMap.clear_apply] at wasValid
        split at wasValid
        · cases wasValid
        next differ =>
          refine ⟨wasValid, ?_⟩
          rintro (_ | ⟨_, mem⟩)
          · exact differ rfl
          · exact notMem mem
  rw [BitMap.popCount_eq_zero_iff]
  intro offset inSegment
  by_contra stillValid
  have stillValid : (victim.phase 3 state).valid offset = true := by simpa using stillValid
  obtain ⟨-, notMem⟩ := fold (List.range victim.blocksPerSeg)
    (fun other mem => List.mem_range.1 mem) state ready offset stillValid
  exact notMem (List.mem_range.2 inSegment)

/-- When every valid block can be moved, the first repetition moves them all. -/
theorem ends_of_allMovable {state : DataState} (all : victim.AllMovable state) :
    victim.Ends state := by
  obtain ⟨ilist, second, listed⟩ := phase_two victim state
  have empty : (victim.phase 3 { state with ilist := ilist }).valid.popCount
      victim.blocksPerSeg = 0 := by
    apply phase_three
    intro offset inSegment isValid
    obtain ⟨nofs, ino, nid, ofsInNode, checked, list, page, found, address⟩ :=
      all offset inSegment isValid
    exact ⟨nofs, ino, nid, ofsInNode, checked, listed ino list, page, found, address⟩
  refine ⟨4, (victim.phase 3 { state with ilist := ilist },
    [(state.valid.popCount victim.blocksPerSeg, 0)]), ?_, ?_⟩
  · simp [gcDataSegment, phase_early, second, empty]
  · intro round mem before
    obtain rfl := List.mem_singleton.1 mem
    exact Nat.pos_of_ne_zero before

theorem ends_iff (victim : DataVictim) (state : DataState) :
    victim.Ends state ↔ victim.AllMovable state := by
  constructor
  · rintro ⟨fuel, result, ended, -⟩
    exact allMovable_of_ends ended
  · exact ends_of_allMovable

end DataVictim

/-! ## Node segments -/

/-- A segment of node blocks with what the calls of `gc_node_segment` answer. -/
structure NodeVictim extends Victim where
  /-- Whether `get_node_page` returns a page. -/
  getNodePage : Nat → Bool
  /-- The step of `sync_node_pages` for the page of a node. -/
  syncStep : Nat → Fin 3
  /-- Whether the page can be locked and written: there is neither an error of a checkpoint nor a
  recovery. -/
  writable : Nat → Bool

/-- What the cleaning of a node segment changes. -/
structure NodeState where
  /-- `blk_addr` of the NAT entries. -/
  blkAddr : Nat → Nat
  valid : BitMap
  /-- The nodes with dirty pages, in the order of their numbers. -/
  dirty : List Nat
  allocated : Nat

namespace NodeVictim

variable (victim : NodeVictim)

/-- A block in the pass over the segment; the initial pass only reads ahead. -/
def visit (initial : Bool) (state : NodeState) (offset : Nat) : NodeState :=
  let nid := (victim.sum offset).nid
  if state.valid offset = false then state
  else if initial = true then state
  else if victim.getNodePage nid = false then state
  else if nid ∈ state.dirty then state
  else { state with dirty := state.dirty.orderedInsert (· ≤ ·) nid }

/-- `f2fs_write_node_page` in `sync_node_pages`; a page that is not written stays dirty. -/
def writeNodePage (state : NodeState) (nid : Nat) : NodeState :=
  if victim.writable nid = false then state
  else
    let old := state.blkAddr nid
    let state := { state with dirty := state.dirty.erase nid }
    if old = nullAddr then state
    else
      { state with
        blkAddr := Function.update state.blkAddr nid (victim.allocate state.allocated)
        valid := victim.invalidate old state.valid
        allocated := state.allocated + 1 }

/-- `sync_node_pages(sbi, 0, &wbc)`. -/
def syncNodePages (state : NodeState) : NodeState :=
  (List.finRange 3).foldl (fun state step =>
    (state.dirty.filter fun nid => victim.syncStep nid = step).foldl victim.writeNodePage state)
    state

/-- The pass over the segment. -/
def pass (initial : Bool) (state : NodeState) : NodeState :=
  (List.range victim.blocksPerSeg).foldl (victim.visit initial) state

/-- `gc_node_segment` in the foreground, with the valid blocks around each pass that moves. -/
def gcNodeSegment (fuel : Nat) (initial : Bool) (state : NodeState) : Option (NodeState × Rounds) :=
  match fuel with
  | 0 => none
  | fuel + 1 =>
      let marked := victim.pass initial state
      if initial = true then gcNodeSegment fuel false marked
      else
        let after := victim.syncNodePages marked
        let round := (state.valid.popCount victim.blocksPerSeg,
          after.valid.popCount victim.blocksPerSeg)
        if round.2 ≠ 0 then
          (gcNodeSegment fuel false after).map fun rest => (rest.1, round :: rest.2)
        else some (after, [round])

def Ends (state : NodeState) : Prop :=
  ∃ fuel result, victim.gcNodeSegment fuel true state = some result ∧ result.2.Decrease

/-- The page of the node is dirty, or the summary of a valid block names the node and its page can
be read. -/
def Marked (state : NodeState) (nid : Nat) : Prop :=
  nid ∈ state.dirty ∨ ∃ offset < victim.blocksPerSeg, state.valid offset = true ∧
    (victim.sum offset).nid = nid ∧ victim.getNodePage nid = true

/-- The block belongs to a node whose page gets dirty and can be written. -/
def Movable (state : NodeState) (offset : Nat) : Prop :=
  ∃ nid, victim.Marked state nid ∧ victim.writable nid = true ∧
    state.blkAddr nid = victim.startAddr + offset

def AllMovable (state : NodeState) : Prop :=
  ∀ offset < victim.blocksPerSeg, state.valid offset = true → victim.Movable state offset

variable {victim}

/-- Every valid block belongs to a node of a given kind that can be written. -/
def AllIn (victim : NodeVictim) (marked : Nat → Prop) (state : NodeState) : Prop :=
  ∀ offset < victim.blocksPerSeg, state.valid offset = true →
    ∃ nid, marked nid ∧ victim.writable nid = true ∧
      state.blkAddr nid = victim.startAddr + offset

theorem AllIn.mono {marked other : Nat → Prop} {state : NodeState}
    (all : victim.AllIn marked state) (sub : ∀ nid, marked nid → other nid) :
    victim.AllIn other state := by
  intro offset inSegment isValid
  obtain ⟨nid, mem, rest⟩ := all offset inSegment isValid
  exact ⟨nid, sub nid mem, rest⟩

/-- The ways the write of a page can change the state. -/
theorem writeNodePage_cases (victim : NodeVictim) (state : NodeState) (nid : Nat) :
    victim.writeNodePage state nid = state ∧ victim.writable nid = false ∨
    victim.writeNodePage state nid = { state with dirty := state.dirty.erase nid } ∧
      state.blkAddr nid = nullAddr ∨
    victim.writable nid = true ∧ state.blkAddr nid ≠ nullAddr ∧
      victim.writeNodePage state nid = { state with
        dirty := state.dirty.erase nid
        blkAddr := Function.update state.blkAddr nid (victim.allocate state.allocated)
        valid := victim.invalidate (state.blkAddr nid) state.valid
        allocated := state.allocated + 1 } := by
  rw [writeNodePage]
  split
  next blocked => exact .inl ⟨rfl, blocked⟩
  next writable =>
  simp only
  split
  next absent => exact .inr (.inl ⟨rfl, absent⟩)
  next present => exact .inr (.inr ⟨by simpa using writable, present, rfl⟩)

theorem writeNodePage_shrinks (victim : NodeVictim) (state : NodeState) (nid : Nat) :
    (∀ other ∈ (victim.writeNodePage state nid).dirty, other ∈ state.dirty) ∧
      (∀ other ∈ state.dirty, other ≠ nid → other ∈ (victim.writeNodePage state nid).dirty) ∧
      ∀ offset, (victim.writeNodePage state nid).valid offset = true →
        state.valid offset = true := by
  rcases writeNodePage_cases victim state nid with ⟨same, -⟩ | ⟨dropped, -⟩ | ⟨-, -, written⟩
  · rw [same]
    exact ⟨fun _ mem => mem, fun _ mem _ => mem, fun _ isValid => isValid⟩
  · rw [dropped]
    exact ⟨fun _ mem => List.mem_of_mem_erase mem,
      fun _ mem differ => (List.mem_erase_of_ne differ).2 mem, fun _ isValid => isValid⟩
  · rw [written]
    exact ⟨fun _ mem => List.mem_of_mem_erase mem,
      fun _ mem differ => (List.mem_erase_of_ne differ).2 mem,
      fun _ isValid => victim.valid_of_invalidate isValid⟩

/-- The write of a page invalidates the block of its node only. -/
theorem allIn_of_write {marked : Nat → Prop} {state : NodeState} {nid : Nat} (mem : marked nid)
    (after : victim.AllIn marked (victim.writeNodePage state nid)) :
    victim.AllIn marked state := by
  rcases writeNodePage_cases victim state nid with ⟨same, -⟩ | ⟨dropped, -⟩ | ⟨writable, -, written⟩
  · rw [same] at after
    exact after
  · rw [dropped] at after
    exact after
  · rw [written] at after
    intro offset inSegment isValid
    cases still : victim.invalidate (state.blkAddr nid) state.valid offset with
    | false => exact ⟨nid, mem, writable, victim.invalidate_apply isValid still⟩
    | true =>
      obtain ⟨other, otherMem, otherWritable, address⟩ := after offset inSegment still
      simp only at address
      refine ⟨other, otherMem, otherWritable, ?_⟩
      rcases eq_or_ne other nid with rfl | differ
      · rw [Function.update_self] at address
        exact absurd address (victim.elsewhere _ _ inSegment)
      · rw [Function.update_of_ne differ] at address
        exact address

theorem writeNodePage_blkAddr {state : NodeState} {nid other : Nat} (differ : other ≠ nid) :
    (victim.writeNodePage state nid).blkAddr other = state.blkAddr other := by
  rcases writeNodePage_cases victim state nid with ⟨same, -⟩ | ⟨dropped, -⟩ | ⟨-, -, written⟩
  · rw [same]
  · rw [dropped]
  · rw [written]
    exact Function.update_of_ne differ _ _

theorem foldl_write_shrinks (victim : NodeVictim) (nids : List Nat) (state : NodeState) :
    (∀ other ∈ (nids.foldl victim.writeNodePage state).dirty, other ∈ state.dirty) ∧
      (∀ other ∈ state.dirty, other ∉ nids →
        other ∈ (nids.foldl victim.writeNodePage state).dirty) ∧
      ∀ offset, (nids.foldl victim.writeNodePage state).valid offset = true →
        state.valid offset = true := by
  induction nids generalizing state with
  | nil => exact ⟨fun _ mem => mem, fun _ mem _ => mem, fun _ isValid => isValid⟩
  | cons nid nids ih =>
    obtain ⟨subset, kept, valid⟩ := writeNodePage_shrinks victim state nid
    obtain ⟨subset', kept', valid'⟩ := ih (victim.writeNodePage state nid)
    refine ⟨fun other mem => subset other (subset' other mem), ?_,
      fun offset isValid => valid offset (valid' offset isValid)⟩
    intro other mem notMem
    rw [List.mem_cons, not_or] at notMem
    exact kept' other (kept other mem notMem.1) notMem.2

/-- `sync_node_pages` writes every dirty page. -/
theorem syncNodePages_eq (victim : NodeVictim) (state : NodeState) :
    ∃ nids : List Nat, victim.syncNodePages state = nids.foldl victim.writeNodePage state ∧
      ∀ nid, nid ∈ nids ↔ nid ∈ state.dirty := by
  have steps (order : List (Fin 3)) (start : NodeState) :
      ∃ nids : List Nat, order.foldl (fun state step =>
          (state.dirty.filter fun nid => victim.syncStep nid = step).foldl
            victim.writeNodePage state) start = nids.foldl victim.writeNodePage start ∧
        ∀ nid, nid ∈ nids ↔ nid ∈ start.dirty ∧ victim.syncStep nid ∈ order := by
    induction order generalizing start with
    | nil => exact ⟨[], rfl, by simp⟩
    | cons step order ih =>
      let first := start.dirty.filter fun nid => victim.syncStep nid = step
      obtain ⟨nids, folded, mem_iff⟩ := ih (first.foldl victim.writeNodePage start)
      obtain ⟨subset, kept, -⟩ := foldl_write_shrinks victim first start
      refine ⟨first ++ nids, ?_, ?_⟩
      · rw [List.foldl_cons, folded, List.foldl_append]
      · intro nid
        have first_iff : nid ∈ first ↔ nid ∈ start.dirty ∧ victim.syncStep nid = step := by
          simp [first]
        rw [List.mem_append, mem_iff, first_iff, List.mem_cons]
        constructor
        · rintro (⟨mem, same⟩ | ⟨mem, later⟩)
          · exact ⟨mem, .inl same⟩
          · exact ⟨subset nid mem, .inr later⟩
        · rintro ⟨mem, same | later⟩
          · exact .inl ⟨mem, same⟩
          · rcases eq_or_ne (victim.syncStep nid) step with same | differ
            · exact .inl ⟨mem, same⟩
            · right
              exact ⟨kept nid mem fun inFirst => differ (first_iff.1 inFirst).2, later⟩
  obtain ⟨nids, folded, mem_iff⟩ := steps (List.finRange 3) state
  refine ⟨nids, folded, fun nid => ?_⟩
  rw [mem_iff, and_iff_left (List.mem_finRange _)]

theorem allMovable_of_sync {state : NodeState}
    (after : victim.AllMovable (victim.syncNodePages state)) : victim.AllMovable state := by
  obtain ⟨nids, folded, mem_iff⟩ := syncNodePages_eq victim state
  rw [folded] at after
  obtain ⟨subset, -, valid⟩ := foldl_write_shrinks victim nids state
  have marked : victim.AllIn (victim.Marked state) (nids.foldl victim.writeNodePage state) := by
    apply AllIn.mono after
    rintro nid (mem | ⟨offset, inSegment, isValid, rest⟩)
    · exact .inl (subset nid mem)
    · exact .inr ⟨offset, inSegment, valid offset isValid, rest⟩
  have back (rest : List Nat) (inside : ∀ nid ∈ rest, victim.Marked state nid) (start : NodeState)
      (after : victim.AllIn (victim.Marked state) (rest.foldl victim.writeNodePage start)) :
      victim.AllIn (victim.Marked state) start := by
    induction rest generalizing start with
    | nil => exact after
    | cons nid rest ih =>
      apply allIn_of_write (inside nid List.mem_cons_self)
      exact ih (fun other mem => inside other (List.mem_cons_of_mem _ mem)) _ after
  exact back nids (fun nid mem => .inl ((mem_iff nid).1 mem)) state marked

theorem visit_cases (victim : NodeVictim) (initial : Bool) (state : NodeState) (offset : Nat) :
    ∃ dirty, victim.visit initial state offset = { state with dirty := dirty } ∧
      (∀ nid, nid ∈ dirty → nid ∈ state.dirty ∨ nid = (victim.sum offset).nid ∧
        state.valid offset = true ∧ victim.getNodePage nid = true) ∧
      (∀ nid ∈ state.dirty, nid ∈ dirty) ∧
      (initial = false → state.valid offset = true →
        victim.getNodePage (victim.sum offset).nid = true → (victim.sum offset).nid ∈ dirty) := by
  rw [visit]
  split
  next invalid =>
    refine ⟨state.dirty, rfl, fun _ mem => .inl mem, fun _ mem => mem, ?_⟩
    intro _ isValid
    rw [invalid] at isValid
    cases isValid
  next isValid =>
  split
  next early =>
    refine ⟨state.dirty, rfl, fun _ mem => .inl mem, fun _ mem => mem, ?_⟩
    intro late
    rw [early] at late
    cases late
  split
  next unread =>
    refine ⟨state.dirty, rfl, fun _ mem => .inl mem, fun _ mem => mem, ?_⟩
    intro _ _ page
    rw [unread] at page
    cases page
  next page =>
  split
  next mem => exact ⟨state.dirty, rfl, fun _ mem => .inl mem, fun _ mem => mem, fun _ _ _ => mem⟩
  · refine ⟨_, rfl, ?_, ?_, ?_⟩
    · intro nid mem
      rcases (List.mem_orderedInsert _).1 mem with rfl | old
      · exact .inr ⟨rfl, by simpa using isValid, by simpa using page⟩
      · exact .inl old
    · intro nid mem
      exact (List.mem_orderedInsert _).2 (.inr mem)
    · intro _ _ _
      exact (List.mem_orderedInsert _).2 (.inl rfl)

/-- A pass marks the nodes of valid blocks, the later ones all that can be read. -/
theorem pass_spec (victim : NodeVictim) (initial : Bool) (state : NodeState) :
    ∃ dirty, victim.pass initial state = { state with dirty := dirty } ∧
      (∀ nid ∈ dirty, victim.Marked state nid) ∧ (∀ nid ∈ state.dirty, nid ∈ dirty) ∧
      (initial = false → ∀ nid, victim.Marked state nid → nid ∈ dirty) := by
  have fold (offsets : List Nat) (inside : ∀ offset ∈ offsets, offset < victim.blocksPerSeg)
      (start : List Nat) (old : ∀ nid ∈ start, victim.Marked state nid) :
      ∃ dirty, offsets.foldl (victim.visit initial) { state with dirty := start } =
          { state with dirty := dirty } ∧ (∀ nid ∈ dirty, victim.Marked state nid) ∧
        (∀ nid ∈ start, nid ∈ dirty) ∧
        (initial = false → ∀ offset ∈ offsets, state.valid offset = true →
          victim.getNodePage (victim.sum offset).nid = true →
            (victim.sum offset).nid ∈ dirty) := by
    induction offsets generalizing start with
    | nil => exact ⟨start, rfl, old, fun _ mem => mem, fun _ _ mem => absurd mem List.not_mem_nil⟩
    | cons offset offsets ih =>
      obtain ⟨middle, visited, origin, kept, new⟩ :=
        visit_cases victim initial { state with dirty := start } offset
      have middleMarked : ∀ nid ∈ middle, victim.Marked state nid := by
        intro nid mem
        rcases origin nid mem with mem | ⟨rfl, isValid, page⟩
        · exact old nid mem
        · exact .inr ⟨offset, inside offset List.mem_cons_self, isValid, rfl, page⟩
      obtain ⟨dirty, folded, marked, kept', later⟩ :=
        ih (fun other mem => inside other (List.mem_cons_of_mem _ mem)) middle middleMarked
      refine ⟨dirty, ?_, marked, fun nid mem => kept' nid (kept nid mem), ?_⟩
      · rw [List.foldl_cons, visited]
        exact folded
      · rintro late other (_ | ⟨_, mem⟩) isValid page
        · exact kept' _ (new late isValid page)
        · exact later late other mem isValid page
  obtain ⟨dirty, folded, marked, kept, later⟩ := fold (List.range victim.blocksPerSeg)
    (fun offset mem => List.mem_range.1 mem) state.dirty (fun _ mem => .inl mem)
  refine ⟨dirty, folded, marked, kept, ?_⟩
  rintro late nid (mem | ⟨offset, inSegment, isValid, rfl, page⟩)
  · exact kept nid mem
  · exact later late offset (List.mem_range.2 inSegment) isValid page

theorem allMovable_of_pass {initial : Bool} {state : NodeState}
    (after : victim.AllMovable (victim.pass initial state)) : victim.AllMovable state := by
  obtain ⟨dirty, passed, marked, -⟩ := pass_spec victim initial state
  rw [passed] at after
  intro offset inSegment isValid
  obtain ⟨nid, mem, writable, address⟩ := after offset inSegment isValid
  refine ⟨nid, ?_, writable, address⟩
  rcases mem with mem | named
  · exact marked nid mem
  · exact .inr named

theorem allMovable_of_ends {fuel : Nat} {initial : Bool} {state : NodeState}
    {result : NodeState × Rounds} (ended : victim.gcNodeSegment fuel initial state = some result) :
    victim.AllMovable state := by
  induction fuel generalizing initial state result with
  | zero => cases ended
  | succ fuel ih =>
    rw [gcNodeSegment] at ended
    simp only at ended
    suffices after : victim.AllMovable (victim.pass initial state) from allMovable_of_pass after
    split at ended
    · exact ih ended
    apply allMovable_of_sync
    split at ended
    · obtain ⟨rest, ended, -⟩ := Option.map_eq_some_iff.1 ended
      exact ih ended
    next empty =>
      intro offset inSegment isValid
      rw [ne_eq, not_not, BitMap.popCount_eq_zero_iff] at empty
      rw [empty offset inSegment] at isValid
      cases isValid

/-- Writing the nodes of all valid blocks leaves no valid block. -/
theorem foldl_write_empties (nids : List Nat) (state : NodeState)
    (all : victim.AllIn (· ∈ nids) state) :
    (nids.foldl victim.writeNodePage state).valid.popCount victim.blocksPerSeg = 0 := by
  induction nids generalizing state with
  | nil =>
    rw [BitMap.popCount_eq_zero_iff]
    intro offset inSegment
    by_contra isValid
    obtain ⟨nid, mem, -⟩ := all offset inSegment (by simpa using isValid)
    exact List.not_mem_nil mem
  | cons nid nids ih =>
    apply ih
    intro offset inSegment isValid
    obtain ⟨-, -, valid⟩ := writeNodePage_shrinks victim state nid
    obtain ⟨other, mem, writable, address⟩ := all offset inSegment (valid offset isValid)
    have present : victim.startAddr + offset ≠ nullAddr := by
      have := victim.startAddr_pos
      omega
    rcases eq_or_ne other nid with rfl | differ
    · rcases writeNodePage_cases victim state other with
        ⟨-, blocked⟩ | ⟨-, absent⟩ | ⟨-, -, written⟩
      · rw [writable] at blocked
        cases blocked
      · exact absurd (address.symm.trans absent) present
      · rw [written] at isValid
        simp only [address, victim.invalidate_own inSegment, BitMap.clear_self] at isValid
        cases isValid
    · refine ⟨other, (List.mem_cons.1 mem).resolve_left differ, writable, ?_⟩
      rw [writeNodePage_blkAddr differ]
      exact address

/-- When every valid block can be moved, the first pass that moves leaves none. -/
theorem ends_of_allMovable {state : NodeState} (all : victim.AllMovable state) :
    victim.Ends state := by
  obtain ⟨early, first, -, kept, -⟩ := pass_spec victim true state
  obtain ⟨dirty, second, -, -, allMarked⟩ := pass_spec victim false { state with dirty := early }
  obtain ⟨nids, synced, mem_iff⟩ := syncNodePages_eq victim { state with dirty := dirty }
  have empty : (victim.syncNodePages { state with dirty := dirty }).valid.popCount
      victim.blocksPerSeg = 0 := by
    rw [synced]
    apply foldl_write_empties
    intro offset inSegment isValid
    obtain ⟨nid, marked, writable, address⟩ := all offset inSegment isValid
    refine ⟨nid, (mem_iff nid).2 (allMarked rfl nid ?_), writable, address⟩
    rcases marked with mem | named
    · exact .inl (kept nid mem)
    · exact .inr named
  refine ⟨2, (victim.syncNodePages { state with dirty := dirty },
    [(state.valid.popCount victim.blocksPerSeg, 0)]), ?_, ?_⟩
  · simp [gcNodeSegment, first, second, empty]
  · intro round mem before
    obtain rfl := List.mem_singleton.1 mem
    exact Nat.pos_of_ne_zero before

theorem ends_iff (victim : NodeVictim) (state : NodeState) :
    victim.Ends state ↔ victim.AllMovable state := by
  constructor
  · rintro ⟨fuel, result, ended, -⟩
    exact allMovable_of_ends ended
  · exact ends_of_allMovable

end NodeVictim

/-! ## Both kinds of segments -/

/-- The cleaning of a segment in the foreground ends exactly when every valid block of it can be
moved. -/
theorem cleaning_ends_iff (data : DataVictim) (dataState : DataState) (node : NodeVictim)
    (nodeState : NodeState) :
    (data.Ends dataState ↔ data.AllMovable dataState) ∧
      (node.Ends nodeState ↔ node.AllMovable nodeState) :=
  ⟨data.ends_iff dataState, node.ends_iff nodeState⟩

/-- A data segment whose first block has a summary with an old version of its node. -/
def oldVersion : DataVictim where
  startAddr := 4096
  blocksPerSeg := 512
  sum _ := ⟨7, 1, 3⟩
  allocate call := 8192 + call
  startAddr_pos := by decide
  elsewhere := by omega
  getNodePage _ := some 0
  getNodeInfo _ := ⟨2, 7⟩
  iget _ := true
  inlineXattr _ := false
  findDataPage _ _ := true
  getLockDataPage _ _ := true
  getDnodeOfData _ index := some (7, index)

/-- The first block is valid, and the node has its address. -/
def oneValid : DataState where
  addr _ _ := 4096
  valid := BitMap.empty.set 0
  ilist := []
  allocated := 0

/-- A node segment whose first block is the block of no node. -/
def unknownNode : NodeVictim where
  startAddr := 4096
  blocksPerSeg := 512
  sum _ := ⟨7, 0, 0⟩
  allocate call := 8192 + call
  startAddr_pos := by decide
  elsewhere := by omega
  getNodePage _ := true
  syncStep _ := 0
  writable _ := true

def oneValidNode : NodeState where
  blkAddr _ := 6144
  valid := BitMap.empty.set 0
  dirty := []
  allocated := 0

/-- Both segments are cleaned for ever. -/
theorem cleaning_endless : ¬ oldVersion.Ends oneValid ∧ ¬ unknownNode.Ends oneValidNode := by
  constructor
  · rw [DataVictim.ends_iff]
    intro all
    obtain ⟨nofs, ino, -, -, checked, -⟩ := all 0 (by decide) (by decide)
    revert checked
    simp [DataVictim.checkDnode, oldVersion]
  · rw [NodeVictim.ends_iff]
    intro all
    obtain ⟨nid, -, -, address⟩ := all 0 (by decide) (by decide)
    revert address
    simp [oneValidNode, unknownNode]

end SegmentCleaning
end F2fs
end StorageStack
