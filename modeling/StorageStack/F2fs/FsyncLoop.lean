import StorageStack.Execution
import StorageStack.F2fs.NatHistory

/-!
# The loop of fsync over the node pages of a file

`f2fs_sync_file` writes the dirty node pages of a file and goes on until `need_inode_block_update`
finds the marks of a written inode in the node address table.  Between two of its steps other threads
write node pages back, flush the table in a checkpoint, evict entries, and stop checkpoints after an
error.  The file is a regular one, and a call has more in `nr_to_write` than there are pages to write.
-/

namespace StorageStack
namespace F2fs

/-- `need_inode_block_update`. -/
def needInodeBlockUpdate (cache : NatCache) (ino : Nat) : Bool :=
  match cache.natRoot ino with
  | some e => !(e.hasLastFsync && (e.isCheckpointed || e.hasFsyncedInode))
  | none => true

/-- `is_checkpointed_node`. -/
def isCheckpointedNode (cache : NatCache) (nid : Nat) : Bool :=
  match cache.natRoot nid with
  | some e => e.isCheckpointed
  | none => true

/-- `has_fsynced_inode`. -/
def hasFsyncedInode (cache : NatCache) (ino : Nat) : Bool :=
  match cache.natRoot ino with
  | some e => e.hasFsyncedInode
  | none => false

namespace FsyncLoop

/-- What the functions read and write of a node page; the page of an inode is the one whose number is
the inode's. -/
structure NodePage where
  ino : Nat
  isDnode : Bool
  isCold : Bool
  fsyncMark : Bool
  dentryMark : Bool
  dirty : Bool

/-- Where the call stands: in `sync_node_pages` with the pages left to look at, at
`need_inode_block_update`, at `f2fs_write_inode`, or behind the loop. -/
inductive Position where
  | sync (left : List Nat)
  | test
  | writeInode
  | done

/-- The table, the page cache of the nodes with the numbers of its pages in order, the flags, and the
position of the call.  A page that is not in the page cache is as it is on disk. -/
structure State where
  nm : NmInfo
  index : List Nat
  page : Nat → NodePage
  porDoing : Bool
  cpError : Bool
  dirtyInode : Bool
  position : Position

/-- The address of a block that `allocate_data_block` takes. -/
def BlockAddr : Type := { address : Nat // address ≠ nullAddr ∧ address ≠ newAddr }

/-- A step of the call, with the block a page is written to and whether the inode cannot be read, or
of another thread. -/
inductive Operation where
  | fsync (address : BlockAddr) (unreadable : Bool)
  | writeBack (nid : Nat) (address : BlockAddr)
  | flushNatEntries (room : Nat → Bool)
  | tryToFreeNats (enough : Bool) (nrShrink : Nat)
  | stopCheckpoint

/-- The operation is a step of the call. -/
def Operation.isFsync : Operation → Bool
  | .fsync _ _ => true
  | _ => false

namespace State

variable (sup : NatSuper) (ino : Nat) (state : State)

/-- Change a page. -/
def setPage (nid : Nat) (page : NodePage) : State :=
  { state with page := Function.update state.page nid page }

/-- `f2fs_write_node_page` after `clear_page_dirty_for_io`; it is not for reclaim. -/
def f2fsWriteNodePage (nid : Nat) (page : NodePage) (address : BlockAddr) : State :=
  if state.porDoing ∨ state.cpError then state.setPage nid { page with dirty := true }
  else
    let (ni, nm) := getNodeInfo sup nid state.nm
    let state := { state with nm := nm }.setPage nid { page with dirty := false }
    if ni.blkAddr = nullAddr then state
    else { state with nm := setNodeAddr ni address.val page.fsyncMark state.nm }

/-- `sync_node_pages` at one page; for a file it makes only the last of its steps. -/
def syncNodePage (nid : Nat) (address : BlockAddr) : State :=
  let page := state.page nid
  if !page.dirty then state
  else if !page.isDnode ∨ !page.isCold then state
  else if page.ino ≠ ino then state
  else if page.isDnode then
    let dentryMark :=
      if nid = page.ino then
        !isCheckpointedNode state.nm.cache ino && !hasFsyncedInode state.nm.cache ino
      else page.dentryMark
    state.f2fsWriteNodePage sup nid { page with fsyncMark := true, dentryMark := dentryMark } address
  else
    state.f2fsWriteNodePage sup nid { page with fsyncMark := false, dentryMark := false } address

/-- A page in `sync_node_pages` for no file in particular. -/
def writeBackPage (nid : Nat) (address : BlockAddr) : State :=
  if nid ∈ state.index ∧ (state.page nid).dirty then
    state.f2fsWriteNodePage sup nid
      { state.page nid with fsyncMark := false, dentryMark := false } address
  else state

/-- `update_inode` with the page of a regular file. -/
def updateInode : State :=
  { state.setPage ino { state.page ino with isCold := true, dirty := true } with dirtyInode := false }

/-- `mark_inode_dirty_sync` and `f2fs_write_inode`: `get_node_page` of the inode, and its update. -/
def f2fsWriteInode (unreadable : Bool) : State :=
  let state := { state with dirtyInode := true }
  let (ni, nm) := getNodeInfo sup ino state.nm
  let state := { state with nm := nm }
  if ni.blkAddr = nullAddr then state
  else if ino ∈ state.index then state.updateInode ino
  else if unreadable then { state with cpError := true }
  else { state with index := state.index.orderedInsert (· ≤ ·) ino }.updateInode ino

/-- A step of the loop. -/
def fsyncStep (address : BlockAddr) (unreadable : Bool) : Option State :=
  match state.position with
  | .sync (nid :: left) =>
      some { state.syncNodePage sup ino nid address with position := .sync left }
  | .sync [] => some { state with position := .test }
  | .test =>
      some { state with
        position := if needInodeBlockUpdate state.nm.cache ino then .writeInode else .done }
  | .writeInode =>
      let state := state.f2fsWriteInode sup ino unreadable
      some { state with position := .sync state.index }
  | .done => none

/-- A step of the call or of another thread. -/
def step : Operation → Option State
  | .fsync address unreadable => state.fsyncStep sup ino address unreadable
  | .writeBack nid address => some (state.writeBackPage sup nid address)
  | .flushNatEntries room =>
      if state.cpError then some state
      else (F2fs.flushNatEntries sup room state.nm).map fun nm => { state with nm := nm }
  | .tryToFreeNats enough nrShrink =>
      some { state with nm := F2fs.tryToFreeNats enough nrShrink state.nm }
  | .stopCheckpoint => some { state with cpError := true }

end State

/-! ## The marks of the inode -/

variable {sup : NatSuper} {nm : NmInfo} {ino : Nat}

theorem setNatCacheDirty_natRoot {cache : NatCache} {entry : NatEntry}
    (stored : cache.natRoot entry.ni.nid = some entry) :
    ∃ dirty, (setNatCacheDirty entry cache).natRoot =
      Function.update cache.natRoot entry.ni.nid (some { entry with isDirty := dirty }) := by
  unfold setNatCacheDirty
  split
  · exact ⟨entry.isDirty, (Function.update_eq_self_iff.mpr stored.symm).symm⟩
  · exact ⟨true, rfl⟩

/-- The cache before `set_node_addr` marks the inode. -/
theorem setNodeAddr_cache (sound : NatSound sup nm) {ni : NodeInfo} {address : Nat}
    (fsyncDone : Bool) (current : NodeInfoCurrent sup ni address nm) :
    ∃ cache entry, (setNodeAddr ni address fsyncDone nm).cache = markFsync ni fsyncDone cache ∧
      cache.natRoot ni.nid = some entry ∧ entry.ni.nid = ni.nid ∧
      (∀ nid, nid ≠ ni.nid → cache.natRoot nid = nm.cache.natRoot nid) := by
  obtain ⟨cache, entry, old, taken, -, others, key, -, -, -⟩ := entryForUpdate_spec sound current
  have placed : (cache.setEntry (entry.withAddr address)).natRoot (entry.withAddr address).ni.nid =
      some (entry.withAddr address) := Function.update_self ..
  obtain ⟨dirty, root⟩ := setNatCacheDirty_natRoot placed
  have withKey : (entry.withAddr address).ni.nid = ni.nid := key
  rw [withKey] at root
  refine ⟨_, { entry.withAddr address with isDirty := dirty }, by rw [setNodeAddr, taken], ?_, key, ?_⟩
  · rw [root, Function.update_self]
  · intro nid apart
    rw [root, Function.update_of_ne apart, NatCache.setEntry, withKey]
    exact (Function.update_of_ne apart ..).trans (others nid apart)

theorem needInodeBlockUpdate_eq_false {cache : NatCache} :
    needInodeBlockUpdate cache ino = false ↔ ∃ e, cache.natRoot ino = some e ∧
      e.hasLastFsync = true ∧ (e.isCheckpointed = true ∨ e.hasFsyncedInode = true) := by
  unfold needInodeBlockUpdate
  cases cache.natRoot ino with
  | none => simp
  | some e =>
      simp only [Bool.not_eq_false', Bool.and_eq_true, Bool.or_eq_true, Option.some.injEq,
        exists_eq_left']

theorem natRoot_setEntry {cache : NatCache} {entry : NatEntry} (nid : Nat) :
    (cache.setEntry entry).natRoot nid =
      if nid = entry.ni.nid then some entry else cache.natRoot nid := by
  rw [NatCache.setEntry]
  exact Function.update_apply ..

/-- The inode is marked when it is written for fsync. -/
theorem fsynced_of_setNodeAddr (sound : NatSound sup nm) {ni : NodeInfo} {address : Nat}
    (current : NodeInfoCurrent sup ni address nm)
    (nid : ni.nid = ino) (same : ni.ino = ino) :
    needInodeBlockUpdate (setNodeAddr ni address true nm).cache ino = false := by
  obtain ⟨cache, entry, marked, stored, key, -⟩ := setNodeAddr_cache sound true current
  rw [nid] at stored key
  rw [needInodeBlockUpdate_eq_false, marked, markFsync, same, stored]
  dsimp only
  rw [natRoot_setEntry, if_pos key.symm]
  exact ⟨_, rfl, rfl, .inr (by simp [nid])⟩

/-- The marks of the inode stay when another node is written for fsync. -/
theorem fsynced_setNodeAddr_of_ne (sound : NatSound sup nm) {ni : NodeInfo} {address : Nat}
    (current : NodeInfoCurrent sup ni address nm)
    (apart : ni.nid ≠ ino) (fsynced : needInodeBlockUpdate nm.cache ino = false) :
    needInodeBlockUpdate (setNodeAddr ni address true nm).cache ino = false := by
  obtain ⟨cache, entry, marked, stored, key, others⟩ := setNodeAddr_cache sound true current
  obtain ⟨e, inode, last, checkpointed⟩ := needInodeBlockUpdate_eq_false.mp fsynced
  rw [← others ino apart.symm] at inode
  rw [needInodeBlockUpdate_eq_false, marked, markFsync]
  by_cases same : ni.ino = ino
  · have inodeKey : e.ni.nid = ino := sound.cache.key _ _ (others ino apart.symm ▸ inode)
    rw [same, inode]
    dsimp only
    rw [natRoot_setEntry, if_pos inodeKey.symm]
    exact ⟨_, rfl, rfl, checkpointed.imp id fun already => by simp [already]⟩
  · cases found : cache.natRoot ni.ino with
    | none => exact ⟨e, inode, last, checkpointed⟩
    | some other =>
        have otherKey : other.ni.nid = ni.ino := by
          by_cases here : ni.ino = ni.nid
          · rw [here, stored] at found
            rw [here, ← Option.some.inj found]
            exact key
          · exact sound.cache.key _ _ ((others _ here).symm.trans found)
        dsimp only
        rw [natRoot_setEntry, if_neg (by rw [otherKey]; exact Ne.symm same), inode]
        exact ⟨e, rfl, last, checkpointed⟩

/-- A lookup leaves the marks of the inode. -/
theorem getNodeInfo_natRoot {nid : Nat} {e : NatEntry} (cached : nm.cache.natRoot ino = some e) :
    (getNodeInfo sup nid nm).2.cache.natRoot ino = some e := by
  unfold getNodeInfo
  cases found : nm.cache.natRoot nid with
  | some other => exact cached
  | none =>
      have apart : ino ≠ nid := by
        rintro rfl
        rw [found] at cached
        cases cached
      dsimp only
      rw [cacheNatEntry, found]
      exact (Function.update_of_ne apart ..).trans cached

/-! ## What holds in every run -/

/-- The node address table is sound, and the inode has a block. -/
structure TableSound (sup : NatSuper) (ino : Nat) (nm : NmInfo) : Prop where
  nat : NatSound sup nm
  ino_eq : (nm.rawNat sup ino).ino = ino
  allocated : (nm.rawNat sup ino).blockAddr ≠ nullAddr

theorem TableSound.congr {next : NmInfo} (sound : TableSound sup ino nm) (nat : NatSound sup next)
    (same : ∀ nid, next.rawNat sup nid = nm.rawNat sup nid) : TableSound sup ino next where
  nat := nat
  ino_eq := by rw [same, sound.ino_eq]
  allocated := by rw [same]; exact sound.allocated

theorem TableSound.lookup (sound : TableSound sup ino nm) (nid : Nat) :
    TableSound sup ino (getNodeInfo sup nid nm).2 := by
  have lookedUp := getNodeInfo_lookedUp sound.nat nid
  exact sound.congr lookedUp.sound lookedUp.rawNat

/-- What a lookup returns is current in the table that it leaves. -/
theorem nodeInfoCurrent_getNodeInfo (sound : NatSound sup nm) (nid address : Nat) :
    NodeInfoCurrent sup (getNodeInfo sup nid nm).1 address (getNodeInfo sup nid nm).2 := by
  refine .inr (.inr ?_)
  rw [getNodeInfo_fst, rawNatFromNodeInfo_fromRaw, (getNodeInfo_lookedUp sound nid).rawNat]
  rfl

theorem TableSound.setAddr (sound : TableSound sup ino nm) {nid : Nat} (inRange : nid < sup.maxNid)
    (address : BlockAddr) (mark : Bool) :
    TableSound sup ino
      (setNodeAddr (getNodeInfo sup nid nm).1 address.val mark (getNodeInfo sup nid nm).2) := by
  have looked := sound.lookup nid
  have nid_eq : (getNodeInfo sup nid nm).1.nid = nid := by
    rw [getNodeInfo_fst]
    rfl
  have written := setNodeAddr_addrSet looked.nat mark (by rw [nid_eq]; exact inRange)
    (nodeInfoCurrent_getNodeInfo sound.nat nid address.val)
  refine ⟨written.sound, ?_, ?_⟩
  · rw [written.rawNat, nid_eq]
    split
    · rw [establishedNat, if_neg address.property.2]
      rename_i same
      exact same ▸ looked.ino_eq
    · exact looked.ino_eq
  · rw [written.rawNat, nid_eq]
    split
    · exact address.property.1
    · exact looked.allocated

/-- What every run keeps.  Once the inode has been read, `size` pages are in the page cache. -/
structure Sound (sup : NatSuper) (ino size : Nat) (state : State) : Prop where
  table : TableSound sup ino state.nm
  inRange : ∀ nid ∈ state.index, nid < sup.maxNid
  ino_inRange : ino < sup.maxNid
  page_ino : (state.page ino).ino = ino
  page_dnode : (state.page ino).isDnode = true
  size_eq : (state.index.insert ino).length = size
  left : ∀ left, state.position = .sync left → left ⊆ state.index ∧ left.length ≤ size

/-- Neither recovery nor an error keeps `f2fs_write_node_page` from writing. -/
def Works (state : State) : Prop := state.porDoing = false ∧ state.cpError = false

/-- Pages cannot be written, and the entry of the inode is cached without the marks. -/
def Stuck (ino : Nat) (state : State) : Prop :=
  ¬Works state ∧ state.nm.cache.natRoot ino ≠ none ∧ needInodeBlockUpdate state.nm.cache ino = true

/-- The inode is still to be written in this round, or is marked. -/
def Sure (ino : Nat) (state : State) (left : List Nat) : Prop :=
  (Works state ∧ ino ∈ left ∧ (state.page ino).dirty = true ∧ (state.page ino).isCold = true) ∨
    needInodeBlockUpdate state.nm.cache ino = false

instance (state : State) : Decidable (Works state) := inferInstanceAs (Decidable (_ ∧ _))

instance (state : State) : Decidable (Stuck ino state) := inferInstanceAs (Decidable (_ ∧ _))

instance (state : State) (left : List Nat) : Decidable (Sure ino state left) :=
  inferInstanceAs (Decidable (_ ∨ _))

/-- A page that `sync_node_pages` writes. -/
def NodePage.Due (ino : Nat) (page : NodePage) : Prop :=
  page.dirty = true ∧ page.isDnode = true ∧ page.isCold = true ∧ page.ino = ino

variable {size : Nat} {state next : State} {address : BlockAddr}

/-- A page is left alone, or written with the mark. -/
theorem syncNodePage_cases (nid : Nat) :
    (¬(state.page nid).Due ino ∧ state.syncNodePage sup ino nid address = state) ∨
      (state.page nid).Due ino ∧ ∃ mark, state.syncNodePage sup ino nid address =
        state.f2fsWriteNodePage sup nid
          { state.page nid with fsyncMark := true, dentryMark := mark } address := by
  unfold State.syncNodePage
  dsimp only
  by_cases due : (state.page nid).Due ino
  · obtain ⟨dirty, dnode, cold, same⟩ := due
    refine .inr ⟨⟨dirty, dnode, cold, same⟩, ?_⟩
    rw [if_neg (by simp [dirty]), if_neg (by simp [dnode, cold]), if_neg (by simp [same]),
      if_pos dnode]
    exact ⟨_, rfl⟩
  · refine .inl ⟨due, ?_⟩
    by_cases dirty : (state.page nid).dirty = true
    · rw [if_neg (by simp [dirty])]
      by_cases last : (state.page nid).isDnode = true ∧ (state.page nid).isCold = true
      · have foreign : (state.page nid).ino ≠ ino := fun same => due ⟨dirty, last.1, last.2, same⟩
        rw [if_neg (by simp [last.1, last.2]), if_pos foreign]
      · rw [if_pos]
        rw [not_and_or] at last
        simpa using last
    · rw [if_pos (by simpa using dirty)]

/-- Writing a page back keeps what a run keeps. -/
theorem Sound.writeNodePage (sound : Sound sup ino size state) {nid : Nat} (inRange : nid < sup.maxNid)
    {page : NodePage} (same : page.ino = (state.page nid).ino)
    (dnode : page.isDnode = (state.page nid).isDnode) :
    Sound sup ino size (state.f2fsWriteNodePage sup nid page address) := by
  have changed (dirty : Bool) :
      (Function.update state.page nid { page with dirty := dirty } ino).ino = ino ∧
        (Function.update state.page nid { page with dirty := dirty } ino).isDnode = true := by
    by_cases here : ino = nid
    · subst here
      rw [Function.update_self]
      exact ⟨same.trans sound.page_ino, dnode.trans sound.page_dnode⟩
    · rw [Function.update_of_ne here]
      exact ⟨sound.page_ino, sound.page_dnode⟩
  unfold State.f2fsWriteNodePage
  split
  · exact { sound with page_ino := (changed true).1, page_dnode := (changed true).2 }
  · dsimp only
    split
    · exact { sound with
        table := sound.table.lookup nid, page_ino := (changed false).1
        page_dnode := (changed false).2 }
    · exact { sound with
        table := sound.table.setAddr inRange address page.fsyncMark
        page_ino := (changed false).1, page_dnode := (changed false).2 }

theorem Sound.syncNodePage (sound : Sound sup ino size state) {nid : Nat}
    (inRange : nid < sup.maxNid) :
    Sound sup ino size (state.syncNodePage sup ino nid address) := by
  rcases @syncNodePage_cases sup ino state address nid with ⟨-, same⟩ | ⟨-, mark, same⟩
  · rwa [same]
  · rw [same]
    exact sound.writeNodePage inRange rfl rfl

theorem f2fsWriteNodePage_of_not_works (stopped : ¬Works state) (nid : Nat) (page : NodePage) :
    state.f2fsWriteNodePage sup nid page address = state.setPage nid { page with dirty := true } := by
  rw [State.f2fsWriteNodePage, if_pos]
  rw [Works, not_and_or] at stopped
  simpa using stopped

theorem works_f2fsWriteNodePage (nid : Nat) (page : NodePage) :
    Works (state.f2fsWriteNodePage sup nid page address) ↔ Works state := by
  unfold State.f2fsWriteNodePage
  split
  · exact Iff.rfl
  · dsimp only
    split <;> exact Iff.rfl

theorem works_syncNodePage (nid : Nat) :
    Works (state.syncNodePage sup ino nid address) ↔ Works state := by
  rcases @syncNodePage_cases sup ino state address nid with ⟨-, same⟩ | ⟨-, mark, same⟩ <;> rw [same]
  exact works_f2fsWriteNodePage nid _

/-- While pages cannot be written, the table stays as it is. -/
theorem nm_syncNodePage_of_not_works (stopped : ¬Works state) (nid : Nat) :
    (state.syncNodePage sup ino nid address).nm = state.nm := by
  rcases @syncNodePage_cases sup ino state address nid with ⟨-, same⟩ | ⟨-, mark, same⟩ <;> rw [same]
  rw [f2fsWriteNodePage_of_not_works stopped]
  rfl

/-- A round that is sure to write the inode stays so at every page. -/
theorem Sound.sure_syncNodePage (sound : Sound sup ino size state) {nid : Nat} {left : List Nat}
    (sure : Sure ino state (nid :: left)) :
    Sure ino (state.syncNodePage sup ino nid address) left := by
  by_cases works : Works state
  swap
  · rcases sure with ⟨others, -⟩ | fsynced
    · exact absurd others works
    · exact .inr (by rwa [nm_syncNodePage_of_not_works works])
  have key : (getNodeInfo sup nid state.nm).1.nid = nid := by
    rw [getNodeInfo_fst]
    rfl
  have looked := sound.table.lookup nid
  have current := nodeInfoCurrent_getNodeInfo sound.table.nat nid address.val
  rcases @syncNodePage_cases sup ino state address nid with ⟨spared, same⟩ | ⟨due, mark, same⟩
  · rw [same]
    rcases sure with ⟨-, mem, dirty, cold⟩ | fsynced
    · refine .inl ⟨works, ?_, dirty, cold⟩
      rcases List.mem_cons.mp mem with rfl | later
      · exact absurd ⟨dirty, sound.page_dnode, cold, sound.page_ino⟩ spared
      · exact later
    · exact .inr fsynced
  · rw [same]
    rw [State.f2fsWriteNodePage, if_neg (by simp [works.1, works.2])]
    dsimp only
    by_cases here : nid = ino
    · subst here
      have allocated : (getNodeInfo sup nid state.nm).1.blkAddr ≠ nullAddr := by
        rw [getNodeInfo_fst]
        exact sound.table.allocated
      have itself : (getNodeInfo sup nid state.nm).1.ino = nid := by
        rw [getNodeInfo_fst]
        exact sound.table.ino_eq
      rw [if_neg allocated]
      exact .inr (fsynced_of_setNodeAddr looked.nat current key itself)
    · have apart : ino ≠ nid := Ne.symm here
      rcases sure with ⟨-, mem, dirty, cold⟩ | fsynced
      · have later : ino ∈ left := (List.mem_cons.mp mem).resolve_left apart
        split
        · exact .inl ⟨works, later, by simpa [State.setPage, apart] using dirty,
            by simpa [State.setPage, apart] using cold⟩
        · exact .inl ⟨works, later, by simpa [State.setPage, apart] using dirty,
            by simpa [State.setPage, apart] using cold⟩
      · have still : needInodeBlockUpdate (getNodeInfo sup nid state.nm).2.cache ino = false := by
          obtain ⟨e, cached, marks⟩ := needInodeBlockUpdate_eq_false.mp fsynced
          exact needInodeBlockUpdate_eq_false.mpr ⟨e, getNodeInfo_natRoot cached, marks⟩
        split
        · exact .inr still
        · exact .inr (fsynced_setNodeAddr_of_ne looked.nat current (by rw [key]; exact here) still)

@[simp] theorem index_f2fsWriteNodePage (nid : Nat) (page : NodePage) :
    (state.f2fsWriteNodePage sup nid page address).index = state.index := by
  unfold State.f2fsWriteNodePage
  split
  · rfl
  · dsimp only
    split <;> rfl

@[simp] theorem index_syncNodePage (nid : Nat) :
    (state.syncNodePage sup ino nid address).index = state.index := by
  rcases @syncNodePage_cases sup ino state address nid with ⟨-, same⟩ | ⟨-, mark, same⟩ <;> rw [same]
  rw [index_f2fsWriteNodePage]

/-- A lookup leaves an entry in the cache. -/
theorem getNodeInfo_cached (nid : Nat) : (getNodeInfo sup nid nm).2.cache.natRoot nid ≠ none := by
  unfold getNodeInfo
  cases found : nm.cache.natRoot nid with
  | some entry => simp [found]
  | none =>
      dsimp only
      rw [cacheNatEntry, found]
      simp [grabNatEntry, newNatEntry, nodeInfoFromRawNat]

theorem nm_f2fsWriteInode (unreadable : Bool) :
    (state.f2fsWriteInode sup ino unreadable).nm = (getNodeInfo sup ino state.nm).2 := by
  unfold State.f2fsWriteInode
  dsimp only
  split_ifs <;> rfl

/-- `f2fs_write_inode` makes the page of the inode dirty, or an error stops checkpoints. -/
theorem Sound.f2fsWriteInode (sound : Sound sup ino size state) (unreadable : Bool) :
    Sound sup ino size
        { state.f2fsWriteInode sup ino unreadable with
          position := .sync (state.f2fsWriteInode sup ino unreadable).index } ∧
      ((state.f2fsWriteInode sup ino unreadable).cpError = true ∨
        ino ∈ (state.f2fsWriteInode sup ino unreadable).index ∧
          ((state.f2fsWriteInode sup ino unreadable).page ino).dirty = true ∧
          ((state.f2fsWriteInode sup ino unreadable).page ino).isCold = true) := by
  have allocated : (getNodeInfo sup ino state.nm).1.blkAddr ≠ nullAddr := by
    rw [getNodeInfo_fst]
    exact sound.table.allocated
  have table := sound.table.lookup ino
  have length := sound.size_eq
  have page_ino := sound.page_ino
  have page_dnode := sound.page_dnode
  unfold State.f2fsWriteInode
  dsimp only
  rw [if_neg allocated]
  split_ifs with cached unreadable
  · rw [List.insert_of_mem cached] at length
    refine ⟨?_, .inr ⟨cached, ?_, ?_⟩⟩
    · exact
        { table := table, inRange := sound.inRange, ino_inRange := sound.ino_inRange
          page_ino := by simp [State.updateInode, State.setPage, page_ino]
          page_dnode := by simp [State.updateInode, State.setPage, page_dnode]
          size_eq := sound.size_eq
          left := by
            rintro _ ⟨⟩
            exact ⟨List.Subset.refl _, length.le⟩ }
    · simp [State.updateInode, State.setPage]
    · simp [State.updateInode, State.setPage]
  · refine ⟨?_, .inl rfl⟩
    rw [List.length_insert_of_not_mem cached] at length
    exact { sound with
      table := table
      left := by
        rintro _ ⟨⟩
        exact ⟨List.Subset.refl _, (Nat.le_succ _).trans length.le⟩ }
  · have mem : ino ∈ state.index.orderedInsert (· ≤ ·) ino :=
      (List.mem_orderedInsert _).mpr (.inl rfl)
    rw [List.length_insert_of_not_mem cached, ← List.orderedInsert_length (· ≤ ·) state.index ino]
      at length
    refine ⟨?_, .inr ⟨mem, ?_, ?_⟩⟩
    · exact
        { table := table
          inRange := by
            intro nid listed
            rcases (List.mem_orderedInsert _).mp listed with rfl | before
            · exact sound.ino_inRange
            · exact sound.inRange nid before
          ino_inRange := sound.ino_inRange
          page_ino := by simp [State.updateInode, State.setPage, page_ino]
          page_dnode := by simp [State.updateInode, State.setPage, page_dnode]
          size_eq := by
            change ((state.index.orderedInsert (· ≤ ·) ino).insert ino).length = size
            rw [List.insert_of_mem mem]
            exact length
          left := by
            rintro _ ⟨⟩
            exact ⟨List.Subset.refl _, length.le⟩ }
    · simp [State.updateInode, State.setPage]
    · simp [State.updateInode, State.setPage]

/-! ## Termination -/

/-- The steps that the call can still make while the other threads do nothing. -/
def rank (ino size : Nat) (state : State) : Nat :=
  if Stuck ino state then 0
  else
    match state.position with
    | .sync left => if Sure ino state left then left.length + 2 else left.length + size + 5
    | .test => if needInodeBlockUpdate state.nm.cache ino then size + 4 else 1
    | .writeInode => size + 3
    | .done => 0

theorem Sound.rank_le (sound : Sound sup ino size state) : rank ino size state ≤ 2 * size + 5 := by
  unfold rank
  split
  · omega
  · cases at_step : state.position with
    | sync left =>
        have bound := (sound.left left at_step).2
        dsimp only
        split <;> omega
    | test =>
        dsimp only
        split <;> omega
    | writeInode => dsimp only; omega
    | done => dsimp only; omega

theorem rank_sync {left : List Nat} (at_step : state.position = .sync left) (free : ¬Stuck ino state) :
    rank ino size state = if Sure ino state left then left.length + 2 else left.length + size + 5 := by
  rw [rank, if_neg free, at_step]

theorem rank_test (at_step : state.position = .test) (free : ¬Stuck ino state) :
    rank ino size state = if needInodeBlockUpdate state.nm.cache ino then size + 4 else 1 := by
  rw [rank, if_neg free, at_step]

theorem rank_writeInode (at_step : state.position = .writeInode) (free : ¬Stuck ino state) :
    rank ino size state = size + 3 := by
  rw [rank, if_neg free, at_step]

theorem rank_le_of_sync {left : List Nat} (at_step : state.position = .sync left) :
    rank ino size state ≤ if Sure ino state left then left.length + 2 else left.length + size + 5 := by
  by_cases stuck : Stuck ino state
  · rw [rank, if_pos stuck]
    exact Nat.zero_le _
  · exact (rank_sync at_step stuck).le

/-- A step of the call comes nearer to its end. -/
theorem Sound.fsyncStep (sound : Sound sup ino size state) (free : ¬Stuck ino state)
    {unreadable : Bool} (stepped : state.fsyncStep sup ino address unreadable = some next) :
    Sound sup ino size next ∧ rank ino size next < rank ino size state := by
  unfold State.fsyncStep at stepped
  cases at_step : state.position with
  | sync left =>
      rw [rank_sync at_step free]
      cases left with
      | nil =>
          simp only [at_step, Option.some.injEq] at stepped
          subst stepped
          refine ⟨{ sound with left := fun _ same => nomatch same }, ?_⟩
          have tested : rank ino size { state with position := .test } =
              if needInodeBlockUpdate state.nm.cache ino then size + 4 else 1 := rank_test rfl free
          rw [tested]
          simp only [Sure, List.not_mem_nil, false_and, and_false, false_or]
          cases needInodeBlockUpdate state.nm.cache ino <;> simp
      | cons nid left =>
          simp only [at_step, Option.some.injEq] at stepped
          subst stepped
          obtain ⟨listed, bound⟩ := sound.left _ at_step
          have inRange := sound.inRange nid (listed List.mem_cons_self)
          have kept : Sound sup ino size (state.syncNodePage sup ino nid address) :=
            sound.syncNodePage inRange
          refine ⟨{ kept with left := ?_ }, ?_⟩
          · rintro _ ⟨⟩
            rw [index_syncNodePage]
            exact ⟨fun other mem => listed (List.mem_cons_of_mem _ mem),
              (Nat.le_succ _).trans bound⟩
          · refine (rank_le_of_sync rfl).trans_lt ?_
            rw [List.length_cons]
            by_cases sure : Sure ino state (nid :: left)
            · rw [if_pos sure, if_pos]
              · omega
              · exact sound.sure_syncNodePage sure
            · rw [if_neg sure]
              split <;> omega
  | test =>
      rw [rank_test at_step free]
      simp only [at_step, Option.some.injEq] at stepped
      subst stepped
      refine ⟨{ sound with left := ?_ }, ?_⟩
      · split <;> exact fun _ same => nomatch same
      · cases need : needInodeBlockUpdate state.nm.cache ino with
        | true =>
            have updated : rank ino size { state with position := .writeInode } = size + 3 :=
              rank_writeInode rfl free
            simp only [if_true, updated]
            omega
        | false =>
            have ended : rank ino size { state with position := .done } = 0 := ite_self 0
            simp only [Bool.false_eq_true, if_false, ended]
            exact Nat.one_pos
  | writeInode =>
      rw [rank_writeInode at_step free]
      simp only [at_step, Option.some.injEq] at stepped
      subst stepped
      obtain ⟨kept, outcome⟩ := sound.f2fsWriteInode unreadable
      refine ⟨kept, ?_⟩
      have bound := (kept.left _ rfl).2
      set written := state.f2fsWriteInode sup ino unreadable with written_eq
      have cached : written.nm.cache.natRoot ino ≠ none := by
        rw [written_eq, nm_f2fsWriteInode]
        exact getNodeInfo_cached ino
      by_cases stuck : Stuck ino { written with position := .sync written.index }
      · rw [rank, if_pos stuck]
        omega
      · rw [rank_sync rfl stuck, if_pos]
        · exact Nat.add_lt_add_of_le_of_lt bound (Nat.lt_succ_self 2)
        · cases need : needInodeBlockUpdate written.nm.cache ino with
          | false => exact .inr need
          | true =>
              have works : Works written := by
                by_contra stopped
                exact stuck ⟨stopped, cached, need⟩
              rcases outcome with stopped | pending
              · exact absurd stopped (by simp [works.2])
              · exact .inl ⟨works, pending⟩
  | done => simp [at_step] at stepped

/-- A page that another thread writes back. -/
theorem Sound.writeBackPage (sound : Sound sup ino size state) (nid : Nat) :
    Sound sup ino size (state.writeBackPage sup nid address) := by
  unfold State.writeBackPage
  split
  · rename_i held
    exact sound.writeNodePage (sound.inRange nid held.1) rfl rfl
  · exact sound

/-- Every step keeps what a run keeps. -/
theorem Sound.step (sound : Sound sup ino size state) (free : ¬Stuck ino state) {operation : Operation}
    (stepped : state.step sup ino operation = some next) :
    Sound sup ino size next ∧
      if operation.isFsync then rank ino size next < rank ino size state
      else rank ino size next ≤ 2 * size + 5 := by
  cases operation with
  | fsync address unreadable => exact sound.fsyncStep free stepped
  | writeBack nid address =>
      obtain rfl := Option.some.inj stepped
      have kept : Sound sup ino size (state.writeBackPage sup nid address) := sound.writeBackPage nid
      exact ⟨kept, kept.rank_le⟩
  | flushNatEntries room =>
      simp only [State.step] at stepped
      split at stepped
      · obtain rfl := Option.some.inj stepped
        exact ⟨sound, sound.rank_le⟩
      · obtain ⟨nm, flushed, effect⟩ := flushNatEntries_natFlushed room sound.table.nat
        rw [flushed, Option.map_some, Option.some.injEq] at stepped
        subst stepped
        have kept : Sound sup ino size { state with nm := nm } :=
          { sound with table := sound.table.congr effect.sound effect.rawNat }
        exact ⟨kept, kept.rank_le⟩
  | tryToFreeNats enough nrShrink =>
      obtain rfl := Option.some.inj stepped
      have shrunk := tryToFreeNats_shrunk sound.table.nat enough nrShrink
      have kept : Sound sup ino size
          { state with nm := F2fs.tryToFreeNats enough nrShrink state.nm } :=
        { sound with table := sound.table.congr shrunk.sound shrunk.rawNat }
      exact ⟨kept, kept.rank_le⟩
  | stopCheckpoint =>
      obtain rfl := Option.some.inj stepped
      have kept : Sound sup ino size { state with cpError := true } := { sound with }
      exact ⟨kept, kept.rank_le⟩

/-- A call that is not behind the loop can go on. -/
theorem exists_fsyncStep (unfinished : state.position ≠ .done) (address : BlockAddr)
    (unreadable : Bool) : ∃ next, state.step sup ino (.fsync address unreadable) = some next := by
  simp only [State.step, State.fsyncStep]
  cases at_step : state.position with
  | sync left => cases left <;> exact ⟨_, rfl⟩
  | test => exact ⟨_, rfl⟩
  | writeInode => exact ⟨_, rfl⟩
  | done => exact absurd at_step unfinished

/-! ## The endless loop -/

theorem works_of_f2fsWriteInode {unreadable : Bool}
    (works : Works (state.f2fsWriteInode sup ino unreadable)) : Works state := by
  unfold State.f2fsWriteInode at works
  dsimp only at works
  split_ifs at works
  · exact works
  · exact works
  · exact absurd works.2 (by simp)
  · exact works

/-- The call leaves a state in which it is stuck as it found it. -/
theorem Stuck.fsyncStep (stuck : Stuck ino state) (unfinished : state.position ≠ .done)
    {unreadable : Bool} (stepped : state.fsyncStep sup ino address unreadable = some next) :
    Stuck ino next ∧ next.position ≠ .done := by
  obtain ⟨stopped, cached, need⟩ := stuck
  unfold State.fsyncStep at stepped
  cases at_step : state.position with
  | sync left =>
      cases left with
      | nil =>
          simp only [at_step, Option.some.injEq] at stepped
          subst stepped
          exact ⟨⟨stopped, cached, need⟩, nofun⟩
      | cons nid left =>
          simp only [at_step, Option.some.injEq] at stepped
          subst stepped
          refine ⟨⟨fun works => stopped ((works_syncNodePage nid).mp works), ?_⟩, nofun⟩
          rw [nm_syncNodePage_of_not_works stopped]
          exact ⟨cached, need⟩
  | test =>
      simp only [at_step, need, if_true, Option.some.injEq] at stepped
      subst stepped
      exact ⟨⟨stopped, cached, need⟩, nofun⟩
  | writeInode =>
      simp only [at_step, Option.some.injEq] at stepped
      subst stepped
      obtain ⟨entry, found⟩ := Option.ne_none_iff_exists'.mp cached
      refine ⟨⟨fun works => stopped (works_of_f2fsWriteInode works), ?_⟩, nofun⟩
      rw [nm_f2fsWriteInode, needInodeBlockUpdate, getNodeInfo_natRoot found]
      rw [needInodeBlockUpdate, found] at need
      exact ⟨Option.some_ne_none _, need⟩
  | done => exact absurd at_step unfinished

/-- The call never ends while it is stuck and the other threads do nothing. -/
theorem Stuck.run (stuck : Stuck ino state) (unfinished : state.position ≠ .done)
    {operations : List Operation} (own : ∀ operation ∈ operations, operation.isFsync = true) :
    ∃ final, Execution.run (State.step sup ino) state operations = some final ∧
      Stuck ino final ∧ final.position ≠ .done := by
  apply Execution.exists_run (fun operation => operation.isFsync = true) _ ⟨stuck, unfinished⟩ own
  intro state operation here mine
  cases operation with
  | fsync address unreadable =>
      obtain ⟨next, stepped⟩ := @exists_fsyncStep sup ino state here.2 address unreadable
      exact ⟨next, stepped, here.1.fsyncStep here.2 stepped⟩
  | _ => cases mine

/-- As long as the call is not stuck, it makes no more steps than the pages and the steps of the other
threads allow, and until it is behind the loop it can go on.  Once it is stuck, it never gets there
without the other threads. -/
theorem fsync_loop_ends_unless_stuck {start : State} (sound : Sound sup ino size start) :
    (∀ operations final, Execution.run (State.step sup ino) start operations = some final →
      Execution.Meets (State.step sup ino) (fun state _ => ¬Stuck ino state) start operations →
        operations.countP Operation.isFsync ≤
            (2 * size + 5) * (1 + operations.countP fun operation => !operation.isFsync) ∧
          (final.position = .done ∨ ∀ address unreadable,
            ∃ next, final.step sup ino (.fsync address unreadable) = some next)) ∧
      ∀ before state, Execution.run (State.step sup ino) start before = some state →
        Stuck ino state → state.position ≠ .done →
          ∀ operations, (∀ operation ∈ operations, Operation.isFsync operation = true) →
            ∃ final, Execution.run (State.step sup ino) state operations = some final ∧
              final.position ≠ .done := by
  constructor
  · intro operations final execution meets
    have bounded := Execution.countP_le_of_rank
      (fun _ _ _ sound free stepped => Sound.step sound free stepped) sound meets execution
    have first := sound.rank_le
    refine ⟨by rw [Nat.mul_add, Nat.mul_one]; exact bounded.trans (Nat.add_le_add_right first _), ?_⟩
    by_cases behind : final.position = .done
    · exact .inl behind
    · exact .inr (exists_fsyncStep behind)
  · intro before state _ stuck unfinished operations own
    obtain ⟨final, execution, -, still⟩ := stuck.run unfinished own
    exact ⟨final, execution, still⟩

/-! ## A new file -/

/-- A file whose inode 5 is new, before and after checkpoints are stopped. -/
def newFile (cpError : Bool) : State where
  nm := setNodeAddr ⟨5, 5, nullAddr, 0⟩ newAddr false emptyTable
  index := [5]
  page _ := ⟨5, true, true, false, false, true⟩
  porDoing := false
  cpError := cpError
  dirtyInode := true
  position := .sync [5]

theorem newFile_sound (cpError : Bool) : Sound smallNat 5 1 (newFile cpError) where
  table := by
    have created : NatAdmitted smallNat emptyTable (.setNodeAddr ⟨5, 5, nullAddr, 0⟩ newAddr false) :=
      ⟨by decide, .inl rfl⟩
    obtain ⟨sound, -⟩ := natRun_sound (emptyTable_mounted smallNat).sound (.cons created rfl (.nil _))
    exact ⟨sound, by decide +revert, by decide +revert⟩
  inRange := by decide +revert
  ino_inRange := by decide
  page_ino := rfl
  page_dnode := rfl
  size_eq := rfl
  left := by
    rintro _ ⟨⟩
    exact ⟨List.Subset.refl _, Nat.le_refl _⟩

/-- The address that the new inode is written to. -/
def firstBlock : BlockAddr := ⟨300, by decide⟩

theorem fsync_loop_ends_unless_stuck_newFile :
    ∃ final, Execution.run (State.step smallNat 5) (newFile false)
        (List.replicate 3 (.fsync firstBlock false)) = some final ∧
      final.position = .done ∧ 3 ≤ (2 * 1 + 5) * (1 + 0) := by
  refine ⟨_, rfl, rfl, ?_⟩
  have bounded := (fsync_loop_ends_unless_stuck (newFile_sound false)).1
    (List.replicate 3 (.fsync firstBlock false)) _ rfl ?_
  · exact bounded.1
  · refine ⟨by decide, ?_⟩
    rintro _ ⟨⟩
    refine ⟨by decide, ?_⟩
    rintro _ ⟨⟩
    exact ⟨by decide, fun _ _ => trivial⟩

/-- With the error flag set, the loop of fsync on a new file goes on for ever. -/
theorem fsync_loop_not_terminating :
    ¬∀ (sup : NatSuper) (ino size : Nat) (start : State), Sound sup ino size start →
      start.position = .sync start.index →
        ∃ steps, ∀ operations : List Operation,
          (∀ operation ∈ operations, operation.isFsync = true) → steps ≤ operations.length →
            ∀ final, Execution.run (State.step sup ino) start operations = some final →
              final.position = .done := by
  intro ends
  obtain ⟨steps, ended⟩ := ends smallNat 5 1 (newFile true) (newFile_sound true) rfl
  have own : ∀ operation ∈ List.replicate steps (Operation.fsync firstBlock false),
      operation.isFsync = true := by
    intro operation mem
    rw [(List.mem_replicate.mp mem).2]
    rfl
  have stuck : Stuck 5 (newFile true) := by decide
  obtain ⟨final, execution, -, unfinished⟩ := @Stuck.run smallNat 5 (newFile true) stuck nofun _ own
  exact unfinished (ended _ own (by simp) final execution)

end FsyncLoop
end F2fs
end StorageStack
