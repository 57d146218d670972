import StorageStack.F2fs.Mount

/-!
# The segment manager in operation

The operations of the segment manager from mount on, with the promises of their callers: a block is
given up only when it is valid, a recovered block is written only when it is invalid, nothing is
allocated while data is recovered, and between `flush_sit_entries` and `clear_prefree_segments`
a checkpoint blocks all other operations.
-/

namespace StorageStack
namespace F2fs

variable {sbi : Sbi} {image : Image} {state next : State}

/-- The segment manager, and whether a checkpoint is between its two steps. -/
structure Manager where
  state : State
  checkpointing : Bool

/-- The operations; `endRecovery` is the end of `recover_data` and of `recover_fsync_data`. -/
inductive Operation where
  | allocateDataBlock (env : Env) (page : Bool) (oldBlkaddr : Nat) (sum : Summary)
      (type : CursegType)
  | allocateDummyDataBlock (env : Env) (page : Bool) (type : CursegType)
  | invalidateBlocks (mtime addr : Nat)
  | allocateNewSegments (env : Env)
  | flushSitEntries (cpc : CpControl)
  | clearPrefreeSegments
  | startRecovery
  | recoverDataPage (mtime : Nat) (sum : Summary) (oldBlkaddr newBlkaddr : Nat)
  | endRecovery (env : Env)

/-- Execute one operation. -/
def step (sbi : Sbi) (manager : Manager) : Operation → Option Manager
  | .allocateDataBlock env page oldBlkaddr sum type =>
      (allocateDataBlock sbi env page oldBlkaddr sum type manager.state).map
        fun result => { manager with state := result.1 }
  | .allocateDummyDataBlock env page type =>
      (allocateDummyDataBlock sbi env page type manager.state).map
        fun result => { manager with state := result.1 }
  | .invalidateBlocks mtime addr =>
      (invalidateBlocks sbi mtime addr manager.state).map fun state => { manager with state := state }
  | .allocateNewSegments env =>
      (allocateNewSegments sbi env manager.state).map fun state => { manager with state := state }
  | .flushSitEntries cpc =>
      (flushSitEntries sbi cpc manager.state).map fun result => ⟨result.1, true⟩
  | .clearPrefreeSegments =>
      (clearPrefreeSegments sbi manager.state).map fun state => ⟨state, false⟩
  | .startRecovery => some { manager with state := { manager.state with porDoing := true } }
  | .recoverDataPage mtime sum oldBlkaddr newBlkaddr =>
      (recoverDataPage sbi mtime sum oldBlkaddr newBlkaddr manager.state).map
        fun state => { manager with state := state }
  | .endRecovery env =>
      (allocateNewSegments sbi env manager.state).map
        fun state => { manager with state := { state with porDoing := false } }

/-- What the callers of an operation promise. -/
def Admitted (sbi : Sbi) (manager : Manager) : Operation → Prop
  | .allocateDataBlock _ _ oldBlkaddr _ _ =>
      manager.checkpointing = false ∧ manager.state.porDoing = false ∧
        OldBlock sbi manager.state oldBlkaddr
  | .allocateDummyDataBlock _ _ _ =>
      manager.checkpointing = false ∧ manager.state.porDoing = false
  | .invalidateBlocks _ addr =>
      manager.checkpointing = false ∧ (addr = newAddr ∨ ValidBlock sbi manager.state addr)
  | .allocateNewSegments _ => manager.checkpointing = false
  | .flushSitEntries _ => manager.checkpointing = false ∧ manager.state.porDoing = false
  | .clearPrefreeSegments => manager.checkpointing = true
  | .startRecovery => manager.checkpointing = false
  | .recoverDataPage _ _ oldBlkaddr newBlkaddr =>
      manager.checkpointing = false ∧ manager.state.porDoing = true ∧
        OldBlock sbi manager.state oldBlkaddr ∧
        (manager.state.sit.sentries (sbi.getSegno newBlkaddr)).curValidMap
          (sbi.getBlkoffFromSeg0 newBlkaddr) = false ∧
        ∀ type, recoveryLog sbi oldBlkaddr newBlkaddr manager.state = some type →
          type.isDataseg = true
  | .endRecovery _ => manager.checkpointing = false

/-- The operation is not the padding of the disaggregated mapping. -/
def Operation.NoPadding : Operation → Prop
  | .allocateDummyDataBlock _ _ _ => False
  | _ => True

/-! ## The invariant of all runs -/

/-- The logs which may be written: while data is recovered, those for nodes. -/
def readyLogs (state : State) : Set CursegType :=
  {type | state.porDoing = false ∨ type.isDataseg = false}

/-- The invariant of the segment manager: in a checkpoint, all entries are written and the prefree
segments are free already. -/
inductive Sound (sbi : Sbi) : Manager → Prop
  | running {state : State} (consistent : Consistent sbi ∅ (readyLogs state) state) :
      Sound sbi ⟨state, false⟩
  | checkpointing {written : State} (consistent : Consistent sbi ∅ (readyLogs written) written)
      (clean : AllClean sbi written.sit) :
      Sound sbi ⟨setPrefreeAsFreeSegments sbi written, true⟩

theorem Sound.consistent {manager : Manager} (sound : Sound sbi manager)
    (between : manager.checkpointing = false) :
    Consistent sbi ∅ (readyLogs manager.state) manager.state := by
  cases sound with
  | running consistent => exact consistent
  | checkpointing => cases between

theorem readyLogs_congr (same : next.porDoing = state.porDoing) :
    readyLogs next = readyLogs state := by
  simp only [readyLogs, same]

theorem mem_readyLogs (recovered : state.porDoing = false) (type : CursegType) :
    type ∈ readyLogs state := .inl recovered

theorem sound_of_consistent {manager : Manager} (between : manager.checkpointing = false)
    (same : next.porDoing = manager.state.porDoing)
    (consistent : Consistent sbi ∅ (readyLogs manager.state) next) :
    Sound sbi { manager with state := next } := by
  rw [← readyLogs_congr same] at consistent
  rw [between]
  exact .running consistent

/-- `flush_sit_entries` takes the first step of a checkpoint. -/
theorem sound_flushSitEntries {cpc : CpControl} {flushed : State × CpControl}
    (consistent : Consistent sbi ∅ (readyLogs state) state)
    (flush : flushSitEntries sbi cpc state = some flushed) : Sound sbi ⟨flushed.1, true⟩ := by
  obtain ⟨written, writes, clean, state_eq⟩ := flushSitEntries_written consistent flush
  rw [state_eq]
  refine .checkpointing ?_ clean
  rw [readyLogs_congr writes.porDoing]
  exact writes.consistent consistent

/-- `clear_prefree_segments` takes the second one. -/
theorem sound_clearPrefreeSegments {written : State}
    (consistent : Consistent sbi ∅ (readyLogs written) written)
    (clean : AllClean sbi written.sit)
    (clear : clearPrefreeSegments sbi (setPrefreeAsFreeSegments sbi written) = some next) :
    Sound sbi ⟨next, false⟩ := by
  have cleared := clearPrefreeSegments_cleared clear
  refine .running ?_
  rw [readyLogs_congr cleared.porDoing]
  exact cleared.consistent clean consistent

theorem sound_startRecovery (consistent : Consistent sbi ∅ (readyLogs state) state) :
    Sound sbi ⟨{ state with porDoing := true }, false⟩ := by
  refine .running ?_
  have fewer : Consistent sbi ∅ {type | type.isDataseg = false} state :=
    consistent.mono_ready fun _ isNode => .inr isNode
  have logs : readyLogs { state with porDoing := true } = {type | type.isDataseg = false} := by
    simp [readyLogs]
  rw [logs]
  exact { fewer with cursors := fun type mem =>
    ⟨(fewer.cursors type mem).inSegment, (fewer.cursors type mem).here,
      (fewer.cursors type mem).behind⟩ }

theorem sound_endRecovery {env : Env} (consistent : Consistent sbi ∅ (readyLogs state) state)
    (renewed : allocateNewSegments sbi env state = some next) :
    Sound sbi ⟨{ next with porDoing := false }, false⟩ := by
  obtain ⟨all, _⟩ := consistent_allocateNewSegments consistent renewed
  refine .running { all with cursors := fun type _ => ?_ }
  have mem : type ∈ readyLogs state ∪ {type | type.isDataseg = true} := by
    cases kind : type.isDataseg with
    | true => exact .inr kind
    | false => exact .inl (.inr kind)
  exact ⟨(all.cursors type mem).inSegment, (all.cursors type mem).here,
    (all.cursors type mem).behind⟩

/-- Every operation but the padding keeps the invariant. -/
theorem step_sound {manager next : Manager} {operation : Operation} (sound : Sound sbi manager)
    (admitted : Admitted sbi manager operation) (noPadding : operation.NoPadding)
    (stepped : step sbi manager operation = some next) : Sound sbi next := by
  cases operation with
  | allocateDataBlock env page oldBlkaddr sum type =>
      obtain ⟨between, recovered, oldBlock⟩ := admitted
      obtain ⟨⟨allocated, result⟩, allocation, rfl⟩ := Option.map_eq_some_iff.mp stepped
      have kept := consistent_allocateDataBlock (sound.consistent between)
        (mem_readyLogs recovered type) (.inl oldBlock) allocation
      exact sound_of_consistent between kept.porDoing kept.consistent
  | allocateDummyDataBlock => exact noPadding.elim
  | invalidateBlocks mtime addr =>
      obtain ⟨between, admitted⟩ := admitted
      obtain ⟨invalidated, invalidation, rfl⟩ := Option.map_eq_some_iff.mp stepped
      obtain ⟨sit, dirty, invalidation', kept⟩ :=
        consistent_invalidateBlocks mtime (sound.consistent between) admitted
      obtain rfl := Option.some.inj (invalidation'.symm.trans invalidation)
      exact sound_of_consistent between rfl kept
  | allocateNewSegments env =>
      obtain ⟨renewed, renewal, rfl⟩ := Option.map_eq_some_iff.mp stepped
      obtain ⟨kept, same⟩ := consistent_allocateNewSegments (sound.consistent admitted) renewal
      exact sound_of_consistent admitted same (kept.mono_ready Set.subset_union_left)
  | flushSitEntries cpc =>
      obtain ⟨flushed, flush, rfl⟩ := Option.map_eq_some_iff.mp stepped
      exact sound_flushSitEntries (sound.consistent admitted.1) flush
  | clearPrefreeSegments =>
      obtain ⟨cleared, clear, rfl⟩ := Option.map_eq_some_iff.mp stepped
      cases sound with
      | running => cases admitted
      | checkpointing consistent clean => exact sound_clearPrefreeSegments consistent clean clear
  | startRecovery =>
      obtain rfl := Option.some.inj stepped
      have between : manager.checkpointing = false := admitted
      rw [between]
      exact sound_startRecovery (sound.consistent between)
  | recoverDataPage mtime sum oldBlkaddr newBlkaddr =>
      obtain ⟨between, recovering, oldBlock, invalid, isData⟩ := admitted
      obtain ⟨recovered, recovery, rfl⟩ := Option.map_eq_some_iff.mp stepped
      obtain ⟨type, log, _⟩ := Option.bind_eq_some_iff.mp recovery
      obtain ⟨kept, same⟩ :=
        consistent_recoverDataPage (sound.consistent between) invalid oldBlock log recovery
      refine sound_of_consistent between same ?_
      refine kept.with_ready fun other mem => kept.cursors other ⟨mem, ?_⟩
      rintro rfl
      obtain notRecovering | isNode := mem
      · exact absurd (recovering.symm.trans notRecovering) (by simp)
      · exact absurd ((isData _ log).symm.trans isNode) (by simp)
  | endRecovery env =>
      obtain ⟨renewed, renewal, rfl⟩ := Option.map_eq_some_iff.mp stepped
      have between : manager.checkpointing = false := admitted
      rw [between]
      exact sound_endRecovery (sound.consistent between) renewal

/-- The manager after a mount. -/
theorem sound_mounted {mtime : Nat} (image_consistent : ImageConsistent sbi image)
    (mounted : buildSegmentManager sbi mtime image = some state) : Sound sbi ⟨state, false⟩ := by
  obtain ⟨consistent, _⟩ := buildSegmentManager_consistent image_consistent mounted
  exact .running (consistent.mono_ready (Set.subset_univ _))

end F2fs
end StorageStack
