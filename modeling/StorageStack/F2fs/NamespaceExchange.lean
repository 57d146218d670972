import StorageStack.F2fs.NamespaceRename

/-!
# Exchanging names

`f2fs_cross_rename` exchanges the inodes of two entries, corrects the parents of directories and the
counts of the two directories that hold the entries.
-/

namespace StorageStack.F2fs

namespace NameView

/-- A directory that moves gets another parent. -/
def withParent (view : NameView) (moves : Bool) (ino parent : BitVec 32) (mode : BitVec 16) : NameView :=
  if moves = true then view.setEntry ino dotDotName (some ⟨⟨parent, mode⟩, 0, 1⟩) else view

variable {view : NameView} {root ino parent : BitVec 32} {mode : BitVec 16} {moves : Bool}

@[simp] theorem modes_withParent : (view.withParent moves ino parent mode).modes = view.modes := by
  cases moves <;> rfl

@[simp] theorem links_withParent : (view.withParent moves ino parent mode).links = view.links := by
  cases moves <;> rfl

@[simp] theorem orphans_withParent :
    (view.withParent moves ino parent mode).orphans = view.orphans := by
  cases moves <;> rfl

theorem ents_withParent {dirIno : BitVec 32} {name : FileName} (proper : name.Proper) :
    (view.withParent moves ino parent mode).ents dirIno name = view.ents dirIno name := by
  cases moves with
  | false => rfl
  | true => exact view.ents_setEntry_of_ne (fun same => proper.2 (Prod.mk.inj same).2) _

theorem graph_withParent : (view.withParent moves ino parent mode).graph root =
    { view.graph root with
      parent :=
        if moves = true then Function.update (view.graph root).parent ino parent
        else (view.graph root).parent } := by
  cases moves with
  | false => rfl
  | true => exact graph_setParent ino ⟨parent, mode⟩

theorem Formed.withParent (formed : view.Formed) (directory : moves = true → view.IsDir ino) :
    (view.withParent moves ino parent mode).Formed := by
  cases moves with
  | false => exact formed
  | true => exact formed.setEntry (directory rfl) fun _ _ proper => absurd rfl proper.2

/-- What `f2fs_cross_rename` makes of a view. -/
def exchanged (view : NameView) (oldDir : BitVec 32) (oldName : FileName) (oldPlace : EntryPlace)
    (newDir : BitVec 32) (newName : FileName) (newPlace : EntryPlace) (oldMoves newMoves : Bool)
    (oldMode newMode : BitVec 16) (oldLinks newLinks : Nat) : NameView :=
  (((((view.withParent oldMoves oldPlace.inode.ino newDir newMode).withParent newMoves
    newPlace.inode.ino oldDir oldMode).setEntry oldDir oldName
      (some { oldPlace with inode := newPlace.inode })).setLinks oldDir oldLinks).setEntry newDir newName
        (some { newPlace with inode := oldPlace.inode })).setLinks newDir newLinks

variable {oldDir newDir : BitVec 32} {oldName newName : FileName} {oldPlace newPlace : EntryPlace}
  {oldMoves newMoves : Bool} {oldMode newMode : BitVec 16} {oldLinks newLinks : Nat}

theorem modes_exchanged : (view.exchanged oldDir oldName oldPlace newDir newName newPlace oldMoves
    newMoves oldMode newMode oldLinks newLinks).modes = view.modes := by
  simp [exchanged]

theorem orphans_exchanged : (view.exchanged oldDir oldName oldPlace newDir newName newPlace oldMoves
    newMoves oldMode newMode oldLinks newLinks).orphans = view.orphans := by
  simp [exchanged]

theorem links_exchanged : (view.exchanged oldDir oldName oldPlace newDir newName newPlace oldMoves
    newMoves oldMode newMode oldLinks newLinks).links =
      Function.update (Function.update view.links oldDir oldLinks) newDir newLinks := by
  simp [exchanged, links_setLinks]

theorem Formed.exchanged (formed : view.Formed) (alive : view.IsDir oldDir) (alive' : view.IsDir newDir)
    (typed : view.modes oldPlace.inode.ino = some oldPlace.inode.mode)
    (typed' : view.modes newPlace.inode.ino = some newPlace.inode.mode)
    (moves : oldMoves = true → view.IsDir oldPlace.inode.ino)
    (moves' : newMoves = true → view.IsDir newPlace.inode.ino) :
    (view.exchanged oldDir oldName oldPlace newDir newName newPlace oldMoves newMoves oldMode newMode
      oldLinks newLinks).Formed := by
  have known : ∀ {view' : NameView} {ino}, view'.modes = view.modes → view.IsDir ino → view'.IsDir ino := by
    intro view' ino same directory
    rwa [IsDir, same]
  have formed₁ := @Formed.withParent _ oldPlace.inode.ino newDir newMode oldMoves formed moves
  have formed₂ := @Formed.withParent _ newPlace.inode.ino oldDir oldMode newMoves formed₁
    fun moving => known modes_withParent (moves' moving)
  have formed₃ := @Formed.setEntry _ formed₂ oldDir (known (by simp) alive) oldName
    (some { oldPlace with inode := newPlace.inode }) fun entry same _ => by
      obtain rfl := Option.some.inj same
      simpa using typed'
  have formed₄ := formed₃.setLinks (known (by simp) alive).known oldLinks
  have formed₅ := @Formed.setEntry _ formed₄ newDir (known (by simp) alive') newName
    (some { newPlace with inode := oldPlace.inode }) fun entry same _ => by
      obtain rfl := Option.some.inj same
      simpa using typed
  exact formed₅.setLinks (known (by simp) alive').known newLinks

end NameView

/-- The change of a link count by `adjust_nlink`. -/
def adjusted (links : Nat) (change : Int) : Nat :=
  if change = 0 then links else if change < 0 then links - 1 else links + 1

namespace Shows

variable {ns : Namespace} {view : NameView} {live stale : BitVec 32 → Prop}
  {ino dirIno parent : BitVec 32} {faults : NameFaults}

theorem withParent (shows : Shows ns view live stale) (ino : BitVec 32) {mode : BitVec 16}
    (target : view.modes parent = some mode) {parentEntry : Option FoundEntry}
    (found : ∀ de, parentEntry = some de →
      de.block = 0 ∧ de.bitPos = 1 ∧ live ino ∧ view.modes ino ≠ none) : ∃ ns',
      ns.setParent ino parentEntry parent = some ns' ∧
      Shows ns' (view.withParent parentEntry.isSome ino parent mode) live stale := by
  cases parentEntry with
  | none => exact ⟨ns, rfl, shows⟩
  | some de =>
      obtain ⟨block, slot, alive, known⟩ := found de rfl
      exact shows.setParent alive known block slot target

theorem adjustNlink (shows : Shows ns view live stale) (known : view.modes ino ≠ none) (change : Int)
    (enough : change < 0 → view.links ino ≠ 0) : ∃ ns', ns.adjustNlink ino change = some ns' ∧
      Shows ns' (view.setLinks ino (adjusted (view.links ino) change)) live
        fun other => other = ino ∨ stale other := by
  rw [Namespace.adjustNlink, adjusted]
  split
  · refine ⟨ns, rfl, ?_⟩
    rw [NameView.setLinks_self]
    exact shows.weaken (fun _ => id) fun _ => .inr
  · split
    · exact shows.dropNlink known (enough ‹_›)
    · exact ⟨_, rfl, shows.incNlink⟩

/-- What `f2fs_cross_rename` does behind its last failure. -/
theorem exchangeEntries (shows : Shows ns view live stale) {oldDir newDir : BitVec 32}
    {oldName newName : FileName} {oldPlace newPlace : EntryPlace}
    (alive : live oldDir) (alive' : live newDir) (proper : oldName.Proper) (proper' : newName.Proper)
    (here : view.ents oldDir oldName = some oldPlace) (here' : view.ents newDir newName = some newPlace)
    (keys : (oldDir, oldName) ≠ (newDir, newName)) {oldMode newMode : BitVec 16}
    (known : view.modes oldDir = some oldMode) (known' : view.modes newDir = some newMode)
    (typed : view.modes oldPlace.inode.ino = some oldPlace.inode.mode)
    (typed' : view.modes newPlace.inode.ino = some newPlace.inode.mode)
    {oldDirEntry newDirEntry : Option FoundEntry}
    (found : ∀ de, oldDirEntry = some de → de.block = 0 ∧ de.bitPos = 1 ∧ live oldPlace.inode.ino)
    (found' : ∀ de, newDirEntry = some de → de.block = 0 ∧ de.bitPos = 1 ∧ live newPlace.inode.ino)
    {oldNlink : Int} (enough : oldNlink < 0 → view.links oldDir ≠ 0)
    (enough' : 0 < oldNlink → view.links newDir ≠ 0) (different : oldNlink ≠ 0 → oldDir ≠ newDir)
    (present : ∀ ino, faults.node ino ≠ some .noent) : ∃ ns',
      ns.exchangeEntries oldDir (oldPlace.found oldName) oldPlace.inode.ino newDir
        (newPlace.found newName) newPlace.inode.ino oldDirEntry newDirEntry oldNlink faults = some ns' ∧
      Shows ns' (view.exchanged oldDir oldName oldPlace newDir newName newPlace oldDirEntry.isSome
        newDirEntry.isSome oldMode newMode (adjusted (view.links oldDir) oldNlink)
        (adjusted (view.links newDir) (-oldNlink))) live stale := by
  have inUse : ∀ {ino mode}, view.modes ino = some mode → view.modes ino ≠ none := by
    intro ino mode stored
    rw [stored]
    exact Option.some_ne_none _
  -- the parents
  obtain ⟨ns₁, set₁, shows₁⟩ := shows.withParent oldPlace.inode.ino known' fun de same =>
    ⟨(found de same).1, (found de same).2.1, (found de same).2.2, inUse typed⟩
  have known₁ : (view.withParent oldDirEntry.isSome oldPlace.inode.ino newDir newMode).modes oldDir =
      some oldMode := by rw [NameView.modes_withParent, known]
  obtain ⟨ns₂, set₂, shows₂⟩ := shows₁.withParent newPlace.inode.ino known₁ fun de same =>
    ⟨(found' de same).1, (found' de same).2.1, (found' de same).2.2, by
      rw [NameView.modes_withParent]
      exact inUse typed'⟩
  -- the old entry
  have here₂ : ((view.withParent oldDirEntry.isSome oldPlace.inode.ino newDir newMode).withParent
      newDirEntry.isSome newPlace.inode.ino oldDir oldMode).ents oldDir oldName = some oldPlace := by
    rw [NameView.ents_withParent proper, NameView.ents_withParent proper, here]
  obtain ⟨ns₃, set₃, shows₃⟩ := shows₂.setLink alive proper here₂ (by simpa using inUse known)
    (by simpa using typed')
  have written₃ := shows₃.updateInodePage (present oldPlace.inode.ino)
  obtain ⟨ns₄, set₄, shows₄⟩ := @adjustNlink _ _ _ _ oldDir written₃ (by simpa using inUse known) oldNlink
    (by simpa using enough)
  have written₄ := shows₄.updateInodePage (present oldDir)
  simp only [NameView.links_setEntry, NameView.links_withParent] at written₄
  -- the new entry
  have here₄ : ((((view.withParent oldDirEntry.isSome oldPlace.inode.ino newDir newMode).withParent
      newDirEntry.isSome newPlace.inode.ino oldDir oldMode).setEntry oldDir oldName
        (some { oldPlace with inode := newPlace.inode })).setLinks oldDir
          (adjusted (view.links oldDir) oldNlink)).ents newDir newName = some newPlace := by
    rw [NameView.ents_setLinks, NameView.ents_setEntry_of_ne _ (Ne.symm keys),
      NameView.ents_withParent proper', NameView.ents_withParent proper', here']
  obtain ⟨ns₅, set₅, shows₅⟩ := written₄.setLink alive' proper' here₄ (by simpa using inUse known')
    (by simpa using typed)
  have written₅ := shows₅.updateInodePage (present newPlace.inode.ino)
  have kept : Function.update view.links oldDir (adjusted (view.links oldDir) oldNlink) newDir =
      view.links newDir := by
    by_cases same : newDir = oldDir
    · have still : oldNlink = 0 := by
        by_contra moved
        exact different moved same.symm
      rw [same, still, Function.update_self, adjusted, if_pos rfl]
    · exact Function.update_of_ne same _ _
  obtain ⟨ns₆, set₆, shows₆⟩ := @adjustNlink _ _ _ _ newDir written₅ (by simpa using inUse known')
    (-oldNlink) (by
      intro negative
      simp only [NameView.links_setEntry, NameView.links_setLinks, NameView.links_withParent, kept]
      exact enough' (by omega))
  have written₆ := shows₆.updateInodePage (present newDir)
  simp only [NameView.links_setEntry, NameView.links_setLinks, NameView.links_withParent, kept]
    at written₆
  refine ⟨_, ?_, written₆.weaken (fun _ => id) ?_⟩
  · simp only [Namespace.exchangeEntries, Option.bind_eq_bind, set₁, Option.bind_some, set₂, set₃, set₄,
      set₅, set₆]
  · rintro other ⟨notNew, rfl | ⟨_, notOld, rfl | ⟨_, stale⟩⟩⟩
    · exact absurd rfl notNew
    · exact absurd rfl notOld
    · exact stale

end Shows

namespace NamesSound

variable {root : BitVec 32} {ns ns' : Namespace} {view : NameView} {oldDir newDir : BitVec 32}
  {oldName newName : FileName} {oldPlace newPlace : EntryPlace} {oldMoves newMoves : Bool}
  {faults : NameFaults}

/-- The graph after an exchange. -/
theorem graph_exchanged (sound : NamesSound root ns view)
    (stored : (view.graph root).entries (oldDir, oldName) = some oldPlace.inode.ino)
    (stored' : (view.graph root).entries (newDir, newName) = some newPlace.inode.ino)
    (different : oldPlace.inode.ino ≠ newPlace.inode.ino)
    (moves : oldMoves = true ↔ oldDir ≠ newDir ∧ view.IsDir oldPlace.inode.ino)
    (moves' : newMoves = true ↔ oldDir ≠ newDir ∧ view.IsDir newPlace.inode.ino)
    (oldMode newMode : BitVec 16) :
    (view.exchanged oldDir oldName oldPlace newDir newName newPlace oldMoves newMoves oldMode newMode
      (adjusted (view.links oldDir) (Namespace.exchangedNlink oldMoves newMoves))
      (adjusted (view.links newDir) (-Namespace.exchangedNlink oldMoves newMoves))).graph root =
      (view.graph root).exchange (oldDir, oldName) (newDir, newName) oldPlace.inode.ino
        newPlace.inode.ino := by
  obtain ⟨proper, _⟩ := NameView.graph_entries_eq_some.mp stored
  obtain ⟨proper', _⟩ := NameView.graph_entries_eq_some.mp stored'
  have live := (sound.exact.inDir stored).2
  have live' := (sound.exact.inDir stored').2
  have isDir : (view.graph root).isDir = view.IsDir := rfl
  have parent : view.IsDir oldPlace.inode.ino → (view.graph root).parent oldPlace.inode.ino = oldDir :=
    fun directory => (sound.exact.child stored directory).2.2
  have parent' : view.IsDir newPlace.inode.ino → (view.graph root).parent newPlace.inode.ino = newDir :=
    fun directory => (sound.exact.child stored' directory).2.2
  rw [NameView.exchanged, NameView.graph_setLinks, NameView.graph_setEntry proper',
    NameView.graph_setLinks, NameView.graph_setEntry proper, NameView.graph_withParent,
    NameView.graph_withParent]
  refine LinkGraph.ext rfl rfl ?_ ?_ rfl
  · funext other
    have more : view.IsDir oldPlace.inode.ino → 2 < view.links oldDir :=
      fun directory => sound.exact.two_lt_links stored directory
    have more' : view.IsDir newPlace.inode.ino → 2 < view.links newDir :=
      fun directory => sound.exact.two_lt_links stored' directory
    simp only [LinkGraph.exchange, NameView.graph, Function.update_apply, Namespace.exchangedNlink,
      adjusted]
    cases oldMoves <;> cases newMoves <;>
      simp only [Bool.false_eq_true, false_iff, true_iff, if_true, if_false, reduceCtorEq] at moves moves' ⊢ <;>
      grind
  · funext other
    simp only [LinkGraph.exchange]
    rw [← isDir] at moves moves' parent parent'
    clear sound stored stored' live live' proper proper'
    generalize (view.graph root).parent = parents at parent parent' ⊢
    cases oldMoves <;> cases newMoves <;>
      simp only [Bool.false_eq_true, false_iff, true_iff, if_true, if_false,
        Function.update_apply] at moves moves' ⊢ <;>
      grind

/-- The exchange keeps the counts exact. -/
theorem exchange (sound : NamesSound root ns view)
    (stored : (view.graph root).entries (oldDir, oldName) = some oldPlace.inode.ino)
    (stored' : (view.graph root).entries (newDir, newName) = some newPlace.inode.ino)
    (here : view.ents oldDir oldName = some oldPlace) (here' : view.ents newDir newName = some newPlace)
    (different : oldPlace.inode.ino ≠ newPlace.inode.ino)
    (apart : view.IsDir oldPlace.inode.ino →
      ¬Above (view.graph root).parent oldPlace.inode.ino newDir)
    (apart' : view.IsDir newPlace.inode.ino →
      ¬Above (view.graph root).parent newPlace.inode.ino oldDir)
    (moves : oldMoves = true ↔ oldDir ≠ newDir ∧ view.IsDir oldPlace.inode.ino)
    (moves' : newMoves = true ↔ oldDir ≠ newDir ∧ view.IsDir newPlace.inode.ino)
    {oldDirEntry newDirEntry : Option FoundEntry} (some_entry : oldDirEntry.isSome = oldMoves)
    (some_entry' : newDirEntry.isSome = newMoves)
    (found : ∀ de, oldDirEntry = some de → de.block = 0 ∧ de.bitPos = 1)
    (found' : ∀ de, newDirEntry = some de → de.block = 0 ∧ de.bitPos = 1)
    (present : ∀ ino, faults.node ino ≠ some .noent) : ∃ ns',
      ns.exchangeEntries oldDir (oldPlace.found oldName) oldPlace.inode.ino newDir
        (newPlace.found newName) newPlace.inode.ino oldDirEntry newDirEntry
        (Namespace.exchangedNlink oldMoves newMoves) faults = some ns' ∧
      NamesAre root ns' ((view.graph root).exchange (oldDir, oldName) (newDir, newName) oldPlace.inode.ino
        newPlace.inode.ino) := by
  obtain ⟨proper, _⟩ := NameView.graph_entries_eq_some.mp stored
  obtain ⟨proper', _⟩ := NameView.graph_entries_eq_some.mp stored'
  have live : (view.graph root).Live oldDir := sound.exact.inDir stored
  have live' : (view.graph root).Live newDir := sound.exact.inDir stored'
  have counted : view.links oldDir ≠ 0 := live.2
  have counted' : view.links newDir ≠ 0 := live'.2
  have keys : (oldDir, oldName) ≠ (newDir, newName) := by
    intro same
    rw [same, stored'] at stored
    exact different (Option.some.inj stored).symm
  have more : oldMoves = true → 2 < view.links oldDir :=
    fun moving => sound.exact.two_lt_links stored (moves.mp moving).2
  have more' : newMoves = true → 2 < view.links newDir :=
    fun moving => sound.exact.two_lt_links stored' (moves'.mp moving).2
  have typed := sound.formed.typed proper here
  have typed' := sound.formed.typed proper' here'
  obtain ⟨oldMode, known, _⟩ := live.1
  obtain ⟨newMode, known', _⟩ := live'.1
  have graph := sound.graph_exchanged stored stored' different moves moves' oldMode newMode
  have graph_exact := sound.exact.exchange stored stored' different apart apart'
  have moved : Namespace.exchangedNlink oldMoves newMoves ≠ 0 → oldDir ≠ newDir := by
    intro change same
    have still : oldMoves = false := Bool.eq_false_iff.mpr fun moving => (moves.mp moving).1 same
    have still' : newMoves = false := Bool.eq_false_iff.mpr fun moving => (moves'.mp moving).1 same
    rw [still, still'] at change
    exact change rfl
  -- no count falls to zero
  have zero : ∀ other, (view.exchanged oldDir oldName oldPlace newDir newName newPlace oldMoves newMoves
      oldMode newMode (adjusted (view.links oldDir) (Namespace.exchangedNlink oldMoves newMoves))
        (adjusted (view.links newDir) (-Namespace.exchangedNlink oldMoves newMoves))).links other = 0 ↔
      view.links other = 0 := by
    intro other
    rw [NameView.links_exchanged]
    simp only [Function.update_apply, adjusted, Namespace.exchangedNlink]
    grind
  obtain ⟨ns', exchanged, shows⟩ := sound.shows.exchangeEntries live.1 live'.1 proper proper' here here'
    keys known known' typed typed'
    (fun de same => ⟨(found de same).1, (found de same).2, (moves.mp (by rw [← some_entry, same]; rfl)).2⟩)
    (fun de same =>
      ⟨(found' de same).1, (found' de same).2, (moves'.mp (by rw [← some_entry', same]; rfl)).2⟩)
    (fun _ => counted) (fun _ => counted') moved present
  rw [some_entry, some_entry'] at shows
  refine ⟨ns', exchanged, _, ⟨?_, ?_, ?_, shows.weaken (fun _ => ?_) ?_⟩, graph⟩
  · rw [graph]
    exact graph_exact
  · exact sound.formed.exchanged live.1 live'.1 typed typed' (fun moving => (moves.mp moving).2)
      fun moving => (moves'.mp moving).2
  · refine sound.orphans.congr NameView.orphans_exchanged fun other => ?_
    rw [NameView.modes_exchanged, zero]
  · intro directory
    rwa [NameView.IsDir, NameView.modes_exchanged] at directory
  · exact fun other unlinked => (zero other).mpr unlinked

/-- `f2fs_cross_rename` exchanges the two names, or changes nothing. -/
theorem f2fsCrossRename (sound : NamesSound root ns view) {oldIno newIno : BitVec 32}
    (stored : (view.graph root).entries (oldDir, oldName) = some oldIno)
    (stored' : (view.graph root).entries (newDir, newName) = some newIno) (different : oldIno ≠ newIno)
    (apart : (view.graph root).isDir oldIno → ¬Above (view.graph root).parent oldIno newDir)
    (apart' : (view.graph root).isDir newIno → ¬Above (view.graph root).parent newIno oldDir)
    (present : ∀ ino, faults.node ino ≠ some .noent) {result : Except NameError Unit}
    (ends : ns.f2fsCrossRename oldDir oldName oldIno newDir newName newIno faults =
      some (ns', result)) :
    (∀ err, result = .error err → NamesAre root ns' (view.graph root)) ∧
    (result = .ok () →
      NamesAre root ns' ((view.graph root).exchange (oldDir, oldName) (newDir, newName) oldIno newIno)) := by
  have live := sound.exact.inDir stored
  have live' := sound.exact.inDir stored'
  rw [Namespace.f2fsCrossRename] at ends
  split at ends
  · cases ends
  · next ns₁ search =>
      obtain ⟨rfl, rfl⟩ := Prod.mk.inj (Option.some.inj ends)
      exact ⟨fun _ _ => (sound.findEntry live.1 search).1.is, fun impossible => by cases impossible⟩
  · next ns₁ oldEntry search =>
      obtain ⟨sound₁, only⟩ := sound.findEntry live.1 search
      obtain ⟨oldPlace, here, rfl⟩ := only oldEntry rfl
      split at ends
      · cases ends
      · next ns₂ search' =>
          obtain ⟨rfl, rfl⟩ := Prod.mk.inj (Option.some.inj ends)
          exact ⟨fun _ _ => (sound₁.findEntry live'.1 search').1.is, fun impossible => by cases impossible⟩
      · next ns₂ newEntry search' =>
          obtain ⟨sound₂, only'⟩ := sound₁.findEntry live'.1 search'
          obtain ⟨newPlace, here', rfl⟩ := only' newEntry rfl
          obtain ⟨proper, rfl⟩ := place_of_entries stored here
          obtain ⟨proper', rfl⟩ := place_of_entries stored' here'
          simp only [Option.bind_eq_bind, Option.bind_eq_some_iff] at ends
          obtain ⟨oldNode, oldStored, newNode, newStored, oldDirEntry, oldSearch, newDirEntry, newSearch,
            ends⟩ := ends
          have moves : ∀ {place : EntryPlace} {node : NameInode},
              ns₂.inodes place.inode.ino = some node → ((oldDir != newDir && node.isDir) = true ↔
                oldDir ≠ newDir ∧ view.IsDir place.inode.ino) := by
            intro place node stored
            rw [Bool.and_eq_true, bne_iff_ne, NameView.IsDir, sound₂.shows.mode_of_node stored]
            simp only [Option.some.injEq, exists_eq_left']
            exact Iff.rfl
          split at ends
          · obtain ⟨rfl, rfl⟩ := Prod.mk.inj (Option.some.inj ends)
            exact ⟨fun _ _ => sound₂.is, fun impossible => by cases impossible⟩
          · next readable =>
              split at ends
              · obtain ⟨rfl, rfl⟩ := Prod.mk.inj (Option.some.inj ends)
                exact ⟨fun _ _ => sound₂.is, fun impossible => by cases impossible⟩
              · split at ends
                · obtain ⟨rfl, rfl⟩ := Prod.mk.inj (Option.some.inj ends)
                  exact ⟨fun _ _ => sound₂.is, fun impossible => by cases impossible⟩
                · obtain ⟨rfl, rfl⟩ := Prod.mk.inj (Option.some.inj ends)
                  exact ⟨fun _ _ => sound₂.is, fun impossible => by cases impossible⟩
                · have some_entry := Shows.parentEntry_isSome oldSearch fun held => readable (.inl held)
                  have some_entry' := Shows.parentEntry_isSome newSearch fun held => readable (.inr held)
                  obtain ⟨ns₃, exchanged, is⟩ := sound₂.exchange stored stored' here here' different apart
                    apart' (moves oldStored) (moves newStored) some_entry some_entry'
                    (by rintro de rfl; exact (Shows.parentEntry_place oldSearch).2)
                    (by rintro de rfl; exact (Shows.parentEntry_place newSearch).2) present
                  rw [some_entry, some_entry', exchanged] at ends
                  obtain ⟨rfl, rfl⟩ := Prod.mk.inj (Option.some.inj ends)
                  exact ⟨fun _ impossible => (by cases impossible), fun _ => is⟩

end NamesSound

end StorageStack.F2fs
