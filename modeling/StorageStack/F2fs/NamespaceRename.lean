import StorageStack.F2fs.NamespaceCalls

/-!
# Renaming

`f2fs_rename` takes the target over or adds the new name, and then removes the old one;
`f2fs_cross_rename` exchanges two entries.
-/

namespace StorageStack.F2fs

namespace NameView

/-- The old name goes, and a directory gets its new parent and no longer counts for the old one. -/
def away (view : NameView) (oldDir : BitVec 32) (oldName : FileName) (oldIno newDir : BitVec 32)
    (mode : BitVec 16) (directory : Bool) : NameView :=
  let cleared := view.setEntry oldDir oldName none
  if directory = true then
    (if oldDir = newDir then cleared
      else cleared.setEntry oldIno dotDotName (some ⟨⟨newDir, mode⟩, 0, 1⟩)).setLinks oldDir
        (view.links oldDir - 1)
  else cleared

variable {view : NameView} {root oldDir oldIno newDir : BitVec 32} {oldName : FileName}
  {mode : BitVec 16} {directory : Bool}

theorem modes_away : (view.away oldDir oldName oldIno newDir mode directory).modes = view.modes := by
  rw [away]
  split
  · split <;> rfl
  · rfl

theorem orphans_away :
    (view.away oldDir oldName oldIno newDir mode directory).orphans = view.orphans := by
  rw [away]
  split
  · split <;> rfl
  · rfl

theorem links_away : (view.away oldDir oldName oldIno newDir mode directory).links =
    if directory = true then Function.update view.links oldDir (view.links oldDir - 1)
    else view.links := by
  rw [away]
  split
  · split <;> rfl
  · rfl

theorem graph_away (proper : oldName.Proper) :
    (view.away oldDir oldName oldIno newDir mode directory).graph root =
      { view.graph root with
        entries := Function.update (view.graph root).entries (oldDir, oldName) none
        links :=
          if directory = true then Function.update view.links oldDir (view.links oldDir - 1)
          else view.links
        parent :=
          if directory = true ∧ oldDir ≠ newDir then
            Function.update (view.graph root).parent oldIno newDir
          else (view.graph root).parent } := by
  have cleared := @graph_setEntry view root oldDir oldName proper none
  rw [away]
  cases directory with
  | false =>
      simp only [Bool.false_eq_true, if_false, false_and]
      exact cleared
  | true =>
      by_cases same : oldDir = newDir
      · simp only [true_and, same, if_pos, ne_eq, not_true_eq_false, if_false]
        rw [graph_setLinks, ← same, cleared]
        rfl
      · simp only [if_true, true_and, same, if_neg, ne_eq, not_false_eq_true]
        rw [graph_setLinks, graph_setParent, cleared]
        rfl

theorem Formed.away (formed : view.Formed) (alive : view.IsDir oldDir)
    (moving : directory = true → view.IsDir oldIno) :
    (view.away oldDir oldName oldIno newDir mode directory).Formed := by
  have cleared : (view.setEntry oldDir oldName none).Formed :=
    formed.setEntry alive fun _ impossible => by cases impossible
  rw [NameView.away]
  cases directory with
  | false => exact cleared
  | true =>
      rw [if_pos rfl]
      split
      · exact cleared.setLinks alive.known _
      · refine Formed.setLinks (cleared.setEntry (moving rfl) fun _ _ proper => ?_) alive.known _
        exact absurd rfl proper.2

end NameView

namespace Shows

variable {ns : Namespace} {view : NameView} {live stale : BitVec 32 → Prop}
  {ino oldDir oldIno newDir : BitVec 32} {oldName newName : FileName} {faults : NameFaults}

/-- An add for an inode in use adds the entry only. -/
theorem linkedView_same {place : EntryPlace} (known : view.modes place.inode.ino = some place.inode.mode) :
    Shows.linkedView view newDir newName place (view.links place.inode.ino) false view.orphans
      (view.ents place.inode.ino) = view.setEntry newDir newName (some place) := by
  have same : view.addNode place.inode.ino place.inode.mode (view.links place.inode.ino)
      (view.ents place.inode.ino) = view := by
    rw [NameView.addNode, ← known, Function.update_eq_self, Function.update_eq_self,
      Function.update_eq_self]
  rw [Shows.linkedView, same]
  rfl

/-- The links that a rename takes from its target. -/
theorem dropTarget (shows : Shows ns view live stale) (known : view.modes ino ≠ none) (linked : view.links ino ≠ 0)
    {directory : Bool} (two : directory = true → view.links ino = 2) : ∃ ns',
      ns.dropTarget ino directory = some ns' ∧
      Shows ns' (view.setLinks ino (if directory = true then 0 else view.links ino - 1)) live
        fun other => other = ino ∨ stale other := by
  rw [Namespace.dropTarget]
  cases directory with
  | false => exact shows.dropNlink known linked
  | true =>
      obtain ⟨ns₁, ns₂, dropped₁, dropped₂, shows₂⟩ := shows.dropNlink_twice known (two rfl)
      refine ⟨ns₂, ?_, shows₂⟩
      rw [if_pos rfl, dropped₁, Option.bind_some, dropped₂]

/-- What `f2fs_rename` does behind its last failure. -/
theorem renameAway (shows : Shows ns view live stale) (alive : live oldDir) (proper : oldName.Proper)
    {place : EntryPlace} (here : view.ents oldDir oldName = some place)
    (known : view.modes oldDir ≠ none) (linked : view.links oldDir ≠ 0)
    {mode : BitVec 16} (target : view.modes newDir = some mode) {parentEntry : Option FoundEntry}
    (found : ∀ de, parentEntry = some de →
      de.block = 0 ∧ de.bitPos = 1 ∧ live oldIno ∧ view.modes oldIno ≠ none)
    (present : ∀ ino, faults.node ino ≠ some .noent) : ∃ ns',
      ns.renameAway oldDir (place.found oldName) oldIno parentEntry newDir faults = some ns' ∧
      Shows ns' (view.away oldDir oldName oldIno newDir mode parentEntry.isSome) live stale := by
  have cleared := shows.clearEntry alive proper here known
  cases parentEntry with
  | none => exact ⟨_, rfl, cleared⟩
  | some de =>
      obtain ⟨block, slot, moving, known'⟩ := found de rfl
      rw [Namespace.renameAway, NameView.away, Option.isSome_some, if_pos rfl]
      dsimp only
      by_cases same : oldDir = newDir
      · rw [if_pos same, if_pos same]
        obtain ⟨ns₁, dropped, shows₁⟩ := cleared.dropNlink known linked
        refine ⟨ns₁.updateInodePage oldDir faults, ?_, ?_⟩
        · rw [Option.bind_eq_bind, Option.bind_some, dropped, Option.map_some]
        · refine (shows₁.updateInodePage (present oldDir)).weaken (fun _ => id) ?_
          rintro other ⟨different, rfl | stale⟩
          · exact absurd rfl different
          · exact stale
      · rw [if_neg same, if_neg same]
        obtain ⟨ns₁, linked', shows₁⟩ := cleared.setParent moving known' block slot target
        have written := @updateInodePage _ _ _ _ oldIno faults shows₁ (present oldIno)
        obtain ⟨ns₂, dropped, shows₂⟩ := written.dropNlink known linked
        refine ⟨ns₂.updateInodePage oldDir faults, ?_, ?_⟩
        · rw [linked', Option.map_some, Option.bind_eq_bind, Option.bind_some, dropped, Option.map_some]
        · refine (shows₂.updateInodePage (present oldDir)).weaken (fun _ => id) ?_
          rintro other ⟨different, rfl | ⟨_, stale⟩⟩
          · exact absurd rfl different
          · exact stale

end Shows

namespace NamesSound

variable {root : BitVec 32} {ns ns' : Namespace} {view : NameView}
  {oldDir oldIno newDir newIno : BitVec 32} {oldName newName : FileName} {oldIsDir : Bool}
  {faults : NameFaults} {mode : BitVec 16}

/-- The target is taken over and loses its links, or nothing changes. -/
theorem renameOver (sound : NamesSound root ns view) (known : view.modes oldIno = some mode)
    (stored : (view.graph root).entries (newDir, newName) = some newIno)
    (kind : oldIsDir = true → view.IsDir newIno) (present : ∀ ino, faults.node ino ≠ some .noent)
    {taken : Option (Except NameError Unit)}
    (ends : ns.renameOver oldIno oldIsDir newDir newName newIno faults = some (ns', taken)) :
    (∀ result, taken = some result →
      NamesSound root ns' view ∧ (result = .ok () → faults.node oldIno ≠ none)) ∧
    (taken = none → faults.node oldIno = none ∧ ∃ place, view.ents newDir newName = some place ∧
      view.orphans.nOrphans < view.orphans.maxOrphans ∧
      (oldIsDir = true → ∀ name, (view.graph root).entries (newIno, name) = none) ∧
      Shows ns' (((view.setEntry newDir newName (some { place with inode := ⟨oldIno, mode⟩ })).setLinks
        newIno (if oldIsDir = true then 0 else view.links newIno - 1)).settled view.orphans newIno)
        view.IsDir fun other => other ≠ newIno ∧ view.links other = 0) := by
  have live := sound.exact.inDir stored
  have linked := sound.exact.linked stored
  have target := sound.formed.known linked
  rw [Namespace.renameOver] at ends
  split at ends
  · cases ends
  · obtain ⟨rfl, rfl⟩ := Prod.mk.inj (Option.some.inj ends)
    refine ⟨fun result same => ⟨sound, ?_⟩, fun impossible => by cases impossible⟩
    obtain rfl := Option.some.inj same
    exact fun impossible => by cases impossible
  · next empty =>
      have nothing : oldIsDir = true → ∀ name, (view.graph root).entries (newIno, name) = none := by
        intro directory
        rw [Namespace.targetEmpty] at empty
        split at empty
        · cases empty
        · next node stored' =>
            rw [if_pos directory] at empty
            exact sound.empty_of_f2fsEmptyDir stored' (kind directory) empty
      split at ends
      · cases ends
      · next ns₁ search =>
          obtain ⟨rfl, rfl⟩ := Prod.mk.inj (Option.some.inj ends)
          refine ⟨fun result same => ⟨(sound.findEntry live.1 search).1, ?_⟩,
            fun impossible => by cases impossible⟩
          obtain rfl := Option.some.inj same
          exact fun impossible => by cases impossible
      · next ns₁ de search =>
          obtain ⟨sound₁, only⟩ := sound.findEntry live.1 search
          obtain ⟨place, here, rfl⟩ := only de rfl
          obtain ⟨proper, inode⟩ := place_of_entries stored here
          split at ends
          · obtain ⟨rfl, rfl⟩ := Prod.mk.inj (Option.some.inj ends)
            refine ⟨fun result same => ⟨sound₁, ?_⟩, fun impossible => by cases impossible⟩
            obtain rfl := Option.some.inj same
            exact fun impossible => by cases impossible
          · next orphans acquired =>
              obtain ⟨room, rfl⟩ := OrphanInodes.acquire_eq_some acquired
              split at ends
              · next unreadable =>
                  rw [OrphanInodes.release_acquired] at ends
                  obtain ⟨rfl, rfl⟩ := Prod.mk.inj (Option.some.inj ends)
                  exact ⟨fun _ _ => ⟨sound₁, fun _ => unreadable⟩, fun impossible => by cases impossible⟩
              · next readable =>
                rw [sound₁.shows.orphans] at room ends
                have two : oldIsDir = true → view.links newIno = 2 := fun directory =>
                  sound.exact.links_of_empty (sound.exact.child stored (kind directory)).1
                    (nothing directory)
                have acquired := sound₁.shows.setOrphans view.orphans.acquired
                obtain ⟨ns₂, replaced, shows₂⟩ := acquired.setLink live.1 proper here live.1.known known
                obtain ⟨ns₃, dropped, shows₃⟩ := shows₂.dropTarget target linked two
                obtain ⟨ns₄, settled, shows₄⟩ := shows₃.settleOrphan target rfl
                have written := (shows₄.updateInodePage (present oldIno)).updateInodePage (present newIno)
                simp only [replaced, dropped, settled, Option.bind_eq_bind, Option.bind_some,
                  Option.some.injEq, Prod.mk.injEq] at ends
                obtain ⟨rfl, rfl⟩ := ends
                refine ⟨fun _ impossible => (by cases impossible), fun _ => ?_⟩
                refine ⟨not_not.mp readable, place, here, room, nothing, written.weaken (fun _ => id) ?_⟩
                rintro other ⟨notNew, notOld, rfl | stale⟩
                · exact absurd rfl notNew
                · exact ⟨notNew, stale⟩

/-- The new name is added, or nothing changes. -/
theorem renameNew (sound : NamesSound root ns view) (known : view.modes oldIno = some mode)
    (live : (view.graph root).Live newDir) (proper : newName.Proper)
    (free : (view.graph root).entries (newDir, newName) = none) (apart : newDir ≠ oldIno)
    (present : ∀ ino, faults.node ino ≠ some .noent) {taken : Option (Except NameError Unit)}
    (ends : ns.renameNew oldIno oldIsDir newDir newName faults = some (ns', taken)) :
    (∀ result, taken = some result → NamesSound root ns' view ∧ result ≠ .ok ()) ∧
    (taken = none → ∃ place, place.inode = ⟨oldIno, mode⟩ ∧
      Shows ns' ((view.setEntry newDir newName (some place)).setLinks newDir
        (if oldIsDir = true then view.links newDir + 1 else view.links newDir)) view.IsDir
        fun other => view.links other = 0) := by
  obtain ⟨node, stored, rfl, links⟩ := sound.shows.exists_node known
  rw [Namespace.renameNew, stored] at ends
  dsimp only at ends
  split at ends
  · cases ends
  · next ns₁ err added =>
      obtain ⟨failed, _⟩ := sound.shows.addLink live.1 live.1.known proper (ents_eq_none proper free)
        apart (present newDir) added
      obtain ⟨rfl, rfl⟩ := Prod.mk.inj (Option.some.inj ends)
      refine ⟨fun result same => ⟨{ sound with shows := failed err rfl }, ?_⟩,
        fun impossible => by cases impossible⟩
      obtain rfl := Option.some.inj same
      exact fun impossible => by cases impossible
  · next ns₁ added =>
      obtain ⟨_, succeeded⟩ := sound.shows.addLink live.1 live.1.known proper (ents_eq_none proper free)
        apart (present newDir) added
      obtain ⟨rfl, rfl⟩ := Prod.mk.inj (Option.some.inj ends)
      refine ⟨fun _ impossible => (by cases impossible), fun _ => ?_⟩
      obtain ⟨⟨_, block, bitPos⟩, rfl, shows⟩ := @succeeded rfl view.IsDir (view.ents oldIno)
        (fun _ _ directory => directory) live.1 fun directory => sound.shows.dirs directory stored
      refine ⟨⟨⟨oldIno, node.mode⟩, block, bitPos⟩, rfl, ?_⟩
      simp only [Bool.false_eq_true, if_false, false_and, Bool.false_and] at shows
      rw [links, @Shows.linkedView_same view newDir newName ⟨⟨oldIno, node.mode⟩, block, bitPos⟩ known]
        at shows
      have shows₁ : Shows ns₁ _ view.IsDir fun other => view.links other = 0 :=
        shows.weaken (fun _ => id) fun _ => And.right
      cases oldIsDir with
      | false =>
          simp only [Bool.false_eq_true, if_false]
          have kept := NameView.setLinks_self
            (view.setEntry newDir newName (some ⟨⟨oldIno, node.mode⟩, block, bitPos⟩)) newDir
          rw [NameView.links_setEntry] at kept
          rw [kept]
          exact shows₁
      | true =>
          have counted := (@Shows.incNlink _ _ _ _ newDir shows₁).updateInodePage (present newDir)
          refine counted.weaken (fun _ => id) ?_
          rintro other ⟨different, rfl | stale⟩
          · exact absurd rfl different
          · exact stale

/-- The old name goes, and the counts are exact when the graph is. -/
theorem renameAway (sound : NamesSound root ns view) {place : EntryPlace}
    (stored : (view.graph root).entries (oldDir, oldName) = some oldIno)
    (here : view.ents oldDir oldName = some place) (live : (view.graph root).Live newDir)
    {ns₁ : Namespace} {view₁ : NameView} {stale : BitVec 32 → Prop}
    (shows : Shows ns₁ view₁ view.IsDir stale) (formed : view₁.Formed) (modes : view₁.modes = view.modes)
    (ents : view₁.ents oldDir oldName = view.ents oldDir oldName) (linked : view₁.links oldDir ≠ 0)
    {parentEntry : Option FoundEntry}
    (found : ∀ de, parentEntry = some de → de.block = 0 ∧ de.bitPos = 1 ∧ view.IsDir oldIno)
    {graph : LinkGraph (BitVec 32) FileName} (exact : graph.Exact)
    (becomes : ∀ mode, ∃ view', view' = view₁.away oldDir oldName oldIno newDir mode parentEntry.isSome ∧
      view'.graph root = graph ∧ view'.OrphansExact ∧ ∀ ino, stale ino → view'.links ino = 0)
    (present : ∀ ino, faults.node ino ≠ some .noent) : ∃ ns',
      ns₁.renameAway oldDir (place.found oldName) oldIno parentEntry newDir faults = some ns' ∧
      NamesAre root ns' graph := by
  obtain ⟨proper, _⟩ := place_of_entries stored here
  have directory := (sound.exact.inDir stored).1
  obtain ⟨parentMode, parentKnown, _⟩ := live.1
  have sameDir : ∀ {ino}, view.IsDir ino ↔ view₁.IsDir ino := by
    intro ino
    rw [NameView.IsDir, NameView.IsDir, modes]
  obtain ⟨ns', away, shows'⟩ := shows.renameAway directory proper (ents.trans here)
    (by rw [modes]; exact directory.known) linked (by rw [modes]; exact parentKnown)
    (fun de same => by
      obtain ⟨block, slot, moving⟩ := found de same
      exact ⟨block, slot, moving, by rw [modes]; exact moving.known⟩) present
  obtain ⟨view', rfl, same, listed, fresh⟩ := becomes parentMode
  refine ⟨ns', away, _, ⟨?_, ?_, listed, ?_⟩, same⟩
  · rw [same]
    exact exact
  · refine formed.away (sameDir.mp directory) fun some_entry => ?_
    obtain ⟨de, rfl⟩ := Option.isSome_iff_exists.mp some_entry
    exact sameDir.mp (found de rfl).2.2
  · refine shows'.weaken (fun ino directory' => ?_) fresh
    rw [NameView.IsDir, NameView.modes_away] at directory'
    exact sameDir.mpr directory'

/-- The graph after a rename to a free name. -/
theorem graph_renamed_new {place : EntryPlace} {parentMode : BitVec 16} (proper : oldName.Proper)
    (proper' : newName.Proper) (inode : place.inode.ino = oldIno)
    (kind : oldIsDir = true ↔ (view.graph root).isDir oldIno)
    (parent : (view.graph root).isDir oldIno → (view.graph root).parent oldIno = oldDir) :
    (((view.setEntry newDir newName (some place)).setLinks newDir
      (if oldIsDir = true then view.links newDir + 1 else view.links newDir)).away oldDir oldName oldIno
        newDir parentMode oldIsDir).graph root =
      (view.graph root).rename (oldDir, oldName) (newDir, newName) oldIno none := by
  rw [NameView.graph_away proper, NameView.graph_setLinks, NameView.graph_setEntry proper']
  subst inode
  by_cases directory : oldIsDir = true
  · refine Eq.trans ?_ (if_pos (kind.mp directory)).symm
    refine LinkGraph.ext rfl rfl ?_ ?_ rfl
    · simp only [directory, if_true]
      rfl
    · simp only [directory, true_and]
      split
      · rfl
      · next same =>
          refine (Function.update_eq_iff.mpr ⟨?_, fun _ _ => rfl⟩).symm
          rw [← not_not.mp same]
          exact (parent (kind.mp directory)).symm
  · refine Eq.trans ?_ (if_neg (directory ∘ kind.mpr)).symm
    refine LinkGraph.ext rfl rfl ?_ ?_ rfl
    · simp only [directory, Bool.false_eq_true, if_false]
      change Function.update view.links newDir (view.links newDir) =
        Function.update (Function.update view.links place.inode.ino (view.links place.inode.ino + 1))
          place.inode.ino (Function.update view.links place.inode.ino
            (view.links place.inode.ino + 1) place.inode.ino - 1)
      rw [Function.update_idem, Function.update_self, Nat.add_sub_cancel, Function.update_eq_self,
        Function.update_eq_self]
    · simp only [directory, Bool.false_eq_true, false_and, if_false]
      rfl

/-- The graph after a rename over another inode. -/
theorem graph_renamed_over (sound : NamesSound root ns view) {place : EntryPlace} {parentMode : BitVec 16}
    (stored : (view.graph root).entries (oldDir, oldName) = some oldIno)
    (stored' : (view.graph root).entries (newDir, newName) = some newIno)
    (inode : place.inode.ino = oldIno) (different : newIno ≠ oldIno)
    (kind : oldIsDir = true ↔ (view.graph root).isDir oldIno)
    (kind' : oldIsDir = true ↔ (view.graph root).isDir newIno)
    (empty : oldIsDir = true → ∀ name, (view.graph root).entries (newIno, name) = none) :
    ((((view.setEntry newDir newName (some place)).setLinks newIno
      (if oldIsDir = true then 0 else view.links newIno - 1)).settled view.orphans newIno).away oldDir
        oldName oldIno newDir parentMode oldIsDir).graph root =
      (view.graph root).rename (oldDir, oldName) (newDir, newName) oldIno (some newIno) := by
  obtain ⟨proper, _⟩ := NameView.graph_entries_eq_some.mp stored
  obtain ⟨proper', _⟩ := NameView.graph_entries_eq_some.mp stored'
  have apart := sound.exact.entry_ne stored'
  have linked := sound.exact.linked stored
  have live := sound.exact.inDir stored'
  have counted := live.2
  rw [NameView.graph_away proper, NameView.graph_settled, NameView.graph_setLinks,
    NameView.graph_setEntry proper']
  subst inode
  by_cases directory : oldIsDir = true
  · have vacated : (view.graph root).vacate (newDir, newName) (some newIno) =
        (view.graph root).removeDir (newDir, newName) newIno := if_pos (kind'.mp directory)
    refine Eq.trans ?_ (if_pos (kind.mp directory)).symm
    rw [vacated]
    have outside : oldDir ≠ newIno := by
      rintro rfl
      rw [empty directory oldName] at stored
      cases stored
    refine LinkGraph.ext rfl rfl ?_ ?_ ?_
    · funext other
      simp only [directory, if_true, LinkGraph.moveDir, LinkGraph.removeDir, NameView.graph,
        NameView.settled, NameView.setOrphans, NameView.setLinks, NameView.setEntry,
        Function.update_apply] at counted ⊢
      grind
    · simp only [directory, true_and]
      split
      · rfl
      · next same =>
          refine (Function.update_eq_iff.mpr ⟨?_, fun _ _ => rfl⟩).symm
          rw [← not_not.mp same]
          exact (sound.exact.child stored (kind.mp directory)).2.2.symm
    · funext key
      simp only [LinkGraph.moveDir, LinkGraph.removeDir, Option.map_some, Function.update_apply]
      grind
  · have vacated : (view.graph root).vacate (newDir, newName) (some newIno) =
        (view.graph root).removeFile (newDir, newName) newIno := if_neg (directory ∘ kind'.mpr)
    refine Eq.trans ?_ (if_neg (directory ∘ kind.mpr)).symm
    rw [vacated]
    refine LinkGraph.ext rfl rfl ?_ ?_ ?_
    · funext other
      simp only [directory, Bool.false_eq_true, if_false, LinkGraph.moveFile, LinkGraph.addFile,
        LinkGraph.removeFile, NameView.graph, NameView.settled, NameView.setOrphans, NameView.setLinks,
        NameView.setEntry, Function.update_apply]
      grind
    · simp only [directory, Bool.false_eq_true, false_and, if_false]
      rfl
    · funext key
      simp only [LinkGraph.moveFile, LinkGraph.addFile, LinkGraph.removeFile, Option.map_some,
        Function.update_apply]
      grind

/-- The new name stands, then the old one goes. -/
theorem finish_new (sound : NamesSound root ns view) (known : view.modes oldIno = some mode)
    (stored : (view.graph root).entries (oldDir, oldName) = some oldIno)
    {oldPlace : EntryPlace} (here : view.ents oldDir oldName = some oldPlace)
    (live : (view.graph root).Live newDir) (proper' : newName.Proper)
    (free : (view.graph root).entries (newDir, newName) = none)
    (kind : oldIsDir = true ↔ view.IsDir oldIno) {parentEntry : Option FoundEntry}
    (some_entry : parentEntry.isSome = oldIsDir)
    (found : ∀ de, parentEntry = some de → de.block = 0 ∧ de.bitPos = 1)
    (apart : view.IsDir oldIno → ¬Above (view.graph root).parent oldIno newDir)
    (present : ∀ ino, faults.node ino ≠ some .noent) {ns₁ : Namespace} {place : EntryPlace}
    (inode : place.inode = ⟨oldIno, mode⟩)
    (shows : Shows ns₁ ((view.setEntry newDir newName (some place)).setLinks newDir
      (if oldIsDir = true then view.links newDir + 1 else view.links newDir)) view.IsDir
      fun other => view.links other = 0) : ∃ ns',
      ns₁.renameAway oldDir (oldPlace.found oldName) oldIno parentEntry newDir faults = some ns' ∧
      NamesAre root ns' ((view.graph root).rename (oldDir, oldName) (newDir, newName) oldIno none) := by
  have ino : place.inode.ino = oldIno := congrArg InodeRef.ino inode
  have recorded : place.inode.mode = mode := congrArg InodeRef.mode inode
  have proper := (place_of_entries stored here).1
  have live' := sound.exact.inDir stored
  have counted : view.links newDir ≠ 0 := live.2
  have counted' : view.links oldDir ≠ 0 := live'.2
  have keys : (oldDir, oldName) ≠ (newDir, newName) := by
    intro same
    rw [same, free] at stored
    cases stored
  have more : oldIsDir = true → 2 < view.links oldDir :=
    fun directory => sound.exact.two_lt_links stored (kind.mp directory)
  have exact : ((view.graph root).rename (oldDir, oldName) (newDir, newName) oldIno none).Exact := by
    have renamed := @LinkGraph.Exact.rename _ _ _ _ _ sound.exact _ (newDir, newName) _ stored live
      (by rw [free]; exact fun impossible => by cases impossible)
      (by rw [free]; exact fun impossible => by cases impossible) apart
    rwa [free] at renamed
  -- no count falls to zero
  have zero : ∀ parentMode other,
      (((view.setEntry newDir newName (some place)).setLinks newDir
        (if oldIsDir = true then view.links newDir + 1 else view.links newDir)).away oldDir oldName oldIno
          newDir parentMode oldIsDir).links other = 0 ↔ view.links other = 0 := by
    intro parentMode other
    rw [NameView.links_away]
    simp only [NameView.setLinks, NameView.links_setEntry, Function.update_apply]
    grind
  refine sound.renameAway stored here live shows ?_ rfl ?_ ?_ ?_ exact ?_ present
  · refine (sound.formed.setEntry live.1 fun entry same _ => ?_).setLinks live.1.known _
    obtain rfl := Option.some.inj same
    rw [ino, recorded, known]
  · exact view.ents_setEntry_of_ne keys _
  · change Function.update view.links newDir _ oldDir ≠ 0
    rw [Function.update_apply]
    split
    · split <;> omega
    · exact counted'
  · intro de same
    refine ⟨(found de same).1, (found de same).2, kind.mp ?_⟩
    rw [← some_entry, same]
    rfl
  · rw [some_entry]
    intro parentMode
    refine ⟨_, rfl, graph_renamed_new proper proper' ino kind fun directory =>
      (sound.exact.child stored directory).2.2, ?_, ?_⟩
    · refine sound.orphans.congr NameView.orphans_away fun other => ?_
      rw [zero, NameView.modes_away]
      exact Iff.rfl
    · exact fun other stale => (zero parentMode other).mpr stale

/-- The target has been taken over, then the old name goes. -/
theorem finish_over (sound : NamesSound root ns view) (known : view.modes oldIno = some mode)
    (stored : (view.graph root).entries (oldDir, oldName) = some oldIno)
    {oldPlace : EntryPlace} (here : view.ents oldDir oldName = some oldPlace)
    (stored' : (view.graph root).entries (newDir, newName) = some newIno) (different : newIno ≠ oldIno)
    (kind : oldIsDir = true ↔ view.IsDir oldIno) (kind' : oldIsDir = true ↔ view.IsDir newIno)
    (empty : oldIsDir = true → ∀ name, (view.graph root).entries (newIno, name) = none)
    {parentEntry : Option FoundEntry} (some_entry : parentEntry.isSome = oldIsDir)
    (found : ∀ de, parentEntry = some de → de.block = 0 ∧ de.bitPos = 1)
    (apart : view.IsDir oldIno → ¬Above (view.graph root).parent oldIno newDir)
    (present : ∀ ino, faults.node ino ≠ some .noent)
    (room : view.orphans.nOrphans < view.orphans.maxOrphans) {ns₁ : Namespace} {place : EntryPlace}
    (inode : place.inode = ⟨oldIno, mode⟩)
    (shows : Shows ns₁ (((view.setEntry newDir newName (some place)).setLinks newIno
      (if oldIsDir = true then 0 else view.links newIno - 1)).settled view.orphans newIno) view.IsDir
      fun other => other ≠ newIno ∧ view.links other = 0) : ∃ ns',
      ns₁.renameAway oldDir (oldPlace.found oldName) oldIno parentEntry newDir faults = some ns' ∧
      NamesAre root ns' ((view.graph root).rename (oldDir, oldName) (newDir, newName) oldIno (some newIno)) := by
  have ino : place.inode.ino = oldIno := congrArg InodeRef.ino inode
  have recorded : place.inode.mode = mode := congrArg InodeRef.mode inode
  have live : (view.graph root).Live newDir := sound.exact.inDir stored'
  have live' := sound.exact.inDir stored
  have linked := sound.exact.linked stored'
  have target := sound.formed.known linked
  have counted' : view.links oldDir ≠ 0 := live'.2
  have keys : (oldDir, oldName) ≠ (newDir, newName) := by
    intro same
    rw [same, stored'] at stored
    exact different (Option.some.inj stored)
  have more : oldIsDir = true → 2 < view.links oldDir :=
    fun directory => sound.exact.two_lt_links stored (kind.mp directory)
  -- the target is no directory, or an empty one
  have outside : newIno ≠ oldDir := by
    rintro rfl
    by_cases directory : oldIsDir = true
    · rw [empty directory oldName] at stored
      cases stored
    · exact directory (kind'.mpr live'.1)
  have exact : ((view.graph root).rename (oldDir, oldName) (newDir, newName) oldIno
      (some newIno)).Exact := by
    have renamed := @LinkGraph.Exact.rename _ _ _ _ _ sound.exact _ (newDir, newName) _ stored live
      (by rw [stored']; exact fun same => different (Option.some.inj same))
      (by
        rw [stored']
        rintro dir same directory
        obtain rfl := Option.some.inj same
        exact empty (kind'.mpr directory)) apart
    rwa [stored'] at renamed
  have links : ∀ parentMode, ((((view.setEntry newDir newName (some place)).setLinks newIno
      (if oldIsDir = true then 0 else view.links newIno - 1)).settled view.orphans newIno).away oldDir
        oldName oldIno newDir parentMode oldIsDir).links = _ := fun _ => NameView.links_away
  have zero : ∀ parentMode other, other ≠ newIno →
      (((((view.setEntry newDir newName (some place)).setLinks newIno
        (if oldIsDir = true then 0 else view.links newIno - 1)).settled view.orphans newIno).away oldDir
          oldName oldIno newDir parentMode oldIsDir).links other = 0 ↔ view.links other = 0) := by
    intro parentMode other apart
    rw [links]
    simp only [NameView.settled, NameView.links_setOrphans, NameView.setLinks, NameView.links_setEntry,
      Function.update_apply]
    grind
  refine sound.renameAway stored here live shows ?_ rfl ?_ ?_ ?_ exact ?_ present
  · refine ((sound.formed.setEntry live.1 fun entry same _ => ?_).setLinks target _).setOrphans _
    obtain rfl := Option.some.inj same
    rw [ino, recorded, known]
  · exact view.ents_setEntry_of_ne keys _
  · change Function.update view.links newIno _ oldDir ≠ 0
    rw [Function.update_of_ne (Ne.symm outside)]
    exact counted'
  · intro de same
    refine ⟨(found de same).1, (found de same).2, kind.mp ?_⟩
    rw [← some_entry, same]
    rfl
  · rw [some_entry]
    intro parentMode
    refine ⟨_, rfl, sound.graph_renamed_over stored stored' ino different kind kind' empty, ?_, ?_⟩
    · refine sound.orphans.settle room linked ?_ NameView.modes_away target (zero parentMode)
      rw [NameView.orphans_away, links]
      simp only [NameView.settled, NameView.setOrphans, NameView.setLinks, Function.update_apply]
      grind
    · exact fun other stale => (zero parentMode other stale.1).mpr stale.2

/-- `f2fs_rename` gives the inode its new name, or changes nothing.  It says that it is done without
having done anything when the node page of the inode cannot be read. -/
theorem f2fsRename (sound : NamesSound root ns view)
    (stored : (view.graph root).entries (oldDir, oldName) = some oldIno)
    (live : (view.graph root).Live newDir) (proper : newName.Proper)
    (different : (view.graph root).entries (newDir, newName) ≠ some oldIno)
    (kinds : ∀ {newIno}, (view.graph root).entries (newDir, newName) = some newIno →
      ((view.graph root).isDir newIno ↔ (view.graph root).isDir oldIno))
    (apart : (view.graph root).isDir oldIno → ¬Above (view.graph root).parent oldIno newDir)
    (present : ∀ ino, faults.node ino ≠ some .noent) {result : Except NameError Unit}
    (ends : ns.f2fsRename oldDir oldName oldIno newDir newName
      ((view.graph root).entries (newDir, newName)) faults = some (ns', result)) :
    (∀ err, result = .error err → NamesAre root ns' (view.graph root)) ∧
    (result = .ok () →
      if (view.graph root).entries (newDir, newName) ≠ none ∧ faults.node oldIno ≠ none then
        NamesAre root ns' (view.graph root)
      else
        (∀ newIno, (view.graph root).entries (newDir, newName) = some newIno →
          (view.graph root).isDir newIno → ∀ name, (view.graph root).entries (newIno, name) = none) ∧
        NamesAre root ns' ((view.graph root).rename (oldDir, oldName) (newDir, newName) oldIno
          ((view.graph root).entries (newDir, newName)))) := by
  have linked := sound.exact.linked stored
  obtain ⟨mode, known⟩ := Option.ne_none_iff_exists'.mp (sound.formed.known linked)
  rw [Namespace.f2fsRename] at ends
  split at ends
  · cases ends
  · next ns₁ search =>
      obtain ⟨rfl, rfl⟩ := Prod.mk.inj (Option.some.inj ends)
      exact ⟨fun _ _ => (sound.findEntry (sound.exact.inDir stored).1 search).1.is,
        fun impossible => by cases impossible⟩
  · next ns₁ oldEntry search =>
      obtain ⟨sound₁, only⟩ := sound.findEntry (sound.exact.inDir stored).1 search
      obtain ⟨oldPlace, here, rfl⟩ := only oldEntry rfl
      obtain ⟨node, nodeStored, rfl, _⟩ := sound₁.shows.exists_node known
      have kind : node.isDir = true ↔ view.IsDir oldIno := by
        constructor
        · exact fun directory => ⟨node.mode, known, directory⟩
        · rintro ⟨other, same, directory⟩
          obtain rfl := Option.some.inj (same.symm.trans known)
          exact directory
      rw [nodeStored, Option.bind_eq_bind, Option.bind_some] at ends
      obtain ⟨parentEntry, searched, ends⟩ := Option.bind_eq_some_iff.mp ends
      split at ends
      · obtain ⟨rfl, rfl⟩ := Prod.mk.inj (Option.some.inj ends)
        exact ⟨fun _ _ => sound₁.is, fun impossible => by cases impossible⟩
      · next readable =>
          have found : ∀ de, parentEntry = some de → de.block = 0 ∧ de.bitPos = 1 := by
            rintro de rfl
            exact (Shows.parentEntry_place searched).2
          have some_entry := Shows.parentEntry_isSome searched readable
          cases target : (view.graph root).entries (newDir, newName) with
          | none =>
              rw [target] at ends
              obtain ⟨⟨ns₂, taken⟩, renamed, ends⟩ := Option.bind_eq_some_iff.mp ends
              have outside : newDir ≠ oldIno := by
                rintro rfl
                exact apart live.1 .refl
              obtain ⟨stopped, goes⟩ := sound₁.renameNew known live proper target outside present renamed
              cases taken with
              | some early =>
                  obtain ⟨rfl, rfl⟩ := Prod.mk.inj (Option.some.inj ends)
                  obtain ⟨sound₂, failed⟩ := stopped _ rfl
                  exact ⟨fun _ _ => sound₂.is, fun done => absurd done failed⟩
              | none =>
                  obtain ⟨place, inode, shows⟩ := goes rfl
                  obtain ⟨ns₃, away, is⟩ := sound₁.finish_new known stored here live proper target kind
                    some_entry found apart present inode shows
                  dsimp only at ends
                  rw [away] at ends
                  obtain ⟨rfl, rfl⟩ := Prod.mk.inj (Option.some.inj ends)
                  refine ⟨fun _ impossible => (by cases impossible), fun _ => ?_⟩
                  rw [if_neg fun held => held.1 rfl]
                  exact ⟨fun _ impossible => (by cases impossible), is⟩
          | some newIno =>
              rw [target] at ends different
              obtain ⟨⟨ns₂, taken⟩, renamed, ends⟩ := Option.bind_eq_some_iff.mp ends
              have kind' : node.isDir = true ↔ view.IsDir newIno := kind.trans (kinds target).symm
              obtain ⟨stopped, goes⟩ := sound₁.renameOver known target kind'.mp present renamed
              cases taken with
              | some early =>
                  obtain ⟨rfl, rfl⟩ := Prod.mk.inj (Option.some.inj ends)
                  obtain ⟨sound₂, silent⟩ := stopped _ rfl
                  refine ⟨fun _ _ => sound₂.is, fun done => ?_⟩
                  rw [if_pos ⟨Option.some_ne_none _, silent done⟩]
                  exact sound₂.is
              | none =>
                  obtain ⟨nodeRead, place, here', room, empty, shows⟩ := goes rfl
                  obtain ⟨ns₃, away, is⟩ := sound₁.finish_over known stored here target
                    (fun same => different (congrArg some same)) kind kind' empty some_entry found apart
                    present room rfl shows
                  dsimp only at ends
                  rw [away] at ends
                  obtain ⟨rfl, rfl⟩ := Prod.mk.inj (Option.some.inj ends)
                  refine ⟨fun _ impossible => (by cases impossible), fun _ => ?_⟩
                  rw [if_neg fun held => held.2 nodeRead]
                  refine ⟨fun other same directory => ?_, is⟩
                  obtain rfl := Option.some.inj same
                  exact empty (kind'.mpr directory)

end NamesSound

end StorageStack.F2fs
