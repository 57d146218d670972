import StorageStack.F2fs.NamespaceLinks

/-!
# Calls that make and remove names

Each call of `namei.c` changes the link graph of a name space by one of its changes, whatever fails
on the way, so the link counts, the tree of directories and the list of orphans stay exact.
-/

namespace StorageStack.F2fs

/-- The name space shows the view, and the counts of the view are exact. -/
structure NamesSound (root : BitVec 32) (ns : Namespace) (view : NameView) : Prop where
  exact : (view.graph root).Exact
  formed : view.Formed
  orphans : view.OrphansExact
  shows : Shows ns view view.IsDir fun ino => view.links ino = 0

/-- The name space has exact counts, and it is the link graph. -/
def NamesAre (root : BitVec 32) (ns : Namespace) (graph : LinkGraph (BitVec 32) FileName) : Prop :=
  ∃ view, NamesSound root ns view ∧ view.graph root = graph

namespace NameView

variable {view : NameView} {root dirIno : BitVec 32} {name : FileName} {place : EntryPlace}
  {links : Nat} {orphans : OrphanInodes} {ents : FileName → Option EntryPlace}

/-! ## The view after an add -/

theorem modes_linkedView (subdir : Bool) :
    (Shows.linkedView view dirIno name place links subdir orphans ents).modes =
      Function.update view.modes place.inode.ino (some place.inode.mode) := by
  cases subdir <;> rfl

theorem orphans_linkedView (subdir : Bool) :
    (Shows.linkedView view dirIno name place links subdir orphans ents).orphans = orphans := by
  cases subdir <;> rfl

theorem links_linkedView_ino (apart : dirIno ≠ place.inode.ino) (subdir : Bool) :
    (Shows.linkedView view dirIno name place links subdir orphans ents).links place.inode.ino =
      links := by
  cases subdir with
  | false => exact Function.update_self ..
  | true => exact (Function.update_of_ne (Ne.symm apart) _ _).trans (Function.update_self ..)

/-- Only the counts of the inode and of a live directory change. -/
theorem links_linkedView (live : view.links dirIno ≠ 0) {other : BitVec 32}
    (different : other ≠ place.inode.ino) (subdir : Bool) :
    (Shows.linkedView view dirIno name place links subdir orphans ents).links other = 0 ↔
      view.links other = 0 := by
  have kept : Function.update view.links place.inode.ino links other = view.links other :=
    Function.update_of_ne different _ _
  cases subdir with
  | false => exact iff_of_eq (congrArg (· = 0) kept)
  | true =>
      by_cases here : other = dirIno
      · subst here
        refine iff_of_false ?_ live
        exact fun zero => Nat.succ_ne_zero _ ((Function.update_self ..).symm.trans zero)
      · refine iff_of_eq (congrArg (· = 0) ?_)
        exact (Function.update_of_ne here _ _).trans kept

/-- The graph after `__f2fs_add_link`. -/
theorem graph_linkedView (proper : name.Proper)
    (same : ∀ name, name.Proper → ents name = view.ents place.inode.ino name) (subdir : Bool) :
    (Shows.linkedView view dirIno name place links subdir orphans ents).graph root =
      { view.graph root with
        isDir := fun other =>
          if other = place.inode.ino then modeIsDir place.inode.mode = true
          else (view.graph root).isDir other
        links :=
          let links := Function.update (view.graph root).links place.inode.ino links
          if subdir = true then Function.update links dirIno (links dirIno + 1) else links
        parent := Function.update (view.graph root).parent place.inode.ino
          (((ents dotDotName).map fun place => place.inode.ino).getD place.inode.ino)
        entries := Function.update (view.graph root).entries (dirIno, name)
          (some place.inode.ino) } := by
  have added : (((view.addNode place.inode.ino place.inode.mode links ents).setOrphans
      orphans).setEntry dirIno name (some place)).graph root = _ := graph_setEntry proper _
  rw [graph_setOrphans, graph_addNode same] at added
  cases subdir with
  | false => exact added
  | true =>
      rw [Shows.linkedView, if_pos rfl, graph_setLinks, added]
      rfl

/-- An add for a file in the graph. -/
theorem graph_linkedView_file (proper : name.Proper) (file : modeIsDir place.inode.mode = false)
    (plain : ¬view.IsDir place.inode.ino) (count : links = view.links place.inode.ino + 1) :
    (Shows.linkedView view dirIno name place links false orphans (view.ents place.inode.ino)).graph
      root = (view.graph root).addFile (dirIno, name) place.inode.ino := by
  subst count
  have added : (((view.addNode place.inode.ino place.inode.mode (view.links place.inode.ino + 1)
      (view.ents place.inode.ino)).setOrphans orphans).setEntry dirIno name (some place)).graph root = _ :=
    graph_setEntry proper _
  rw [graph_setOrphans, graph_addNode_file plain file] at added
  exact added

/-- An add for a new directory in the graph. -/
theorem graph_linkedView_dir (proper : name.Proper) (directory : modeIsDir place.inode.mode = true)
    (nothing : view.ents place.inode.ino = fun _ => none) (apart : dirIno ≠ place.inode.ino) :
    (Shows.linkedView view dirIno name place 2 true orphans (initialEntries place.inode dirIno)).graph
      root = ((view.graph root).withKind place.inode.ino True).addDir (dirIno, name)
        place.inode.ino := by
  rw [graph_linkedView proper fun other proper' => by
    rw [nothing]
    exact initialEntries_eq_none proper']
  refine LinkGraph.ext rfl ?_ ?_ ?_ rfl
  · funext other
    refine propext ?_
    by_cases here : other = place.inode.ino
    · subst here
      exact iff_of_true ((if_pos rfl).mpr directory) ((if_pos rfl).mpr trivial)
    · exact iff_of_eq ((if_neg here).trans (if_neg here).symm)
  · change Function.update (Function.update view.links place.inode.ino 2) dirIno
      (Function.update view.links place.inode.ino 2 dirIno + 1) = _
    rw [Function.update_of_ne apart]
    rfl
  · refine Eq.trans ?_ (Function.update_idem ..).symm
    rfl

theorem Formed.linkedView (formed : view.Formed) (directory : view.IsDir dirIno)
    (apart : dirIno ≠ place.inode.ino)
    (same : ∀ name, name.Proper → ents name = view.ents place.inode.ino name)
    (plain : modeIsDir place.inode.mode = false → ents = fun _ => none)
    (compatible : ∀ old, view.modes place.inode.ino = some old → old = place.inode.mode)
    (subdir : Bool) : (Shows.linkedView view dirIno name place links subdir orphans ents).Formed := by
  have kept : (view.addNode place.inode.ino place.inode.mode links ents).modes dirIno =
      view.modes dirIno := Function.update_of_ne apart _ _
  have directory' : (view.addNode place.inode.ino place.inode.mode links ents).IsDir dirIno := by
    obtain ⟨mode, stored, type⟩ := directory
    exact ⟨mode, kept.trans stored, type⟩
  have inserted := (@Formed.addNode _ formed _ _ links _ same plain compatible).setOrphans orphans
  have added := @Formed.setEntry _ inserted dirIno directory' name (some place) fun entry new _ => by
    obtain rfl := Option.some.inj new
    exact Function.update_self ..
  cases subdir with
  | false => exact added
  | true => exact added.setLinks directory'.known _

end NameView

namespace NamesSound

variable {root : BitVec 32} {ns ns' : Namespace} {view : NameView} {ino dirIno : BitVec 32}
  {name : FileName} {faults : NameFaults} {result : Except NameError Unit}

theorem is (sound : NamesSound root ns view) : NamesAre root ns (view.graph root) := ⟨view, sound, rfl⟩

/-- A name is free in the graph when the directory has no entry for it. -/
theorem ents_eq_none (proper : name.Proper)
    (free : (view.graph root).entries (dirIno, name) = none) : view.ents dirIno name = none := by
  rwa [NameView.graph_entries proper, Option.map_eq_none_iff] at free

/-- An add leaves the view, or makes the entry with the links and orphans it counts. -/
theorem addLink (sound : NamesSound root ns view) (live : (view.graph root).Live dirIno)
    (proper : name.Proper) (free : (view.graph root).entries (dirIno, name) = none)
    (apart : dirIno ≠ ino) (present : ∀ ino, faults.node ino ≠ some .noent) {node : NameInode}
    {newInode incLink : Bool}
    (ends : ns.addLink dirIno name ino node newInode incLink faults = some (ns', result))
    {ents : FileName → Option EntryPlace}
    (same : ∀ name, name.Proper → ents name = view.ents ino name)
    (plain : modeIsDir node.mode = false → ents = fun _ => none)
    (compatible : ∀ old, view.modes ino = some old → old = node.mode)
    (names : modeIsDir node.mode = true → ∃ parent, DirNames node.dir ents ⟨ino, node.mode⟩ parent) :
    (∀ err, result = .error err → NamesSound root ns' view) ∧
    (result = .ok () → ∃ place, place.inode = ⟨ino, node.mode⟩ ∧
      ∀ view', view' = Shows.linkedView view dirIno name place
          (if incLink = true then node.iNlink + 1 else node.iNlink) (newInode && node.isDir)
          (if incLink = true ∧ node.iNlink = 0 then view.orphans.removeOrphanInode ino
            else view.orphans) ents →
        (view'.graph root).Exact → view'.OrphansExact → NamesSound root ns' view') := by
  obtain ⟨failed, added⟩ := sound.shows.addLink live.1 (sound.formed.known live.2) proper
    (ents_eq_none proper free) apart (present dirIno) ends
  refine ⟨fun err same => ⟨sound.exact, sound.formed, sound.orphans, failed err same⟩, fun done => ?_⟩
  obtain ⟨place, record, shows⟩ := @added done
    (fun other => if other = ino then modeIsDir node.mode = true else view.IsDir other) ents
    (fun other different held => by rwa [if_neg different] at held)
    (by rw [if_neg apart]; exact live.1) (fun held => names (by rwa [if_pos rfl] at held))
  refine ⟨place, record, fun view' eq exact listed => ?_⟩
  subst eq
  have inode : place.inode.ino = ino := congrArg InodeRef.ino record
  have mode : place.inode.mode = node.mode := congrArg InodeRef.mode record
  refine ⟨exact, ?_, listed, shows.weaken ?_ ?_⟩
  · refine sound.formed.linkedView live.1 ?_ ?_ ?_ ?_ _
    · rwa [inode]
    · rwa [inode]
    · rwa [mode]
    · rwa [inode, mode]
  · intro other directory
    have graph := @NameView.graph_linkedView view root dirIno name place
      (if incLink = true then node.iNlink + 1 else node.iNlink)
      (if incLink = true ∧ node.iNlink = 0 then view.orphans.removeOrphanInode ino else view.orphans)
      ents proper (by rwa [inode]) (newInode && node.isDir)
    have kind := congrFun (congrArg LinkGraph.isDir graph) other
    dsimp only at kind
    rw [inode, mode] at kind
    exact kind.mp directory
  · rintro other ⟨different, unlinked⟩
    exact (NameView.links_linkedView live.2 (by rwa [inode]) _).mpr unlinked

/-! ## Making inodes -/

/-- A number that no inode has is free for a new one. -/
theorem fresh (sound : NamesSound root ns view) (unused : ns.inodes ino = none) :
    view.modes ino = none ∧ view.links ino = 0 ∧ view.ents ino = fun _ => none := by
  have missing : view.modes ino = none := by
    rw [← sound.shows.modes, unused, Option.map_none]
  refine ⟨missing, sound.formed.absent missing, sound.formed.blank ?_⟩
  rintro ⟨mode, stored, _⟩
  rw [missing] at stored
  cases stored

/-- With a new inode that has links the same inodes are orphans. -/
theorem orphans_new (sound : NamesSound root ns view) {place : EntryPlace} {links : Nat}
    {ents : FileName → Option EntryPlace} (missing : view.modes place.inode.ino = none)
    (live : view.links dirIno ≠ 0) (positive : links ≠ 0) (subdir : Bool) :
    (Shows.linkedView view dirIno name place links subdir view.orphans ents).OrphansExact := by
  have apart : dirIno ≠ place.inode.ino := by
    rintro rfl
    exact live (sound.formed.absent missing)
  refine sound.orphans.congr (NameView.orphans_linkedView subdir) fun other => ?_
  rw [NameView.modes_linkedView]
  by_cases here : other = place.inode.ino
  · subst here
    rw [NameView.links_linkedView_ino apart, missing]
    simp [positive]
  · rw [NameView.links_linkedView live here, Function.update_of_ne here]

/-- A call that makes a file names it, or changes nothing. -/
theorem addInode_file (sound : NamesSound root ns view) (live : (view.graph root).Live dirIno)
    (proper : name.Proper) (free : (view.graph root).entries (dirIno, name) = none)
    (unused : ns.inodes ino = none) {mode : BitVec 16} (file : modeIsDir mode = false) {blank : Dir}
    (present : ∀ ino, faults.node ino ≠ some .noent)
    (ends : ns.addInode dirIno name ino mode blank false faults = some (ns', result)) :
    (∀ err, result = .error err → NamesAre root ns' (view.graph root)) ∧
    (result = .ok () → NamesAre root ns' ((view.graph root).addFile (dirIno, name) ino)) := by
  rw [Namespace.addInode] at ends
  cases new : faults.newInode with
  | some err =>
      rw [new] at ends
      obtain ⟨rfl, rfl⟩ := Prod.mk.inj (Option.some.inj ends)
      exact ⟨fun _ _ => sound.is, fun impossible => by cases impossible⟩
  | none =>
      rw [new] at ends
      obtain ⟨missing, unlinked, nothing⟩ := sound.fresh unused
      have apart : dirIno ≠ ino := by
        rintro rfl
        exact live.2 unlinked
      obtain ⟨failed, added⟩ := sound.addLink live proper free apart present ends (fun _ _ => rfl)
        (fun _ => nothing) (fun old stored => by rw [missing] at stored; cases stored)
        (fun directory => by rw [show modeIsDir mode = false from file] at directory; cases directory)
      refine ⟨fun err same => (failed err same).is, fun done => ?_⟩
      obtain ⟨⟨_, block, bitPos⟩, rfl, becomes⟩ := added done
      have plain : ¬(view.graph root).isDir ino := by
        rintro ⟨old, stored, _⟩
        rw [missing] at stored
        cases stored
      have graph := @NameView.graph_linkedView_file view root dirIno name ⟨⟨ino, mode⟩, block, bitPos⟩ 1
        view.orphans proper file plain (by rw [unlinked])
      have kind : (true && NameInode.isDir ⟨mode, 1, 0, false, blank⟩) = false := file
      rw [kind] at becomes
      have sound' := becomes _ rfl ?_ ?_
      · exact ⟨_, sound', graph⟩
      · exact graph ▸ sound.exact.addFile free live plain
      · exact sound.orphans_new missing live.2 Nat.one_ne_zero false

/-- `f2fs_mkdir` makes a directory with two entries, or changes nothing. -/
theorem f2fsMkdir (sound : NamesSound root ns view) (live : (view.graph root).Live dirIno)
    (proper : name.Proper) (free : (view.graph root).entries (dirIno, name) = none)
    (unused : ns.inodes ino = none) {mode : BitVec 16}
    (directory : modeIsDir (0x4000 ||| mode) = true) {dirLevel : Nat} {inlineXattr : Bool}
    (present : ∀ ino, faults.node ino ≠ some .noent)
    (ends : ns.f2fsMkdir dirIno name ino mode dirLevel inlineXattr faults = some (ns', result)) :
    (∀ err, result = .error err → NamesAre root ns' (view.graph root)) ∧
    (result = .ok () →
      NamesAre root ns' (((view.graph root).withKind ino True).addDir (dirIno, name) ino)) := by
  rw [Namespace.f2fsMkdir, Namespace.addInode] at ends
  cases new : faults.newInode with
  | some err =>
      rw [new] at ends
      obtain ⟨rfl, rfl⟩ := Prod.mk.inj (Option.some.inj ends)
      exact ⟨fun _ _ => sound.is, fun impossible => by cases impossible⟩
  | none =>
      rw [new] at ends
      obtain ⟨missing, unlinked, nothing⟩ := sound.fresh unused
      have apart : dirIno ≠ ino := by
        rintro rfl
        exact live.2 unlinked
      obtain ⟨failed, added⟩ := @addLink _ _ _ _ _ _ _ _ _ sound live proper free apart present _ _ _ ends
        (initialEntries ⟨ino, 0x4000 ||| mode⟩ dirIno)
        (fun other proper' => by rw [nothing, initialEntries_eq_none proper'])
        (fun file => by rw [show modeIsDir (0x4000 ||| mode) = false from file] at directory; cases directory)
        (fun old stored => by rw [missing] at stored; cases stored)
        (fun _ => ⟨_, dirNames_emptyDir dirLevel inlineXattr ⟨ino, 0x4000 ||| mode⟩ dirIno⟩)
      refine ⟨fun err same => (failed err same).is, fun done => ?_⟩
      obtain ⟨⟨_, block, bitPos⟩, rfl, becomes⟩ := added done
      have graph := @NameView.graph_linkedView_dir view root dirIno name
        ⟨⟨ino, 0x4000 ||| mode⟩, block, bitPos⟩ view.orphans proper directory nothing apart
      have kind : (true && NameInode.isDir ⟨0x4000 ||| mode, 1, 0, false,
          emptyDir dirLevel inlineXattr ⟨ino, 0x4000 ||| mode⟩ dirIno⟩) = true := directory
      rw [kind] at becomes
      have sound' := becomes _ rfl ?_ ?_
      · exact ⟨_, sound', graph⟩
      · refine graph ▸ (sound.exact.withKind unlinked True).addDir free ?_ (if_pos rfl |>.mpr trivial) unlinked
        exact ⟨(if_neg apart).mpr live.1, live.2⟩
      · exact sound.orphans_new missing live.2 (Nat.succ_ne_zero 1) true

/-- `f2fs_link` names a file once more, or changes nothing; a file without a name is an orphan no
longer. -/
theorem f2fsLink (sound : NamesSound root ns view) (live : (view.graph root).Live dirIno)
    (proper : name.Proper) (free : (view.graph root).entries (dirIno, name) = none)
    (used : ns.inodes ino ≠ none) (plain : ¬(view.graph root).isDir ino)
    (present : ∀ ino, faults.node ino ≠ some .noent)
    (ends : ns.f2fsLink dirIno name ino faults = some (ns', result)) :
    (∀ err, result = .error err → NamesAre root ns' (view.graph root)) ∧
    (result = .ok () → NamesAre root ns' ((view.graph root).addFile (dirIno, name) ino)) := by
  obtain ⟨node, stored⟩ := Option.ne_none_iff_exists'.mp used
  have known := sound.shows.mode_of_node stored
  have links := sound.shows.links stored
  have file : modeIsDir node.mode = false :=
    Bool.eq_false_iff.mpr fun directory => plain ⟨node.mode, known, directory⟩
  have nothing := sound.formed.blank plain
  have apart : dirIno ≠ ino := by
    rintro rfl
    exact plain live.1
  rw [Namespace.f2fsLink, stored] at ends
  obtain ⟨failed, added⟩ := sound.addLink live proper free apart present ends (fun _ _ => rfl)
    (fun _ => nothing) (fun old same => Option.some.inj (same.symm.trans known))
    (fun directory => by rw [file] at directory; cases directory)
  refine ⟨fun err same => (failed err same).is, fun done => ?_⟩
  obtain ⟨⟨_, block, bitPos⟩, rfl, becomes⟩ := added done
  have graph := @NameView.graph_linkedView_file view root dirIno name ⟨⟨ino, node.mode⟩, block, bitPos⟩
    (node.iNlink + 1) (if node.iNlink = 0 then view.orphans.removeOrphanInode ino else view.orphans)
    proper file plain (by rw [links])
  simp only [if_true, true_and, Bool.false_and] at becomes
  have sound' := becomes _ rfl ?_ ?_
  · exact ⟨_, sound', graph⟩
  · exact graph ▸ sound.exact.addFile free live plain
  · have rest : ∀ other, (Function.update view.modes ino (some node.mode) other ≠ none ∧
        (Shows.linkedView view dirIno name ⟨⟨ino, node.mode⟩, block, bitPos⟩ (node.iNlink + 1) false
          (if node.iNlink = 0 then view.orphans.removeOrphanInode ino else view.orphans)
          (view.ents ino)).links other = 0) ↔
        other ≠ ino ∧ (view.modes other ≠ none ∧ view.links other = 0) := by
      intro other
      by_cases here : other = ino
      · subst here
        refine iff_of_false (fun held => ?_) fun held => held.1 rfl
        exact Nat.succ_ne_zero _
          ((@NameView.links_linkedView_ino view dirIno name ⟨⟨other, node.mode⟩, block, bitPos⟩ _ _ _
            apart false).symm.trans held.2)
      · rw [@NameView.links_linkedView view dirIno name ⟨⟨ino, node.mode⟩, block, bitPos⟩ _ _ _ live.2
          other here, Function.update_of_ne here]
        exact (and_iff_right here).symm
    by_cases last : node.iNlink = 0
    · have member : ino ∈ view.orphans.inoList :=
        sound.orphans.listed.mpr ⟨by rw [known]; exact Option.some_ne_none _, by rw [← links, last]⟩
      refine sound.orphans.remove member ((NameView.orphans_linkedView false).trans (if_pos last)) ?_
      intro other
      rw [NameView.modes_linkedView]
      exact rest other
    · refine sound.orphans.congr ((NameView.orphans_linkedView false).trans (if_neg last)) ?_
      intro other
      rw [NameView.modes_linkedView]
      refine (rest other).trans (and_iff_right_of_imp fun held => ?_)
      rintro rfl
      exact last (links.trans held.2)

/-- `f2fs_tmpfile` makes an orphan, or changes nothing. -/
theorem f2fsTmpfile (sound : NamesSound root ns view) (unused : ns.inodes ino = none) {mode : BitVec 16}
    (file : modeIsDir mode = false) {blank : Dir}
    (ends : ns.f2fsTmpfile ino mode blank faults = some (ns', result)) :
    NamesAre root ns' (view.graph root) := by
  rw [Namespace.f2fsTmpfile] at ends
  split at ends
  · obtain ⟨rfl, rfl⟩ := Prod.mk.inj (Option.some.inj ends)
    exact sound.is
  · split at ends
    · obtain ⟨rfl, rfl⟩ := Prod.mk.inj (Option.some.inj ends)
      exact sound.is
    · next orphans acquired =>
        obtain ⟨room, rfl⟩ := OrphanInodes.acquire_eq_some acquired
        split at ends
        · obtain ⟨orphans, released, same⟩ := Option.map_eq_some_iff.mp ends
          obtain ⟨rfl, rfl⟩ := Prod.mk.inj same
          rw [OrphanInodes.release_acquired] at released
          obtain rfl := Option.some.inj released
          exact sound.is
        · obtain ⟨rfl, rfl⟩ := Prod.mk.inj (Option.some.inj ends)
          obtain ⟨missing, unlinked, nothing⟩ := sound.fresh unused
          have plain : ¬view.IsDir ino := by
            rintro ⟨old, stored, _⟩
            rw [missing] at stored
            cases stored
          have graph : ((view.addNode ino mode 0 (view.ents ino)).setOrphans
              (view.orphans.acquired.addOrphanInode ino)).graph root = view.graph root := by
            rw [NameView.graph_setOrphans, NameView.graph_addNode_file plain file]
            refine LinkGraph.ext rfl rfl ?_ rfl rfl
            exact Function.update_eq_iff.mpr ⟨unlinked.symm, fun _ _ => rfl⟩
          refine ⟨_, ⟨?_, ?_, ?_, ?_⟩, graph⟩
          · rw [graph]
            exact sound.exact
          · refine (sound.formed.addNode (fun _ _ => rfl) (fun _ => nothing) ?_).setOrphans _
            intro old stored
            rw [missing] at stored
            cases stored
          · rw [sound.shows.orphans] at room
            refine sound.orphans.add room ?_ rfl fun other => ?_
            · intro member
              exact (sound.orphans.listed.mp member).1 missing
            · by_cases here : other = ino
              · subst here
                refine iff_of_true ⟨?_, Function.update_self ..⟩ (.inl rfl)
                rw [NameView.modes_setOrphans, NameView.modes_addNode]
                exact Option.some_ne_none _
              · rw [or_iff_right here]
                refine and_congr (iff_of_eq (congrArg (· ≠ none) (Function.update_of_ne here _ _))) ?_
                exact iff_of_eq (congrArg (· = 0) (Function.update_of_ne here _ _))
          · have inserted := @Shows.setNode ns view _ _ ino sound.shows
              ((view.addNode ino mode 0 (view.ents ino)).IsDir)
              (fun other => Function.update view.links ino 0 other = 0)
              ⟨mode, 0, 1, false, blank⟩ (view.ents ino) ?_ ?_ ?_ ?_
            · rw [sound.shows.orphans]
              exact inserted.setOrphans _
            · intro other different directory
              rwa [NameView.isDir_addNode, if_neg different] at directory
            · intro directory
              rw [NameView.isDir_addNode, if_pos rfl, file] at directory
              cases directory
            · intro other different stale
              exact (Function.update_of_ne different _ _).trans stale
            · exact fun fresh => absurd (Function.update_self ..) fresh

/-! ## Removing names -/

/-- `f2fs_delete_entry` of a file. -/
theorem deleteEntry_file (sound : NamesSound root ns view)
    (room : view.orphans.nOrphans < view.orphans.maxOrphans) (proper : name.Proper) {place : EntryPlace}
    (here : view.ents dirIno name = some place) (plain : ¬view.IsDir place.inode.ino)
    (present : ∀ ino, faults.node ino ≠ some .noent) : ∃ ns',
      { ns with orphans := view.orphans.acquired }.deleteEntry dirIno (place.found name)
        place.inode.ino faults = some ns' ∧
      NamesAre root ns' ((view.graph root).removeFile (dirIno, name) place.inode.ino) := by
  have stored : (view.graph root).entries (dirIno, name) = some place.inode.ino := by
    rw [NameView.graph_entries proper, here, Option.map_some]
  have live : (view.graph root).Live dirIno := sound.exact.inDir stored
  have linked := sound.exact.linked stored
  have known := sound.formed.known linked
  -- the entry, the link count and the node page, and the slot
  have cleared := (sound.shows.setOrphans view.orphans.acquired).clearEntry live.1 proper here
    live.1.known
  obtain ⟨ns₁, dropped, shows₁⟩ := cleared.dropNlink known linked
  have written := @Shows.updateInodePage _ _ _ _ place.inode.ino faults shows₁ (present _)
  obtain ⟨ns₂, settled, shows₂⟩ := written.settleOrphan known rfl
  obtain ⟨mode, hasMode⟩ := Option.ne_none_iff_exists'.mp known
  obtain ⟨node, stored', sameMode, _⟩ := cleared.exists_node hasMode
  have file : node.isDir = false := by
    refine Bool.eq_false_iff.mpr fun directory => plain ⟨mode, hasMode, ?_⟩
    rw [← sameMode]
    exact directory
  refine ⟨ns₂, ?_, ((view.setEntry dirIno name none).setLinks place.inode.ino
    (view.links place.inode.ino - 1)).settled view.orphans place.inode.ino, ⟨?_, ?_, ?_, ?_⟩, ?_⟩
  · rw [Namespace.deleteEntry, stored']
    simp only [Option.bind_eq_bind, Option.bind_some, file, Bool.false_eq_true, if_false]
    rw [dropped]
    exact settled
  · rw [NameView.graph_settled, NameView.graph_setLinks, NameView.graph_setEntry proper]
    exact sound.exact.removeFile stored plain
  · refine ((sound.formed.setEntry live.1 ?_).setLinks known _).setOrphans _
    rintro entry new
    cases new
  · refine sound.orphans.settle room linked rfl rfl known fun other different => ?_
    exact iff_of_eq (congrArg (· = 0) (Function.update_of_ne different _ _))
  · refine shows₂.weaken (fun _ => id) ?_
    rintro other ⟨different, rfl | stale⟩
    · exact absurd rfl different
    · exact (Function.update_of_ne different _ _).trans stale
  · rw [NameView.graph_settled, NameView.graph_setLinks, NameView.graph_setEntry proper]
    rfl

/-- `f2fs_delete_entry` of an empty directory. -/
theorem deleteEntry_dir (sound : NamesSound root ns view)
    (room : view.orphans.nOrphans < view.orphans.maxOrphans) (proper : name.Proper) {place : EntryPlace}
    (here : view.ents dirIno name = some place) (directory : view.IsDir place.inode.ino)
    (empty : ∀ name, (view.graph root).entries (place.inode.ino, name) = none)
    (present : ∀ ino, faults.node ino ≠ some .noent) : ∃ ns',
      { ns with orphans := view.orphans.acquired }.deleteEntry dirIno (place.found name)
        place.inode.ino faults = some ns' ∧
      NamesAre root ns' ((view.graph root).removeDir (dirIno, name) place.inode.ino) := by
  have stored : (view.graph root).entries (dirIno, name) = some place.inode.ino := by
    rw [NameView.graph_entries proper, here, Option.map_some]
  have live : (view.graph root).Live dirIno := sound.exact.inDir stored
  have linked := sound.exact.linked stored
  have known := sound.formed.known linked
  have apart : place.inode.ino ≠ dirIno := Ne.symm (sound.exact.entry_ne stored)
  have two : view.links place.inode.ino = 2 :=
    sound.exact.links_of_empty (sound.exact.child stored directory).1 empty
  have more : 2 < view.links dirIno := sound.exact.two_lt_links stored directory
  -- the entry, the link of the parent, the two links of the directory, and the slot
  have cleared := (sound.shows.setOrphans view.orphans.acquired).clearEntry live.1 proper here
    live.1.known
  obtain ⟨ns₁, dropped₁, shows₁⟩ := cleared.dropNlink live.1.known live.2
  have written₁ := @Shows.updateInodePage _ _ _ _ dirIno faults shows₁ (present _)
  have kept : Function.update view.links dirIno (view.links dirIno - 1) place.inode.ino = 2 :=
    (Function.update_of_ne apart _ _).trans two
  obtain ⟨ns₂, ns₃, dropped₂, dropped₃, shows₃⟩ := written₁.dropNlink_twice known kept
  have written₃ := @Shows.updateInodePage _ _ _ _ place.inode.ino faults shows₃ (present _)
  obtain ⟨ns₄, settled, shows₄⟩ := written₃.settleOrphan known rfl
  obtain ⟨mode, hasMode, type⟩ := directory
  obtain ⟨node, stored', sameMode, _⟩ := cleared.exists_node hasMode
  have isDir : node.isDir = true := by
    rw [← sameMode] at type
    exact type
  have graph : ((((view.setEntry dirIno name none).setLinks dirIno (view.links dirIno - 1)).setLinks
      place.inode.ino 0).settled view.orphans place.inode.ino).graph root =
        (view.graph root).removeDir (dirIno, name) place.inode.ino := by
    rw [NameView.graph_settled, NameView.graph_setLinks, NameView.graph_setLinks,
      NameView.graph_setEntry proper]
    refine LinkGraph.ext rfl rfl ?_ rfl rfl
    exact Function.update_comm (Ne.symm apart) _ _ _
  refine ⟨ns₄, ?_, _, ⟨?_, ?_, ?_, ?_⟩, graph⟩
  · rw [Namespace.deleteEntry, stored']
    simp only [Option.bind_eq_bind, Option.bind_some, isDir, if_true]
    rw [dropped₁, Option.bind_some, dropped₂, Option.bind_some, dropped₃, Option.bind_some]
    exact settled
  · rw [graph]
    exact sound.exact.removeDir stored ⟨mode, hasMode, type⟩ empty
  · refine (((sound.formed.setEntry live.1 ?_).setLinks live.1.known _).setLinks known _).setOrphans _
    rintro entry new
    cases new
  · refine sound.orphans.settle room linked rfl rfl known fun other different => ?_
    refine Iff.trans (iff_of_eq (congrArg (· = 0) (Function.update_of_ne different _ _))) ?_
    by_cases parent : other = dirIno
    · subst parent
      refine iff_of_false (fun zero => ?_) live.2
      have count := (Function.update_self ..).symm.trans zero
      omega
    · exact iff_of_eq (congrArg (· = 0) (Function.update_of_ne parent _ _))
  · refine shows₄.weaken (fun _ => id) ?_
    rintro other ⟨different, rfl | ⟨notDir, rfl | stale⟩⟩
    · exact absurd rfl different
    · exact absurd rfl notDir
    · exact (Function.update_of_ne different _ _).trans ((Function.update_of_ne notDir _ _).trans stale)

/-- A lookup keeps the view, and what it finds is the entry of the name. -/
theorem findEntry (sound : NamesSound root ns view) (directory : view.IsDir dirIno)
    {found : Option FoundEntry} (ends : ns.findEntry dirIno name faults = some (ns', found)) :
    NamesSound root ns' view ∧ ∀ de, found = some de →
      ∃ place, view.ents dirIno name = some place ∧ de = place.found name := by
  obtain ⟨shows, only⟩ := sound.shows.findEntry directory ends
  exact ⟨{ sound with shows := shows }, only⟩

/-- The entry of the graph is the one the lookup finds. -/
theorem place_of_entries {target : BitVec 32}
    (stored : (view.graph root).entries (dirIno, name) = some target) {place : EntryPlace}
    (here : view.ents dirIno name = some place) : name.Proper ∧ place.inode.ino = target := by
  obtain ⟨proper, other, same, inode⟩ := NameView.graph_entries_eq_some.mp stored
  obtain rfl := Option.some.inj (same.symm.trans here)
  exact ⟨proper, inode⟩

/-- `f2fs_unlink` does what `f2fs_delete_entry` does, or changes nothing. -/
theorem f2fsUnlink_of_deleteEntry (sound : NamesSound root ns view)
    (stored : (view.graph root).entries (dirIno, name) = some ino)
    {graph : LinkGraph (BitVec 32) FileName}
    (deletes : ∀ {ns₁ place}, NamesSound root ns₁ view → view.orphans.nOrphans < view.orphans.maxOrphans →
      name.Proper → view.ents dirIno name = some place → place.inode.ino = ino → ∃ ns₂,
        { ns₁ with orphans := view.orphans.acquired }.deleteEntry dirIno (place.found name) ino faults =
          some ns₂ ∧ NamesAre root ns₂ graph)
    (ends : ns.f2fsUnlink dirIno name ino faults = some (ns', result)) :
    (∀ err, result = .error err → NamesAre root ns' (view.graph root)) ∧
    (result = .ok () → NamesAre root ns' graph) := by
  rw [Namespace.f2fsUnlink] at ends
  split at ends
  · cases ends
  · next ns₁ search =>
      obtain ⟨rfl, rfl⟩ := Prod.mk.inj (Option.some.inj ends)
      exact ⟨fun _ _ => (sound.findEntry (sound.exact.inDir stored).1 search).1.is,
        fun impossible => by cases impossible⟩
  · next ns₁ de search =>
      obtain ⟨sound₁, only⟩ := sound.findEntry (sound.exact.inDir stored).1 search
      obtain ⟨place, here, rfl⟩ := only de rfl
      obtain ⟨proper, same⟩ := place_of_entries stored here
      split at ends
      · obtain ⟨rfl, rfl⟩ := Prod.mk.inj (Option.some.inj ends)
        exact ⟨fun _ _ => sound₁.is, fun impossible => by cases impossible⟩
      · next orphans acquired =>
          obtain ⟨room, rfl⟩ := OrphanInodes.acquire_eq_some acquired
          rw [sound₁.shows.orphans] at room ends
          obtain ⟨ns₂, deleted, is⟩ := deletes sound₁ room proper here same
          rw [deleted] at ends
          obtain ⟨rfl, rfl⟩ := Prod.mk.inj (Option.some.inj ends)
          exact ⟨fun _ impossible => (by cases impossible), fun _ => is⟩

/-- `f2fs_unlink` removes the name of a file, or changes nothing. -/
theorem f2fsUnlink (sound : NamesSound root ns view)
    (stored : (view.graph root).entries (dirIno, name) = some ino) (plain : ¬(view.graph root).isDir ino)
    (present : ∀ ino, faults.node ino ≠ some .noent)
    (ends : ns.f2fsUnlink dirIno name ino faults = some (ns', result)) :
    (∀ err, result = .error err → NamesAre root ns' (view.graph root)) ∧
    (result = .ok () → NamesAre root ns' ((view.graph root).removeFile (dirIno, name) ino)) := by
  refine sound.f2fsUnlink_of_deleteEntry stored ?_ ends
  rintro ns₁ place sound₁ room proper here rfl
  exact sound₁.deleteEntry_file room proper here plain present

/-- A directory that `f2fs_empty_dir` calls empty has no entries. -/
theorem empty_of_f2fsEmptyDir (sound : NamesSound root ns view) {node : NameInode}
    (stored : ns.inodes ino = some node) (directory : view.IsDir ino)
    (empty : f2fsEmptyDir node.dir (faults.block ino) = some true) (name : FileName) :
    (view.graph root).entries (ino, name) = none := by
  obtain ⟨parent, names⟩ := sound.shows.dirs directory stored
  by_cases proper : name.Proper
  · rw [NameView.graph_entries proper, names.eq_none_of_empty empty proper, Option.map_none]
  · refine if_pos ?_
    by_contra neither
    exact proper (not_or.mp neither)

/-- `f2fs_rmdir` removes an empty directory, or changes nothing. -/
theorem f2fsRmdir (sound : NamesSound root ns view)
    (stored : (view.graph root).entries (dirIno, name) = some ino)
    (directory : (view.graph root).isDir ino) (present : ∀ ino, faults.node ino ≠ some .noent)
    (ends : ns.f2fsRmdir dirIno name ino faults = some (ns', result)) :
    (∀ err, result = .error err → NamesAre root ns' (view.graph root)) ∧
    (result = .ok () → (∀ name, (view.graph root).entries (ino, name) = none) ∧
      NamesAre root ns' ((view.graph root).removeDir (dirIno, name) ino)) := by
  rw [Namespace.f2fsRmdir] at ends
  split at ends
  · cases ends
  · next node known =>
      split at ends
      · cases ends
      · next empty =>
          have nothing := sound.empty_of_f2fsEmptyDir known directory empty
          obtain ⟨failed, removed⟩ := @f2fsUnlink_of_deleteEntry _ _ _ _ _ _ _ _ _ sound stored
            ((view.graph root).removeDir (dirIno, name) ino) (by
              rintro ns₁ place sound₁ room proper here rfl
              exact sound₁.deleteEntry_dir room proper here directory nothing present) ends
          exact ⟨failed, fun done => ⟨nothing, removed done⟩⟩
      · obtain ⟨rfl, rfl⟩ := Prod.mk.inj (Option.some.inj ends)
        exact ⟨fun _ _ => sound.is, fun impossible => by cases impossible⟩

/-! ## The end of an inode -/

theorem graph_forget (sound : NamesSound root ns view) (unlinked : view.links ino = 0) :
    (view.forget ino).graph root = (view.graph root).withKind ino False := by
  refine LinkGraph.ext rfl ?_ rfl ?_ ?_
  · funext other
    refine propext ?_
    change (view.forget ino).IsDir other ↔ if other = ino then False else view.IsDir other
    rw [NameView.isDir_forget]
    by_cases here : other = ino
    · rw [if_pos here]
      exact iff_of_false (fun held => held.1 here) not_false
    · rw [if_neg here]
      exact and_iff_right here
  · funext other
    change ((Function.update view.ents ino (fun _ => none) other dotDotName).map _).getD other =
      Function.update (view.graph root).parent ino ino other
    by_cases here : other = ino
    · subst here
      rw [Function.update_self, Function.update_self]
      rfl
    · rw [Function.update_of_ne here, Function.update_of_ne here]
      rfl
  · funext key
    obtain ⟨other, name⟩ := key
    change ((view.forget ino).graph root).entries (other, name) = (view.graph root).entries (other, name)
    by_cases here : other = ino
    · subst here
      have nothing : (view.graph root).entries (other, name) = none := by
        by_contra stored
        obtain ⟨target, stored⟩ := Option.ne_none_iff_exists'.mp stored
        exact (sound.exact.inDir stored).2 unlinked
      rw [nothing]
      change ite _ _ ((Function.update view.ents other (fun _ => none) other name).map _) = none
      rw [Function.update_self, Option.map_none, ite_self]
    · change ite _ _ ((Function.update view.ents ino (fun _ => none) other name).map _) = _
      rw [Function.update_of_ne here]
      rfl

/-- An orphan that is removed. -/
theorem forget (sound : NamesSound root ns view) {node : NameInode} (stored : ns.inodes ino = some node)
    (unlinked : view.links ino = 0) :
    NamesSound root { ns with
      inodes := Function.update ns.inodes ino none
      orphans := ns.orphans.removeOrphanInode ino } (view.forget ino) := by
  have known : view.modes ino ≠ none := by
    rw [sound.shows.mode_of_node stored]
    exact Option.some_ne_none _
  have left : ∀ {other node'}, Function.update ns.inodes ino none other = some node' →
      other ≠ ino ∧ ns.inodes other = some node' := by
    intro other node' present
    rcases update_eq_some present with ⟨_, gone⟩ | kept
    · cases gone
    · exact kept
  refine ⟨?_, ⟨?_, ?_, ?_⟩, ?_, ?_, ?_, ?_, ?_, ?_⟩
  · rw [graph_forget sound unlinked]
    exact sound.exact.withKind unlinked False
  · intro other missing
    by_cases here : other = ino
    · rw [here]
      exact unlinked
    · exact sound.formed.absent ((Function.update_of_ne here _ _).symm.trans missing)
  · intro other plain
    rw [NameView.isDir_forget, not_and] at plain
    by_cases here : other = ino
    · rw [here]
      exact Function.update_self ..
    · exact (Function.update_of_ne here _ _).trans (sound.formed.blank (plain here))
  · intro dir name place proper here
    have before : view.ents dir name = some place := by
      by_cases same : dir = ino
      · subst same
        cases (congrFun (Function.update_self ..) name).symm.trans here
      · exact (congrFun (Function.update_of_ne same _ _) name).symm.trans here
    rw [NameView.modes_forget]
    refine ⟨?_, sound.formed.typed proper before⟩
    intro same
    have entry : (view.graph root).entries (dir, name) = some ino := by
      rw [NameView.graph_entries proper, before, Option.map_some, same]
    exact sound.exact.linked entry unlinked
  · refine sound.orphans.remove (sound.orphans.listed.mpr ⟨known, unlinked⟩) rfl fun other => ?_
    rw [Option.ne_none_iff_exists', Option.ne_none_iff_exists', ← and_assoc, ← exists_and_left]
    simp only [NameView.modes_forget]
    rfl
  · intro other
    by_cases here : other = ino
    · subst here
      have gone : (view.forget other).modes other = none := Function.update_self ..
      rw [gone, Option.map_eq_none_iff]
      exact Function.update_self ..
    · refine (congrArg _ (Function.update_of_ne here _ _)).trans ((sound.shows.modes other).trans ?_)
      exact (Function.update_of_ne here _ _).symm
  · exact fun present => sound.shows.links (left present).2
  · intro other node' directory present
    obtain ⟨different, before⟩ := left present
    obtain ⟨parent, names⟩ := sound.shows.dirs (NameView.isDir_forget.mp directory).2 before
    refine ⟨parent, ?_⟩
    rwa [show (view.forget ino).ents other = view.ents other from Function.update_of_ne different _ _]
  · exact fun checked _ _ present => sound.shows.pages checked (left present).2
  · exact congrArg (·.removeOrphanInode ino) sound.shows.orphans

/-- `f2fs_evict_inode` ends the life of an orphan that can be read, and changes nothing else. -/
theorem f2fsEvictInode (sound : NamesSound root ns view) :
    (ns.inodes ino = none ∨ (view.graph root).links ino ≠ 0 ∨ faults.node ino ≠ none →
      NamesAre root (ns.f2fsEvictInode ino faults) (view.graph root)) ∧
    (¬(ns.inodes ino = none ∨ (view.graph root).links ino ≠ 0 ∨ faults.node ino ≠ none) →
      NamesAre root (ns.f2fsEvictInode ino faults) ((view.graph root).withKind ino False)) := by
  rw [Namespace.f2fsEvictInode]
  cases stored : ns.inodes ino with
  | none => exact ⟨fun _ => sound.is, fun used => absurd (.inl rfl) used⟩
  | some node =>
      dsimp only
      rw [show node.iNlink = (view.graph root).links ino from sound.shows.links stored]
      constructor
      · intro kept
        rw [if_pos (kept.resolve_left (Option.some_ne_none _))]
        exact sound.is
      · intro ended
        obtain ⟨_, unused⟩ := not_or.mp ended
        have unlinked : view.links ino = 0 := not_not.mp (not_or.mp unused).1
        rw [if_neg unused]
        exact ⟨_, sound.forget stored unlinked, graph_forget sound unlinked⟩

end NamesSound

end StorageStack.F2fs
