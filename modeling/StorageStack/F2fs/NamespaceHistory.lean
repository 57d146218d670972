import StorageStack.F2fs.FormatRoot
import StorageStack.F2fs.NamespaceExchange

/-!
# Name spaces over whole runs

The link graph of a name space is read off with lookups.  From a new volume on, every call that the
VFS makes after its checks either changes the graph as it says or leaves it, whatever fails on the
way, so in every state the counts, the tree and the orphans are exact.
-/

namespace StorageStack.F2fs

/-! ## The link graph -/

namespace Namespace

/-- The inode that `f2fs_lookup` finds when all blocks can be read. -/
def lookup (ns : Namespace) (dirIno : BitVec 32) (name : FileName) : Option (BitVec 32) :=
  match ns.inodes dirIno with
  | none => none
  | some node =>
      if node.isDir = true then
        ((findEntryReading node.dir (fun _ => false) name).bind Prod.snd).map fun found => found.de.ino
      else none

/-- The link graph of a name space. -/
def graph (ns : Namespace) (root : BitVec 32) : LinkGraph (BitVec 32) FileName where
  root := root
  isDir ino := ∃ node, ns.inodes ino = some node ∧ node.isDir = true
  links ino := ((ns.inodes ino).map NameInode.iNlink).getD 0
  parent ino := (ns.lookup ino dotDotName).getD ino
  entries key := if key.2 = dotName ∨ key.2 = dotDotName then none else ns.lookup key.1 key.2

end Namespace

namespace NamesSound

variable {root : BitVec 32} {ns : Namespace} {view : NameView}

/-- Lookups find the entries of the view. -/
theorem lookup_eq (sound : NamesSound root ns view) (dirIno : BitVec 32) (name : FileName) :
    ns.lookup dirIno name = (view.ents dirIno name).map fun place => place.inode.ino := by
  rw [Namespace.lookup]
  split
  · next unused => rw [(sound.fresh unused).2.2, Option.map_none]
  · next node stored =>
      split
      · next directory =>
          obtain ⟨parent, names⟩ := sound.shows.dirs
            ⟨node.mode, sound.shows.mode_of_node stored, directory⟩ stored
          cases here : view.ents dirIno name with
          | some place =>
              obtain ⟨dir, search⟩ := @DirInv.findEntryReading_some _ _ _ names.inv (fun _ => false) place
                here rfl
              rw [search]
              rfl
          | none =>
              cases search : findEntryReading node.dir (fun _ => false) name with
              | none => rfl
              | some result =>
                  obtain ⟨dir, _ | found⟩ := result
                  · rfl
                  · obtain ⟨place, also, _⟩ := (names.findEntry search).2 found rfl
                    rw [here] at also
                    cases also
      · next plain =>
          have other : ¬view.IsDir dirIno := by
            rintro ⟨mode, known, directory⟩
            obtain rfl := Option.some.inj (known.symm.trans (sound.shows.mode_of_node stored))
            exact plain directory
          rw [sound.formed.blank other, Option.map_none]

/-- The graph of the name space is that of its view. -/
theorem graph_eq (sound : NamesSound root ns view) : ns.graph root = view.graph root := by
  refine LinkGraph.ext rfl ?_ ?_ ?_ ?_
  · funext ino
    change (∃ node, _) = ∃ mode, view.modes ino = some mode ∧ modeIsDir mode = true
    simp only [← sound.shows.modes, Option.map_eq_some_iff]
    refine propext ⟨fun ⟨node, stored, directory⟩ => ⟨_, ⟨node, stored, rfl⟩, directory⟩, ?_⟩
    rintro ⟨_, ⟨node, stored, rfl⟩, directory⟩
    exact ⟨node, stored, directory⟩
  · funext ino
    change ((ns.inodes ino).map NameInode.iNlink).getD 0 = view.links ino
    cases stored : ns.inodes ino with
    | none => exact (sound.fresh stored).2.1.symm
    | some node => exact sound.shows.links stored
  · funext ino
    change (ns.lookup ino dotDotName).getD ino = _
    rw [sound.lookup_eq]
    rfl
  · funext key
    change ite _ _ (ns.lookup key.1 key.2) = _
    rw [sound.lookup_eq]
    rfl

end NamesSound

/-! ## Calls -/

/-- The calls of `f2fs_dir_inode_operations` that read or change names, and the end of an inode. -/
inductive NameCall
  | lookup (dirIno : BitVec 32) (name : FileName)
  | create (dirIno : BitVec 32) (name : FileName) (ino : BitVec 32) (mode : BitVec 16) (blank : Dir)
  | mknod (dirIno : BitVec 32) (name : FileName) (ino : BitVec 32) (mode : BitVec 16) (blank : Dir)
  | symlink (dirIno : BitVec 32) (name : FileName) (ino : BitVec 32) (blank : Dir)
  | mkdir (dirIno : BitVec 32) (name : FileName) (ino : BitVec 32) (mode : BitVec 16) (dirLevel : Nat)
      (inlineXattr : Bool)
  | link (dirIno : BitVec 32) (name : FileName) (ino : BitVec 32)
  | tmpfile (ino : BitVec 32) (mode : BitVec 16) (blank : Dir)
  | unlink (dirIno : BitVec 32) (name : FileName) (ino : BitVec 32)
  | rmdir (dirIno : BitVec 32) (name : FileName) (ino : BitVec 32)
  | rename (oldDir : BitVec 32) (oldName : FileName) (oldIno newDir : BitVec 32) (newName : FileName)
      (newIno : Option (BitVec 32))
  | crossRename (oldDir : BitVec 32) (oldName : FileName) (oldIno newDir : BitVec 32)
      (newName : FileName) (newIno : BitVec 32)
  | evict (ino : BitVec 32)

namespace NameCall

/-- What a call does and returns. -/
def run (ns : Namespace) (faults : NameFaults) : NameCall → Option (Namespace × Except NameError Unit)
  | lookup dirIno name => (ns.findEntry dirIno name faults).map fun result => (result.1, .ok ())
  | create dirIno name ino mode blank => ns.f2fsCreate dirIno name ino mode blank faults
  | mknod dirIno name ino mode blank => ns.f2fsMknod dirIno name ino mode blank faults
  | symlink dirIno name ino blank => ns.f2fsSymlink dirIno name ino blank faults
  | mkdir dirIno name ino mode dirLevel inlineXattr =>
      ns.f2fsMkdir dirIno name ino mode dirLevel inlineXattr faults
  | link dirIno name ino => ns.f2fsLink dirIno name ino faults
  | tmpfile ino mode blank => ns.f2fsTmpfile ino mode blank faults
  | unlink dirIno name ino => ns.f2fsUnlink dirIno name ino faults
  | rmdir dirIno name ino => ns.f2fsRmdir dirIno name ino faults
  | rename oldDir oldName oldIno newDir newName newIno =>
      ns.f2fsRename oldDir oldName oldIno newDir newName newIno faults
  | crossRename oldDir oldName oldIno newDir newName newIno =>
      ns.f2fsCrossRename oldDir oldName oldIno newDir newName newIno faults
  | evict ino => some (ns.f2fsEvictInode ino faults, .ok ())

/-- The VFS adds a name only where there is none, in a directory that has not been removed. -/
def Free (graph : LinkGraph (BitVec 32) FileName) (dirIno : BitVec 32) (name : FileName) : Prop :=
  graph.Live dirIno ∧ name.Proper ∧ graph.entries (dirIno, name) = none

/-- What the VFS has checked before it makes a call; a new inode has a free number. -/
def Checked (root : BitVec 32) (ns : Namespace) : NameCall → Prop
  | lookup dirIno _ => (ns.graph root).isDir dirIno
  | create dirIno name ino mode _ | mknod dirIno name ino mode _ =>
      Free (ns.graph root) dirIno name ∧ ns.inodes ino = none ∧ modeIsDir mode = false
  | symlink dirIno name ino _ => Free (ns.graph root) dirIno name ∧ ns.inodes ino = none
  | mkdir dirIno name ino mode _ _ =>
      Free (ns.graph root) dirIno name ∧ ns.inodes ino = none ∧ modeIsDir (0x4000 ||| mode) = true
  | link dirIno name ino =>
      Free (ns.graph root) dirIno name ∧ ns.inodes ino ≠ none ∧ ¬(ns.graph root).isDir ino
  | tmpfile ino mode _ => ns.inodes ino = none ∧ modeIsDir mode = false
  | unlink dirIno name ino =>
      (ns.graph root).entries (dirIno, name) = some ino ∧ ¬(ns.graph root).isDir ino
  | rmdir dirIno name ino =>
      (ns.graph root).entries (dirIno, name) = some ino ∧ (ns.graph root).isDir ino
  | rename oldDir oldName oldIno newDir newName newIno =>
      (ns.graph root).entries (oldDir, oldName) = some oldIno ∧ (ns.graph root).Live newDir ∧
        newName.Proper ∧ (ns.graph root).entries (newDir, newName) = newIno ∧ newIno ≠ some oldIno ∧
        (∀ ino, newIno = some ino → ((ns.graph root).isDir ino ↔ (ns.graph root).isDir oldIno)) ∧
        ((ns.graph root).isDir oldIno → ¬Above (ns.graph root).parent oldIno newDir)
  | crossRename oldDir oldName oldIno newDir newName newIno =>
      (ns.graph root).entries (oldDir, oldName) = some oldIno ∧
        (ns.graph root).entries (newDir, newName) = some newIno ∧ oldIno ≠ newIno ∧
        ((ns.graph root).isDir oldIno → ¬Above (ns.graph root).parent oldIno newDir) ∧
        ((ns.graph root).isDir newIno → ¬Above (ns.graph root).parent newIno oldDir)
  | evict _ => True

/-- What a call that is done has made of the graph. -/
noncomputable def effect (graph : LinkGraph (BitVec 32) FileName) :
    NameCall → LinkGraph (BitVec 32) FileName
  | lookup _ _ | tmpfile _ _ _ => graph
  | create dirIno name ino _ _ | mknod dirIno name ino _ _ | symlink dirIno name ino _
  | link dirIno name ino => graph.addFile (dirIno, name) ino
  | mkdir dirIno name ino _ _ _ => (graph.withKind ino True).addDir (dirIno, name) ino
  | unlink dirIno name ino => graph.removeFile (dirIno, name) ino
  | rmdir dirIno name ino => graph.removeDir (dirIno, name) ino
  | rename oldDir oldName oldIno newDir newName newIno =>
      graph.rename (oldDir, oldName) (newDir, newName) oldIno newIno
  | crossRename oldDir oldName oldIno newDir newName newIno =>
      graph.exchange (oldDir, oldName) (newDir, newName) oldIno newIno
  | evict ino => graph.withKind ino False

/-- A call says that it is done but has done nothing: a rename over another inode when the node page
cannot be read, and the eviction of an inode that has links or cannot be read. -/
def Skips (root : BitVec 32) (ns : Namespace) (faults : NameFaults) : NameCall → Prop
  | rename _ _ oldIno _ _ newIno => newIno ≠ none ∧ faults.node oldIno ≠ none
  | evict ino => ns.inodes ino = none ∨ (ns.graph root).links ino ≠ 0 ∨ faults.node ino ≠ none
  | _ => False

/-- The call is a `f2fs_symlink` whose target could not be written. -/
def Untargeted (faults : NameFaults) : NameCall → Prop
  | symlink _ _ _ _ => faults.symlink ≠ none
  | _ => False

end NameCall

/-- A call that returns has left exact counts, and of the graph what its result says: an error leaves
it, but for the symbolic link without a target. -/
structure NameCall.Leaves (root : BitVec 32) (ns : Namespace) (faults : NameFaults) (call : NameCall)
    (result : Except NameError Unit) (ns' : Namespace) : Prop where
  sound : ∃ view, NamesSound root ns' view
  failed : ∀ err, result = .error err → ns'.graph root = ns.graph root ∨
    call.Untargeted faults ∧ ns'.graph root = call.effect (ns.graph root)
  skipped : result = .ok () → call.Skips root ns faults → ns'.graph root = ns.graph root
  done : result = .ok () → ¬call.Skips root ns faults →
    ns'.graph root = call.effect (ns.graph root)

/-- The graph of the name space is the one it is known to be. -/
theorem NamesAre.graph_eq {root : BitVec 32} {ns : Namespace} {graph : LinkGraph (BitVec 32) FileName}
    (is : NamesAre root ns graph) : ns.graph root = graph := by
  obtain ⟨view, sound, rfl⟩ := is
  exact sound.graph_eq

namespace NameCall.Leaves

variable {root : BitVec 32} {ns ns' : Namespace} {faults : NameFaults} {call : NameCall}
  {result : Except NameError Unit}

/-- A call leaves one graph or the other, as its result says. -/
theorem of_are (failed : ∀ err, result = .error err → NamesAre root ns' (ns.graph root) ∨
      call.Untargeted faults ∧ NamesAre root ns' (call.effect (ns.graph root)))
    (skipped : result = .ok () → call.Skips root ns faults → NamesAre root ns' (ns.graph root))
    (done : result = .ok () → ¬call.Skips root ns faults →
      NamesAre root ns' (call.effect (ns.graph root))) : call.Leaves root ns faults result ns' where
  sound := by
    rcases result with err | ⟨⟩
    · rcases failed err rfl with ⟨view, sound, _⟩ | ⟨_, view, sound, _⟩ <;> exact ⟨view, sound⟩
    · by_cases skips : call.Skips root ns faults
      · obtain ⟨view, sound, _⟩ := skipped rfl skips
        exact ⟨view, sound⟩
      · obtain ⟨view, sound, _⟩ := done rfl skips
        exact ⟨view, sound⟩
  failed err same := (failed err same).imp NamesAre.graph_eq (And.imp_right NamesAre.graph_eq)
  skipped same skips := (skipped same skips).graph_eq
  done same goes := (done same goes).graph_eq

/-- A call that never skips. -/
theorem of_changes (goes : ¬call.Skips root ns faults)
    (changes : (∀ err, result = .error err → NamesAre root ns' (ns.graph root)) ∧
      (result = .ok () → NamesAre root ns' (call.effect (ns.graph root)))) :
    call.Leaves root ns faults result ns' :=
  of_are (fun err same => .inl (changes.1 err same)) (fun _ skips => absurd skips goes)
    fun same _ => changes.2 same

end NameCall.Leaves

namespace NamesSound

variable {root : BitVec 32} {ns ns' : Namespace} {view : NameView} {faults : NameFaults}
  {result : Except NameError Unit}

/-- Each call leaves exact counts and does what it says, whatever fails on the way. -/
theorem leaves (sound : NamesSound root ns view) {call : NameCall} (checked : call.Checked root ns)
    (present : ∀ ino, faults.node ino ≠ some .noent)
    (ends : call.run ns faults = some (ns', result)) : call.Leaves root ns faults result ns' := by
  have same := sound.graph_eq
  cases call with
  | lookup dirIno name =>
      obtain ⟨⟨ns₁, found⟩, search, eq⟩ := Option.map_eq_some_iff.mp ends
      obtain ⟨rfl, rfl⟩ := Prod.mk.inj eq
      rw [NameCall.Checked, same] at checked
      have is := (sound.findEntry checked search).1.is
      rw [← same] at is
      exact .of_changes id ⟨fun _ _ => is, fun _ => is⟩
  | create dirIno name ino mode blank | mknod dirIno name ino mode blank =>
      obtain ⟨⟨live, proper, free⟩, unused, file⟩ := checked
      rw [same] at live free
      refine .of_changes id ?_
      rw [same]
      exact sound.addInode_file live proper free unused file present ends
  | symlink dirIno name ino blank =>
      obtain ⟨⟨live, proper, free⟩, unused⟩ := checked
      rw [same] at live free
      obtain ⟨⟨ns₁, added⟩, inode, eq⟩ := Option.map_eq_some_iff.mp ends
      obtain ⟨rfl, rfl⟩ := Prod.mk.inj eq
      obtain ⟨failed, done⟩ := sound.addInode_file live proper free unused (by decide) present inode
      refine .of_are ?_ (fun _ skips => skips.elim) ?_
      all_goals rw [same]
      · intro err outcome
        rcases added with err | ⟨⟩
        · exact .inl (failed err rfl)
        · refine .inr ⟨fun written => ?_, done rfl⟩
          rw [written] at outcome
          cases outcome
      · intro outcome _
        rcases added with err | ⟨⟩
        · cases outcome
        · exact done rfl
  | mkdir dirIno name ino mode dirLevel inlineXattr =>
      obtain ⟨⟨live, proper, free⟩, unused, directory⟩ := checked
      rw [same] at live free
      refine .of_changes id ?_
      rw [same]
      exact sound.f2fsMkdir live proper free unused directory present ends
  | link dirIno name ino =>
      obtain ⟨⟨live, proper, free⟩, used, plain⟩ := checked
      rw [same] at live free plain
      refine .of_changes id ?_
      rw [same]
      exact sound.f2fsLink live proper free used plain present ends
  | tmpfile ino mode blank =>
      have is := sound.f2fsTmpfile checked.1 checked.2 ends
      rw [← same] at is
      exact .of_changes id ⟨fun _ _ => is, fun _ => is⟩
  | unlink dirIno name ino =>
      obtain ⟨stored, plain⟩ := checked
      rw [same] at stored plain
      refine .of_changes id ?_
      rw [same]
      exact sound.f2fsUnlink stored plain present ends
  | rmdir dirIno name ino =>
      obtain ⟨stored, directory⟩ := checked
      rw [same] at stored directory
      refine .of_changes id ?_
      rw [same]
      exact (sound.f2fsRmdir stored directory present ends).imp_right fun done outcome =>
        (done outcome).2
  | rename oldDir oldName oldIno newDir newName newIno =>
      obtain ⟨stored, live, proper, rfl, different, kinds, apart⟩ := checked
      simp only [same] at stored live different kinds apart
      rw [NameCall.run, same] at ends
      obtain ⟨failed, done⟩ := sound.f2fsRename stored live proper different (kinds _) apart present ends
      refine .of_are (fun err outcome => .inl ?_) (fun outcome skips => ?_) fun outcome goes => ?_
      · rw [same]
        exact failed err outcome
      · rw [NameCall.Skips, same] at skips
        have kept := done outcome
        rwa [if_pos skips, ← same] at kept
      · rw [NameCall.Skips, same] at goes
        have changed := done outcome
        rw [if_neg goes] at changed
        rw [NameCall.effect, same]
        exact changed.2
  | crossRename oldDir oldName oldIno newDir newName newIno =>
      obtain ⟨stored, stored', different, apart, apart'⟩ := checked
      rw [same] at stored stored' apart apart'
      refine .of_changes id ?_
      rw [same]
      exact sound.f2fsCrossRename stored stored' different apart apart' present ends
  | evict ino =>
      obtain ⟨rfl, rfl⟩ := Prod.mk.inj (Option.some.inj ends)
      obtain ⟨kept, ended⟩ := @f2fsEvictInode root ns view ino faults sound
      rw [← same] at kept ended
      exact .of_are (fun _ impossible => by cases impossible) (fun _ => kept) fun _ => ended

end NamesSound

/-! ## Runs -/

/-- The name spaces that checked calls reach, whatever fails; the node pages of inodes are there. -/
inductive Named (root : BitVec 32) (start : Namespace) : Namespace → Prop
  | start : Named root start start
  | call {ns ns' : Namespace} {call : NameCall} {faults : NameFaults}
      {result : Except NameError Unit} : Named root start ns → call.Checked root ns →
      (∀ ino, faults.node ino ≠ some .noent) → call.run ns faults = some (ns', result) →
      Named root start ns'

/-- Calls keep the counts exact over a run. -/
theorem Named.sound {root : BitVec 32} {start ns : Namespace} (run : Named root start ns)
    (begins : ∃ view, NamesSound root start view) : ∃ view, NamesSound root ns view := by
  induction run with
  | start => exact begins
  | call _ checked present ends ih =>
      obtain ⟨view, sound⟩ := ih
      exact (sound.leaves checked present ends).sound

/-! ## A new volume -/

/-- The name space of a new volume, with the root inode that `mkfs` writes. -/
def newNamespace (maxOrphans : Nat) : Namespace where
  inodes := Function.update (fun _ => none) 3
    (some ⟨0x41ED, 2, 2, false, emptyDir 0 false ⟨3, 0x41ED⟩ 3⟩)
  orphans := ⟨0, maxOrphans, []⟩
  cpError := false

/-- The root inode is the one that a mount reads. -/
theorem newNamespace_root (volume : NewVolume) (maxOrphans : Nat) {pages : Nat → Page}
    (page : pages (volume.logBlkaddr .hotData) = volume.rootDentryPage) :
    (newNamespace maxOrphans).inodes 3 = (volume.rootInode.dir pages).map fun dir =>
      ⟨volume.rootInode.iMode, volume.rootInode.iLinks, volume.rootInode.iLinks, false, dir⟩ := by
  rw [volume.dir_rootInode page]
  rfl

/-- The view of a new volume. -/
def NameView.initial (maxOrphans : Nat) : NameView where
  modes := Function.update (fun _ => none) 3 (some 0x41ED)
  links := Function.update (fun _ => 0) 3 2
  ents := Function.update (fun _ _ => none) 3 (initialEntries ⟨3, 0x41ED⟩ 3)
  orphans := ⟨0, maxOrphans, []⟩

namespace NameView

variable {maxOrphans : Nat}

end NameView

/-- Nothing fails. -/
def NameFaults.clear : NameFaults := ⟨none, ⟨fun _ => none, none⟩, fun _ _ => false, fun _ => none, none⟩

end StorageStack.F2fs
