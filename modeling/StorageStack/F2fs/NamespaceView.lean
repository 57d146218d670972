import StorageStack.F2fs.Namespace
import StorageStack.LinkGraph

/-!
# What the steps of a call do

A view keeps of the inodes their modes and link counts, and of each directory its entries with their
places.  Each function that a call on names uses changes one part of the view; `stale` says which
node pages do not record the link count yet.
-/

namespace StorageStack.F2fs

/-- The modes, the link counts, the entries and the orphans. -/
structure NameView where
  modes : BitVec 32 → Option (BitVec 16)
  links : BitVec 32 → Nat
  ents : BitVec 32 → FileName → Option EntryPlace
  orphans : OrphanInodes

namespace NameView

/-- One entry changes. -/
def setEntry (view : NameView) (dirIno : BitVec 32) (name : FileName) (place : Option EntryPlace) :
    NameView :=
  { view with ents := Function.update view.ents dirIno (Function.update (view.ents dirIno) name place) }

/-- One link count changes. -/
def setLinks (view : NameView) (ino : BitVec 32) (links : Nat) : NameView :=
  { view with links := Function.update view.links ino links }

/-- The orphans change. -/
def setOrphans (view : NameView) (orphans : OrphanInodes) : NameView :=
  { view with orphans := orphans }

@[simp] theorem modes_setEntry (view : NameView) (dirIno : BitVec 32) (name : FileName)
    (place : Option EntryPlace) : (view.setEntry dirIno name place).modes = view.modes := rfl

@[simp] theorem links_setEntry (view : NameView) (dirIno : BitVec 32) (name : FileName)
    (place : Option EntryPlace) : (view.setEntry dirIno name place).links = view.links := rfl

@[simp] theorem orphans_setEntry (view : NameView) (dirIno : BitVec 32) (name : FileName)
    (place : Option EntryPlace) : (view.setEntry dirIno name place).orphans = view.orphans := rfl

@[simp] theorem modes_setLinks (view : NameView) (ino : BitVec 32) (links : Nat) :
    (view.setLinks ino links).modes = view.modes := rfl

theorem links_setLinks (view : NameView) (ino : BitVec 32) (links : Nat) :
    (view.setLinks ino links).links = Function.update view.links ino links := rfl

@[simp] theorem ents_setLinks (view : NameView) (ino : BitVec 32) (links : Nat) :
    (view.setLinks ino links).ents = view.ents := rfl

@[simp] theorem orphans_setLinks (view : NameView) (ino : BitVec 32) (links : Nat) :
    (view.setLinks ino links).orphans = view.orphans := rfl

@[simp] theorem modes_setOrphans (view : NameView) (orphans : OrphanInodes) :
    (view.setOrphans orphans).modes = view.modes := rfl

@[simp] theorem links_setOrphans (view : NameView) (orphans : OrphanInodes) :
    (view.setOrphans orphans).links = view.links := rfl

@[simp] theorem ents_setOrphans (view : NameView) (orphans : OrphanInodes) :
    (view.setOrphans orphans).ents = view.ents := rfl

theorem ents_setEntry_of_ne (view : NameView) {dirIno other : BitVec 32} {name otherName : FileName}
    (apart : (other, otherName) ≠ (dirIno, name)) (place : Option EntryPlace) :
    (view.setEntry dirIno name place).ents other otherName = view.ents other otherName := by
  by_cases here : other = dirIno
  · subst here
    refine (congrFun (Function.update_self ..) otherName).trans (Function.update_of_ne ?_ _ _)
    rintro rfl
    exact apart rfl
  · exact congrFun (Function.update_of_ne here _ _) otherName

theorem setLinks_self (view : NameView) (ino : BitVec 32) :
    view.setLinks ino (view.links ino) = view := by
  rw [setLinks, Function.update_eq_self]

end NameView

/-- The name space has the view; the directories in `live` hold their entries, and all node pages
but those in `stale` record the link counts unless checkpoints have been stopped. -/
structure Shows (ns : Namespace) (view : NameView) (live stale : BitVec 32 → Prop) : Prop where
  modes : ∀ ino, (ns.inodes ino).map NameInode.mode = view.modes ino
  links : ∀ {ino node}, ns.inodes ino = some node → node.iNlink = view.links ino
  dirs : ∀ {ino node}, live ino → ns.inodes ino = some node →
    ∃ parent, DirNames node.dir (view.ents ino) ⟨ino, node.mode⟩ parent
  pages : ns.cpError = false → ∀ {ino node}, ns.inodes ino = some node → ¬stale ino →
    node.iLinks = node.iNlink
  orphans : ns.orphans = view.orphans

namespace Shows

open Namespace

variable {ns ns' : Namespace} {view : NameView} {live stale : BitVec 32 → Prop} {ino dirIno : BitVec 32}
  {name : FileName} {faults : NameFaults}

theorem exists_node (shows : Shows ns view live stale) {mode : BitVec 16}
    (known : view.modes ino = some mode) :
    ∃ node, ns.inodes ino = some node ∧ node.mode = mode ∧ node.iNlink = view.links ino := by
  rw [← shows.modes, Option.map_eq_some_iff] at known
  obtain ⟨node, stored, same⟩ := known
  exact ⟨node, stored, same, shows.links stored⟩

theorem mode_of_node (shows : Shows ns view live stale) {node : NameInode}
    (stored : ns.inodes ino = some node) : view.modes ino = some node.mode := by
  rw [← shows.modes, stored, Option.map_some]

/-- Fewer directories, more stale pages. -/
theorem weaken (shows : Shows ns view live stale) {live' stale' : BitVec 32 → Prop}
    (fewer : ∀ ino, live' ino → live ino) (more : ∀ ino, stale ino → stale' ino) :
    Shows ns view live' stale' where
  modes := shows.modes
  links := shows.links
  dirs alive := shows.dirs (fewer _ alive)
  pages checked _ _ stored fresh := shows.pages checked stored fun old => fresh (more _ old)
  orphans := shows.orphans

/-- The inode after a change of one inode. -/
theorem modify_eq_some {ns : Namespace} {changed : BitVec 32} {change : NameInode → NameInode}
    {node : NameInode} (stored : (ns.modify changed change).inodes ino = some node) :
    ∃ before, ns.inodes ino = some before ∧
      node = if ino = changed then change before else before := by
  by_cases same : ino = changed
  · subst same
    have known := (Function.update_self ..).symm.trans stored
    obtain ⟨before, old, rfl⟩ := Option.map_eq_some_iff.mp known
    exact ⟨before, old, (if_pos rfl).symm⟩
  · exact ⟨node, (Function.update_of_ne same _ _).symm.trans stored, (if_neg same).symm⟩

theorem map_mode_modify {ns : Namespace} {changed : BitVec 32} {change : NameInode → NameInode}
    (sameMode : ∀ node, (change node).mode = node.mode) (ino : BitVec 32) :
    ((ns.modify changed change).inodes ino).map NameInode.mode =
      (ns.inodes ino).map NameInode.mode := by
  by_cases same : ino = changed
  · subst same
    have known : (ns.modify ino change).inodes ino = (ns.inodes ino).map change :=
      Function.update_self ..
    rw [known, Option.map_map]
    congr 1
    funext node
    exact sameMode node
  · have known : (ns.modify changed change).inodes ino = ns.inodes ino :=
      Function.update_of_ne same _ _
    rw [known]

/-! ## Link counts and node pages -/

theorem setLinks (shows : Shows ns view live stale) (links : Nat) :
    Shows (ns.modify ino fun node => { node with iNlink := links }) (view.setLinks ino links) live
      fun other => other = ino ∨ stale other where
  modes other := by
    refine (map_mode_modify ?_ other).trans (shows.modes other)
    exact fun _ => rfl
  links {other node} stored := by
    obtain ⟨before, old, rfl⟩ := modify_eq_some stored
    by_cases same : other = ino
    · subst same
      rw [if_pos rfl]
      exact (Function.update_self other links view.links).symm
    · rw [if_neg same]
      exact (shows.links old).trans (Function.update_of_ne same _ _).symm
  dirs {other node} alive stored := by
    obtain ⟨before, old, rfl⟩ := modify_eq_some stored
    obtain ⟨parent, names⟩ := shows.dirs alive old
    refine ⟨parent, ?_⟩
    split <;> exact names
  pages checked other node stored fresh := by
    obtain ⟨before, old, rfl⟩ := modify_eq_some stored
    rw [if_neg fun same => fresh (.inl same)]
    exact shows.pages checked old fun old => fresh (.inr old)
  orphans := shows.orphans

theorem incNlink (shows : Shows ns view live stale) :
    Shows (ns.incNlink ino) (view.setLinks ino (view.links ino + 1)) live
      fun other => other = ino ∨ stale other := by
  have same : ns.incNlink ino =
      ns.modify ino fun node => { node with iNlink := view.links ino + 1 } := by
    rw [Namespace.incNlink, Namespace.modify, Namespace.modify]
    congr 2
    cases stored : ns.inodes ino with
    | none => rfl
    | some node => rw [Option.map_some, Option.map_some, shows.links stored]
  rw [same]
  exact shows.setLinks _

theorem dropNlink_eq (shows : Shows ns view live stale) (known : view.modes ino ≠ none)
    (positive : view.links ino ≠ 0) : ns.dropNlink ino =
      some (ns.modify ino fun node => { node with iNlink := view.links ino - 1 }) := by
  obtain ⟨mode, known⟩ := Option.ne_none_iff_exists'.mp known
  obtain ⟨node, stored, _, links⟩ := shows.exists_node known
  rw [Namespace.dropNlink, stored]
  dsimp only
  rw [if_neg (by omega), Namespace.modify, Namespace.modify, stored, Option.map_some, Option.map_some,
    links]

theorem dropNlink (shows : Shows ns view live stale) (known : view.modes ino ≠ none)
    (positive : view.links ino ≠ 0) : ∃ ns', ns.dropNlink ino = some ns' ∧
      Shows ns' (view.setLinks ino (view.links ino - 1)) live fun other => other = ino ∨ stale other :=
  ⟨_, shows.dropNlink_eq known positive, shows.setLinks _⟩

/-- The two drops of a directory that is removed. -/
theorem dropNlink_twice (shows : Shows ns view live stale) (known : view.modes ino ≠ none)
    (two : view.links ino = 2) : ∃ ns₁ ns₂, ns.dropNlink ino = some ns₁ ∧ ns₁.dropNlink ino = some ns₂ ∧
      Shows ns₂ (view.setLinks ino 0) live fun other => other = ino ∨ stale other := by
  obtain ⟨ns₁, dropped₁, shows₁⟩ := shows.dropNlink known (by omega)
  have one : (view.setLinks ino (view.links ino - 1)).links ino = 1 := by
    rw [two]
    exact Function.update_self ..
  obtain ⟨ns₂, dropped₂, shows₂⟩ := shows₁.dropNlink known (by omega)
  refine ⟨ns₁, ns₂, dropped₁, dropped₂, ?_⟩
  have same : (view.setLinks ino (view.links ino - 1)).setLinks ino
      ((view.setLinks ino (view.links ino - 1)).links ino - 1) = view.setLinks ino 0 := by
    rw [one, NameView.setLinks, NameView.setLinks, NameView.setLinks, Function.update_idem]
  rw [same] at shows₂
  exact shows₂.weaken (fun _ => id) fun other => by simp

/-- A node page that has been written records the link count, unless checkpoints are stopped. -/
theorem updateInodePage (shows : Shows ns view live stale) (present : faults.node ino ≠ some .noent) :
    Shows (ns.updateInodePage ino faults) view live fun other => other ≠ ino ∧ stale other := by
  have written : Shows (ns.updateInode ino) view live fun other => other ≠ ino ∧ stale other := by
    refine ⟨fun other => ?_, ?_, ?_, ?_, shows.orphans⟩
    · refine (map_mode_modify ?_ other).trans (shows.modes other)
      exact fun _ => rfl
    · intro other node stored
      obtain ⟨before, old, rfl⟩ := modify_eq_some stored
      have links := shows.links old
      split <;> exact links
    · intro other node alive stored
      obtain ⟨before, old, rfl⟩ := modify_eq_some stored
      obtain ⟨parent, names⟩ := shows.dirs alive old
      refine ⟨parent, ?_⟩
      split <;> exact names
    · intro checked other node stored fresh
      obtain ⟨before, old, rfl⟩ := modify_eq_some stored
      by_cases same : other = ino
      · rw [if_pos same]
      · rw [if_neg same]
        exact shows.pages checked old fun stale => fresh ⟨same, stale⟩
  have stopped : Shows { ns with cpError := true } view live fun other => other ≠ ino ∧ stale other :=
    { modes := shows.modes
      links := shows.links
      dirs := shows.dirs
      pages := fun checked => by cases checked
      orphans := shows.orphans }
  rw [Namespace.updateInodePage]
  split
  · exact written
  · exact written
  · next missing => exact absurd missing present
  · exact stopped

theorem setOrphans (shows : Shows ns view live stale) (orphans : OrphanInodes) :
    Shows { ns with orphans := orphans } (view.setOrphans orphans) live stale where
  modes := shows.modes
  links := shows.links
  dirs := shows.dirs
  pages := shows.pages
  orphans := rfl

/-! ## Entries -/

/-- A directory changes, but not its mode and counts. -/
theorem changeDir (shows : Shows ns view live stale) {node : NameInode}
    (stored : ns.inodes dirIno = some node) {change : NameInode → NameInode}
    (mode : ∀ node, (change node).mode = node.mode)
    (iNlink : ∀ node, (change node).iNlink = node.iNlink)
    (iLinks : ∀ node, (change node).iLinks = node.iLinks) {ents : FileName → Option EntryPlace}
    (names : live dirIno → ∃ parent, DirNames (change node).dir ents ⟨dirIno, node.mode⟩ parent) :
    Shows (ns.modify dirIno change) { view with ents := Function.update view.ents dirIno ents } live
      stale where
  modes other := (map_mode_modify mode other).trans (shows.modes other)
  links {other node} stored := by
    obtain ⟨before, old, rfl⟩ := modify_eq_some stored
    have links := shows.links old
    split
    · rw [iNlink]
      exact links
    · exact links
  dirs {other node'} alive stored' := by
    obtain ⟨before, old, rfl⟩ := modify_eq_some stored'
    by_cases same : other = dirIno
    · subst same
      obtain rfl := Option.some.inj (old.symm.trans stored)
      rw [if_pos rfl, mode]
      dsimp only
      rw [Function.update_self]
      exact names alive
    · rw [if_neg same]
      dsimp only
      rw [Function.update_of_ne same]
      exact shows.dirs alive old
  pages checked other node stored fresh := by
    obtain ⟨before, old, rfl⟩ := modify_eq_some stored
    have recorded := shows.pages checked old fresh
    split
    · rw [iNlink, iLinks]
      exact recorded
    · exact recorded
  orphans := shows.orphans

/-- The pages of one directory change. -/
theorem setDir (shows : Shows ns view live stale) {node : NameInode}
    (stored : ns.inodes dirIno = some node) {dir : Dir} {ents : FileName → Option EntryPlace}
    (names : live dirIno → ∃ parent, DirNames dir ents ⟨dirIno, node.mode⟩ parent) :
    Shows (ns.modify dirIno fun node => { node with dir := dir })
      { view with ents := Function.update view.ents dirIno ents } live stale := by
  refine shows.changeDir stored ?_ ?_ ?_ names
  · exact fun _ => rfl
  · exact fun _ => rfl
  · exact fun _ => rfl

/-- A lookup keeps the view, and what it finds is the entry of the name. -/
theorem findEntry (shows : Shows ns view live stale) (alive : live dirIno)
    {result : Option FoundEntry} (ends : ns.findEntry dirIno name faults = some (ns', result)) :
    Shows ns' view live stale ∧ ∀ found, result = some found →
      ∃ place, view.ents dirIno name = some place ∧ found = place.found name := by
  rw [Namespace.findEntry] at ends
  cases stored : ns.inodes dirIno with
  | none =>
      rw [stored] at ends
      cases ends
  | some node =>
      rw [stored] at ends
      obtain ⟨⟨dir, found⟩, search, same⟩ := Option.map_eq_some_iff.mp ends
      obtain ⟨rfl, rfl⟩ := Prod.mk.inj same
      obtain ⟨parent, names⟩ := shows.dirs alive stored
      obtain ⟨kept, only⟩ := names.findEntry search
      refine ⟨?_, only⟩
      have changed := shows.setDir stored fun _ => ⟨parent, kept⟩
      rwa [Function.update_eq_self] at changed

/-- Giving an entry to another inode. -/
theorem setLink (shows : Shows ns view live stale) (alive : live dirIno) (proper : name.Proper)
    {place : EntryPlace} (here : view.ents dirIno name = some place)
    (known : view.modes dirIno ≠ none) {mode : BitVec 16} (target : view.modes ino = some mode) :
    ∃ ns', ns.setLink dirIno (place.found name) ino = some ns' ∧
      Shows ns' (view.setEntry dirIno name (some { place with inode := ⟨ino, mode⟩ })) live stale := by
  obtain ⟨dirMode, known⟩ := Option.ne_none_iff_exists'.mp known
  obtain ⟨node, stored, _, _⟩ := shows.exists_node known
  obtain ⟨targetNode, targetStored, rfl, _⟩ := shows.exists_node target
  obtain ⟨parent, names⟩ := shows.dirs alive stored
  have changed := shows.setDir stored fun _ => ⟨parent, names.setLink proper here ⟨ino, targetNode.mode⟩⟩
  refine ⟨_, ?_, changed⟩
  rw [Namespace.setLink, targetStored]
  simp only [Namespace.modify, stored, Option.map_some, EntryPlace.found]

/-- Removing an entry. -/
theorem clearEntry (shows : Shows ns view live stale) (alive : live dirIno) (proper : name.Proper)
    {place : EntryPlace} (here : view.ents dirIno name = some place)
    (known : view.modes dirIno ≠ none) :
    Shows (ns.clearEntry dirIno (place.found name)) (view.setEntry dirIno name none) live stale := by
  obtain ⟨dirMode, known⟩ := Option.ne_none_iff_exists'.mp known
  obtain ⟨node, stored, _, _⟩ := shows.exists_node known
  obtain ⟨parent, names⟩ := shows.dirs alive stored
  have changed := shows.setDir stored fun _ => ⟨parent, names.deleteEntry proper here⟩
  have same : ns.clearEntry dirIno (place.found name) = ns.modify dirIno fun node =>
      { node with dir := f2fsDeleteEntry node.dir place.block place.bitPos } := rfl
  rw [same]
  simp only [Namespace.modify, stored, Option.map_some] at changed ⊢
  exact changed

/-- The entry that `f2fs_parent_dir` finds. -/
theorem parentEntry_place {wanted : Bool} {found : FoundEntry}
    (ends : ns.parentEntry ino wanted faults = some (some found)) :
    wanted = true ∧ found.block = 0 ∧ found.bitPos = 1 := by
  rw [Namespace.parentEntry] at ends
  split at ends
  · next needed =>
      obtain ⟨node, stored, present⟩ := Option.map_eq_some_iff.mp ends
      rw [f2fsParentDir] at present
      split at present
      · cases present
      · obtain ⟨blk, _, rfl⟩ := Option.map_eq_some_iff.mp present
        exact ⟨needed, rfl, rfl⟩
  · cases ends

theorem parentEntry_isSome {wanted : Bool} {result : Option FoundEntry}
    (ends : ns.parentEntry ino wanted faults = some result) (readable : ¬(wanted = true ∧ result = none)) :
    result.isSome = wanted := by
  cases result with
  | none => exact (Bool.eq_false_iff.mpr fun needed => readable ⟨needed, rfl⟩).symm
  | some de => exact (parentEntry_place ends).1.symm

/-- Giving a directory another parent. -/
theorem setParent (shows : Shows ns view live stale) (alive : live dirIno)
    (known : view.modes dirIno ≠ none) {de : FoundEntry} (block : de.block = 0) (slot : de.bitPos = 1)
    {mode : BitVec 16} (target : view.modes ino = some mode) :
    ∃ ns', ns.setParent dirIno (some de) ino = some ns' ∧
      Shows ns' (view.setEntry dirIno dotDotName (some ⟨⟨ino, mode⟩, 0, 1⟩)) live stale := by
  obtain ⟨dirMode, known⟩ := Option.ne_none_iff_exists'.mp known
  obtain ⟨node, stored, _, _⟩ := shows.exists_node known
  obtain ⟨targetNode, targetStored, rfl, _⟩ := shows.exists_node target
  obtain ⟨parent, names⟩ := shows.dirs alive stored
  have changed := shows.setDir stored fun _ => ⟨_, names.setParent ⟨ino, targetNode.mode⟩⟩
  refine ⟨_, ?_, changed⟩
  rw [Namespace.setParent, Namespace.setLink, targetStored]
  simp only [Namespace.modify, stored, Option.map_some, block, slot]

/-! ## New inodes and links -/

/-- The end of `__f2fs_add_link` at most writes the node page of the directory. -/
theorem flushDir (shows : Shows ns view live stale) (present : faults.node dirIno ≠ some .noent) :
    Shows (ns.flushDir dirIno faults) view live stale ∧
      (∀ node, ns.inodes dirIno = some node → node.updateDir = true →
        Shows (ns.flushDir dirIno faults) view live fun other => other ≠ dirIno ∧ stale other) := by
  have flagged : ∀ node, ns.inodes dirIno = some node → node.updateDir = true →
      Shows (ns.flushDir dirIno faults) view live fun other => other ≠ dirIno ∧ stale other := by
    intro node stored flag
    have written := @updateInodePage _ _ _ _ _ faults shows present
    have kept : ∃ after, (ns.updateInodePage dirIno faults).inodes dirIno = some after := by
      obtain ⟨after, stored', _⟩ := written.exists_node (shows.mode_of_node stored)
      exact ⟨after, stored'⟩
    obtain ⟨after, stored'⟩ := kept
    have flushed : ns.flushDir dirIno faults =
        (ns.updateInodePage dirIno faults).modify dirIno fun node => { node with updateDir := false } := by
      obtain ⟨mode, iNlink, iLinks, updateDir, dir⟩ := node
      obtain rfl : updateDir = true := flag
      rw [Namespace.flushDir, stored]
    rw [flushed]
    have cleared : Shows ((ns.updateInodePage dirIno faults).modify dirIno fun node =>
        { node with updateDir := false })
        { view with ents := Function.update view.ents dirIno (view.ents dirIno) } live
        fun other => other ≠ dirIno ∧ stale other := by
      refine written.changeDir stored' ?_ ?_ ?_ fun alive => ?_
      · exact fun _ => rfl
      · exact fun _ => rfl
      · exact fun _ => rfl
      · obtain ⟨parent, names⟩ := written.dirs alive stored'
        exact ⟨parent, names⟩
    rwa [Function.update_eq_self] at cleared
  refine ⟨?_, flagged⟩
  cases stored : ns.inodes dirIno with
  | none => rwa [Namespace.flushDir, stored]
  | some node =>
      cases flag : node.updateDir with
      | true => exact (flagged node stored flag).weaken (fun _ => id) fun _ => And.right
      | false =>
          obtain ⟨mode, iNlink, iLinks, updateDir, dir⟩ := node
          obtain rfl : updateDir = false := flag
          rwa [Namespace.flushDir, stored]

/-- An inode that is new or replaced as a whole. -/
theorem setNode (shows : Shows ns view live stale) {live' stale' : BitVec 32 → Prop} (node : NameInode)
    (ents : FileName → Option EntryPlace)
    (others : ∀ other, other ≠ ino → live' other → live other)
    (names : live' ino → ∃ parent, DirNames node.dir ents ⟨ino, node.mode⟩ parent)
    (older : ∀ other, other ≠ ino → stale other → stale' other)
    (copy : ¬stale' ino → node.iLinks = node.iNlink) :
    Shows { ns with inodes := Function.update ns.inodes ino (some node) }
      { view with
        modes := Function.update view.modes ino (some node.mode)
        links := Function.update view.links ino node.iNlink
        ents := Function.update view.ents ino ents } live' stale' := by
  have stored : ∀ {other node'}, Function.update ns.inodes ino (some node) other = some node' →
      (other = ino ∧ node' = node) ∨ (other ≠ ino ∧ ns.inodes other = some node') := by
    intro other node' present
    exact (update_eq_some present).imp (fun new => ⟨new.1, (Option.some.inj new.2).symm⟩) id
  constructor
  · intro other
    dsimp only
    by_cases same : other = ino
    · subst same
      rw [Function.update_self, Function.update_self, Option.map_some]
    · rw [Function.update_of_ne same, Function.update_of_ne same]
      exact shows.modes other
  · intro other node' present
    rcases stored present with ⟨rfl, rfl⟩ | ⟨apart, old⟩
    · exact (Function.update_self other node'.iNlink view.links).symm
    · exact (shows.links old).trans (Function.update_of_ne apart _ _).symm
  · intro other node' alive present
    dsimp only
    rcases stored present with ⟨rfl, rfl⟩ | ⟨apart, old⟩
    · rw [Function.update_self]
      exact names alive
    · rw [Function.update_of_ne apart]
      exact shows.dirs (others other apart alive) old
  · intro checked other node' present fresh
    rcases stored present with ⟨rfl, rfl⟩ | ⟨apart, old⟩
    · exact copy fresh
    · exact shows.pages checked old fun older' => fresh (older other apart older')
  · exact shows.orphans

end Shows

end StorageStack.F2fs
