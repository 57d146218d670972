import StorageStack.LinkTally

/-!
# Directories that name inodes

Entries are a partial map from directories and names to inodes, and each inode has a count of links.
The counts are exact when a file counts the entries that name it, a directory counts its
subdirectories and two more, and each directory but the root has one entry, in its parent.  The
changes that name, remove, move and exchange inodes keep the counts exact.
-/

namespace StorageStack

/-- Inodes, the entries that name them and the links they count. -/
@[ext] structure LinkGraph (ι ν : Type*) where
  root : ι
  isDir : ι → Prop
  links : ι → Nat
  parent : ι → ι
  entries : ι × ν → Option ι

namespace LinkGraph

variable {ι ν : Type*} (graph : LinkGraph ι ν)

/-- The number of entries that name an inode. -/
noncomputable def names (inode : ι) : Nat := tally graph.entries fun _ target => target = inode

/-- The number of directories that a directory names. -/
noncomputable def subdirs (dir : ι) : Nat :=
  tally graph.entries fun key target => key.1 = dir ∧ graph.isDir target

/-- A directory that has not been removed. -/
def Live (dir : ι) : Prop := graph.isDir dir ∧ graph.links dir ≠ 0

/-- Each inode counts the links it has, and the directories are a tree. -/
structure Exact : Prop where
  finite : {key | graph.entries key ≠ none}.Finite
  inDir : ∀ {key target}, graph.entries key = some target → graph.Live key.1
  file : ∀ {inode}, ¬graph.isDir inode → graph.links inode = graph.names inode
  dir : ∀ {dir}, graph.Live dir → graph.links dir = 2 + graph.subdirs dir
  child : ∀ {key dir}, graph.entries key = some dir → graph.isDir dir →
    graph.Live dir ∧ dir ≠ graph.root ∧ graph.parent dir = key.1
  unique : ∀ {key key' dir}, graph.isDir dir → graph.entries key = some dir →
    graph.entries key' = some dir → key = key'
  named : ∀ {dir}, graph.Live dir → dir ≠ graph.root → ∃ key, graph.entries key = some dir
  root : graph.Live graph.root
  parent_root : graph.parent graph.root = graph.root
  rooted : ∀ {dir}, graph.Live dir → Rooted graph.parent graph.root dir

/-- The inodes that names reach from the root. -/
inductive Reached : ι → Prop
  | root : Reached graph.root
  | entry {key : ι × ν} {target : ι} : Reached key.1 → graph.entries key = some target →
      Reached target

open Classical in
/-- What an entry adds to the names of an inode. -/
noncomputable def nameShare (value : Option ι) (inode : ι) : Nat :=
  if value = some inode then 1 else 0

open Classical in
/-- What an entry adds to the subdirectories of a directory. -/
noncomputable def dirShare (key : ι × ν) (value : Option ι) (dir : ι) : Nat :=
  if key.1 = dir ∧ ∃ target, value = some target ∧ graph.isDir target then 1 else 0

namespace Exact

variable {graph} (exact : graph.Exact)
include exact

theorem linked {key : ι × ν} {target : ι} (stored : graph.entries key = some target) :
    graph.links target ≠ 0 := by
  by_cases directory : graph.isDir target
  · exact (exact.child stored directory).1.2
  · rw [exact.file directory]
    exact Nat.pos_iff_ne_zero.mp (tally_pos exact.finite stored rfl)

theorem live_parent {dir : ι} (live : graph.Live dir) : graph.Live (graph.parent dir) := by
  by_cases top : dir = graph.root
  · rw [top, exact.parent_root]
    exact exact.root
  · obtain ⟨key, stored⟩ := exact.named live top
    rw [(exact.child stored live.1).2.2]
    exact exact.inDir stored

theorem live_of_above {above dir : ι} (higher : Above graph.parent above dir)
    (live : graph.Live dir) : graph.Live above := by
  induction higher with
  | refl => exact live
  | child _ ih => exact ih (exact.live_parent live)

theorem reached_of_live {dir : ι} (live : graph.Live dir) : graph.Reached dir := by
  have rooted := exact.rooted live
  induction rooted with
  | root => exact .root
  | @child dir _ ih =>
      by_cases top : dir = graph.root
      · rw [top]
        exact .root
      · obtain ⟨key, stored⟩ := exact.named live top
        have parent := (exact.child stored live.1).2.2
        exact .entry (parent ▸ ih (exact.live_parent live)) stored

theorem links_of_empty {dir : ι} (live : graph.Live dir)
    (empty : ∀ name, graph.entries (dir, name) = none) : graph.links dir = 2 := by
  have none_inside : graph.subdirs dir = 0 := by
    refine (tally_eq_zero exact.finite).mpr fun key target stored counted => ?_
    obtain ⟨other, name⟩ := key
    obtain rfl : other = dir := counted.1
    rw [empty name] at stored
    cases stored
  rw [exact.dir live, none_inside]

/-- A directory with a subdirectory counts more than two links. -/
theorem two_lt_links {key : ι × ν} {dir : ι} (stored : graph.entries key = some dir)
    (directory : graph.isDir dir) : 2 < graph.links key.1 := by
  have inside : 0 < graph.subdirs key.1 := tally_pos exact.finite stored ⟨rfl, directory⟩
  have count := exact.dir (exact.inDir stored)
  omega

/-- An inode that counts a link can be reached by names. -/
theorem reached {inode : ι} (counted : graph.links inode ≠ 0) : graph.Reached inode := by
  by_cases directory : graph.isDir inode
  · exact exact.reached_of_live ⟨directory, counted⟩
  · rw [exact.file directory] at counted
    obtain ⟨key, target, stored, rfl⟩ : ∃ key target, graph.entries key = some target ∧
        target = inode := by
      by_contra absent
      refine counted ((tally_eq_zero exact.finite).mpr fun key value stored same => ?_)
      exact absent ⟨key, value, stored, same⟩
    exact .entry (exact.reached_of_live (exact.inDir stored)) stored

end Exact

/-! ## Naming a file -/

section Changes

variable [DecidableEq ι] [DecidableEq ν]

/-- An inode without links is used anew, or no more. -/
def withKind (inode : ι) (directory : Prop) : LinkGraph ι ν :=
  { graph with
    isDir := fun other => if other = inode then directory else graph.isDir other
    parent := Function.update graph.parent inode inode }

/-- A new entry for a file. -/
def addFile (key : ι × ν) (inode : ι) : LinkGraph ι ν :=
  { graph with
    entries := Function.update graph.entries key (some inode)
    links := Function.update graph.links inode (graph.links inode + 1) }

/-- A new directory. -/
def addDir (key : ι × ν) (dir : ι) : LinkGraph ι ν :=
  { graph with
    entries := Function.update graph.entries key (some dir)
    links := Function.update (Function.update graph.links dir 2) key.1 (graph.links key.1 + 1)
    parent := Function.update graph.parent dir key.1 }

/-- The entry of a file is removed. -/
def removeFile (key : ι × ν) (inode : ι) : LinkGraph ι ν :=
  { graph with
    entries := Function.update graph.entries key none
    links := Function.update graph.links inode (graph.links inode - 1) }

/-- The entry of an empty directory is removed. -/
def removeDir (key : ι × ν) (dir : ι) : LinkGraph ι ν :=
  { graph with
    entries := Function.update graph.entries key none
    links := Function.update (Function.update graph.links dir 0) key.1 (graph.links key.1 - 1) }

/-- A file gets another name. -/
def moveFile (source target : ι × ν) (inode : ι) : LinkGraph ι ν :=
  (graph.addFile target inode).removeFile source inode

/-- A directory gets another name, maybe in another directory. -/
def moveDir (source target : ι × ν) (dir : ι) : LinkGraph ι ν :=
  let links := Function.update graph.links target.1 (graph.links target.1 + 1)
  { graph with
    entries := Function.update (Function.update graph.entries target (some dir)) source none
    links := Function.update links source.1 (links source.1 - 1)
    parent := Function.update graph.parent dir target.1 }

/-- Two directories exchange their names. -/
def exchangeDirs (left right : ι × ν) (first second : ι) : LinkGraph ι ν :=
  { graph with
    entries := Function.update (Function.update graph.entries left (some second)) right (some first)
    parent := Function.update (Function.update graph.parent first right.1) second left.1 }

/-- What stands under a name makes room. -/
noncomputable def vacate (key : ι × ν) (replaced : Option ι) : LinkGraph ι ν :=
  open Classical in
  match replaced with
  | none => graph
  | some inode => if graph.isDir inode then graph.removeDir key inode else graph.removeFile key inode

open Classical in
/-- An inode gets another name, which may have been that of another inode. -/
noncomputable def rename (source target : ι × ν) (inode : ι) (replaced : Option ι) : LinkGraph ι ν :=
  if graph.isDir inode then (graph.vacate target replaced).moveDir source target inode
  else (graph.vacate target replaced).moveFile source target inode

open Classical in
/-- Two inodes exchange their names, whatever they are. -/
noncomputable def exchange (left right : ι × ν) (first second : ι) : LinkGraph ι ν :=
  { graph with
    entries := Function.update (Function.update graph.entries left (some second)) right (some first)
    links := fun inode =>
      graph.links inode + (if inode = left.1 ∧ graph.isDir second then 1 else 0) +
        (if inode = right.1 ∧ graph.isDir first then 1 else 0) -
        (if inode = left.1 ∧ graph.isDir first then 1 else 0) -
        (if inode = right.1 ∧ graph.isDir second then 1 else 0)
    parent := fun inode =>
      if inode = second ∧ graph.isDir second then left.1
      else if inode = first ∧ graph.isDir first then right.1
      else graph.parent inode }

variable {graph}

omit [DecidableEq ν] in
/-- Inodes without links may change their kind. -/
theorem Exact.withKind (exact : graph.Exact) {inode : ι} (unlinked : graph.links inode = 0)
    (directory : Prop) : (graph.withKind inode directory).Exact := by
  have linked : ∀ {other}, graph.links other ≠ 0 →
      ((graph.withKind inode directory).isDir other ↔ graph.isDir other) := by
    intro other counted
    have apart : other ≠ inode := by
      rintro rfl
      exact counted unlinked
    change (if other = inode then directory else graph.isDir other) ↔ _
    rw [if_neg apart]
  have live : ∀ {dir}, (graph.withKind inode directory).Live dir ↔ graph.Live dir :=
    fun {dir} => ⟨fun alive => ⟨(linked alive.2).mp alive.1, alive.2⟩,
      fun alive => ⟨(linked alive.2).mpr alive.1, alive.2⟩⟩
  have target : ∀ {key dir}, graph.entries key = some dir →
      ((graph.withKind inode directory).isDir dir ↔ graph.isDir dir) :=
    fun stored => linked (exact.linked stored)
  have same : ∀ other, other ≠ inode →
      (graph.withKind inode directory).parent other = graph.parent other :=
    fun other apart => Function.update_of_ne apart _ _
  have apart : ∀ {dir}, graph.Live dir → dir ≠ inode := by
    rintro dir alive rfl
    exact alive.2 unlinked
  constructor
  · exact exact.finite
  · exact fun stored => live.mpr (exact.inDir stored)
  · intro other file
    by_cases here : other = inode
    · subst here
      refine unlinked.trans (Eq.symm ?_)
      refine (tally_eq_zero exact.finite).mpr fun key value stored named => ?_
      exact exact.linked stored (named ▸ unlinked)
    · refine exact.file fun isDir => file ?_
      exact (if_neg here).mpr isDir
  · intro dir alive
    have count := exact.dir (live.mp alive)
    refine count.trans ?_
    congr 1
    exact tally_congr fun key value stored => and_congr_right fun _ => (target stored).symm
  · intro key dir stored isDir
    obtain ⟨alive, inner, parent⟩ := exact.child stored ((target stored).mp isDir)
    exact ⟨live.mpr alive, inner, (same dir (apart alive)).trans parent⟩
  · exact fun isDir stored stored' => exact.unique ((target stored).mp isDir) stored stored'
  · exact fun alive inner => exact.named (live.mp alive) inner
  · exact live.mpr exact.root
  · exact (same _ (apart exact.root)).trans exact.parent_root
  · intro dir alive
    have before := live.mp alive
    have clear : Clear graph.parent graph.root (fun other => other = inode) dir := by
      refine (exact.rooted before).clear fun above here higher => ?_
      exact apart (exact.live_of_above higher before) here
    exact clear.rooted same

/-- How the names of an inode change with one entry. -/
theorem names_update (finite : {key | graph.entries key ≠ none}.Finite) (key : ι × ν)
    (value : Option ι) (inode : ι) :
    tally (Function.update graph.entries key value) (fun _ target => target = inode) +
        nameShare (graph.entries key) inode = graph.names inode + nameShare value inode := by
  have shared : ∀ value : Option ι,
      share (fun (_ : ι × ν) target => target = inode) key value = nameShare value inode := by
    rintro (_ | value)
    · simp [nameShare]
    · simp [share, nameShare]
  rw [← shared, ← shared]
  exact tally_update finite key value

/-- How the subdirectories of a directory change with one entry. -/
theorem subdirs_update (finite : {key | graph.entries key ≠ none}.Finite) (key : ι × ν)
    (value : Option ι) (dir : ι) :
    tally (Function.update graph.entries key value)
        (fun key target => key.1 = dir ∧ graph.isDir target) +
      graph.dirShare key (graph.entries key) dir =
        graph.subdirs dir + graph.dirShare key value dir := by
  have shared : ∀ value : Option ι,
      share (fun (key : ι × ν) target => key.1 = dir ∧ graph.isDir target) key value =
        graph.dirShare key value dir := by
    rintro (_ | value)
    · simp [dirShare]
    · by_cases held : key.1 = dir ∧ graph.isDir value
      · exact (if_pos held).trans (if_pos ⟨held.1, value, rfl, held.2⟩).symm
      · refine (if_neg held).trans (if_neg ?_).symm
        rintro ⟨here, target, same, directory⟩
        cases same
        exact held ⟨here, directory⟩
  rw [← shared, ← shared]
  exact tally_update finite key value

theorem Exact.addFile (exact : graph.Exact) {key : ι × ν} {inode : ι}
    (free : graph.entries key = none) (live : graph.Live key.1) (file : ¬graph.isDir inode) :
    (graph.addFile key inode).Exact := by
  have apart : ∀ {dir}, graph.isDir dir → dir ≠ inode := by
    rintro dir directory rfl
    exact file directory
  have alive : ∀ {dir}, (graph.addFile key inode).Live dir ↔ graph.Live dir := by
    intro dir
    refine and_congr_right fun directory => ?_
    change Function.update graph.links inode (graph.links inode + 1) dir ≠ 0 ↔ _
    rw [Function.update_of_ne (apart directory)]
  have old : ∀ {other dir}, Function.update graph.entries key (some inode) other = some dir →
      graph.isDir dir → graph.entries other = some dir := by
    intro other dir stored directory
    rcases update_eq_some stored with ⟨_, new⟩ | ⟨_, before⟩
    · exact absurd (Option.some.inj new).symm (apart directory)
    · exact before
  constructor
  · exact finite_update exact.finite _ _
  · intro other target stored
    refine alive.mpr ?_
    by_cases same : other = key
    · rw [same]
      exact live
    · exact exact.inDir ((Function.update_of_ne same _ _).symm.trans stored)
  · intro other unlisted
    have moved := names_update exact.finite key (some inode) other
    have count := exact.file unlisted
    change Function.update graph.links inode (graph.links inode + 1) other =
      tally (Function.update graph.entries key (some inode)) fun _ target => target = other
    rw [free] at moved
    by_cases same : other = inode
    · subst same
      rw [Function.update_self]
      simp only [nameShare, reduceCtorEq, if_true, if_false] at moved
      omega
    · rw [Function.update_of_ne same]
      simp only [nameShare, reduceCtorEq, Option.some.injEq, Ne.symm same, if_false] at moved
      omega
  · intro dir aliveDir
    have moved := subdirs_update exact.finite key (some inode) dir
    have count := exact.dir (alive.mp aliveDir)
    change Function.update graph.links inode (graph.links inode + 1) dir =
      2 + tally (Function.update graph.entries key (some inode))
        fun key target => key.1 = dir ∧ graph.isDir target
    rw [free] at moved
    rw [Function.update_of_ne (apart aliveDir.1)]
    simp [dirShare, file] at moved
    omega
  · intro other dir stored directory
    obtain ⟨aliveDir, rest⟩ := exact.child (old stored directory) directory
    exact ⟨alive.mpr aliveDir, rest⟩
  · intro other other' dir directory stored stored'
    exact exact.unique directory (old stored directory) (old stored' directory)
  · intro dir aliveDir inner
    obtain ⟨other, stored⟩ := exact.named (alive.mp aliveDir) inner
    refine ⟨other, (Function.update_of_ne ?_ _ _).trans stored⟩
    rintro rfl
    rw [free] at stored
    cases stored
  · exact alive.mpr exact.root
  · exact exact.parent_root
  · exact fun aliveDir => exact.rooted (alive.mp aliveDir)

theorem Exact.addDir (exact : graph.Exact) {key : ι × ν} {dir : ι} (free : graph.entries key = none)
    (live : graph.Live key.1) (directory : graph.isDir dir) (new : graph.links dir = 0) :
    (graph.addDir key dir).Exact := by
  have apart : key.1 ≠ dir := fun same => live.2 (same ▸ new)
  have inner : dir ≠ graph.root := fun same => exact.root.2 (same ▸ new)
  have unnamed : ∀ {other}, graph.entries other ≠ some dir := fun stored => exact.linked stored new
  have links : ∀ other, (graph.addDir key dir).links other =
      if other = key.1 then graph.links key.1 + 1 else if other = dir then 2 else graph.links other := by
    intro other
    simp only [LinkGraph.addDir, Function.update_apply]
  have alive : ∀ {other}, (graph.addDir key dir).Live other ↔ graph.Live other ∨ other = dir := by
    intro other
    unfold Live
    rw [links]
    change graph.isDir other ∧ _ ↔ _
    by_cases here : other = key.1
    · simp [here, live.1, live.2]
    · by_cases same : other = dir
      · simp [same, directory, Ne.symm apart]
      · simp [here, same]
  have entry : ∀ {other target}, (graph.addDir key dir).entries other = some target →
      (other = key ∧ target = dir) ∨ (other ≠ key ∧ graph.entries other = some target) := by
    intro other target stored
    exact (update_eq_some stored).imp (fun new => ⟨new.1, (Option.some.inj new.2).symm⟩) id
  have moved : Clear graph.parent graph.root (fun other => other = dir) key.1 := by
    refine (exact.rooted live).clear fun above same higher => ?_
    exact (exact.live_of_above higher live).2 (same ▸ new)
  have same : ∀ other, other ≠ dir → (graph.addDir key dir).parent other = graph.parent other :=
    fun other other_ne => Function.update_of_ne other_ne _ _
  have placed : (graph.addDir key dir).parent dir = key.1 := Function.update_self ..
  constructor
  · exact finite_update exact.finite _ _
  · intro other target stored
    rcases entry stored with ⟨rfl, _⟩ | ⟨_, old⟩
    · exact alive.mpr (.inl live)
    · exact alive.mpr (.inl (exact.inDir old))
  · intro other unlisted
    have change := names_update exact.finite key (some dir) other
    have count := exact.file unlisted
    have other_ne : other ≠ dir := by
      rintro rfl
      exact unlisted directory
    have other_ne' : other ≠ key.1 := by
      rintro rfl
      exact unlisted live.1
    rw [free] at change
    simp only [nameShare, reduceCtorEq, Option.some.injEq, Ne.symm other_ne, if_false] at change
    rw [links, if_neg other_ne', if_neg other_ne, count]
    exact change.symm
  · intro other aliveOther
    have change := subdirs_update exact.finite key (some dir) other
    rw [free] at change
    simp only [dirShare, reduceCtorEq, false_and, exists_false, and_false, if_false, Nat.add_zero,
      Option.some.injEq, exists_eq_left', directory, and_true] at change
    rw [links]
    rcases alive.mp aliveOther with old | rfl
    · have count := exact.dir old
      have other_ne : other ≠ dir := fun eq => old.2 (eq ▸ new)
      rw [if_neg other_ne]
      by_cases here : other = key.1
      · subst here
        rw [if_pos rfl] at change ⊢
        rw [count, Nat.add_assoc]
        exact congrArg _ change.symm
      · rw [if_neg (Ne.symm here)] at change
        rw [if_neg here, count]
        exact congrArg _ change.symm
    · have none : graph.subdirs other = 0 := by
        refine (tally_eq_zero exact.finite).mpr fun inside target stored held => ?_
        exact (exact.inDir stored).2 (held.1 ▸ new)
      rw [if_neg apart, none] at change
      rw [if_neg (Ne.symm apart), if_pos rfl]
      exact (congrArg (2 + ·) change).symm
  · intro other target stored targetDir
    rcases entry stored with ⟨rfl, rfl⟩ | ⟨_, old⟩
    · exact ⟨alive.mpr (.inr rfl), inner, placed⟩
    · obtain ⟨aliveTarget, below, parent⟩ := exact.child old targetDir
      refine ⟨alive.mpr (.inl aliveTarget), below, (same _ ?_).trans parent⟩
      rintro rfl
      exact unnamed old
  · intro other other' target targetDir stored stored'
    rcases entry stored with ⟨rfl, rfl⟩ | ⟨_, old⟩ <;> rcases entry stored' with ⟨rfl, eq⟩ | ⟨_, old'⟩
    · rfl
    · exact absurd old' unnamed
    · exact absurd (eq ▸ old) unnamed
    · exact exact.unique targetDir old old'
  · intro other aliveOther below
    rcases alive.mp aliveOther with old | rfl
    · obtain ⟨place, stored⟩ := exact.named old below
      refine ⟨place, (Function.update_of_ne ?_ _ _).trans stored⟩
      rintro rfl
      rw [free] at stored
      cases stored
    · exact ⟨key, Function.update_self ..⟩
  · exact alive.mpr (.inl exact.root)
  · exact (same _ (Ne.symm inner)).trans exact.parent_root
  · intro other aliveOther
    rcases alive.mp aliveOther with old | rfl
    · refine (exact.rooted old).relink same ?_
      rintro other rfl
      rw [placed]
      exact moved
    · refine .child ?_
      rw [placed]
      exact moved.rooted same

theorem Exact.removeFile (exact : graph.Exact) {key : ι × ν} {inode : ι}
    (stored : graph.entries key = some inode) (file : ¬graph.isDir inode) :
    (graph.removeFile key inode).Exact := by
  have counted := exact.linked stored
  have alive : ∀ {dir}, (graph.removeFile key inode).Live dir ↔ graph.Live dir := by
    intro dir
    refine and_congr_right fun directory => ?_
    change Function.update graph.links inode (graph.links inode - 1) dir ≠ 0 ↔ _
    rw [Function.update_of_ne (by rintro rfl; exact file directory)]
  have old : ∀ {other target}, (graph.removeFile key inode).entries other = some target →
      graph.entries other = some target := by
    intro other target present
    rcases update_eq_some present with ⟨_, missing⟩ | ⟨_, before⟩
    · cases missing
    · exact before
  constructor
  · exact finite_update exact.finite _ _
  · exact fun present => alive.mpr (exact.inDir (old present))
  · intro other unlisted
    have moved := names_update exact.finite key none other
    have count := exact.file unlisted
    change Function.update graph.links inode (graph.links inode - 1) other =
      tally (Function.update graph.entries key none) fun _ target => target = other
    rw [stored] at moved
    by_cases same : other = inode
    · subst same
      rw [Function.update_self]
      simp only [nameShare, reduceCtorEq, if_true, if_false] at moved
      omega
    · rw [Function.update_of_ne same]
      simp only [nameShare, reduceCtorEq, Option.some.injEq, Ne.symm same, if_false] at moved
      omega
  · intro dir aliveDir
    have moved := subdirs_update exact.finite key none dir
    have count := exact.dir (alive.mp aliveDir)
    have apart : dir ≠ inode := by
      rintro rfl
      exact file aliveDir.1
    change Function.update graph.links inode (graph.links inode - 1) dir =
      2 + tally (Function.update graph.entries key none)
        fun key target => key.1 = dir ∧ graph.isDir target
    rw [stored] at moved
    rw [Function.update_of_ne apart]
    simp [dirShare, file] at moved
    omega
  · intro other dir present directory
    obtain ⟨aliveDir, rest⟩ := exact.child (old present) directory
    exact ⟨alive.mpr aliveDir, rest⟩
  · exact fun directory present present' => exact.unique directory (old present) (old present')
  · intro dir aliveDir inner
    obtain ⟨other, present⟩ := exact.named (alive.mp aliveDir) inner
    refine ⟨other, (Function.update_of_ne ?_ _ _).trans present⟩
    rintro rfl
    rw [stored] at present
    cases present
    exact file aliveDir.1
  · exact alive.mpr exact.root
  · exact exact.parent_root
  · exact fun aliveDir => exact.rooted (alive.mp aliveDir)

theorem Exact.removeDir (exact : graph.Exact) {key : ι × ν} {dir : ι}
    (stored : graph.entries key = some dir) (directory : graph.isDir dir)
    (empty : ∀ name, graph.entries (dir, name) = none) : (graph.removeDir key dir).Exact := by
  obtain ⟨_, inner, _⟩ := exact.child stored directory
  have live := exact.inDir stored
  have apart : key.1 ≠ dir := by
    intro same
    have missing := empty key.2
    rw [← same] at missing
    exact Option.some_ne_none _ (stored.symm.trans missing)
  have links : ∀ other, (graph.removeDir key dir).links other =
      if other = key.1 then graph.links key.1 - 1 else if other = dir then 0 else graph.links other := by
    intro other
    simp only [LinkGraph.removeDir, Function.update_apply]
  have parentLinks := exact.dir live
  have change : ∀ other, tally (Function.update graph.entries key none)
      (fun key target => key.1 = other ∧ graph.isDir target) +
        (if key.1 = other then 1 else 0) = graph.subdirs other := by
    intro other
    have moved := subdirs_update exact.finite key none other
    rw [stored] at moved
    simpa [dirShare, directory] using moved
  have alive : ∀ {other}, (graph.removeDir key dir).Live other ↔ graph.Live other ∧ other ≠ dir := by
    intro other
    unfold Live
    rw [links]
    change graph.isDir other ∧ _ ↔ _
    by_cases here : other = key.1
    · have more := change key.1
      rw [if_pos rfl] at more
      have positive : graph.links key.1 - 1 ≠ 0 := by omega
      simp [here, live.1, live.2, positive, apart]
    · by_cases same : other = dir
      · simp [same, Ne.symm apart]
      · simp [here, same]
  have old : ∀ {other target}, (graph.removeDir key dir).entries other = some target →
      graph.entries other = some target ∧ target ≠ dir := by
    intro other target present
    rcases update_eq_some present with ⟨_, missing⟩ | ⟨same, before⟩
    · cases missing
    · refine ⟨before, ?_⟩
      rintro rfl
      exact same (exact.unique directory before stored)
  constructor
  · exact finite_update exact.finite _ _
  · intro other target present
    have before := (old present).1
    refine alive.mpr ⟨exact.inDir before, fun same => ?_⟩
    have missing := empty other.2
    rw [← same] at missing
    exact Option.some_ne_none _ (before.symm.trans missing)
  · intro other unlisted
    have moved := names_update exact.finite key none other
    have count := exact.file unlisted
    have other_ne : other ≠ dir := by
      rintro rfl
      exact unlisted directory
    have other_ne' : other ≠ key.1 := by
      rintro rfl
      exact unlisted live.1
    rw [stored] at moved
    simp only [nameShare, reduceCtorEq, Option.some.injEq, Ne.symm other_ne, if_false] at moved
    rw [links, if_neg other_ne', if_neg other_ne, count]
    exact moved.symm
  · intro other aliveOther
    obtain ⟨before, other_ne⟩ := alive.mp aliveOther
    have count := exact.dir before
    have moved := change other
    rw [links, if_neg other_ne]
    change _ = 2 + tally (Function.update graph.entries key none)
      fun key target => key.1 = other ∧ graph.isDir target
    by_cases here : other = key.1
    · rw [if_pos here]
      rw [if_pos here.symm] at moved
      rw [here] at count moved ⊢
      omega
    · rw [if_neg here]
      rw [if_neg (Ne.symm here)] at moved
      omega
  · intro other target present targetDir
    obtain ⟨before, other_ne⟩ := old present
    obtain ⟨aliveTarget, rest⟩ := exact.child before targetDir
    exact ⟨alive.mpr ⟨aliveTarget, other_ne⟩, rest⟩
  · exact fun targetDir present present' =>
      exact.unique targetDir (old present).1 (old present').1
  · intro other aliveOther below
    obtain ⟨before, other_ne⟩ := alive.mp aliveOther
    obtain ⟨place, present⟩ := exact.named before below
    refine ⟨place, (Function.update_of_ne ?_ _ _).trans present⟩
    rintro rfl
    exact other_ne (Option.some.inj (present.symm.trans stored))
  · exact alive.mpr ⟨exact.root, Ne.symm inner⟩
  · exact exact.parent_root
  · exact fun aliveOther => exact.rooted (alive.mp aliveOther).1

theorem Exact.moveFile (exact : graph.Exact) {source target : ι × ν} {inode : ι}
    (stored : graph.entries source = some inode) (free : graph.entries target = none)
    (live : graph.Live target.1) (file : ¬graph.isDir inode) :
    (graph.moveFile source target inode).Exact := by
  refine (exact.addFile free live file).removeFile ?_ file
  refine (Function.update_of_ne ?_ _ _).trans stored
  rintro rfl
  rw [free] at stored
  cases stored

/-- How the subdirectories change when the new entry stands and the old one is gone. -/
theorem Exact.subdirs_moveDir (exact : graph.Exact) {source target : ι × ν} {dir : ι}
    (stored : graph.entries source = some dir) (free : graph.entries target = none)
    (directory : graph.isDir dir) (other : ι) :
    (graph.moveDir source target dir).subdirs other + (if source.1 = other then 1 else 0) =
      graph.subdirs other + (if target.1 = other then 1 else 0) := by
  have different : source ≠ target := by
    rintro rfl
    rw [free] at stored
    cases stored
  have finite := finite_update exact.finite target (some dir)
  have added := subdirs_update exact.finite target (some dir) other
  have removed := @subdirs_update _ _ { graph with
    entries := Function.update graph.entries target (some dir) } _ _ finite source none other
  dsimp only at removed
  rw [Function.update_of_ne different, stored] at removed
  rw [free] at added
  simp only [dirShare, reduceCtorEq, false_and, exists_false, and_false, if_false, Nat.add_zero,
    Option.some.injEq, exists_eq_left', directory, and_true] at added removed
  unfold subdirs at *
  dsimp only [LinkGraph.moveDir] at *
  omega

theorem Exact.links_moveDir (exact : graph.Exact) {source target : ι × ν} {dir : ι}
    (stored : graph.entries source = some dir) (other : ι) :
    (graph.moveDir source target dir).links other + (if source.1 = other then 1 else 0) =
      graph.links other + (if target.1 = other then 1 else 0) := by
  have counted := (exact.inDir stored).2
  dsimp only [LinkGraph.moveDir]
  by_cases from_here : source.1 = other
  · subst from_here
    rw [Function.update_self, if_pos rfl]
    by_cases to_here : target.1 = source.1
    · rw [to_here, Function.update_self, if_pos rfl]
      omega
    · rw [Function.update_of_ne (Ne.symm to_here), if_neg to_here]
      omega
  · rw [Function.update_of_ne (Ne.symm from_here), if_neg from_here]
    by_cases to_here : target.1 = other
    · subst to_here
      rw [Function.update_self, if_pos rfl]
    · rw [Function.update_of_ne (Ne.symm to_here), if_neg to_here]

/-- The directory that loses an entry had it as a subdirectory, so it stays. -/
theorem Exact.live_moveDir (exact : graph.Exact) {source target : ι × ν} {dir : ι}
    (stored : graph.entries source = some dir) (live : graph.Live target.1)
    (directory : graph.isDir dir) {other : ι} :
    (graph.moveDir source target dir).Live other ↔ graph.Live other := by
  have liveSource := exact.inDir stored
  refine and_congr_right fun otherDir => ?_
  have moved := @links_moveDir _ _ _ _ _ exact source target dir stored other
  by_cases from_here : source.1 = other
  · have count := exact.dir liveSource
    have added := liveSource.2
    have some_subdir : 0 < graph.subdirs source.1 :=
      tally_pos exact.finite stored ⟨rfl, directory⟩
    rw [if_pos from_here] at moved
    rw [← from_here] at moved ⊢
    split at moved <;> omega
  · rw [if_neg from_here] at moved
    by_cases to_here : target.1 = other
    · have positive := live.2
      rw [if_pos to_here] at moved
      rw [← to_here] at moved ⊢
      omega
    · rw [if_neg to_here] at moved
      omega

theorem Exact.moveDir (exact : graph.Exact) {source target : ι × ν} {dir : ι}
    (stored : graph.entries source = some dir) (free : graph.entries target = none)
    (live : graph.Live target.1) (directory : graph.isDir dir)
    (apart : ¬Above graph.parent dir target.1) : (graph.moveDir source target dir).Exact := by
  obtain ⟨_, inner, _⟩ := exact.child stored directory
  have liveSource := exact.inDir stored
  have different : source ≠ target := by
    rintro rfl
    rw [free] at stored
    cases stored
  have finite := finite_update exact.finite target (some dir)
  have change := exact.subdirs_moveDir stored free directory
  have links := @links_moveDir _ _ _ _ _ exact source target dir stored
  have alive : ∀ {other}, (graph.moveDir source target dir).Live other ↔ graph.Live other :=
    exact.live_moveDir stored live directory
  have entry : ∀ {other inode}, (graph.moveDir source target dir).entries other = some inode →
      (other = target ∧ inode = dir) ∨
        (other ≠ source ∧ other ≠ target ∧ graph.entries other = some inode) := by
    intro other inode present
    rcases update_eq_some present with ⟨_, missing⟩ | ⟨notSource, before⟩
    · cases missing
    · rcases update_eq_some before with ⟨here, same⟩ | ⟨notTarget, older⟩
      · exact Or.inl ⟨here, (Option.some.inj same).symm⟩
      · exact Or.inr ⟨notSource, notTarget, older⟩
  have elsewhere : ∀ {other inode}, other ≠ source → graph.entries other = some inode → inode ≠ dir := by
    rintro other inode notSource before rfl
    exact notSource (exact.unique directory before stored)
  have same : ∀ other, other ≠ dir → (graph.moveDir source target dir).parent other = graph.parent other :=
    fun other other_ne => Function.update_of_ne other_ne _ _
  have placed : (graph.moveDir source target dir).parent dir = target.1 := Function.update_self ..
  constructor
  · exact finite_update finite _ _
  · intro other inode present
    rcases entry present with ⟨rfl, _⟩ | ⟨_, _, before⟩
    · exact alive.mpr live
    · exact alive.mpr (exact.inDir before)
  · intro other unlisted
    have other_ne : dir ≠ other := by
      rintro rfl
      exact unlisted directory
    have added := names_update exact.finite target (some dir) other
    have removed := @names_update _ _ { graph with
      entries := Function.update graph.entries target (some dir) } _ _ finite source none other
    have moved := links other
    have count := exact.file unlisted
    dsimp only at removed
    rw [Function.update_of_ne different, stored] at removed
    rw [free] at added
    rw [if_neg (by rintro rfl; exact unlisted liveSource.1),
      if_neg (by rintro rfl; exact unlisted live.1)] at moved
    simp only [nameShare, reduceCtorEq, Option.some.injEq, other_ne, if_false] at added removed
    unfold names LinkGraph.moveDir at *
    dsimp only at *
    omega
  · intro other aliveOther
    have count := exact.dir (alive.mp aliveOther)
    have moved := links other
    have counted := change other
    omega
  · intro other inode present inodeDir
    rcases entry present with ⟨rfl, rfl⟩ | ⟨notSource, _, before⟩
    · exact ⟨alive.mpr (exact.child stored directory).1, inner, placed⟩
    · obtain ⟨aliveInode, below, parent⟩ := exact.child before inodeDir
      exact ⟨alive.mpr aliveInode, below, (same _ (elsewhere notSource before)).trans parent⟩
  · intro other other' inode inodeDir present present'
    rcases entry present with ⟨rfl, rfl⟩ | ⟨notSource, _, before⟩ <;>
      rcases entry present' with ⟨rfl, eq⟩ | ⟨notSource', _, before'⟩
    · rfl
    · exact absurd rfl (elsewhere notSource' before')
    · exact absurd eq (elsewhere notSource before)
    · exact exact.unique inodeDir before before'
  · intro other aliveOther below
    by_cases here : other = dir
    · subst here
      refine ⟨target, (Function.update_of_ne (Ne.symm different) _ _).trans ?_⟩
      exact Function.update_self ..
    · obtain ⟨place, present⟩ := exact.named (alive.mp aliveOther) below
      refine ⟨place, (Function.update_of_ne ?_ _ _).trans
        ((Function.update_of_ne ?_ _ _).trans present)⟩
      · rintro rfl
        exact here (Option.some.inj (present.symm.trans stored))
      · rintro rfl
        rw [free] at present
        cases present
  · exact alive.mpr exact.root
  · exact (same _ (Ne.symm inner)).trans exact.parent_root
  · intro other aliveOther
    refine (exact.rooted (alive.mp aliveOther)).relink same ?_
    rintro other rfl
    rw [placed]
    refine (exact.rooted live).clear fun above eq higher => apart (eq ▸ higher)

theorem Exact.exchangeDirs (exact : graph.Exact) {left right : ι × ν} {first second : ι}
    (storedFirst : graph.entries left = some first) (storedSecond : graph.entries right = some second)
    (firstDir : graph.isDir first) (secondDir : graph.isDir second) (different : first ≠ second)
    (firstApart : ¬Above graph.parent first right.1)
    (secondApart : ¬Above graph.parent second left.1) :
    (graph.exchangeDirs left right first second).Exact := by
  obtain ⟨liveFirst, innerFirst, parentFirst⟩ := exact.child storedFirst firstDir
  obtain ⟨liveSecond, innerSecond, parentSecond⟩ := exact.child storedSecond secondDir
  have keys : right ≠ left := by
    rintro rfl
    exact different (Option.some.inj (storedFirst.symm.trans storedSecond))
  have finite := finite_update exact.finite left (some second)
  have entry : ∀ {other inode}, (graph.exchangeDirs left right first second).entries other = some inode →
      (other = right ∧ inode = first) ∨ (other = left ∧ inode = second) ∨
        (other ≠ left ∧ other ≠ right ∧ graph.entries other = some inode) := by
    intro other inode present
    rcases update_eq_some present with ⟨here, same⟩ | ⟨notRight, before⟩
    · exact Or.inl ⟨here, (Option.some.inj same).symm⟩
    · rcases update_eq_some before with ⟨here, same⟩ | ⟨notLeft, older⟩
      · exact Or.inr (Or.inl ⟨here, (Option.some.inj same).symm⟩)
      · exact Or.inr (Or.inr ⟨notLeft, notRight, older⟩)
  have elsewhere : ∀ {other inode}, other ≠ left → other ≠ right →
      graph.entries other = some inode → inode ≠ first ∧ inode ≠ second := by
    intro other inode notLeft notRight before
    constructor
    · rintro rfl
      exact notLeft (exact.unique firstDir before storedFirst)
    · rintro rfl
      exact notRight (exact.unique secondDir before storedSecond)
  have same : ∀ other, ¬(other = first ∨ other = second) →
      (graph.exchangeDirs left right first second).parent other = graph.parent other := by
    intro other neither
    exact (Function.update_of_ne (fun eq => neither (.inr eq)) _ _).trans
      (Function.update_of_ne (fun eq => neither (.inl eq)) _ _)
  have placedFirst : (graph.exchangeDirs left right first second).parent first = right.1 :=
    (Function.update_of_ne different _ _).trans (Function.update_self ..)
  have placedSecond : (graph.exchangeDirs left right first second).parent second = left.1 :=
    Function.update_self ..
  constructor
  · exact finite_update finite _ _
  · intro other inode present
    rcases entry present with ⟨rfl, _⟩ | ⟨rfl, _⟩ | ⟨_, _, before⟩
    · exact exact.inDir storedSecond
    · exact exact.inDir storedFirst
    · exact exact.inDir before
  · intro other unlisted
    have notFirst : first ≠ other := by
      rintro rfl
      exact unlisted firstDir
    have notSecond : second ≠ other := by
      rintro rfl
      exact unlisted secondDir
    have added := names_update exact.finite left (some second) other
    have moved := @names_update _ _ { graph with
      entries := Function.update graph.entries left (some second) } _ _ finite right (some first) other
    have count := exact.file unlisted
    dsimp only at moved
    rw [Function.update_of_ne keys, storedSecond] at moved
    rw [storedFirst] at added
    simp only [nameShare, Option.some.injEq, notFirst, notSecond, if_false] at added moved
    unfold names LinkGraph.exchangeDirs at *
    dsimp only at *
    omega
  · intro other aliveOther
    have added := subdirs_update exact.finite left (some second) other
    have moved := @subdirs_update _ _ { graph with
      entries := Function.update graph.entries left (some second) } _ _ finite right (some first) other
    have count := exact.dir aliveOther
    dsimp only at moved
    rw [Function.update_of_ne keys, storedSecond] at moved
    rw [storedFirst] at added
    simp only [dirShare, Option.some.injEq, exists_eq_left', firstDir, secondDir, and_true] at added moved
    unfold subdirs LinkGraph.exchangeDirs at *
    dsimp only at *
    omega
  · intro other inode present inodeDir
    rcases entry present with ⟨rfl, rfl⟩ | ⟨rfl, rfl⟩ | ⟨notLeft, notRight, before⟩
    · exact ⟨liveFirst, innerFirst, placedFirst⟩
    · exact ⟨liveSecond, innerSecond, placedSecond⟩
    · obtain ⟨aliveInode, below, parent⟩ := exact.child before inodeDir
      obtain ⟨notFirst, notSecond⟩ := elsewhere notLeft notRight before
      exact ⟨aliveInode, below, (same _ (by rintro (eq | eq) <;> contradiction)).trans parent⟩
  · intro other other' inode inodeDir present present'
    rcases entry present with ⟨rfl, rfl⟩ | ⟨rfl, rfl⟩ | ⟨notLeft, notRight, before⟩ <;>
      rcases entry present' with ⟨rfl, eq⟩ | ⟨rfl, eq⟩ | ⟨notLeft', notRight', before'⟩
    · rfl
    · exact absurd eq different
    · exact absurd rfl (elsewhere notLeft' notRight' before').1
    · exact absurd eq.symm different
    · rfl
    · exact absurd rfl (elsewhere notLeft' notRight' before').2
    · exact absurd eq (elsewhere notLeft notRight before).1
    · exact absurd eq (elsewhere notLeft notRight before).2
    · exact exact.unique inodeDir before before'
  · intro other aliveOther below
    by_cases isFirst : other = first
    · subst isFirst
      exact ⟨right, Function.update_self ..⟩
    · by_cases isSecond : other = second
      · subst isSecond
        exact ⟨left, (Function.update_of_ne (Ne.symm keys) _ _).trans (Function.update_self ..)⟩
      · obtain ⟨place, present⟩ := exact.named aliveOther below
        refine ⟨place, (Function.update_of_ne ?_ _ _).trans
          ((Function.update_of_ne ?_ _ _).trans present)⟩
        · rintro rfl
          exact isSecond (Option.some.inj (present.symm.trans storedSecond))
        · rintro rfl
          exact isFirst (Option.some.inj (present.symm.trans storedFirst))
  · exact exact.root
  · refine (same _ ?_).trans exact.parent_root
    rintro (eq | eq)
    · exact innerFirst eq.symm
    · exact innerSecond eq.symm
  · intro other aliveOther
    refine (exact.rooted aliveOther).relink same ?_
    rintro other (rfl | rfl)
    · rw [placedFirst]
      refine (exact.rooted (exact.inDir storedSecond)).clear fun above eq higher => ?_
      rcases eq with rfl | rfl
      · exact firstApart higher
      · refine (exact.rooted liveSecond).not_above_parent exact.parent_root innerSecond ?_
        rw [parentSecond]
        exact higher
    · rw [placedSecond]
      refine (exact.rooted (exact.inDir storedFirst)).clear fun above eq higher => ?_
      rcases eq with rfl | rfl
      · refine (exact.rooted liveFirst).not_above_parent exact.parent_root innerFirst ?_
        rw [parentFirst]
        exact higher
      · exact secondApart higher

omit [DecidableEq ι] [DecidableEq ν] in
/-- A directory does not contain itself. -/
theorem Exact.entry_ne (exact : graph.Exact) {key : ι × ν} {dir : ι}
    (stored : graph.entries key = some dir) : key.1 ≠ dir := by
  rintro same
  have live := exact.inDir stored
  rw [same] at live
  obtain ⟨_, inner, parent⟩ := exact.child stored live.1
  refine (exact.rooted live).not_above_parent exact.parent_root inner ?_
  rw [parent, same]
  exact .refl

/-- A name makes room when a directory behind it is empty; the directory of the name stays. -/
theorem Exact.vacate (exact : graph.Exact) {key : ι × ν}
    (empty : ∀ {dir}, graph.entries key = some dir → graph.isDir dir →
      ∀ name, graph.entries (dir, name) = none) :
    (graph.vacate key (graph.entries key)).Exact ∧
      (graph.Live key.1 → (graph.vacate key (graph.entries key)).Live key.1) := by
  cases stored : graph.entries key with
  | none => exact ⟨exact, id⟩
  | some inode =>
      by_cases directory : graph.isDir inode
      · have vacated : graph.vacate key (some inode) = graph.removeDir key inode := if_pos directory
        rw [vacated]
        refine ⟨exact.removeDir stored directory (empty stored directory), fun live => ⟨live.1, ?_⟩⟩
        have more := exact.two_lt_links stored directory
        refine fun zero => ?_
        have count := (Function.update_self ..).symm.trans zero
        omega
      · have vacated : graph.vacate key (some inode) = graph.removeFile key inode := if_neg directory
        rw [vacated]
        refine ⟨exact.removeFile stored directory, fun live => ⟨live.1, fun zero => live.2 ?_⟩⟩
        refine (Function.update_of_ne ?_ _ _).symm.trans zero
        rintro same
        exact directory (same ▸ live.1)

theorem vacate_frame (key : ι × ν) (replaced : Option ι) :
    (graph.vacate key replaced).isDir = graph.isDir ∧
      (graph.vacate key replaced).parent = graph.parent ∧
      ∀ other, other ≠ key → (graph.vacate key replaced).entries other = graph.entries other := by
  cases replaced with
  | none => exact ⟨rfl, rfl, fun _ _ => rfl⟩
  | some inode =>
      by_cases directory : graph.isDir inode
      · have vacated : graph.vacate key (some inode) = graph.removeDir key inode := if_pos directory
        rw [vacated]
        exact ⟨rfl, rfl, fun other apart => Function.update_of_ne apart _ _⟩
      · have vacated : graph.vacate key (some inode) = graph.removeFile key inode := if_neg directory
        rw [vacated]
        exact ⟨rfl, rfl, fun other apart => Function.update_of_ne apart _ _⟩

/-- The name is free then. -/
theorem entries_vacate (key : ι × ν) :
    (graph.vacate key (graph.entries key)).entries key = none := by
  cases stored : graph.entries key with
  | none => exact stored
  | some inode =>
      by_cases directory : graph.isDir inode
      · have vacated : graph.vacate key (some inode) = graph.removeDir key inode := if_pos directory
        rw [vacated]
        exact Function.update_self ..
      · have vacated : graph.vacate key (some inode) = graph.removeFile key inode := if_neg directory
        rw [vacated]
        exact Function.update_self ..

/-- A rename keeps the counts exact unless it moves a directory into itself or replaces one that is
not empty. -/
theorem Exact.rename (exact : graph.Exact) {source target : ι × ν} {inode : ι}
    (stored : graph.entries source = some inode) (live : graph.Live target.1)
    (different : graph.entries target ≠ some inode)
    (empty : ∀ {dir}, graph.entries target = some dir → graph.isDir dir →
      ∀ name, graph.entries (dir, name) = none)
    (apart : graph.isDir inode → ¬Above graph.parent inode target.1) :
    (graph.rename source target inode (graph.entries target)).Exact := by
  obtain ⟨exact', alive⟩ := exact.vacate empty
  obtain ⟨isDir, parent, others⟩ := @vacate_frame _ _ graph _ _ target (graph.entries target)
  have keys : source ≠ target := by
    rintro rfl
    exact different stored
  have stored' := (others source keys).trans stored
  by_cases directory : graph.isDir inode
  · have renamed : graph.rename source target inode (graph.entries target) =
        (graph.vacate target (graph.entries target)).moveDir source target inode := if_pos directory
    rw [renamed]
    refine exact'.moveDir stored' (entries_vacate target) (alive live) ?_ ?_
    · rw [isDir]
      exact directory
    · rw [parent]
      exact apart directory
  · have renamed : graph.rename source target inode (graph.entries target) =
        (graph.vacate target (graph.entries target)).moveFile source target inode := if_neg directory
    rw [renamed]
    refine exact'.moveFile stored' (entries_vacate target) (alive live) ?_
    rw [isDir]
    exact directory

/-- The exchange of a file and a directory: the file makes room, and comes back. -/
theorem Exact.exchange_mixed (exact : graph.Exact) {left right : ι × ν} {first second : ι}
    (storedFirst : graph.entries left = some first) (storedSecond : graph.entries right = some second)
    (firstDir : graph.isDir first) (secondFile : ¬graph.isDir second)
    (apart : ¬Above graph.parent first right.1) :
    (((graph.removeFile right second).moveDir left right first).addFile left second).Exact := by
  have different : left ≠ right := by
    rintro rfl
    obtain rfl := Option.some.inj (storedFirst.symm.trans storedSecond)
    exact secondFile firstDir
  have removed := exact.removeFile storedSecond secondFile
  have stays : (graph.removeFile right second).entries left = some first :=
    (Function.update_of_ne different _ _).trans storedFirst
  have room : (graph.removeFile right second).entries right = none := Function.update_self ..
  have counted : ∀ {dir}, graph.Live dir → (graph.removeFile right second).Live dir := by
    intro dir live
    refine ⟨live.1, fun zero => live.2 ((Function.update_of_ne ?_ _ _).symm.trans zero)⟩
    rintro rfl
    exact secondFile live.1
  have moved := removed.moveDir stays room (counted (exact.inDir storedSecond)) firstDir apart
  refine moved.addFile (Function.update_self ..) ?_ secondFile
  exact (removed.live_moveDir stays (counted (exact.inDir storedSecond)) firstDir).mpr
    (counted (exact.inDir storedFirst))

/-- The exchange of two files: both make room, and come back. -/
theorem Exact.exchange_files (exact : graph.Exact) {left right : ι × ν} {first second : ι}
    (storedFirst : graph.entries left = some first) (storedSecond : graph.entries right = some second)
    (firstFile : ¬graph.isDir first) (secondFile : ¬graph.isDir second) (different : first ≠ second) :
    ((((graph.removeFile left first).removeFile right second).addFile left second).addFile right
      first).Exact := by
  have keys : left ≠ right := by
    rintro rfl
    exact different (Option.some.inj (storedFirst.symm.trans storedSecond))
  have removed := exact.removeFile storedFirst firstFile
  have stays : (graph.removeFile left first).entries right = some second :=
    (Function.update_of_ne (Ne.symm keys) _ _).trans storedSecond
  have cleared := removed.removeFile stays secondFile
  have counted : ∀ {dir}, graph.Live dir →
      ((graph.removeFile left first).removeFile right second).Live dir := by
    rintro dir live
    refine ⟨live.1, fun zero => live.2 (Eq.trans (Eq.symm ?_) zero)⟩
    refine (Function.update_of_ne ?_ _ _).trans (Function.update_of_ne ?_ _ _)
    · rintro rfl
      exact secondFile live.1
    · rintro rfl
      exact firstFile live.1
  have filled := cleared.addFile ((Function.update_of_ne keys _ _).trans (Function.update_self ..))
    (counted (exact.inDir storedFirst)) secondFile
  refine filled.addFile ((Function.update_of_ne (Ne.symm keys) _ _).trans (Function.update_self ..))
    ?_ firstFile
  have live := counted (exact.inDir storedSecond)
  refine ⟨live.1, fun zero => live.2 (Eq.trans (Eq.symm (Function.update_of_ne ?_ _ _)) zero)⟩
  rintro rfl
  exact secondFile live.1

/-- Two inodes may exchange their names unless a directory would get into itself. -/
theorem Exact.exchange (exact : graph.Exact) {left right : ι × ν} {first second : ι}
    (storedFirst : graph.entries left = some first) (storedSecond : graph.entries right = some second)
    (different : first ≠ second)
    (firstApart : graph.isDir first → ¬Above graph.parent first right.1)
    (secondApart : graph.isDir second → ¬Above graph.parent second left.1) :
    (graph.exchange left right first second).Exact := by
  have keys : left ≠ right := by
    rintro rfl
    exact different (Option.some.inj (storedFirst.symm.trans storedSecond))
  have counted := exact.linked storedFirst
  have counted' := exact.linked storedSecond
  have liveLeft := exact.inDir storedFirst
  have liveRight := exact.inDir storedSecond
  have left_counted := liveLeft.2
  have right_counted := liveRight.2
  have apart : ∀ {dir file}, graph.Live dir → ¬graph.isDir file → dir ≠ file := by
    rintro dir file live plain rfl
    exact plain live.1
  by_cases firstDir : graph.isDir first <;> by_cases secondDir : graph.isDir second
  · have same : graph.exchange left right first second = graph.exchangeDirs left right first second := by
      refine LinkGraph.ext rfl rfl ?_ ?_ rfl
      · funext inode
        simp only [LinkGraph.exchange, LinkGraph.exchangeDirs, firstDir, secondDir, and_true]
        omega
      · funext inode
        simp only [LinkGraph.exchange, LinkGraph.exchangeDirs, firstDir, secondDir, and_true,
          Function.update_apply]
    rw [same]
    exact exact.exchangeDirs storedFirst storedSecond firstDir secondDir different (firstApart firstDir)
      (secondApart secondDir)
  · have same : graph.exchange left right first second =
        ((graph.removeFile right second).moveDir left right first).addFile left second := by
      refine LinkGraph.ext rfl rfl ?_ ?_ ?_
      · funext inode
        simp only [LinkGraph.exchange, LinkGraph.addFile, LinkGraph.moveDir, LinkGraph.removeFile,
          Function.update_apply, firstDir, secondDir, and_true, and_false, if_false]
        have leftApart := apart liveLeft secondDir
        have rightApart := apart liveRight secondDir
        grind
      · funext inode
        simp only [LinkGraph.exchange, LinkGraph.addFile, LinkGraph.moveDir, LinkGraph.removeFile,
          Function.update_apply, firstDir, secondDir, and_true, and_false, if_false]
      · funext key
        simp only [LinkGraph.exchange, LinkGraph.addFile, LinkGraph.moveDir, LinkGraph.removeFile,
          Function.update_apply]
        grind
    rw [same]
    exact exact.exchange_mixed storedFirst storedSecond firstDir secondDir (firstApart firstDir)
  · have same : graph.exchange left right first second =
        ((graph.removeFile left first).moveDir right left second).addFile right first := by
      refine LinkGraph.ext rfl rfl ?_ ?_ ?_
      · funext inode
        simp only [LinkGraph.exchange, LinkGraph.addFile, LinkGraph.moveDir, LinkGraph.removeFile,
          Function.update_apply, firstDir, secondDir, and_true, and_false, if_false]
        have leftApart := apart liveLeft firstDir
        have rightApart := apart liveRight firstDir
        grind
      · funext inode
        simp only [LinkGraph.exchange, LinkGraph.addFile, LinkGraph.moveDir, LinkGraph.removeFile,
          Function.update_apply, firstDir, secondDir, and_true, and_false, if_false]
      · funext key
        simp only [LinkGraph.exchange, LinkGraph.addFile, LinkGraph.moveDir, LinkGraph.removeFile,
          Function.update_apply]
        grind
    rw [same]
    exact exact.exchange_mixed storedSecond storedFirst secondDir firstDir (secondApart secondDir)
  · have same : graph.exchange left right first second =
        (((graph.removeFile left first).removeFile right second).addFile left second).addFile right
          first := by
      refine LinkGraph.ext rfl rfl ?_ ?_ ?_
      · funext inode
        simp only [LinkGraph.exchange, LinkGraph.addFile, LinkGraph.removeFile,
          Function.update_apply, firstDir, secondDir, and_false, if_false]
        grind
      · funext inode
        simp only [LinkGraph.exchange, LinkGraph.addFile, LinkGraph.removeFile,
          Function.update_apply, firstDir, secondDir, and_false, if_false]
      · funext key
        simp only [LinkGraph.exchange, LinkGraph.addFile, LinkGraph.removeFile,
          Function.update_apply]
        grind
    rw [same]
    exact exact.exchange_files storedFirst storedSecond firstDir secondDir different

end Changes

end LinkGraph
end StorageStack
