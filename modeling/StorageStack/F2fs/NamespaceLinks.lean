import StorageStack.F2fs.NamespaceView

/-!
# Link counts are exact

The view of a name space is a link graph.  Each call of `namei.c` changes the graph by one of its
changes, whatever fails on the way, so link counts, the tree of directories and the list of orphans
stay exact.
-/

namespace StorageStack.F2fs

/-- `S_ISDIR` of a mode. -/
def modeIsDir (mode : BitVec 16) : Bool := mode &&& 0xF000 == 0x4000

/-- The orphans with one more slot. -/
def OrphanInodes.acquired (orphans : OrphanInodes) : OrphanInodes :=
  { orphans with nOrphans := orphans.nOrphans + 1 }

theorem OrphanInodes.acquire_eq_some {orphans acquired : OrphanInodes}
    (slot : orphans.acquireOrphanInode = some acquired) :
    orphans.nOrphans < orphans.maxOrphans ∧ acquired = orphans.acquired := by
  rw [acquireOrphanInode] at slot
  split at slot
  · cases slot
  · exact ⟨Nat.lt_of_not_le ‹_›, (Option.some.inj slot).symm⟩

theorem OrphanInodes.release_acquired (orphans : OrphanInodes) :
    orphans.acquired.releaseOrphanInode = some orphans := rfl

namespace NameView

variable (view : NameView) (root : BitVec 32)

/-- The inode is a directory in use. -/
def IsDir (ino : BitVec 32) : Prop := ∃ mode, view.modes ino = some mode ∧ modeIsDir mode = true

/-- The link graph of a view; `"."` and `".."` are no entries of it. -/
def graph : LinkGraph (BitVec 32) FileName where
  root := root
  isDir := view.IsDir
  links := view.links
  parent ino := ((view.ents ino dotDotName).map fun place => place.inode.ino).getD ino
  entries key :=
    if key.2 = dotName ∨ key.2 = dotDotName then none
    else (view.ents key.1 key.2).map fun place => place.inode.ino

/-- The list of orphans has the inodes without links, each once, and the counter counts them. -/
structure OrphansExact : Prop where
  nodup : view.orphans.inoList.Nodup
  listed : ∀ {ino}, ino ∈ view.orphans.inoList ↔ view.modes ino ≠ none ∧ view.links ino = 0
  counted : view.orphans.nOrphans = view.orphans.inoList.length
  bounded : view.orphans.nOrphans ≤ view.orphans.maxOrphans
  word : view.orphans.maxOrphans < 2 ^ 32

/-- Only inodes in use have links, only directories have entries, and these record the modes of their
inodes. -/
structure Formed : Prop where
  absent : ∀ {ino}, view.modes ino = none → view.links ino = 0
  blank : ∀ {ino}, ¬view.IsDir ino → view.ents ino = fun _ => none
  typed : ∀ {dir name place}, name.Proper → view.ents dir name = some place →
    view.modes place.inode.ino = some place.inode.mode

/-- A new inode, with its entries when it is a directory. -/
def addNode (ino : BitVec 32) (mode : BitVec 16) (links : Nat) (ents : FileName → Option EntryPlace) :
    NameView :=
  { view with
    modes := Function.update view.modes ino (some mode)
    links := Function.update view.links ino links
    ents := Function.update view.ents ino ents }

/-- An inode is removed. -/
def forget (ino : BitVec 32) : NameView :=
  { modes := Function.update view.modes ino none
    links := view.links
    ents := Function.update view.ents ino fun _ => none
    orphans := view.orphans.removeOrphanInode ino }

/-- The slot acquired before takes the inode when it has no link left. -/
def settled (orphans : OrphanInodes) (ino : BitVec 32) : NameView :=
  view.setOrphans (if view.links ino = 0 then orphans.acquired.addOrphanInode ino else orphans)

variable {view root}

theorem graph_settled (orphans : OrphanInodes) (ino : BitVec 32) :
    (view.settled orphans ino).graph root = view.graph root := rfl

theorem graph_entries {dir : BitVec 32} {name : FileName} (proper : name.Proper) :
    (view.graph root).entries (dir, name) =
      (view.ents dir name).map fun place => place.inode.ino :=
  if_neg (not_or.mpr proper)

theorem graph_entries_eq_some {key : BitVec 32 × FileName} {target : BitVec 32} :
    (view.graph root).entries key = some target ↔
      key.2.Proper ∧ ∃ place, view.ents key.1 key.2 = some place ∧ place.inode.ino = target := by
  by_cases proper : key.2.Proper
  · rw [show key = (key.1, key.2) from rfl, graph_entries proper, Option.map_eq_some_iff]
    exact (and_iff_right proper).symm
  · refine ⟨fun stored => ?_, fun ⟨held, _⟩ => absurd held proper⟩
    have special : key.2 = dotName ∨ key.2 = dotDotName := by
      by_contra neither
      exact proper (not_or.mp neither)
    have missing : (view.graph root).entries key = none := if_pos special
    rw [missing] at stored
    cases stored

/-- One proper entry changes. -/
theorem graph_setEntry {dir : BitVec 32} {name : FileName} (proper : name.Proper)
    (place : Option EntryPlace) : (view.setEntry dir name place).graph root =
      { view.graph root with
        entries := Function.update (view.graph root).entries (dir, name)
          (place.map fun place => place.inode.ino) } := by
  refine LinkGraph.ext rfl rfl rfl ?_ ?_
  · funext ino
    simp only [graph, setEntry]
    by_cases same : ino = dir
    · subst same
      rw [Function.update_self, Function.update_of_ne (Ne.symm proper.2)]
    · rw [Function.update_of_ne same]
  · funext key
    obtain ⟨other, otherName⟩ := key
    change ite _ _ _ = Function.update (view.graph root).entries (dir, name) _ (other, otherName)
    by_cases same : (other, otherName) = (dir, name)
    · obtain ⟨rfl, rfl⟩ := Prod.mk.inj same
      rw [Function.update_self, if_neg (not_or.mpr proper), setEntry]
      simp only [Function.update_self]
    · rw [Function.update_of_ne same]
      change _ = ite _ _ _
      congr 2
      simp only [setEntry]
      by_cases here : other = dir
      · subst here
        rw [Function.update_self, Function.update_of_ne]
        rintro rfl
        exact same rfl
      · rw [Function.update_of_ne here]

/-- A directory gets another parent. -/
theorem graph_setParent (dir : BitVec 32) (parent : InodeRef) :
    (view.setEntry dir dotDotName (some ⟨parent, 0, 1⟩)).graph root =
      { view.graph root with parent := Function.update (view.graph root).parent dir parent.ino } := by
  refine LinkGraph.ext rfl rfl rfl ?_ ?_
  · funext ino
    simp only [graph, setEntry]
    by_cases same : ino = dir
    · subst same
      rw [Function.update_self, Function.update_self, Function.update_self]
      rfl
    · rw [Function.update_of_ne same, Function.update_of_ne same]
  · funext key
    obtain ⟨other, otherName⟩ := key
    simp only [graph, setEntry]
    by_cases special : otherName = dotName ∨ otherName = dotDotName
    · rw [if_pos special, if_pos special]
    · rw [if_neg special, if_neg special]
      congr 1
      by_cases here : other = dir
      · subst here
        rw [Function.update_self, Function.update_of_ne fun same => special (.inr same)]
      · rw [Function.update_of_ne here]

theorem graph_setLinks (ino : BitVec 32) (links : Nat) : (view.setLinks ino links).graph root =
    { view.graph root with links := Function.update (view.graph root).links ino links } := rfl

theorem graph_setOrphans (orphans : OrphanInodes) :
    (view.setOrphans orphans).graph root = view.graph root := rfl

theorem modes_addNode (ino : BitVec 32) (mode : BitVec 16) (links : Nat)
    (ents : FileName → Option EntryPlace) :
    (view.addNode ino mode links ents).modes ino = some mode := Function.update_self ..

theorem isDir_addNode {ino : BitVec 32} {mode : BitVec 16} {links : Nat}
    {ents : FileName → Option EntryPlace} {other : BitVec 32} :
    (view.addNode ino mode links ents).IsDir other ↔
      if other = ino then modeIsDir mode = true else view.IsDir other := by
  change (∃ known, Function.update view.modes ino (some mode) other = some known ∧ _) ↔ _
  by_cases here : other = ino
  · subst here
    rw [Function.update_self, if_pos rfl]
    simp only [Option.some.injEq, exists_eq_left']
  · rw [Function.update_of_ne here, if_neg here]
    exact Iff.rfl

/-- An inode that is new or replaced, with its entries. -/
theorem graph_addNode {ino : BitVec 32} {ents : FileName → Option EntryPlace}
    (same : ∀ name, name.Proper → ents name = view.ents ino name) (mode : BitVec 16) (links : Nat) :
    (view.addNode ino mode links ents).graph root =
      { view.graph root with
        isDir := fun other =>
          if other = ino then modeIsDir mode = true else (view.graph root).isDir other
        links := Function.update (view.graph root).links ino links
        parent := Function.update (view.graph root).parent ino
          (((ents dotDotName).map fun place => place.inode.ino).getD ino) } := by
  refine LinkGraph.ext rfl ?_ rfl ?_ ?_
  · funext other
    exact propext isDir_addNode
  · funext other
    change ((Function.update view.ents ino ents other dotDotName).map _).getD other =
      Function.update (view.graph root).parent ino _ other
    by_cases here : other = ino
    · subst here
      rw [Function.update_self, Function.update_self]
    · rw [Function.update_of_ne here, Function.update_of_ne here]
      rfl
  · funext key
    obtain ⟨other, name⟩ := key
    by_cases special : name = dotName ∨ name = dotDotName
    · exact (if_pos special).trans (if_pos special).symm
    · refine (if_neg special).trans (Eq.trans ?_ (if_neg special).symm)
      congr 1
      by_cases here : other = ino
      · subst here
        exact (congrFun (Function.update_self ..) name).trans (same name (not_or.mp special))
      · exact congrFun (Function.update_of_ne here _ _) name

theorem modes_forget {ino other : BitVec 32} {mode : BitVec 16} :
    (view.forget ino).modes other = some mode ↔ other ≠ ino ∧ view.modes other = some mode := by
  change Function.update view.modes ino none other = _ ↔ _
  by_cases here : other = ino
  · subst here
    rw [Function.update_self]
    exact iff_of_false (fun stored => by cases stored) fun held => held.1 rfl
  · rw [Function.update_of_ne here]
    exact (and_iff_right here).symm

theorem isDir_forget {ino other : BitVec 32} :
    (view.forget ino).IsDir other ↔ other ≠ ino ∧ view.IsDir other := by
  simp only [IsDir, modes_forget, and_assoc, exists_and_left]

/-- An inode that is no directory before and after. -/
theorem graph_addNode_file {ino : BitVec 32} (plain : ¬view.IsDir ino) {mode : BitVec 16}
    (file : modeIsDir mode = false) (links : Nat) :
    (view.addNode ino mode links (view.ents ino)).graph root =
      { view.graph root with links := Function.update (view.graph root).links ino links } := by
  rw [graph_addNode fun _ _ => rfl]
  refine LinkGraph.ext rfl ?_ rfl ?_ rfl
  · funext other
    refine propext ?_
    by_cases here : other = ino
    · subst here
      exact iff_of_false (by simp [file]) plain
    · exact iff_of_eq (if_neg here)
  · exact Function.update_eq_self ..

theorem IsDir.known {ino : BitVec 32} (directory : view.IsDir ino) : view.modes ino ≠ none := by
  obtain ⟨mode, stored, _⟩ := directory
  rw [stored]
  exact Option.some_ne_none _

/-! ## What the steps keep -/

theorem Formed.known (formed : view.Formed) {ino : BitVec 32} (linked : view.links ino ≠ 0) :
    view.modes ino ≠ none :=
  fun missing => linked (formed.absent missing)

theorem Formed.setEntry (formed : view.Formed) {dir : BitVec 32} (directory : view.IsDir dir)
    {name : FileName} {place : Option EntryPlace}
    (recorded : ∀ entry, place = some entry → name.Proper →
      view.modes entry.inode.ino = some entry.inode.mode) : (view.setEntry dir name place).Formed where
  absent := formed.absent
  blank {ino} plain := by
    refine (Function.update_of_ne ?_ _ _).trans (formed.blank plain)
    rintro rfl
    exact plain directory
  typed {other otherName entry} proper stored := by
    by_cases here : other = dir
    · subst here
      have known := (congrFun (Function.update_self ..) otherName).symm.trans stored
      rcases update_eq_some known with ⟨rfl, new⟩ | ⟨_, before⟩
      · exact recorded entry new proper
      · exact formed.typed proper before
    · exact formed.typed proper ((congrFun (Function.update_of_ne here _ _) otherName).symm.trans stored)

theorem Formed.setLinks (formed : view.Formed) {ino : BitVec 32} (known : view.modes ino ≠ none)
    (links : Nat) : (view.setLinks ino links).Formed where
  absent {other} missing := by
    refine (Function.update_of_ne ?_ _ _).trans (formed.absent missing)
    rintro rfl
    exact known missing
  blank := formed.blank
  typed := formed.typed

theorem Formed.setOrphans (formed : view.Formed) (orphans : OrphanInodes) :
    (view.setOrphans orphans).Formed where
  absent := formed.absent
  blank := formed.blank
  typed := formed.typed

/-- A new inode, or one that keeps its mode. -/
theorem Formed.addNode (formed : view.Formed) {ino : BitVec 32} {mode : BitVec 16} {links : Nat}
    {ents : FileName → Option EntryPlace}
    (same : ∀ name, name.Proper → ents name = view.ents ino name)
    (plain : modeIsDir mode = false → ents = fun _ => none)
    (compatible : ∀ old, view.modes ino = some old → old = mode) :
    (view.addNode ino mode links ents).Formed where
  absent {other} missing := by
    have apart : other ≠ ino := by
      rintro rfl
      have stored : (view.addNode other mode links ents).modes other = some mode :=
        Function.update_self ..
      rw [missing] at stored
      cases stored
    refine (Function.update_of_ne apart _ _).trans (formed.absent ?_)
    exact (Function.update_of_ne apart _ _).symm.trans missing
  blank {other} notDir := by
    by_cases here : other = ino
    · subst here
      refine (Function.update_self ..).trans (plain (Bool.eq_false_iff.mpr fun directory => ?_))
      exact notDir ⟨mode, Function.update_self .., directory⟩
    · refine (Function.update_of_ne here _ _).trans (formed.blank fun ⟨old, stored, directory⟩ => ?_)
      exact notDir ⟨old, (Function.update_of_ne here _ _).trans stored, directory⟩
  typed {dir name entry} proper stored := by
    have before : view.ents dir name = some entry := by
      by_cases here : dir = ino
      · subst here
        rw [← same name proper]
        exact (congrFun (Function.update_self ..) name).symm.trans stored
      · exact (congrFun (Function.update_of_ne here _ _) name).symm.trans stored
    have known := formed.typed proper before
    by_cases here : entry.inode.ino = ino
    · rw [here] at known
      rw [compatible _ known, here]
      exact Function.update_self ..
    · exact (Function.update_of_ne here _ _).trans known

end NameView

namespace Shows

variable {ns ns' : Namespace} {view : NameView} {live stale : BitVec 32 → Prop} {ino dirIno : BitVec 32}
  {name : FileName} {faults : NameFaults}

/-- What the last drop of a link does with the slot that has been acquired. -/
theorem settleOrphan (shows : Shows ns view live stale) (known : view.modes ino ≠ none)
    {orphans : OrphanInodes} (acquired : view.orphans = orphans.acquired) :
    ∃ ns', ns.settleOrphan ino = some ns' ∧
      Shows ns' (view.settled orphans ino) live stale := by
  obtain ⟨mode, known⟩ := Option.ne_none_iff_exists'.mp known
  obtain ⟨node, stored, _, links⟩ := shows.exists_node known
  rw [Namespace.settleOrphan, stored, NameView.settled, ← links, shows.orphans, acquired]
  dsimp only
  by_cases last : node.iNlink = 0
  · rw [if_pos last, if_pos last]
    exact ⟨_, rfl, shows.setOrphans _⟩
  · rw [if_neg last, if_neg last]
    exact ⟨_, rfl, shows.setOrphans _⟩

theorem modify_modify (ns : Namespace) (ino : BitVec 32) (first second : NameInode → NameInode) :
    (ns.modify ino first).modify ino second = ns.modify ino fun node => second (first node) := by
  simp only [Namespace.modify, Function.update_self, Function.update_idem, Option.map_map]
  rfl

/-- The end of `__f2fs_add_link` in the directory: a new subdirectory counts as a link. -/
theorem updateParentMetadata (shows : Shows ns view live stale)
    (present : faults.node dirIno ≠ some .noent) {parent : NameInode}
    (stored : ns.inodes dirIno = some parent) {dir : Dir} {ents : FileName → Option EntryPlace}
    (names : live dirIno → ∃ grand, DirNames dir ents ⟨dirIno, parent.mode⟩ grand) (subdir : Bool) :
    Shows ((ns.modify dirIno fun parent => parent.updateParentMetadata dir subdir).flushDir dirIno faults)
      (if subdir = true then
        { view with
          ents := Function.update view.ents dirIno ents
          links := Function.update view.links dirIno (view.links dirIno + 1) }
      else { view with ents := Function.update view.ents dirIno ents }) live stale := by
  cases subdir with
  | false =>
      have changed : Shows (ns.modify dirIno fun parent => parent.updateParentMetadata dir false)
          { view with ents := Function.update view.ents dirIno ents } live stale := by
        refine shows.changeDir stored ?_ ?_ ?_ names
        · exact fun _ => rfl
        · exact fun _ => rfl
        · exact fun _ => rfl
      exact (changed.flushDir present).1
  | true =>
      have changed : Shows (ns.modify dirIno fun node =>
          { node.updateParentMetadata dir true with iNlink := node.iNlink })
          { view with ents := Function.update view.ents dirIno ents } live stale := by
        refine shows.changeDir stored ?_ ?_ ?_ names
        · exact fun _ => rfl
        · exact fun _ => rfl
        · exact fun _ => rfl
      have counted := @incNlink _ _ _ _ dirIno changed
      rw [Namespace.incNlink, modify_modify] at counted
      have flagged : (ns.modify dirIno fun parent =>
          parent.updateParentMetadata dir true).inodes dirIno =
            some (parent.updateParentMetadata dir true) := by
        simp [Namespace.modify, stored]
      refine (((counted.flushDir present).2 _ flagged ?_).weaken (fun _ => id) ?_)
      · simp [NameInode.updateParentMetadata]
      · rintro other ⟨apart, rfl | older⟩
        · exact absurd rfl apart
        · exact older

/-- The view after `__f2fs_add_link`. -/
def linkedView (view : NameView) (dirIno : BitVec 32) (name : FileName) (place : EntryPlace)
    (links : Nat) (subdir : Bool) (orphans : OrphanInodes) (ents : FileName → Option EntryPlace) :
    NameView :=
  let added := ((view.addNode place.inode.ino place.inode.mode links ents).setOrphans
    orphans).setEntry dirIno name (some place)
  if subdir = true then added.setLinks dirIno (added.links dirIno + 1) else added

/-- An add makes the entry and counts the link, or leaves what the view shows. -/
theorem addLink (shows : Shows ns view live stale) (alive : live dirIno)
    (known : view.modes dirIno ≠ none) (proper : name.Proper) (free : view.ents dirIno name = none)
    (apart : dirIno ≠ ino) (present : faults.node dirIno ≠ some .noent) {node : NameInode}
    {newInode incLink : Bool} {result : Except NameError Unit}
    (ends : ns.addLink dirIno name ino node newInode incLink faults = some (ns', result)) :
    (∀ err, result = .error err → Shows ns' view live stale) ∧
    (result = .ok () → ∀ {live' : BitVec 32 → Prop} (ents : FileName → Option EntryPlace),
      (∀ other, other ≠ ino → live' other → live other) → live' dirIno →
      (live' ino → ∃ parent, DirNames node.dir ents ⟨ino, node.mode⟩ parent) →
      ∃ place, place.inode = ⟨ino, node.mode⟩ ∧
        Shows ns' (linkedView view dirIno name place
          (if incLink = true then node.iNlink + 1 else node.iNlink) (newInode && node.isDir)
          (if incLink = true ∧ node.iNlink = 0 then view.orphans.removeOrphanInode ino
            else view.orphans) ents) live'
          fun other => other ≠ ino ∧ stale other) := by
  obtain ⟨mode, known⟩ := Option.ne_none_iff_exists'.mp known
  obtain ⟨parent, stored, _, parentLinks⟩ := shows.exists_node known
  obtain ⟨grand, names⟩ := shows.dirs alive stored
  rw [Namespace.addLink, stored] at ends
  dsimp only at ends
  cases added : f2fsAddLink parent.dir name ⟨ino, node.mode⟩ faults.add with
  | none =>
      rw [added] at ends
      cases ends
  | some pair =>
      obtain ⟨failed, succeeded⟩ := @DirNames.addLink _ _ _ _ name names proper _ _ free pair.1 pair.2 added
      rcases pair with ⟨dir, err | ⟨block, bitPos⟩⟩
      · rw [added] at ends
        obtain ⟨rfl, rfl⟩ := Prod.mk.inj (Option.some.inj ends)
        refine ⟨fun err same => ?_, fun impossible => by cases impossible⟩
        have changed : Shows (ns.modify dirIno fun parent => parent.setPages dir) view live stale := by
          have kept : Shows (ns.modify dirIno fun parent => parent.setPages dir)
              { view with ents := Function.update view.ents dirIno (view.ents dirIno) } live stale := by
            refine shows.changeDir stored ?_ ?_ ?_ fun _ => ⟨grand, failed _ rfl⟩
            · exact fun _ => rfl
            · exact fun _ => rfl
            · exact fun _ => rfl
          rwa [Function.update_eq_self] at kept
        split
        · exact changed
        · exact (changed.flushDir present).1
      · rw [added] at ends
        obtain ⟨rfl, rfl⟩ := Prod.mk.inj (Option.some.inj ends)
        refine ⟨fun err impossible => (by cases impossible), fun _ live' ents others alive' own => ?_⟩
        refine ⟨⟨⟨ino, node.mode⟩, block, bitPos⟩, rfl, ?_⟩
        generalize (if incLink = true then node.iNlink + 1 else node.iNlink) = links
        -- the inode, then the list of orphans
        have inserted := @setNode ns view live stale ino shows live' (fun other => other ≠ ino ∧ stale other)
          { node with iNlink := links, iLinks := links } ents others own
          (fun other different older => ⟨different, older⟩) fun _ => rfl
        have listed := inserted.setOrphans (if incLink = true ∧ node.iNlink = 0 then
          ns.orphans.removeOrphanInode ino else ns.orphans)
        -- the directory
        have stored' : Function.update ns.inodes ino
            (some { node with iNlink := links, iLinks := links }) dirIno = some parent :=
          (Function.update_of_ne apart _ _).trans stored
        have written := listed.updateParentMetadata present stored'
          (fun _ => ⟨grand, succeeded block bitPos rfl⟩) (newInode && node.isDir)
        have kept : Function.update view.ents ino ents dirIno = view.ents dirIno :=
          Function.update_of_ne apart _ _
        rw [← kept, shows.orphans] at written
        rw [shows.orphans]
        exact written

end Shows

/-! ## The orphans -/

namespace NameView

variable {view : NameView}

/-- The orphans stay exact when the same inodes are without links. -/
theorem OrphansExact.congr (exact : view.OrphansExact) {view' : NameView}
    (orphans : view'.orphans = view.orphans)
    (same : ∀ ino, (view'.modes ino ≠ none ∧ view'.links ino = 0) ↔
      (view.modes ino ≠ none ∧ view.links ino = 0)) : view'.OrphansExact where
  nodup := orphans ▸ exact.nodup
  listed {ino} := by
    rw [orphans, same]
    exact exact.listed
  counted := orphans ▸ exact.counted
  bounded := orphans ▸ exact.bounded
  word := orphans ▸ exact.word

/-- A slot that has been acquired takes the new orphan. -/
theorem OrphansExact.add (exact : view.OrphansExact) {view' : NameView} {ino : BitVec 32}
    (room : view.orphans.nOrphans < view.orphans.maxOrphans) (fresh : ino ∉ view.orphans.inoList)
    (orphans : view'.orphans = view.orphans.acquired.addOrphanInode ino)
    (same : ∀ other, (view'.modes other ≠ none ∧ view'.links other = 0) ↔
      other = ino ∨ (view.modes other ≠ none ∧ view.links other = 0)) : view'.OrphansExact := by
  have listed : view'.orphans =
      { view.orphans with
        nOrphans := view.orphans.nOrphans + 1
        inoList := view.orphans.inoList ++ [ino] } := by
    rw [orphans, OrphanInodes.acquired, OrphanInodes.addOrphanInode, addInoEntry, if_neg fresh]
  constructor
  · rw [listed]
    exact List.nodup_append.mpr ⟨exact.nodup, List.nodup_singleton _, fun other member other' last => by
      rw [List.mem_singleton.mp last]
      rintro rfl
      exact fresh member⟩
  · intro other
    rw [same, listed, List.mem_append, List.mem_singleton, exact.listed, or_comm]
  · rw [listed, List.length_append, ← exact.counted]
    rfl
  · rw [listed]
    exact room
  · rw [listed]
    exact exact.word

/-- An inode that is an orphan no more gives its slot back. -/
theorem OrphansExact.remove (exact : view.OrphansExact) {view' : NameView} {ino : BitVec 32}
    (member : ino ∈ view.orphans.inoList)
    (orphans : view'.orphans = view.orphans.removeOrphanInode ino)
    (same : ∀ other, (view'.modes other ≠ none ∧ view'.links other = 0) ↔
      other ≠ ino ∧ (view.modes other ≠ none ∧ view.links other = 0)) : view'.OrphansExact := by
  have bounded := exact.bounded
  have word := exact.word
  have positive := List.length_pos_of_mem member
  have count : (view.orphans.nOrphans + (2 ^ 32 - 1)) % 2 ^ 32 = view.orphans.nOrphans - 1 := by
    rw [exact.counted] at *
    omega
  have listed : view'.orphans =
      { view.orphans with
        nOrphans := view.orphans.nOrphans - 1
        inoList := view.orphans.inoList.erase ino } := by
    rw [orphans, OrphanInodes.removeOrphanInode, if_pos member, count]
  constructor
  · rw [listed]
    exact exact.nodup.erase ino
  · intro other
    rw [same, listed, exact.nodup.mem_erase_iff, exact.listed]
  · rw [listed, List.length_erase_of_mem member, ← exact.counted]
  · rw [listed]
    exact (Nat.sub_le _ _).trans bounded
  · rw [listed]
    exact word

/-- After a drop of links the slot that has been acquired is used or given back. -/
theorem OrphansExact.settle (exact : view.OrphansExact) {view' : NameView} {ino : BitVec 32}
    (room : view.orphans.nOrphans < view.orphans.maxOrphans) (linked : view.links ino ≠ 0)
    (orphans : view'.orphans =
      if view'.links ino = 0 then view.orphans.acquired.addOrphanInode ino else view.orphans)
    (modes : view'.modes = view.modes) (known : view.modes ino ≠ none)
    (others : ∀ other, other ≠ ino → (view'.links other = 0 ↔ view.links other = 0)) :
    view'.OrphansExact := by
  by_cases last : view'.links ino = 0
  · rw [if_pos last] at orphans
    refine exact.add room (fun member => linked (exact.listed.mp member).2) orphans fun other => ?_
    rw [modes]
    by_cases here : other = ino
    · subst here
      exact iff_of_true ⟨known, last⟩ (.inl rfl)
    · rw [or_iff_right here, others other here]
  · rw [if_neg last] at orphans
    refine exact.congr orphans fun other => ?_
    rw [modes]
    by_cases here : other = ino
    · subst here
      exact iff_of_false (fun held => last held.2) fun held => linked held.2
    · rw [others other here]

end NameView

end StorageStack.F2fs
