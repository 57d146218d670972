import StorageStack.F2fs.DirectoryLinks

/-!
# Calls that change names

The inodes of a file system with their link counts, the directories that name them, and the list of
orphan inodes.  The file follows the calls of `namei.c` with the functions of `dir.c`, `inode.c` and
`checkpoint.c` that change link counts.  A call holds the locks of the VFS on the directories and
inodes it changes, and a checkpoint waits for it, so a run is a sequence of whole calls.  `none`
stands for a `BUG()` of the kernel, or for a link count that would fall below zero.
-/

namespace StorageStack.F2fs

/-! ## Orphan inodes -/

/-- The list of the entries of type `ORPHAN_INO` and their counters. -/
structure OrphanInodes where
  nOrphans : Nat
  maxOrphans : Nat
  inoList : List (BitVec 32)

/-- `__add_ino_entry`. -/
def addInoEntry (inoList : List (BitVec 32)) (ino : BitVec 32) : List (BitVec 32) :=
  if ino ∈ inoList then inoList else inoList ++ [ino]

namespace OrphanInodes

/-- `acquire_orphan_inode`; `none` is `-ENOSPC`. -/
def acquireOrphanInode (orphans : OrphanInodes) : Option OrphanInodes :=
  if orphans.maxOrphans ≤ orphans.nOrphans then none
  else some { orphans with nOrphans := orphans.nOrphans + 1 }

/-- `release_orphan_inode`; `none` is its `f2fs_bug_on`. -/
def releaseOrphanInode (orphans : OrphanInodes) : Option OrphanInodes :=
  if orphans.nOrphans = 0 then none else some { orphans with nOrphans := orphans.nOrphans - 1 }

/-- `add_orphan_inode`; the slot has been acquired before. -/
def addOrphanInode (orphans : OrphanInodes) (ino : BitVec 32) : OrphanInodes :=
  { orphans with inoList := addInoEntry orphans.inoList ino }

/-- `remove_orphan_inode`, that is `__remove_ino_entry`; the counter is a word of 32 bits. -/
def removeOrphanInode (orphans : OrphanInodes) (ino : BitVec 32) : OrphanInodes :=
  if ino ∈ orphans.inoList then
    { orphans with
      nOrphans := (orphans.nOrphans + (2 ^ 32 - 1)) % 2 ^ 32
      inoList := orphans.inoList.erase ino }
  else orphans

end OrphanInodes

/-! ## Inodes -/

/-- An inode: its mode and link count, the count in its node page, `FI_UPDATE_DIR`, and the pages
of a directory. -/
structure NameInode where
  mode : BitVec 16
  iNlink : Nat
  iLinks : Nat
  updateDir : Bool
  dir : Dir

/-- `S_ISDIR`. -/
def NameInode.isDir (node : NameInode) : Bool := node.mode &&& 0xF000 == 0x4000

/-- The inode of a directory after the pages that `get_new_data_page` has added. -/
def NameInode.setPages (parent : NameInode) (dir : Dir) : NameInode :=
  { parent with
    dir := dir
    updateDir := parent.updateDir || dir.iSize != parent.dir.iSize }

/-- `update_parent_metadata` behind the new entry; `subdir` says that the inode is a new
directory. -/
def NameInode.updateParentMetadata (parent : NameInode) (dir : Dir) (subdir : Bool) : NameInode :=
  { parent.setPages dir with
    iNlink := if subdir = true then parent.iNlink + 1 else parent.iNlink
    updateDir := (parent.setPages dir).updateDir || subdir ||
      dir.iCurrentDepth != parent.dir.iCurrentDepth }

/-- The inodes in use, the orphans among them, and `CP_ERROR_FLAG`. -/
structure Namespace where
  inodes : BitVec 32 → Option NameInode
  orphans : OrphanInodes
  cpError : Bool

/-- What a call that changes names returns when it fails. -/
inductive NameError
  | page (err : Errno)
  | notEmpty
  | tooManyLinks
deriving DecidableEq

/-- The failures a call can meet: of `f2fs_new_inode`, of an add, in reading blocks of directories
and node pages, and of `page_symlink`. -/
structure NameFaults where
  newInode : Option Errno
  add : AddFaults
  block : BitVec 32 → Nat → Bool
  node : BitVec 32 → Option Errno
  symlink : Option Errno

namespace Namespace

variable (ns : Namespace)

/-- Changes one inode. -/
def modify (ino : BitVec 32) (change : NameInode → NameInode) : Namespace :=
  { ns with inodes := Function.update ns.inodes ino ((ns.inodes ino).map change) }

/-- `inc_nlink`. -/
def incNlink (ino : BitVec 32) : Namespace :=
  ns.modify ino fun node => { node with iNlink := node.iNlink + 1 }

/-- `drop_nlink`. -/
def dropNlink (ino : BitVec 32) : Option Namespace :=
  match ns.inodes ino with
  | none => none
  | some node =>
      if node.iNlink = 0 then none
      else some (ns.modify ino fun node => { node with iNlink := node.iNlink - 1 })

/-- `update_inode` of the node page, as far as names are concerned. -/
def updateInode (ino : BitVec 32) : Namespace :=
  ns.modify ino fun node => { node with iLinks := node.iNlink }

/-- `update_inode_page`: it tries again when memory is short, and another failure than a missing
node stops all further checkpoints. -/
def updateInodePage (ino : BitVec 32) (faults : NameFaults) : Namespace :=
  match faults.node ino with
  | none => ns.updateInode ino
  | some .nomem => ns.updateInode ino
  | some .noent => ns
  | some _ => { ns with cpError := true }

/-- `f2fs_find_entry`. -/
def findEntry (dirIno : BitVec 32) (name : FileName) (faults : NameFaults) :
    Option (Namespace × Option FoundEntry) :=
  match ns.inodes dirIno with
  | none => none
  | some node =>
      (findEntryReading node.dir (faults.block dirIno) name).map fun result =>
        (ns.modify dirIno fun node => { node with dir := result.1 }, result.2)

/-- `f2fs_set_link`; the entry records the inode number and the type. -/
def setLink (dirIno : BitVec 32) (de : FoundEntry) (ino : BitVec 32) : Option Namespace :=
  match ns.inodes ino with
  | none => none
  | some target => some (ns.modify dirIno fun node =>
      { node with dir := f2fsSetLink node.dir de.block de.bitPos ⟨ino, target.mode⟩ })

/-! ## Adding -/

/-- The end of `__f2fs_add_link`: the inode of the directory is written when `FI_UPDATE_DIR` is
set. -/
def flushDir (dirIno : BitVec 32) (faults : NameFaults) : Namespace :=
  match ns.inodes dirIno with
  | some { updateDir := true, .. } =>
      (ns.updateInodePage dirIno faults).modify dirIno fun node => { node with updateDir := false }
  | _ => ns

/-- `__f2fs_add_link`; `node` is the inode, with `FI_NEW_INODE` and `FI_INC_LINK`.  With the flag
for a new link a tmpfile leaves the list of orphans.  The inode of the directory is also written
when `init_inode_metadata` fails. -/
def addLink (dirIno : BitVec 32) (name : FileName) (ino : BitVec 32) (node : NameInode)
    (newInode incLink : Bool) (faults : NameFaults) : Option (Namespace × Except NameError Unit) :=
  match ns.inodes dirIno with
  | none => none
  | some parent =>
      match f2fsAddLink parent.dir name ⟨ino, node.mode⟩ faults.add with
      | none => none
      | some (dir, .error err) =>
          let ns := ns.modify dirIno fun parent => parent.setPages dir
          some (if faults.add.metadata = none then ns else ns.flushDir dirIno faults,
            .error (.page err))
      | some (dir, .ok _) =>
          let iNlink := if incLink = true then node.iNlink + 1 else node.iNlink
          let ns :=
            { ns with
              inodes := Function.update ns.inodes ino
                (some { node with iNlink := iNlink, iLinks := iNlink })
              orphans :=
                if incLink = true ∧ node.iNlink = 0 then ns.orphans.removeOrphanInode ino
                else ns.orphans }
          let ns := ns.modify dirIno fun parent =>
            parent.updateParentMetadata dir (newInode && node.isDir)
          some (ns.flushDir dirIno faults, .ok ())

/-- `f2fs_new_inode` and `f2fs_add_link`, as the calls that make an inode use them; a failed inode
leaves nothing behind, as `handle_failed_inode` removes it. -/
def addInode (dirIno : BitVec 32) (name : FileName) (ino : BitVec 32) (mode : BitVec 16) (dir : Dir)
    (incLink : Bool) (faults : NameFaults) : Option (Namespace × Except NameError Unit) :=
  match faults.newInode with
  | some err => some (ns, .error (.page err))
  | none =>
      ns.addLink dirIno name ino
        { mode := mode, iNlink := 1, iLinks := 0, updateDir := false, dir := dir } true incLink faults

/-- `f2fs_create`; the mode says that the inode is a regular file. -/
def f2fsCreate (dirIno : BitVec 32) (name : FileName) (ino : BitVec 32) (mode : BitVec 16) (blank : Dir)
    (faults : NameFaults) : Option (Namespace × Except NameError Unit) :=
  ns.addInode dirIno name ino mode blank false faults

/-- `f2fs_mknod`. -/
def f2fsMknod (dirIno : BitVec 32) (name : FileName) (ino : BitVec 32) (mode : BitVec 16) (blank : Dir)
    (faults : NameFaults) : Option (Namespace × Except NameError Unit) :=
  ns.addInode dirIno name ino mode blank false faults

/-- `f2fs_symlink`; the link stays when its target cannot be written. -/
def f2fsSymlink (dirIno : BitVec 32) (name : FileName) (ino : BitVec 32) (blank : Dir)
    (faults : NameFaults) : Option (Namespace × Except NameError Unit) :=
  (ns.addInode dirIno name ino 0xA1FF blank false faults).map fun result =>
    (result.1,
      match result.2, faults.symlink with
      | .ok (), some err => .error (.page err)
      | outcome, _ => outcome)

/-- `f2fs_mkdir`. -/
def f2fsMkdir (dirIno : BitVec 32) (name : FileName) (ino : BitVec 32) (mode : BitVec 16)
    (dirLevel : Nat) (inlineXattr : Bool) (faults : NameFaults) :
    Option (Namespace × Except NameError Unit) :=
  ns.addInode dirIno name ino (0x4000 ||| mode)
    (emptyDir dirLevel inlineXattr ⟨ino, 0x4000 ||| mode⟩ dirIno) true faults

/-- `f2fs_link`. -/
def f2fsLink (dirIno : BitVec 32) (name : FileName) (ino : BitVec 32) (faults : NameFaults) :
    Option (Namespace × Except NameError Unit) :=
  match ns.inodes ino with
  | none => none
  | some node => ns.addLink dirIno name ino node false true faults

/-- `f2fs_tmpfile` and `d_tmpfile`, which drops the link that `f2fs_new_inode` has counted. -/
def f2fsTmpfile (ino : BitVec 32) (mode : BitVec 16) (blank : Dir) (faults : NameFaults) :
    Option (Namespace × Except NameError Unit) :=
  match faults.newInode with
  | some err => some (ns, .error (.page err))
  | none =>
      match ns.orphans.acquireOrphanInode with
      | none => some (ns, .error (.page .nospc))
      | some orphans =>
          match faults.add.metadata with
          | some err =>
              orphans.releaseOrphanInode.map fun orphans =>
                ({ ns with orphans := orphans }, .error (.page err))
          | none =>
              some ({ ns with
                inodes := Function.update ns.inodes ino
                  (some { mode := mode, iNlink := 0, iLinks := 1, updateDir := false, dir := blank })
                orphans := orphans.addOrphanInode ino }, .ok ())

/-! ## Removing -/

/-- What follows the last drop of a link: the slot acquired before is used or given back. -/
def settleOrphan (ino : BitVec 32) : Option Namespace :=
  match ns.inodes ino with
  | none => none
  | some node =>
      if node.iNlink = 0 then some { ns with orphans := ns.orphans.addOrphanInode ino }
      else ns.orphans.releaseOrphanInode.map fun orphans => { ns with orphans := orphans }

/-- `f2fs_delete_entry` without an inode. -/
def clearEntry (dirIno : BitVec 32) (de : FoundEntry) : Namespace :=
  ns.modify dirIno fun node => { node with dir := f2fsDeleteEntry node.dir de.block de.bitPos }

/-- `f2fs_delete_entry` with an inode. -/
def deleteEntry (dirIno : BitVec 32) (de : FoundEntry) (ino : BitVec 32) (faults : NameFaults) :
    Option Namespace := do
  let ns := ns.clearEntry dirIno de
  let node ← ns.inodes ino
  if node.isDir = true then
    let ns ← ns.dropNlink dirIno
    let ns := ns.updateInodePage dirIno faults
    let ns ← ns.dropNlink ino
    let ns ← ns.dropNlink ino
    (ns.updateInodePage ino faults).settleOrphan ino
  else
    let ns ← ns.dropNlink ino
    (ns.updateInodePage ino faults).settleOrphan ino

/-- `f2fs_unlink`. -/
def f2fsUnlink (dirIno : BitVec 32) (name : FileName) (ino : BitVec 32) (faults : NameFaults) :
    Option (Namespace × Except NameError Unit) :=
  match ns.findEntry dirIno name faults with
  | none => none
  | some (ns, none) => some (ns, .error (.page .noent))
  | some (ns, some de) =>
      match ns.orphans.acquireOrphanInode with
      | none => some (ns, .error (.page .nospc))
      | some orphans =>
          ({ ns with orphans := orphans }.deleteEntry dirIno de ino faults).map fun ns => (ns, .ok ())

/-- `f2fs_rmdir`. -/
def f2fsRmdir (dirIno : BitVec 32) (name : FileName) (ino : BitVec 32) (faults : NameFaults) :
    Option (Namespace × Except NameError Unit) :=
  match ns.inodes ino with
  | none => none
  | some node =>
      match f2fsEmptyDir node.dir (faults.block ino) with
      | none => none
      | some true => ns.f2fsUnlink dirIno name ino faults
      | some false => some (ns, .error .notEmpty)

/-- `f2fs_evict_inode` when nothing refers to the inode any more: the inode of an orphan is removed
unless its pages cannot be read. -/
def f2fsEvictInode (ino : BitVec 32) (faults : NameFaults) : Namespace :=
  match ns.inodes ino with
  | none => ns
  | some node =>
      if node.iNlink ≠ 0 ∨ faults.node ino ≠ none then ns
      else
        { ns with
          inodes := Function.update ns.inodes ino none
          orphans := ns.orphans.removeOrphanInode ino }

/-! ## Renaming -/

/-- `f2fs_parent_dir` of an inode that needs a new parent. -/
def parentEntry (ino : BitVec 32) (wanted : Bool) (faults : NameFaults) : Option (Option FoundEntry) :=
  if wanted = true then
    (ns.inodes ino).map fun node => f2fsParentDir node.dir (faults.block ino 0)
  else some none

/-- A directory whose parent entry has been found gets another parent. -/
def setParent (ino : BitVec 32) (parentEntry : Option FoundEntry) (parent : BitVec 32) :
    Option Namespace :=
  match parentEntry with
  | none => some ns
  | some de => ns.setLink ino de parent

/-- The links that the target of a rename loses. -/
def dropTarget (ino : BitVec 32) (directory : Bool) : Option Namespace :=
  if directory = true then (ns.dropNlink ino).bind fun ns => ns.dropNlink ino else ns.dropNlink ino

/-- The check of `f2fs_rename` that a directory is put over an empty one only. -/
def targetEmpty (ino : BitVec 32) (directory : Bool) (faults : NameFaults) : Option Bool :=
  match ns.inodes ino with
  | none => none
  | some target => if directory = true then f2fsEmptyDir target.dir (faults.block ino) else some true

/-- The part of `f2fs_rename` that takes the target over when there is one.  The result is `none`
when the rename goes on.  When the node page of the inode cannot be read the call ends with the
return value of `acquire_orphan_inode`, which is 0. -/
def renameOver (oldIno : BitVec 32) (oldIsDir : Bool) (newDir : BitVec 32) (newName : FileName)
    (newIno : BitVec 32) (faults : NameFaults) :
    Option (Namespace × Option (Except NameError Unit)) :=
  match ns.targetEmpty newIno oldIsDir faults with
  | none => none
  | some false => some (ns, some (.error .notEmpty))
  | some true =>
      match ns.findEntry newDir newName faults with
      | none => none
      | some (ns, none) => some (ns, some (.error (.page .noent)))
      | some (ns, some de) =>
          match ns.orphans.acquireOrphanInode with
          | none => some (ns, some (.error (.page .nospc)))
          | some orphans =>
              if faults.node oldIno ≠ none then
                orphans.releaseOrphanInode.map fun orphans =>
                  ({ ns with orphans := orphans }, some (.ok ()))
              else do
                let ns ← { ns with orphans := orphans }.setLink newDir de oldIno
                let ns ← ns.dropTarget newIno oldIsDir
                let ns ← ns.settleOrphan newIno
                some ((ns.updateInodePage oldIno faults).updateInodePage newIno faults, none)

/-- The part of `f2fs_rename` that adds the new name when there is no target. -/
def renameNew (oldIno : BitVec 32) (oldIsDir : Bool) (newDir : BitVec 32) (newName : FileName)
    (faults : NameFaults) : Option (Namespace × Option (Except NameError Unit)) :=
  match ns.inodes oldIno with
  | none => none
  | some node =>
      match ns.addLink newDir newName oldIno node false false faults with
      | none => none
      | some (ns, .error err) => some (ns, some (.error err))
      | some (ns, .ok ()) =>
          some (if oldIsDir = true then (ns.incNlink newDir).updateInodePage newDir faults else ns, none)

/-- The part of `f2fs_rename` that removes the old name; a directory gets its new parent. -/
def renameAway (oldDir : BitVec 32) (oldEntry : FoundEntry) (oldIno : BitVec 32)
    (parentEntry : Option FoundEntry) (newDir : BitVec 32) (faults : NameFaults) :
    Option Namespace :=
  match parentEntry with
  | none => some (ns.clearEntry oldDir oldEntry)
  | some _ => do
      let ns ←
        if oldDir = newDir then some (ns.clearEntry oldDir oldEntry)
        else
          ((ns.clearEntry oldDir oldEntry).setParent oldIno parentEntry newDir).map fun ns =>
            ns.updateInodePage oldIno faults
      (ns.dropNlink oldDir).map fun ns => ns.updateInodePage oldDir faults

/-- `f2fs_rename`. -/
def f2fsRename (oldDir : BitVec 32) (oldName : FileName) (oldIno newDir : BitVec 32)
    (newName : FileName) (newIno : Option (BitVec 32)) (faults : NameFaults) :
    Option (Namespace × Except NameError Unit) :=
  match ns.findEntry oldDir oldName faults with
  | none => none
  | some (ns, none) => some (ns, .error (.page .noent))
  | some (ns, some oldEntry) => do
      let node ← ns.inodes oldIno
      let parentEntry ← ns.parentEntry oldIno node.isDir faults
      if node.isDir = true ∧ parentEntry = none then some (ns, .error (.page .io))
      else
        match ← (match newIno with
          | some newIno => ns.renameOver oldIno node.isDir newDir newName newIno faults
          | none => ns.renameNew oldIno node.isDir newDir newName faults) with
        | (ns, some result) => some (ns, result)
        | (ns, none) =>
            (ns.renameAway oldDir oldEntry oldIno parentEntry newDir faults).map fun ns => (ns, .ok ())

/-- `F2FS_LINK_MAX`. -/
def f2fsLinkMax : Nat := 32000

/-- The change of a directory's link count in `f2fs_cross_rename`. -/
def adjustNlink (ino : BitVec 32) (change : Int) : Option Namespace :=
  if change = 0 then some ns else if change < 0 then ns.dropNlink ino else some (ns.incNlink ino)

/-- The part of `f2fs_cross_rename` behind the last failure. -/
def exchangeEntries (oldDir : BitVec 32) (oldEntry : FoundEntry) (oldIno newDir : BitVec 32)
    (newEntry : FoundEntry) (newIno : BitVec 32) (oldDirEntry newDirEntry : Option FoundEntry)
    (oldNlink : Int) (faults : NameFaults) : Option Namespace := do
  let ns ← ns.setParent oldIno oldDirEntry newDir
  let ns ← ns.setParent newIno newDirEntry oldDir
  let ns ← ns.setLink oldDir oldEntry newIno
  let ns := ns.updateInodePage oldIno faults
  let ns ← ns.adjustNlink oldDir oldNlink
  let ns := ns.updateInodePage oldDir faults
  let ns ← ns.setLink newDir newEntry oldIno
  let ns := ns.updateInodePage newIno faults
  let ns ← ns.adjustNlink newDir (-oldNlink)
  some (ns.updateInodePage newDir faults)

/-- The change of the link counts of the two directories when one inode alone is a directory that
moves: what the old directory gains and the new one loses. -/
def exchangedNlink (oldMoves newMoves : Bool) : Int :=
  if oldMoves = newMoves then 0 else if oldMoves = true then -1 else 1

/-- `f2fs_cross_rename`.  The check against `F2FS_LINK_MAX` reads the counts of the inodes that are
exchanged, not those of the directories whose counts grow. -/
def f2fsCrossRename (oldDir : BitVec 32) (oldName : FileName) (oldIno newDir : BitVec 32)
    (newName : FileName) (newIno : BitVec 32) (faults : NameFaults) :
    Option (Namespace × Except NameError Unit) :=
  match ns.findEntry oldDir oldName faults with
  | none => none
  | some (ns, none) => some (ns, .error (.page .noent))
  | some (ns, some oldEntry) =>
      match ns.findEntry newDir newName faults with
      | none => none
      | some (ns, none) => some (ns, .error (.page .noent))
      | some (ns, some newEntry) => do
          let oldNode ← ns.inodes oldIno
          let newNode ← ns.inodes newIno
          let oldMoves := oldDir != newDir && oldNode.isDir
          let newMoves := oldDir != newDir && newNode.isDir
          let oldDirEntry ← ns.parentEntry oldIno oldMoves faults
          let newDirEntry ← ns.parentEntry newIno newMoves faults
          if (oldMoves = true ∧ oldDirEntry = none) ∨ (newMoves = true ∧ newDirEntry = none) then
            some (ns, .error (.page .io))
          else
            let oldNlink := exchangedNlink oldDirEntry.isSome newDirEntry.isSome
            if (0 < oldNlink ∧ f2fsLinkMax ≤ oldNode.iNlink) ∨
                (0 < -oldNlink ∧ f2fsLinkMax ≤ newNode.iNlink) then
              some (ns, .error .tooManyLinks)
            else
              match faults.node oldIno, faults.node newIno with
              | some err, _ => some (ns, .error (.page err))
              | none, some err => some (ns, .error (.page err))
              | none, none =>
                  (ns.exchangeEntries oldDir oldEntry oldIno newDir newEntry newIno oldDirEntry
                    newDirEntry oldNlink faults).map fun ns => (ns, .ok ())

end Namespace

end StorageStack.F2fs
