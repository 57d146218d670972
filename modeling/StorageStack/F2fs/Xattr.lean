import Mathlib
import StorageStack.F2fs.Directory
import StorageStack.F2fs.XattrEntries

/-!
# Setting an extended attribute

The attributes of an inode lie in one buffer: the inline area of the inode block, when it has one,
and the block of a node behind it.  `__f2fs_setxattr` reads the buffer, edits the list in it and
writes the two parts back one after the other.
-/

namespace StorageStack
namespace F2fs
namespace Xattr

/-! ## Sizes -/

/-- `F2FS_XATTR_MAGIC`. -/
def xattrMagic : UInt32 := 0xF2F52011

/-- `sizeof(struct f2fs_xattr_header)`. -/
def xattrHeaderSize : Nat := 24

/-- `PAGE_SIZE - sizeof(struct node_footer)`. -/
def nodeArea : Nat := 4072

/-- `inline_xattr_size`. -/
def inlineXattrSize (hasInline : Bool) : Nat := if hasInline then 200 else 0

/-- `MIN_OFFSET`. -/
def minOffset (hasInline : Bool) : Nat := xattrAlign (inlineXattrSize hasInline + nodeArea - 4)

/-- `MAX_VALUE_LEN`. -/
def maxValueLen (hasInline : Bool) : Nat := minOffset hasInline - xattrHeaderSize - 4

/-- `F2FS_NAME_LEN`. -/
def f2fsNameLen : Nat := 255

/-! ## Reading -/

/-- The parts of an inode with its attributes. -/
structure XattrInode where
  /-- The inode has an inline area. -/
  hasInline : Bool
  /-- The bytes at `inline_xattr_addr`. -/
  inline : Page
  /-- `i_xattr_nid` and the block of this node. -/
  node : Option (Nat × Page)

namespace XattrInode

variable (inode : XattrInode)

/-- `inline_xattr_size` of the inode. -/
def inlineSize : Nat := inlineXattrSize inode.hasInline

/-- The size of the buffer of `read_all_xattrs`. -/
def bufferSize : Nat := inode.inlineSize + pageCacheSize

/-- The bytes `read_all_xattrs` copies into its zeroed buffer. -/
def raw : Page :=
  let txattr := Page.zero.copy 0 inode.inline 0 inode.inlineSize
  match inode.node with
  | some (_, page) => txattr.copy inode.inlineSize page 0 pageCacheSize
  | none => txattr

/-- The buffer of `read_all_xattrs`, with a header when there has been none. -/
def buffer : Page :=
  if inode.raw.le32 0 ≠ xattrMagic then (inode.raw.putLe32 0 xattrMagic).putLe32 4 1
  else inode.raw

/-- The attributes of the inode, read back through `read_all_xattrs`. -/
def attrs : Option (List Attr) :=
  listFrom inode.buffer inode.bufferSize inode.bufferSize xattrHeaderSize

end XattrInode

/-- The errors of `xattr.c`; those of the node pages are among the errors of `Errno`. -/
inductive XattrErrno where
  | inval | range | nomem | nodata | exist | nospc
  | page (error : Errno)
  deriving DecidableEq

/-- What the calls in `__f2fs_setxattr` answer. -/
structure Answers where
  /-- `kzalloc` has memory. -/
  kzalloc : Bool
  /-- `get_node_page` of the inode and of the attribute node in `read_all_xattrs`. -/
  readInode : Option Errno
  readXattr : Option Errno
  allocNid : Option Nat
  /-- `get_node_page` of the inode in `write_all_xattrs`. -/
  writeInode : Option Errno
  /-- `get_node_page` of the attribute node in `write_all_xattrs` or `truncate_xattr_node`. -/
  writeXattr : Option Errno
  newNodePage : Except Errno Page

/-- The arguments of `__f2fs_setxattr` behind the inode. -/
structure Call where
  index : UInt8
  /-- The handlers have the indices from 1 on. -/
  index_ne : index ≠ 0
  name : Option (List UInt8)
  value : Option (List UInt8)
  /-- The page of the inode is passed. -/
  ipage : Bool
  /-- `XATTR_CREATE` and `XATTR_REPLACE`. -/
  create : Bool
  replace : Bool

/-- `read_all_xattrs`. -/
def readAllXattrs (inode : XattrInode) (answers : Answers) (ipage : Bool) : Option Page :=
  if answers.kzalloc = false then none
  else if inode.hasInline = true ∧ ipage = false ∧ answers.readInode ≠ none then none
  else if inode.node ≠ none ∧ answers.readXattr ≠ none then none
  else some inode.buffer

/-- `f2fs_getxattr` with a buffer that is large enough, when the pages can be read; outside of the
buffer there is no result. -/
def f2fsGetxattr (inode : XattrInode) (index : UInt8) (name : List UInt8) :
    Option (Except XattrErrno (List UInt8)) :=
  if f2fsNameLen < name.length then some (.error .range)
  else
    let base := inode.buffer
    (findFrom base inode.bufferSize index name inode.bufferSize xattrHeaderSize).map fun entry =>
      if isLast base entry = true then .error .nodata
      else .ok (bytes base (entry + 4 + nameLen base entry) (valueSize base entry))

/-! ## Writing -/

/-- `write_all_xattrs`. -/
def writeAllXattrs (inode : XattrInode) (answers : Answers) (ipage : Bool) (hsize : Nat)
    (txattr : Page) : Except XattrErrno Unit × XattrInode :=
  if inode.inlineSize < hsize ∧ inode.node = none ∧ answers.allocNid = none then
    (.error .nospc, inode)
  else
    match if inode.hasInline = true ∧ ipage = false then answers.writeInode else none with
    | some error => (.error (.page error), inode)
    | none =>
        let inode :=
          { inode with inline := inode.inline.copy 0 txattr 0 inode.inlineSize }
        if inode.hasInline = true ∧ hsize ≤ inode.inlineSize then
          -- `truncate_xattr_node`
          match inode.node with
          | none => (.ok (), inode)
          | some _ =>
              match answers.writeXattr with
              | some error => (.error (.page error), inode)
              | none => (.ok (), { inode with node := none })
        else
          match inode.node with
          | some (nid, page) =>
              match answers.writeXattr with
              | some error => (.error (.page error), inode)
              | none =>
                  (.ok (), { inode with
                    node := some (nid, page.copy 0 txattr inode.inlineSize nodeArea) })
          | none =>
              match answers.newNodePage with
              | .error error => (.error (.page error), inode)
              | .ok page =>
                  (.ok (), { inode with
                    node := some (answers.allocNid.getD 0,
                      page.copy 0 txattr inode.inlineSize nodeArea) })

/-- The removal of the entry `here` of a list that ends at `last`. -/
def removeEntry (base : Page) (here last : Nat) : Page :=
  let oldsize := entrySize base here
  let next := here + oldsize
  (base.copy here base next (last - next)).copy (last - oldsize) Page.zero 0 oldsize

/-- The new entry at the end of the list. -/
def writeEntry (base : Page) (last : Nat) (index : UInt8) (name value : List UInt8) : Page :=
  let newsize := xattrAlign (4 + name.length + value.length)
  let base := base.copy last Page.zero 0 newsize
  let base := base.copy last (fun byte => if byte = 0 then index else UInt8.ofNat name.length) 0 2
  let base := base.copy (last + 4) (fun byte => name.getD byte 0) 0 name.length
  let base := base.copy (last + 4 + name.length) (fun byte => value.getD byte 0) 0 value.length
  base.putLe16 (last + 2) value.length

/-- `__f2fs_setxattr`; outside of the buffer there is no result. -/
def f2fsSetxattr (inode : XattrInode) (answers : Answers) (call : Call) :
    Option (Except XattrErrno Unit × XattrInode) :=
  match call.name with
  | none => some (.error .inval, inode)
  | some name =>
      let size := (call.value.getD []).length
      if f2fsNameLen < name.length ∨ maxValueLen inode.hasInline < size then
        some (.error .range, inode)
      else
        match readAllXattrs inode answers call.ipage with
        | none => some (.error .nomem, inode)
        | some base =>
            (findFrom base inode.bufferSize call.index name inode.bufferSize
                xattrHeaderSize).bind fun here =>
              let found := !isLast base here
              if call.replace = true ∧ found = false then some (.error .nodata, inode)
              else if call.create = true ∧ found = true then some (.error .exist, inode)
              else
                (lastFrom base inode.bufferSize inode.bufferSize here).map fun last =>
                  let newsize := xattrAlign (4 + name.length + size)
                  let oldsize := if found then entrySize base here else 0
                  -- `free < newsize`
                  if call.value ≠ none ∧ minOffset inode.hasInline + oldsize < last + newsize then
                    (.error .nospc, inode)
                  else
                    let base := if found then removeEntry base here last else base
                    let last := last - oldsize
                    match call.value with
                    | none => writeAllXattrs inode answers call.ipage last base
                    | some value =>
                        writeAllXattrs inode answers call.ipage (last + newsize)
                          (writeEntry base last call.index name value)

/-! ## What a call promises -/

/-- The buffer of the inode holds a list of attributes with different keys, ended before the footer
of the node. -/
structure WellFormed (inode : XattrInode) (list : List Attr) : Prop where
  stored : Stored inode.buffer (inode.inlineSize + nodeArea) xattrHeaderSize list
  ended : xattrHeaderSize + total list + 4 ≤ inode.inlineSize + nodeArea
  keys : (list.map Attr.key).Nodup

/-- The list ends before the footer of the node. -/
def Terminated (inode : XattrInode) : Prop :=
  ∃ last, lastFrom inode.buffer inode.bufferSize inode.bufferSize xattrHeaderSize = some last ∧
    last + 4 ≤ inode.inlineSize + nodeArea

/-- A call is all or nothing, and local. -/
structure AllOrNothing (before after : XattrInode) (call : Call)
    (result : Except XattrErrno Unit) : Prop where
  target : result = .ok () → ∀ name ∈ call.name, f2fsGetxattr after call.index name =
    some (match call.value with
      | none => .error .nodata
      | some value => .ok value)
  others : result = .ok () → ∀ index name, call.name ≠ some name ∨ index ≠ call.index →
    f2fsGetxattr after index name = f2fsGetxattr before index name
  nothing : result ≠ .ok () → after.attrs = before.attrs
  terminated : Terminated after

/-- The list after a call that does what it should. -/
def edited (list : List Attr) (index : UInt8) (name : List UInt8) (value : Option (List UInt8)) :
    List Attr :=
  (list.filter fun attr => attr.key ≠ (index, name)) ++ (value.map (⟨index, name, ·⟩)).toList

/-- The bytes of the entry of an attribute. -/
def Attr.bytes (attr : Attr) : List UInt8 :=
  [attr.index, UInt8.ofNat attr.name.length, UInt8.ofNat attr.value.length,
    UInt8.ofNat (attr.value.length / 2 ^ 8)] ++ attr.name ++ attr.value ++
    List.replicate (attr.size - attr.length) 0

/-- The call comes to `write_all_xattrs`. -/
structure Admitted (inode : XattrInode) (list : List Attr) (answers : Answers) (call : Call)
    (name : List UInt8) : Prop where
  named : call.name = some name
  name_le : name.length ≤ f2fsNameLen
  value_le : (call.value.getD []).length ≤ maxValueLen inode.hasInline
  read : readAllXattrs inode answers call.ipage ≠ none
  replace : call.replace = true → (call.index, name) ∈ list.map Attr.key
  create : call.create = true → (call.index, name) ∉ list.map Attr.key
  space : call.value ≠ none →
    xattrHeaderSize + total (edited list call.index name call.value) ≤ minOffset inode.hasInline

/-- `write_all_xattrs` fails at the node, behind its write of the inline area. -/
structure NodeFails (inode : XattrInode) (answers : Answers) (ipage : Bool) (hsize : Nat) :
    Prop where
  opened : inode.hasInline = true → ipage = false → answers.writeInode = none
  fails : inode.node ≠ none ∧ answers.writeXattr ≠ none ∨
    inode.node = none ∧ inode.inlineSize < hsize ∧ answers.allocNid ≠ none ∧
      ∃ error, answers.newNodePage = .error error

/-- The call fails at the node when the inline area has been written, and the bytes of the list in
this area are not those of before. -/
def TornApart (inode : XattrInode) (list : List Attr) (answers : Answers) (call : Call) : Prop :=
  ∃ name, Admitted inode list answers call name ∧
    NodeFails inode answers call.ipage
      (xattrHeaderSize + total (edited list call.index name call.value)) ∧
    ∃ byte < inode.inlineSize - xattrHeaderSize,
      (list.flatMap Attr.bytes).getD byte 0 ≠
        ((edited list call.index name call.value).flatMap Attr.bytes).getD byte 0

end Xattr
end F2fs
end StorageStack
