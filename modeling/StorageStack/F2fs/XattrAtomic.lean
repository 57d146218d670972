import StorageStack.F2fs.XattrUpdate

/-!
# The two parts of the attributes

`write_all_xattrs` writes the inline area before it comes to the node.  When it has written both,
the inode holds the edited list; when the node fails, the inline area holds the new bytes and the
node the old ones, and the attributes are as before only where the new bytes are the old ones.
-/

namespace StorageStack
namespace F2fs
namespace Xattr

/-! ## The two writes -/

/-- The inode when the inline area has been written. -/
def inlineWritten (inode : XattrInode) (txattr : Page) : XattrInode :=
  { inode with inline := inode.inline.copy 0 txattr 0 inode.inlineSize }

/-- What `write_all_xattrs` leaves of the node. -/
def NodeWritten (inode : XattrInode) (hsize : Nat) (txattr : Page) :
    Option (Nat × Page) → Prop
  | none => hsize ≤ inode.inlineSize
  | some (_, page) => ∃ old : Page, page = old.copy 0 txattr inode.inlineSize nodeArea

theorem inlineSize_pos {inode : XattrInode} {hsize : Nat} (pos : 0 < hsize)
    (needed : ¬ (inode.hasInline = true ∧ hsize ≤ inode.inlineSize)) :
    inode.inlineSize < hsize := by
  rw [XattrInode.inlineSize, inlineXattrSize] at needed ⊢
  cases inlined : inode.hasInline with
  | true => exact Nat.not_le.1 fun le => needed ⟨inlined, by rw [inlined]; exact le⟩
  | false => exact pos

/-- `write_all_xattrs` changes nothing, the inline area alone, or both parts. -/
theorem writeAllXattrs_cases {inode : XattrInode} {answers : Answers} {ipage : Bool}
    {hsize : Nat} {txattr : Page} (pos : 0 < hsize) :
    ((∃ error, writeAllXattrs inode answers ipage hsize txattr = (.error error, inode)) ∧
        ¬ NodeFails inode answers ipage hsize) ∨
      ((∃ error, writeAllXattrs inode answers ipage hsize txattr =
          (.error error, inlineWritten inode txattr)) ∧ NodeFails inode answers ipage hsize) ∨
      ((∃ node, writeAllXattrs inode answers ipage hsize txattr =
          (.ok (), { inlineWritten inode txattr with node := node }) ∧
          NodeWritten inode hsize txattr node) ∧ ¬ NodeFails inode answers ipage hsize) := by
  rw [writeAllXattrs]
  split
  next full =>
    refine .inl ⟨⟨_, rfl⟩, ?_⟩
    rintro ⟨-, ⟨some, -⟩ | ⟨-, -, taken, -⟩⟩
    · exact some full.2.1
    · exact taken full.2.2
  next room =>
  split
  next error failed =>
    refine .inl ⟨⟨_, rfl⟩, ?_⟩
    intro late
    split at failed
    next both =>
      rw [late.opened both.1 both.2] at failed
      cases failed
    · cases failed
  next opened =>
  have open' : inode.hasInline = true → ipage = false → answers.writeInode = none := by
    intro inlined page
    rwa [if_pos ⟨inlined, page⟩] at opened
  simp only
  split
  next small =>
    -- no node is needed
    have fits : hsize ≤ inode.inlineSize := small.2
    cases held : inode.node with
    | none =>
      refine .inr (.inr ⟨⟨none, ?_, fits⟩, ?_⟩)
      · simp only [inlineWritten, held]
      · rintro ⟨-, ⟨some, -⟩ | ⟨-, above, -⟩⟩
        · exact some held
        · exact absurd above (Nat.not_lt.2 fits)
    | some node =>
      cases answered : answers.writeXattr with
      | some error =>
        refine .inr (.inl ⟨⟨.page error, by simp only [inlineWritten, held]⟩, open',
          .inl ⟨?_, ?_⟩⟩)
        · rw [held]
          simp
        · rw [answered]
          simp
      | none =>
        refine .inr (.inr ⟨⟨none, rfl, fits⟩, ?_⟩)
        rintro ⟨-, ⟨-, fails⟩ | ⟨none, -⟩⟩
        · exact fails answered
        · rw [held] at none
          cases none
  next large =>
    have above := inlineSize_pos pos large
    cases held : inode.node with
    | some node =>
      obtain ⟨nid, page⟩ := node
      cases answered : answers.writeXattr with
      | some error =>
        refine .inr (.inl ⟨⟨.page error, by simp only [inlineWritten, held]⟩, open',
          .inl ⟨?_, ?_⟩⟩)
        · rw [held]
          simp
        · rw [answered]
          simp
      | none =>
        refine .inr (.inr ⟨⟨_, rfl, page, rfl⟩, ?_⟩)
        rintro ⟨-, ⟨-, fails⟩ | ⟨none, -⟩⟩
        · exact fails answered
        · rw [held] at none
          cases none
    | none =>
      have taken : answers.allocNid ≠ none := fun none => room ⟨above, held, none⟩
      cases answered : answers.newNodePage with
      | error error =>
        exact .inr (.inl ⟨⟨.page error, by simp only [inlineWritten, held]⟩, open',
          .inr ⟨held, above, taken, error, answered⟩⟩)
      | ok page =>
        refine .inr (.inr ⟨⟨_, rfl, page, rfl⟩, ?_⟩)
        rintro ⟨-, ⟨some, -⟩ | ⟨-, -, -, error, fails⟩⟩
        · exact some held
        · rw [answered] at fails
          cases fails

/-! ## The buffer behind the writes -/

namespace XattrInode

variable {inode : XattrInode}

/-- The bytes of the two parts, one behind the other. -/
theorem raw_apply (inode : XattrInode) (byte : Nat) :
    inode.raw byte =
      if byte < inode.inlineSize then inode.inline byte
      else match inode.node with
        | none => 0
        | some (_, page) =>
            if byte < inode.inlineSize + pageCacheSize then page (byte - inode.inlineSize)
            else 0 := by
  have first : Page.zero.copy 0 inode.inline 0 inode.inlineSize byte =
      if byte < inode.inlineSize then inode.inline byte else 0 := by
    simp [Page.copy, Page.zero]
  rw [raw]
  cases inode.node with
  | none => exact first
  | some node =>
    obtain ⟨nid, page⟩ := node
    rcases Nat.lt_or_ge byte inode.inlineSize with inlined | above
    · rw [if_pos inlined] at first ⊢
      exact (Page.copy_outside (.inl inlined)).trans first
    · rw [if_neg (Nat.not_lt.2 above)] at first ⊢
      simp only [Page.copy] at first ⊢
      rw [first, Nat.zero_add]
      simp only [above, true_and]

/-- The buffer has a header. -/
theorem buffer_magic (inode : XattrInode) : inode.buffer.le32 0 = xattrMagic := by
  rw [buffer]
  split
  · rw [Page.le32_putLe32_of_apart (.inl (by decide)), Page.le32_putLe32]
  next same => exact not_not.1 same

theorem buffer_of_magic (same : inode.raw.le32 0 = xattrMagic) : inode.buffer = inode.raw :=
  if_neg (not_not.2 same)

theorem buffer_above {byte : Nat} (above : 8 ≤ byte) : inode.buffer byte = inode.raw byte := by
  rw [buffer]
  split
  · rw [Page.putLe32_outside (.inr above), Page.putLe32_outside (.inr (by omega))]
  · rfl

/-- Bytes with the header of a buffer keep it. -/
theorem buffer_of_header {after : XattrInode}
    (header : ∀ byte < xattrHeaderSize, after.raw byte = inode.buffer byte) :
    after.buffer = after.raw := by
  apply buffer_of_magic
  rw [← inode.buffer_magic]
  apply Page.le32_congr
  intro byte inside
  exact header _ (Nat.lt_of_lt_of_le (by omega : 0 + byte < 4) (by decide))

end XattrInode

/-- The edited bytes lie in the inode when both parts are written. -/
theorem written_raw {inode : XattrInode} {hsize : Nat} {txattr : Page}
    {node : Option (Nat × Page)} (written : NodeWritten inode hsize txattr node)
    (behind : ∀ byte, hsize ≤ byte → byte < inode.inlineSize + nodeArea → txattr byte = 0)
    {byte : Nat} (inside : byte < inode.inlineSize + nodeArea) :
    XattrInode.raw { inlineWritten inode txattr with node := node } byte = txattr byte := by
  rw [XattrInode.raw_apply]
  show (if byte < inode.inlineSize then inode.inline.copy 0 txattr 0 inode.inlineSize byte
    else _) = _
  rcases Nat.lt_or_ge byte inode.inlineSize with inlined | above
  · have copied := @Page.copy_inside inode.inline txattr 0 0 inode.inlineSize byte inlined
    rw [Nat.zero_add] at copied
    rw [if_pos inlined, copied]
  · rw [if_neg (Nat.not_lt.2 above)]
    cases node with
    | none => exact (behind byte (Nat.le_trans written above) inside).symm
    | some node =>
      obtain ⟨nid, page⟩ := node
      obtain ⟨old, rfl⟩ := written
      obtain ⟨rest, rfl⟩ := Nat.exists_eq_add_of_le above
      have inNode : rest < nodeArea := by omega
      have inPage : rest < pageCacheSize := Nat.lt_of_lt_of_le inNode (by decide)
      have copied := @Page.copy_inside old txattr 0 inode.inlineSize nodeArea rest inNode
      rw [Nat.zero_add] at copied
      show (if inode.inlineSize + rest < inode.inlineSize + pageCacheSize then
        old.copy 0 txattr inode.inlineSize nodeArea (inode.inlineSize + rest - inode.inlineSize)
        else 0) = _
      rw [if_pos (by omega), Nat.add_sub_cancel_left, copied]

/-- The inode holds the edited list when both parts are written. -/
theorem Edited.wellFormed {inode : XattrInode} {list : List Attr} {txattr : Page}
    {node : Option (Nat × Page)} (edited : Edited inode txattr list)
    (ended : xattrHeaderSize + total list + 4 ≤ inode.inlineSize + nodeArea)
    (keys : (list.map Attr.key).Nodup)
    (written : NodeWritten inode (xattrHeaderSize + total list) txattr node) :
    WellFormed { inlineWritten inode txattr with node := node } list := by
  have same {byte : Nat} (inside : byte < inode.inlineSize + nodeArea) :=
    written_raw written edited.stored.behind inside
  have whole : XattrInode.buffer { inlineWritten inode txattr with node := node } =
      XattrInode.raw { inlineWritten inode txattr with node := node } := by
    apply @XattrInode.buffer_of_header inode
    intro byte inside
    rw [same (by omega), edited.header byte inside]
  refine ⟨⟨?_, edited.stored.fits, ?_⟩, ended, keys⟩
  · rw [whole]
    apply edited.stored.holds.congr
    intro byte inside
    exact same (by omega)
  · intro byte above below
    rw [whole]
    exact (same below).trans (edited.stored.behind byte above below)

/-- The bytes of a torn inode: the inline area is the edited one. -/
theorem inlineWritten_raw {inode : XattrInode} {txattr : Page} (byte : Nat) :
    (inlineWritten inode txattr).raw byte =
      if byte < inode.inlineSize then txattr byte else inode.raw byte := by
  rw [XattrInode.raw_apply]
  show (if byte < inode.inlineSize then inode.inline.copy 0 txattr 0 inode.inlineSize byte
    else _) = _
  rcases Nat.lt_or_ge byte inode.inlineSize with inlined | above
  · have copied := @Page.copy_inside inode.inline txattr 0 0 inode.inlineSize byte inlined
    rw [Nat.zero_add] at copied
    rw [if_pos inlined, if_pos inlined, copied]
  · rw [if_neg (Nat.not_lt.2 above), if_neg (Nat.not_lt.2 above), XattrInode.raw_apply,
      if_neg (Nat.not_lt.2 above)]
    rfl

/-! ## A failure at the node -/

theorem inlineSize_cases (inode : XattrInode) :
    inode.inlineSize = 0 ∨ inode.inlineSize = 200 := by
  rw [XattrInode.inlineSize]
  cases inode.hasInline with
  | false => exact .inl rfl
  | true => exact .inr rfl

section Torn

variable {inode : XattrInode} {list list' : List Attr} {txattr : Page}

/-- The edited inline area is that of before just when the bytes of the lists in it are. -/
theorem inline_same_iff (wf : WellFormed inode list) (edited : Edited inode txattr list') :
    (∀ byte < inode.inlineSize, txattr byte = inode.buffer byte) ↔
      ¬ ∃ byte < inode.inlineSize - xattrHeaderSize,
        (list.flatMap Attr.bytes).getD byte 0 ≠ (list'.flatMap Attr.bytes).getD byte 0 := by
  constructor
  · rintro same ⟨byte, inside, differ⟩
    have old := @Stored.byte _ _ _ _ wf.stored byte (by omega)
    have new := @Stored.byte _ _ _ _ edited.stored byte (by omega)
    exact differ (old.symm.trans ((same _ (by omega)).symm.trans new))
  · intro alike byte inside
    rcases Nat.lt_or_ge byte xattrHeaderSize with header | content
    · exact edited.header byte header
    · obtain ⟨rest, rfl⟩ := Nat.exists_eq_add_of_le content
      have old := @Stored.byte _ _ _ _ wf.stored rest (by omega)
      have new := @Stored.byte _ _ _ _ edited.stored rest (by omega)
      rw [old, new]
      by_contra differ
      exact alike ⟨rest, by omega, Ne.symm differ⟩

/-- The same bytes in the inline area leave the buffer as it is. -/
theorem inlineWritten_buffer
    (same : ∀ byte < inode.inlineSize, txattr byte = inode.buffer byte) :
    (inlineWritten inode txattr).buffer = inode.buffer := by
  rcases inlineSize_cases inode with none | area
  · have raw : (inlineWritten inode txattr).raw = inode.raw := by
      funext byte
      rw [inlineWritten_raw, if_neg (by omega)]
    rw [XattrInode.buffer, XattrInode.buffer, raw]
  · have raw : (inlineWritten inode txattr).raw = inode.buffer := by
      funext byte
      rw [inlineWritten_raw]
      split
      next inlined => exact same byte inlined
      next above => exact (XattrInode.buffer_above (by omega)).symm
    rw [XattrInode.buffer_of_header fun byte _ => congrFun raw byte, raw]

theorem inlineWritten_wellFormed (wf : WellFormed inode list)
    (same : ∀ byte < inode.inlineSize, txattr byte = inode.buffer byte) :
    WellFormed (inlineWritten inode txattr) list := by
  have buffer := inlineWritten_buffer same
  exact ⟨by rw [buffer]; exact wf.stored, wf.ended, wf.keys⟩

/-- Other bytes in the inline area change the attributes, whatever the node holds. -/
theorem inlineWritten_attrs_ne (wf : WellFormed inode list) (edited : Edited inode txattr list')
    (differ : ¬ ∀ byte < inode.inlineSize, txattr byte = inode.buffer byte) :
    (inlineWritten inode txattr).attrs ≠ inode.attrs := by
  rw [wf.attrs]
  intro listed
  apply differ
  rcases inlineSize_cases inode with none | area
  · intro byte inside
    omega
  · have header_lt : xattrHeaderSize < inode.inlineSize := by
      rw [area]
      decide
    have raw {byte : Nat} (inside : byte < inode.inlineSize) :
        (inlineWritten inode txattr).raw byte = txattr byte := by
      rw [inlineWritten_raw, if_pos inside]
    have buffer : (inlineWritten inode txattr).buffer = (inlineWritten inode txattr).raw := by
      apply XattrInode.buffer_of_header
      intro byte inside
      rw [raw (by omega), edited.header byte inside]
    have agree := wf.stored.agree edited.stored listed
      (fun byte _ below => by rw [buffer, raw below])
      ⟨by decide, by rw [area]; decide⟩ (Nat.le_add_right _ _)
    intro byte inside
    rcases Nat.lt_or_ge byte xattrHeaderSize with header | content
    · exact edited.header byte header
    · exact (agree byte content inside).symm

end Torn

/-! ## All or nothing -/

/-- A call that changes nothing fails as it should. -/
theorem WellFormed.unchanged {inode : XattrInode} {list : List Attr} (wf : WellFormed inode list)
    {after : XattrInode} (kept : WellFormed after list) (call : Call) (error : XattrErrno) :
    AllOrNothing inode after call (.error error) where
  target := fun ok => by cases ok
  others := fun ok => by cases ok
  nothing := fun _ => by rw [kept.attrs, wf.attrs]
  terminated := kept.terminated

/-- A call that leaves the edited list has set its attribute and no other. -/
theorem WellFormed.set {inode after : XattrInode} {list : List Attr} (wf : WellFormed inode list)
    {call : Call} {name : List UInt8} (named : call.name = some name)
    (name_le : name.length ≤ f2fsNameLen)
    (kept : WellFormed after (edited list call.index name call.value)) :
    AllOrNothing inode after call (.ok ()) where
  target := by
    intro _ other mem
    cases Option.some.inj (named.symm.trans mem)
    rw [kept.getxattr, if_neg (Nat.not_lt.2 name_le), lookup_edited_self]
    cases call.value <;> rfl
  others := by
    intro _ index other differ
    rw [kept.getxattr, wf.getxattr, lookup_edited_other]
    intro same
    obtain ⟨rfl, rfl⟩ := Prod.mk.inj same
    rcases differ with differ | differ
    · exact differ named
    · exact differ rfl
  nothing := fun failed => absurd rfl failed
  terminated := kept.terminated

/-- A call leaves the edited list when it succeeds and the list of before when it fails; torn apart,
it fails with other attributes. -/
theorem WellFormed.setxattr {inode : XattrInode} {list : List Attr} (wf : WellFormed inode list)
    (answers : Answers) (call : Call) :
    ∃ result after, f2fsSetxattr inode answers call = some (result, after) ∧
      (¬ TornApart inode list answers call ∧ result = .ok () ∧
          (∃ name, call.name = some name ∧ name.length ≤ f2fsNameLen ∧
            WellFormed after (edited list call.index name call.value)) ∨
        ¬ TornApart inode list answers call ∧ (∃ error, result = .error error) ∧
          WellFormed after list ∨
        TornApart inode list answers call ∧ (∃ error, result = .error error) ∧
          after.attrs ≠ inode.attrs) := by
  rcases wf.setxattr_cases answers call with ⟨⟨error, run⟩, early⟩ |
    ⟨name, txattr, admitted, new, ended, run⟩
  · exact ⟨_, _, run, .inr (.inl ⟨fun ⟨name, admitted, _⟩ => early name admitted, ⟨error, rfl⟩,
      wf⟩)⟩
  have torn_iff : TornApart inode list answers call ↔
      NodeFails inode answers call.ipage
        (xattrHeaderSize + total (edited list call.index name call.value)) ∧
        ¬ ∀ byte < inode.inlineSize, txattr byte = inode.buffer byte := by
    rw [inline_same_iff wf new, not_not]
    constructor
    · rintro ⟨other, admitted', late⟩
      cases Option.some.inj (admitted'.named.symm.trans admitted.named)
      exact late
    · intro late
      exact ⟨name, admitted, late⟩
  have pos : 0 < xattrHeaderSize + total (edited list call.index name call.value) :=
    Nat.lt_of_lt_of_le (by decide) (Nat.le_add_right _ _)
  rcases @writeAllXattrs_cases inode answers call.ipage _ txattr pos with
    ⟨⟨error, written⟩, early⟩ | ⟨⟨error, written⟩, late⟩ | ⟨⟨node, written, both⟩, done⟩
  · rw [written] at run
    exact ⟨_, _, run, .inr (.inl ⟨fun torn => early (torn_iff.1 torn).1, ⟨error, rfl⟩, wf⟩)⟩
  · rw [written] at run
    refine ⟨_, _, run, .inr ?_⟩
    rw [torn_iff]
    by_cases same : ∀ byte < inode.inlineSize, txattr byte = inode.buffer byte
    · exact .inl ⟨fun torn => torn.2 same, ⟨error, rfl⟩, inlineWritten_wellFormed wf same⟩
    · exact .inr ⟨⟨late, same⟩, ⟨error, rfl⟩, inlineWritten_attrs_ne wf new same⟩
  · rw [written] at run
    exact ⟨_, _, run, .inl ⟨fun torn => done (torn_iff.1 torn).1, rfl, name, admitted.named,
      admitted.name_le, new.wellFormed ended (nodup_edited wf.keys) both⟩⟩

/-- A call is all or nothing unless it fails at the node with changed bytes in the inline area. -/
theorem f2fsSetxattr_allOrNothing_iff {inode : XattrInode} {list : List Attr}
    (wf : WellFormed inode list) (answers : Answers) (call : Call) :
    ∃ result after, f2fsSetxattr inode answers call = some (result, after) ∧
      (AllOrNothing inode after call result ↔ ¬ TornApart inode list answers call) := by
  obtain ⟨result, after, run, ⟨intact, rfl, name, named, name_le, kept⟩ |
    ⟨intact, ⟨error, rfl⟩, kept⟩ | ⟨torn, ⟨error, rfl⟩, changed⟩⟩ := wf.setxattr answers call
  · exact ⟨_, _, run, iff_of_true (wf.set named name_le kept) intact⟩
  · exact ⟨_, _, run, iff_of_true (wf.unchanged kept call error) intact⟩
  · refine ⟨_, _, run, iff_of_false ?_ (not_not.2 torn)⟩
    intro promised
    exact changed (promised.nothing (by simp))

/-- An inode that has never had an attribute. -/
def unset (hasInline : Bool) : XattrInode := { hasInline, inline := Page.zero, node := none }

theorem unset_wellFormed (hasInline : Bool) : WellFormed (unset hasInline) [] := by
  refine ⟨⟨trivial, by simp, ?_⟩, ?_, by simp⟩
  · intro byte above _
    have content : 8 ≤ byte := Nat.le_trans (by decide) above
    rw [XattrInode.buffer_above content, XattrInode.raw_apply]
    split
    · rfl
    · rfl
  · rw [total_nil, Nat.add_zero]
    exact Nat.le_trans (by decide) (Nat.le_add_left nodeArea _)

/-- All pages can be read, and there is a free node number; the new node is `page`. -/
def answersWith (newNodePage : Except Errno Page) : Answers where
  kzalloc := true
  readInode := none
  readXattr := none
  allocNid := some 5
  writeInode := none
  writeXattr := none
  newNodePage := newNodePage

/-- The call that gives the attribute `a` a value. -/
def setA (value : List UInt8) : Call where
  index := 1
  index_ne := by decide
  name := some [97]
  value := some value
  ipage := false
  create := false
  replace := false

theorem f2fsSetxattr_allOrNothing_unset :
    ∃ result after, f2fsSetxattr (unset true) (answersWith (.ok Page.zero)) (setA [1, 2]) =
        some (result, after) ∧
      (AllOrNothing (unset true) after (setA [1, 2]) result ↔
        ¬ TornApart (unset true) [] (answersWith (.ok Page.zero)) (setA [1, 2])) :=
  f2fsSetxattr_allOrNothing_iff (unset_wellFormed true) _ _

/-- A value that needs the node, when there is no block for it, leaves its first bytes behind. -/
theorem f2fsSetxattr_tornApart :
    ¬ ∀ (inode : XattrInode) (list : List Attr), WellFormed inode list →
      ∀ (answers : Answers) (call : Call), ∃ result after,
        f2fsSetxattr inode answers call = some (result, after) ∧
          AllOrNothing inode after call result := by
  intro claimed
  obtain ⟨result, after, run, promised⟩ := claimed (unset true) [] (unset_wellFormed true)
    (answersWith (.error .nospc)) (setA (List.replicate 180 7))
  have evaluated : (f2fsSetxattr (unset true) (answersWith (.error .nospc))
      (setA (List.replicate 180 7))).map (fun state => state.1.isOk || state.2.attrs == some []) =
      some false := by
    decide +kernel
  rw [run, Option.map_some, Option.some.injEq, Bool.or_eq_false_iff] at evaluated
  have failed : result ≠ .ok () := by
    rintro rfl
    cases evaluated.1
  have kept := promised.nothing failed
  rw [(unset_wellFormed true).attrs] at kept
  rw [kept] at evaluated
  exact absurd evaluated.2 (by decide)

end Xattr
end F2fs
end StorageStack
