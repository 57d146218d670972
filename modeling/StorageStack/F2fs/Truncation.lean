import StorageStack.F2fs.NodePath

/-!
# Truncation of a file

`truncate_blocks` clears the addresses of the direct node it cuts and frees the nodes behind it:
those of the indirect node on the way to the cut first, then the other nodes of the inode.
-/

namespace StorageStack
namespace F2fs
namespace Truncation

/-! ## The tree of a file -/

/-- What there is of a node: no block, a block, or one that `truncate_node` has freed, with what its
page held last. -/
inductive NodeBlock (α : Type) where
  | absent
  | live (node : α)
  | freed (node : α)

/-- A pointer to a node, and its block. -/
structure Child (α : Type) where
  nid : Nat
  block : NodeBlock α

/-- The addresses of a direct node; `NULL_ADDR` is 0. -/
abbrev Dnode := Nat → Nat

abbrev Indirect := Nat → Child Dnode

abbrev DoubleIndirect := Nat → Child Indirect

/-- An inode without inline data, and its nodes. -/
structure FileTree where
  inlineXattr : Bool
  /-- `i_addr`. -/
  addr : Dnode
  /-- The nodes of `NODE_DIR1_BLOCK` and `NODE_DIR2_BLOCK`. -/
  direct : Nat → Child Dnode
  /-- Those of `NODE_IND1_BLOCK` and `NODE_IND2_BLOCK`. -/
  indirect : Nat → Child Indirect
  /-- That of `NODE_DIND_BLOCK`. -/
  double : Child DoubleIndirect

/-- `get_node_page`; without a block the answer is `-ENOENT`. -/
def Child.page {α : Type} (child : Child α) : Option α :=
  if child.nid = 0 then none
  else
    match child.block with
    | .live node => some node
    | .absent | .freed _ => none

/-- What a function of the truncation returns, what it leaves, and the addresses of data it hands
to `invalidate_blocks`. -/
structure Outcome (α : Type) where
  ret : Int
  state : α
  invalidated : List Nat

/-- `-ENOENT`. -/
def negEnoent : Int := -2

/-! ## Nodes -/

/-- `truncate_data_blocks_range`, from the slot `ofs_in_node` on. -/
def truncateDataBlocksRange (node : Dnode) (ofs : Nat) : (count : Nat) → Outcome Dnode
  | 0 => ⟨0, node, []⟩
  | count + 1 =>
      if node ofs = 0 then truncateDataBlocksRange node (ofs + 1) count
      else
        let rest := truncateDataBlocksRange (Function.update node ofs 0) (ofs + 1) count
        ⟨rest.ret + 1, rest.state, node ofs :: rest.invalidated⟩

def truncateDnode (child : Child Dnode) : Outcome (Child Dnode) :=
  match child.page with
  | none => ⟨1, child, []⟩
  | some node =>
      let data := truncateDataBlocksRange node 0 addrsPerBlock
      ⟨1, { child with block := .freed data.state }, data.invalidated⟩

/-- The loop of `truncate_nodes` and of `truncate_partial_nodes` over the direct nodes of a page. -/
def truncateDnodes (page : Indirect) (err : Int) (i : Nat) : (rounds : Nat) → Outcome Indirect
  | 0 => ⟨err, page, []⟩
  | rounds + 1 =>
      if (page i).nid = 0 then truncateDnodes page err (i + 1) rounds
      else
        let child := truncateDnode (page i)
        let rest := truncateDnodes (Function.update page i { child.state with nid := 0 }) child.ret
          (i + 1) rounds
        ⟨rest.ret, rest.state, child.invalidated ++ rest.invalidated⟩

/-- `truncate_nodes` of depth 2. -/
def truncateIndirect (child : Child Indirect) (ofs : Nat) : Outcome (Child Indirect) :=
  if child.nid = 0 then ⟨(nidsPerBlock + 1 : Nat), child, []⟩
  else
    match child.page with
    | none => ⟨negEnoent, child, []⟩
    | some page =>
        let loop := truncateDnodes page 0 ofs (nidsPerBlock - ofs)
        let freed := nidsPerBlock - ofs
        if ofs = 0 then
          ⟨(freed + 1 : Nat), { child with block := .freed loop.state }, loop.invalidated⟩
        else ⟨freed, { child with block := .live loop.state }, loop.invalidated⟩

/-- The loop of `truncate_nodes` of depth 3, which returns `child_nofs`.  The reads of nodes answer
no other error than `-ENOENT`. -/
def truncateIndirects (page : DoubleIndirect) (childNofs : Int) (i : Nat) :
    (rounds : Nat) → Outcome DoubleIndirect
  | 0 => ⟨childNofs, page, []⟩
  | rounds + 1 =>
      if (page i).nid = 0 then
        truncateIndirects page (childNofs + (nidsPerBlock + 1 : Nat)) (i + 1) rounds
      else
        let child := truncateIndirect (page i) 0
        let rest :=
          if child.ret = (nidsPerBlock + 1 : Nat) then
            truncateIndirects (Function.update page i { child.state with nid := 0 })
              (childNofs + child.ret) (i + 1) rounds
          else truncateIndirects (Function.update page i child.state) childNofs (i + 1) rounds
        ⟨rest.ret, rest.state, child.invalidated ++ rest.invalidated⟩

/-- `truncate_nodes` of depth 3. -/
def truncateDouble (child : Child DoubleIndirect) (nofs : Int) (ofs : Nat) :
    Outcome (Child DoubleIndirect) :=
  if child.nid = 0 then ⟨(nidsPerBlock + 1 : Nat), child, []⟩
  else
    match child.page with
    | none => ⟨negEnoent, child, []⟩
    | some page =>
        let loop := truncateIndirects page (nofs + (ofs * (nidsPerBlock + 1) : Nat) + 1) ofs
          (nidsPerBlock - ofs)
        if ofs = 0 then
          ⟨loop.ret + 1, { child with block := .freed loop.state }, loop.invalidated⟩
        else ⟨loop.ret, { child with block := .live loop.state }, loop.invalidated⟩

/-- The end of `truncate_partial_nodes`: the direct nodes of a page from a slot on. -/
def truncatePartialPage (child : Child Indirect) (page : Indirect) (ofs : Nat) :
    Outcome (Child Indirect) :=
  let loop := truncateDnodes page 0 ofs (nidsPerBlock - ofs)
  ⟨loop.ret, { child with block := if ofs = 0 then .freed loop.state else .live loop.state },
    loop.invalidated⟩

/-- `truncate_partial_nodes` of depth 2.  There is no outcome when a node on the way is missing; the
call has then changed neither the nodes nor `offset`. -/
def truncatePartialIndirect (child : Child Indirect) (ofs : Nat) :
    Option (Outcome (Child Indirect)) :=
  child.page.map fun page => truncatePartialPage child page ofs

/-- `truncate_partial_nodes` of depth 3. -/
def truncatePartialDouble (child : Child DoubleIndirect) (first second : Nat) :
    Option (Outcome (Child DoubleIndirect)) :=
  child.page.bind fun outer =>
    (outer first).page.map fun page =>
      let inner := truncatePartialPage (outer first) page second
      ⟨inner.ret, { child with block := .live (Function.update outer first inner.state) },
        inner.invalidated⟩

/-! ## The inode -/

namespace FileTree

variable (tree : FileTree)

/-- Set a pointer of `i_nid` to 0. -/
def clearNid (slot : Nat) : FileTree :=
  match slot with
  | 0 | 1 => { tree with
      direct := Function.update tree.direct slot { tree.direct slot with nid := 0 } }
  | 2 | 3 => { tree with
      indirect :=
        Function.update tree.indirect (slot - 2) { tree.indirect (slot - 2) with nid := 0 } }
  | _ => { tree with double := { tree.double with nid := 0 } }

/-- The call for a pointer of `i_nid` in the loop of `truncate_inode_blocks`; the other values of
`offset[0]` are a `BUG()`. -/
def truncateTop (slot ofs : Nat) (nofs : Int) : Option (Outcome FileTree) :=
  match slot with
  | 0 | 1 =>
      let node := truncateDnode (tree.direct slot)
      some ⟨node.ret, { tree with direct := Function.update tree.direct slot node.state },
        node.invalidated⟩
  | 2 | 3 =>
      let node := truncateIndirect (tree.indirect (slot - 2)) ofs
      some ⟨node.ret,
        { tree with indirect := Function.update tree.indirect (slot - 2) node.state },
        node.invalidated⟩
  | 4 =>
      let node := truncateDouble tree.double nofs ofs
      some ⟨node.ret, { tree with double := node.state }, node.invalidated⟩
  | _ => none

end FileTree

/-- The loop of `truncate_inode_blocks`, from the pointer `offset[0]` and the slot `offset[1]` on.
-/
def truncateTops (tree : FileTree) (slot ofs : Nat) (nofs : Int) :
    (rounds : Nat) → Option (Outcome FileTree)
  | 0 => none
  | rounds + 1 =>
      (tree.truncateTop slot ofs nofs).bind fun top =>
        let tree := if ofs = 0 then top.state.clearNid slot else top.state
        if slot = 4 then some ⟨top.ret, tree, top.invalidated⟩
        else
          (truncateTops tree (slot + 1) 0 (nofs + top.ret) rounds).map fun rest =>
            ⟨rest.ret, rest.state, top.invalidated ++ rest.invalidated⟩

/-- The loop for the five pointers, and the result of `truncate_inode_blocks`. -/
def truncateRest (tree : FileTree) (slot ofs : Nat) (nofs : Int) : Option (Outcome FileTree) :=
  (truncateTops tree slot ofs nofs (5 - slot)).map fun rest =>
    { rest with ret := if 0 < rest.ret then 0 else rest.ret }

/-- `truncate_inode_blocks`; there is no outcome at a `BUG()`. -/
def truncateInodeBlocks (tree : FileTree) (fromBlock : Nat) : Option (Outcome FileTree) :=
  (getNodePath tree.inlineXattr fromBlock).bind fun path =>
    let nofs : Int := (path.noffset.getD 1 0 : Nat)
    match path.level, path.offset with
    | 1, [top, ofs] => truncateRest tree (top - nodeDir1Block) ofs nofs
    | 2, [top, first, _] =>
        let which := top - nodeInd1Block
        let behind : Int := nofs + 1 + nidsPerBlock
        if first = 0 then truncateRest tree (which + 2) first nofs
        else
          match truncatePartialIndirect (tree.indirect which) first with
          | none => truncateRest tree (which + 2) first behind
          | some part =>
              (truncateRest
                { tree with indirect := Function.update tree.indirect which part.state }
                (which + 3) 0 behind).map fun rest =>
                ⟨rest.ret, rest.state, part.invalidated ++ rest.invalidated⟩
    | 3, [_, first, second, _] =>
        let nofs : Int := (5 + 2 * nidsPerBlock : Nat)
        if second = 0 then truncateRest tree 4 first nofs
        else
          match truncatePartialDouble tree.double first second with
          | none => truncateRest tree 4 first nofs
          | some part =>
              (truncateRest { tree with double := part.state } 4 (first + 1) nofs).map fun rest =>
                ⟨rest.ret, rest.state, part.invalidated ++ rest.invalidated⟩
    | _, _ => none

/-! ## The file -/

namespace FileTree

variable (tree : FileTree)

/-- `get_dnode_of_data` in the mode `LOOKUP_NODE`: the direct node on a path and the slot in it, or
`-ENOENT`. -/
def dnodeOfData (path : NodePath) : Option (Dnode × Nat) :=
  match path.level, path.offset with
  | 0, [slot] => some (tree.addr, slot)
  | 1, [top, slot] =>
      (tree.direct (top - nodeDir1Block)).page.map (·, slot)
  | 2, [top, first, slot] =>
      (tree.indirect (top - nodeInd1Block)).page.bind fun page => (page first).page.map (·, slot)
  | 3, [_, first, second, slot] =>
      tree.double.page.bind fun outer => (outer first).page.bind fun page =>
        (page second).page.map (·, slot)
  | _, _ => none

/-- Put another direct node on a path. -/
def setDnode (path : NodePath) (node : Dnode) : FileTree :=
  match path.level, path.offset with
  | 0, [_] => { tree with addr := node }
  | 1, [top, _] =>
      let which := top - nodeDir1Block
      { tree with
        direct := Function.update tree.direct which
          { tree.direct which with block := .live node } }
  | 2, [top, first, _] =>
      let which := top - nodeInd1Block
      match (tree.indirect which).page with
      | none => tree
      | some page =>
          { tree with
            indirect := Function.update tree.indirect which
              { tree.indirect which with
                block := .live (Function.update page first
                  { page first with block := .live node }) } }
  | 3, [_, first, second, _] =>
      match tree.double.page with
      | none => tree
      | some outer =>
          match (outer first).page with
          | none => tree
          | some page =>
              { tree with
                double := { tree.double with
                  block := .live (Function.update outer first
                    { outer first with
                      block := .live (Function.update page second
                        { page second with block := .live node }) }) } }
  | _, _ => tree

/-- The address of a block of the file. -/
def mapped (index : Nat) : Option Nat :=
  (getNodePath tree.inlineXattr index).bind fun path =>
    (tree.dnodeOfData path).bind fun (node, slot) => if node slot = 0 then none else some (node slot)

end FileTree

/-- `truncate_blocks`, for a byte offset. -/
def truncateBlocks (tree : FileTree) (fromByte : Nat) : Option (Outcome FileTree) :=
  let freeFrom := (fromByte + pageCacheSize - 1) / pageCacheSize
  (getNodePath tree.inlineXattr freeFrom).bind fun path =>
    match tree.dnodeOfData path with
    | none => truncateInodeBlocks tree freeFrom
    | some (node, ofs) =>
        let count := (if path.level = 0 then addrsPerInode tree.inlineXattr else addrsPerBlock) - ofs
        if ofs ≠ 0 ∨ path.level = 0 then
          let data := truncateDataBlocksRange node ofs count
          (truncateInodeBlocks (tree.setDnode path data.state) (freeFrom + count)).map fun rest =>
            ⟨rest.ret, rest.state, data.invalidated ++ rest.invalidated⟩
        else truncateInodeBlocks tree freeFrom

/-! ## What the loops leave -/

/-- The addresses of some slots of a direct node. -/
def addresses (node : Dnode) (ofs count : Nat) : List Nat :=
  ((List.range' ofs count).map node).filter (· ≠ 0)

/-- A direct node with some slots cleared. -/
def zeroed (node : Dnode) (ofs count : Nat) : Dnode :=
  fun slot => if ofs ≤ slot ∧ slot < ofs + count then 0 else node slot

theorem truncateDataBlocksRange_state (node : Dnode) (ofs count : Nat) :
    (truncateDataBlocksRange node ofs count).state = zeroed node ofs count := by
  induction count generalizing node ofs with
  | zero =>
    funext slot
    rw [zeroed, if_neg (by omega)]
    rfl
  | succ count ih =>
    rw [truncateDataBlocksRange]
    split
    next null =>
      rw [ih]
      funext slot
      rw [zeroed, zeroed]
      rcases Nat.lt_trichotomy slot ofs with below | rfl | above
      · rw [if_neg (by omega), if_neg (by omega)]
      · rw [if_neg (by omega), if_pos (by omega), null]
      · exact if_congr (by omega) rfl rfl
    next mapped =>
      simp only [ih]
      funext slot
      rw [zeroed, zeroed]
      rcases Nat.lt_trichotomy slot ofs with below | rfl | above
      · rw [if_neg (by omega), if_neg (by omega), Function.update_of_ne (by omega)]
      · rw [if_neg (by omega), if_pos (by omega), Function.update_self]
      · rw [Function.update_of_ne (by omega)]
        exact if_congr (by omega) rfl rfl

theorem truncateDataBlocksRange_invalidated (node : Dnode) (ofs count : Nat) :
    (truncateDataBlocksRange node ofs count).invalidated = addresses node ofs count := by
  induction count generalizing node ofs with
  | zero => rfl
  | succ count ih =>
    rw [truncateDataBlocksRange, addresses, List.range'_succ, List.map_cons]
    split
    next null =>
      rw [ih, List.filter_cons_of_neg (by simp [null])]
      rfl
    next mapped =>
      have behind : addresses (Function.update node ofs 0) (ofs + 1) count =
          addresses node (ofs + 1) count := by
        rw [addresses, addresses]
        congr 1
        apply List.map_congr_left
        intro slot mem
        have above := (List.mem_range'_1.1 mem).1
        rw [Function.update_of_ne (by omega)]
      simp only [ih]
      rw [behind, List.filter_cons_of_pos (by simp [mapped])]
      rfl

section Nodes

variable {α : Type}

/-- A node that is freed when there is a block. -/
def Child.dropped (child : Child α) (last : α → α) : Child α :=
  match child.page with
  | none => child
  | some node => { nid := 0, block := .freed (last node) }

theorem Child.page_eq_none_of_nid {child : Child α} (zero : child.nid = 0) :
    child.page = none :=
  if_pos zero

theorem Child.nid_ne_zero_of_page {child : Child α} {node : α} (page : child.page = some node) :
    child.nid ≠ 0 := by
  intro zero
  rw [child.page_eq_none_of_nid zero] at page
  cases page

theorem Child.block_of_page {child : Child α} {node : α} (page : child.page = some node) :
    child.block = .live node := by
  rw [Child.page, if_neg (Child.nid_ne_zero_of_page page)] at page
  split at page
  next same =>
    rw [same, Option.some.inj page]
  · cases page
  · cases page

end Nodes

/-- A direct node of a parent that is truncated from a slot before it: the pointer is 0 then, and a
node that was there is freed. -/
def cleared (child : Child Dnode) : Child Dnode :=
  { child.dropped fun node => zeroed node 0 addrsPerBlock with nid := 0 }

/-- The data of a direct node. -/
def dnodeData (child : Child Dnode) : List Nat :=
  child.page.elim [] fun node => addresses node 0 addrsPerBlock

theorem truncateDnode_cleared (child : Child Dnode) :
    { (truncateDnode child).state with nid := 0 } = cleared child := by
  rw [truncateDnode, cleared, Child.dropped]
  cases child.page with
  | none => rfl
  | some node => simp only [truncateDataBlocksRange_state]

theorem truncateDnode_invalidated (child : Child Dnode) :
    (truncateDnode child).invalidated = dnodeData child := by
  rw [truncateDnode, dnodeData]
  cases child.page with
  | none => rfl
  | some node => exact truncateDataBlocksRange_invalidated _ _ _

theorem cleared_of_nid {child : Child Dnode} (zero : child.nid = 0) : cleared child = child := by
  rw [cleared, Child.dropped, child.page_eq_none_of_nid zero, ← zero]

theorem dnodeData_of_nid {child : Child Dnode} (zero : child.nid = 0) : dnodeData child = [] := by
  rw [dnodeData, child.page_eq_none_of_nid zero]
  rfl

/-- An indirect node that is truncated from a slot on. -/
def cutIndirect (page : Indirect) (ofs count : Nat) : Indirect :=
  fun slot => if ofs ≤ slot ∧ slot < ofs + count then cleared (page slot) else page slot

theorem truncateDnodes_state (page : Indirect) (err : Int) (ofs count : Nat) :
    (truncateDnodes page err ofs count).state = cutIndirect page ofs count := by
  induction count generalizing page err ofs with
  | zero =>
    funext slot
    rw [cutIndirect, if_neg (by omega)]
    rfl
  | succ count ih =>
    rw [truncateDnodes]
    split
    next null =>
      rw [ih]
      funext slot
      rw [cutIndirect, cutIndirect]
      rcases Nat.lt_trichotomy slot ofs with below | rfl | above
      · rw [if_neg (by omega), if_neg (by omega)]
      · rw [if_neg (by omega), if_pos (by omega), cleared_of_nid null]
      · exact if_congr (by omega) rfl rfl
    next set =>
      simp only [ih]
      funext slot
      rw [cutIndirect, cutIndirect]
      rcases Nat.lt_trichotomy slot ofs with below | rfl | above
      · rw [if_neg (by omega), if_neg (by omega), Function.update_of_ne (by omega)]
      · rw [if_neg (by omega), if_pos (by omega), Function.update_self, truncateDnode_cleared]
      · rw [Function.update_of_ne (by omega)]
        exact if_congr (by omega) rfl rfl

theorem flatMap_range'_congr {β : Type} {left right : Nat → List β} {ofs count : Nat}
    (same : ∀ slot, ofs ≤ slot → left slot = right slot) :
    (List.range' ofs count).flatMap left = (List.range' ofs count).flatMap right := by
  rw [List.flatMap_def, List.flatMap_def]
  congr 1
  apply List.map_congr_left
  intro slot mem
  exact same slot (List.mem_range'_1.1 mem).1

theorem truncateDnodes_invalidated (page : Indirect) (err : Int) (ofs count : Nat) :
    (truncateDnodes page err ofs count).invalidated =
      (List.range' ofs count).flatMap fun slot => dnodeData (page slot) := by
  induction count generalizing page err ofs with
  | zero => rfl
  | succ count ih =>
    rw [truncateDnodes, List.range'_succ, List.flatMap_cons]
    split
    next null => rw [ih, dnodeData_of_nid null, List.nil_append]
    next set =>
      simp only [ih]
      rw [truncateDnode_invalidated]
      congr 1
      apply flatMap_range'_congr
      intro slot above
      rw [Function.update_of_ne (by omega)]

/-- The data of the direct nodes of a page from a slot on. -/
def pageData (page : Indirect) (ofs : Nat) : List Nat :=
  (List.range' ofs (nidsPerBlock - ofs)).flatMap fun slot => dnodeData (page slot)

/-- The data of an indirect node from a slot on. -/
def indirectData (child : Child Indirect) (ofs : Nat) : List Nat :=
  child.page.elim [] fun page => pageData page ofs

theorem truncateIndirect_none {child : Child Indirect} (missing : child.page = none) (ofs : Nat) :
    (truncateIndirect child ofs).state = child ∧ (truncateIndirect child ofs).invalidated = [] := by
  rw [truncateIndirect, missing]
  split
  · exact ⟨rfl, rfl⟩
  · exact ⟨rfl, rfl⟩

theorem truncateIndirect_some {child : Child Indirect} {page : Indirect}
    (found : child.page = some page) (ofs : Nat) :
    (truncateIndirect child ofs).state =
        { child with
          block := if ofs = 0 then .freed (cutIndirect page ofs (nidsPerBlock - ofs))
            else .live (cutIndirect page ofs (nidsPerBlock - ofs)) } ∧
      (truncateIndirect child ofs).ret =
        if ofs = 0 then (nidsPerBlock + 1 : Nat) else (nidsPerBlock - ofs : Nat) := by
  rw [truncateIndirect, if_neg (Child.nid_ne_zero_of_page found), found]
  dsimp only
  split
  next zero =>
    rw [truncateDnodes_state, zero]
    exact ⟨rfl, rfl⟩
  next inside =>
    rw [truncateDnodes_state]
    exact ⟨rfl, rfl⟩

theorem truncateIndirect_invalidated (child : Child Indirect) (ofs : Nat) :
    (truncateIndirect child ofs).invalidated = indirectData child ofs := by
  rw [indirectData]
  cases found : child.page with
  | none => exact (truncateIndirect_none found ofs).2
  | some page =>
    rw [truncateIndirect, if_neg (Child.nid_ne_zero_of_page found), found]
    dsimp only
    split
    · exact truncateDnodes_invalidated _ _ _ _
    · exact truncateDnodes_invalidated _ _ _ _

/-- An indirect node that is truncated as a whole in its parent. -/
def droppedIndirect (child : Child Indirect) : Child Indirect :=
  child.dropped fun page => cutIndirect page 0 nidsPerBlock

/-- A double indirect node that is truncated from a slot on. -/
def cutDouble (page : DoubleIndirect) (ofs count : Nat) : DoubleIndirect :=
  fun slot => if ofs ≤ slot ∧ slot < ofs + count then droppedIndirect (page slot) else page slot

theorem droppedIndirect_of_missing {child : Child Indirect} (missing : child.page = none) :
    droppedIndirect child = child := by
  rw [droppedIndirect, Child.dropped, missing]

/-- What a round of the loop of depth 3 puts at its slot. -/
theorem truncateIndirects_round (child : Child Indirect) :
    (if (truncateIndirect child 0).ret = (nidsPerBlock + 1 : Nat) then
        { (truncateIndirect child 0).state with nid := 0 }
      else (truncateIndirect child 0).state) =
      if child.nid = 0 then child else droppedIndirect child := by
  cases found : child.page with
  | none =>
    rw [droppedIndirect_of_missing found]
    by_cases zero : child.nid = 0
    · rw [truncateIndirect, if_pos zero, if_pos rfl, if_pos zero, ← zero]
    · rw [truncateIndirect, if_neg zero, if_neg zero, found]
      exact if_neg (show ¬ negEnoent = ((nidsPerBlock + 1 : Nat) : Int) by decide)
  | some page =>
    obtain ⟨state, ret⟩ := truncateIndirect_some found 0
    rw [if_neg (Child.nid_ne_zero_of_page found), state, ret, if_pos rfl, if_pos rfl, if_pos rfl,
      droppedIndirect, Child.dropped, found]
    rfl

theorem truncateIndirects_spec (page : DoubleIndirect) (childNofs : Int) (ofs count : Nat) :
    (truncateIndirects page childNofs ofs count).state = cutDouble page ofs count ∧
      (truncateIndirects page childNofs ofs count).invalidated =
        (List.range' ofs count).flatMap fun slot => indirectData (page slot) 0 := by
  induction count generalizing page childNofs ofs with
  | zero =>
    refine ⟨?_, rfl⟩
    funext slot
    rw [cutDouble, if_neg (by omega)]
    rfl
  | succ count ih =>
    have split_slot (after : DoubleIndirect) (here : after ofs = droppedIndirect (page ofs))
        (other : ∀ slot, slot ≠ ofs → after slot = page slot) :
        cutDouble after (ofs + 1) count = cutDouble page ofs (count + 1) := by
      funext slot
      rw [cutDouble, cutDouble]
      rcases Nat.lt_trichotomy slot ofs with below | rfl | above
      · rw [if_neg (by omega), if_neg (by omega), other slot (by omega)]
      · rw [if_neg (by omega), if_pos (by omega), here]
      · rw [other slot (by omega)]
        exact if_congr (by omega) rfl rfl
    rw [truncateIndirects, List.range'_succ, List.flatMap_cons]
    split
    next null =>
      have missing := (page ofs).page_eq_none_of_nid null
      obtain ⟨state, invalidated⟩ :=
        ih page (childNofs + (nidsPerBlock + 1 : Nat)) (ofs + 1)
      rw [state, invalidated, indirectData, missing]
      exact ⟨split_slot page (droppedIndirect_of_missing missing).symm fun _ _ => rfl, rfl⟩
    next set =>
      have round := truncateIndirects_round (page ofs)
      rw [if_neg set] at round
      have behind (after : Child Indirect) :
          ((List.range' (ofs + 1) count).flatMap fun slot =>
            indirectData (Function.update page ofs after slot) 0) =
          (List.range' (ofs + 1) count).flatMap fun slot => indirectData (page slot) 0 := by
        apply flatMap_range'_congr
        intro slot above
        rw [Function.update_of_ne (by omega)]
      have other (after : Child Indirect) (slot : Nat) (ne : slot ≠ ofs) :
          Function.update page ofs after slot = page slot := Function.update_of_ne ne _ _
      dsimp only
      split
      next counted =>
        rw [if_pos counted] at round
        obtain ⟨state, invalidated⟩ := ih
          (Function.update page ofs { (truncateIndirect (page ofs) 0).state with nid := 0 })
          (childNofs + (truncateIndirect (page ofs) 0).ret) (ofs + 1)
        rw [state, invalidated, behind, truncateIndirect_invalidated]
        refine ⟨split_slot _ ?_ (other _), rfl⟩
        rw [Function.update_self, round]
      next skipped =>
        rw [if_neg skipped] at round
        obtain ⟨state, invalidated⟩ := ih
          (Function.update page ofs (truncateIndirect (page ofs) 0).state) childNofs (ofs + 1)
        rw [state, invalidated, behind, truncateIndirect_invalidated]
        refine ⟨split_slot _ ?_ (other _), rfl⟩
        rw [Function.update_self, round]

/-- The data of the indirect nodes of a page from a slot on. -/
def outerData (page : DoubleIndirect) (ofs : Nat) : List Nat :=
  (List.range' ofs (nidsPerBlock - ofs)).flatMap fun slot => indirectData (page slot) 0

/-- The data of a double indirect node from a slot on. -/
def doubleData (child : Child DoubleIndirect) (ofs : Nat) : List Nat :=
  child.page.elim [] fun page => outerData page ofs

theorem truncateDouble_none {child : Child DoubleIndirect} (missing : child.page = none)
    (nofs : Int) (ofs : Nat) : (truncateDouble child nofs ofs).state = child := by
  rw [truncateDouble, missing]
  split
  · rfl
  · rfl

theorem truncateDouble_some {child : Child DoubleIndirect} {page : DoubleIndirect}
    (found : child.page = some page) (nofs : Int) (ofs : Nat) :
    (truncateDouble child nofs ofs).state =
        { child with
          block := if ofs = 0 then .freed (cutDouble page ofs (nidsPerBlock - ofs))
            else .live (cutDouble page ofs (nidsPerBlock - ofs)) } := by
  rw [truncateDouble, if_neg (Child.nid_ne_zero_of_page found), found]
  dsimp only
  split
  next zero => rw [(truncateIndirects_spec _ _ _ _).1]
  next inside => rw [(truncateIndirects_spec _ _ _ _).1]

theorem truncateDouble_invalidated (child : Child DoubleIndirect) (nofs : Int) (ofs : Nat) :
    (truncateDouble child nofs ofs).invalidated = doubleData child ofs := by
  rw [doubleData]
  cases found : child.page with
  | none =>
    rw [truncateDouble, found]
    split
    · rfl
    · rfl
  | some page =>
    rw [truncateDouble, if_neg (Child.nid_ne_zero_of_page found), found]
    dsimp only
    split
    · exact (truncateIndirects_spec _ _ _ _).2
    · exact (truncateIndirects_spec _ _ _ _).2

end Truncation
end F2fs
end StorageStack
