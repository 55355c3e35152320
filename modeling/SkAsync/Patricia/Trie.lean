import SkAsync.Patricia.Node

/-!
# Patricia tries and sets

`patricia_trie` and `patricia_set` on the explicit heap.
-/

namespace SkAsync.Patricia

open SkAsync.Library

/-- `patricia_trie`: the root pointer, with the heap its nodes are on. -/
structure PatriciaTrie (T : Type) where
  root : NodePtr
  heap : NodeHeap T

namespace PatriciaTrie

variable {T : Type}

/-- A new trie, on a heap of its own. -/
def empty : PatriciaTrie T :=
  ⟨none, .empty⟩

/-! ## Searching -/

/-- The loop that the searches share: follow the bits of the key, while the
node asks for it and the edge is there. -/
def descendLoop (continues : NodeData T → Bool) (key : PatriciaKey) (heap : NodeHeap T) :
    (fuel : Nat) → NodePtr → Except Fault NodePtr
  | 0, _ => .error .diverged
  | fuel + 1, node => do
      let here ← deref heap node
      if continues here.data ∧ here.edges (key.testBit here.data.bit) ≠ none then
        descendLoop continues key heap fuel (here.edges (key.testBit here.data.bit))
      else pure node

/-- The condition of the loop in `find_node` and `prefix_match`. -/
def searching (key : PatriciaKey) (node : NodeData T) : Bool :=
  node.bit < key.sizeBits

/-- `find_node`. -/
def findNode (build : Build) (trie : PatriciaTrie T) (key : PatriciaKey) :
    Except Fault NodePtr :=
  if trie.root = none then pure none
  else do
    let node ← descendLoop (searching key) key trie.heap (trie.heap.size + 1) trie.root
    let found ← deref trie.heap node
    let equal ← keyEqual build key found.data.key
    pure (if equal then node else none)

/-- `find`, as the node of the iterator; `end()` is the null pointer. -/
def find (build : Build) (trie : PatriciaTrie T) (key : PatriciaKey) : Except Fault NodePtr := do
  let node ← findNode build trie key
  if node = none then pure none
  else
    let found ← deref trie.heap node
    if found.data.value.isSome then iteratorAt trie.heap node else pure none

/-- The second loop of `prefix_match`: climb to a node whose key is a prefix. -/
def prefixClimb (build : Build) (key : PatriciaKey) (heap : NodeHeap T) :
    (fuel : Nat) → NodePtr → Except Fault NodePtr
  | 0, _ => .error .diverged
  | fuel + 1, node =>
      if node = none then pure none
      else do
        let here ← deref heap node
        if key.sizeBits < here.data.key.bits then prefixClimb build key heap fuel here.parent
        else
          let isPrefix ← prefixCompare build here.data.key key
          if isPrefix then pure node else prefixClimb build key heap fuel here.parent

/-- `prefix_match`. -/
def prefixMatch (build : Build) (trie : PatriciaTrie T) (key : PatriciaKey) :
    Except Fault NodePtr :=
  if trie.root = none then pure none
  else do
    let node ← descendLoop (searching key) key trie.heap (trie.heap.size + 1) trie.root
    prefixClimb build key trie.heap (trie.heap.size + 1) node

/-! ## Inserting -/

/-- The condition of the first loop in `insert_node`. -/
def placing (key : PatriciaKey) (node : NodeData T) : Bool :=
  node.bit < key.sizeBits || node.value.isNone

/-- The second loop of `insert_node`: climb while the parent is not above the
bit where the keys differ. -/
def climbLoop (diffbit : Nat) (heap : NodeHeap T) : (fuel : Nat) → NodePtr → Except Fault NodePtr
  | 0, _ => .error .diverged
  | fuel + 1, node => do
      let here ← deref heap node
      if here.parent = none then pure node
      else
        let above ← deref heap here.parent
        if diffbit ≤ above.data.bit then climbLoop diffbit heap fuel here.parent else pure node

/-- The end of `insert_node` where the new node becomes a child of `node`. -/
def attachNew (heap : NodeHeap T) (node newNode : NodePtr) (key : PatriciaKey) :
    Except Fault (NodeHeap T) := do
  let heap ← update heap newNode fun n => { n with parent := node }
  let here ← deref heap node
  let (_, heap) ← attach heap node (key.testBit here.data.bit) newNode
  pure heap

/-- The end of `insert_node` where the new node takes the place of `node` and
`node` becomes its child.  At the root, the old root is deleted first. -/
def spliceNew (build : Build) (trie : PatriciaTrie T) (node newNode : NodePtr) (keylen : Nat) :
    Except Fault (PatriciaTrie T) := do
  let here ← deref trie.heap node
  let heap ← update trie.heap newNode fun n => { n with parent := here.parent }
  let bit := here.data.key.testBit keylen
  if here.parent = none then
    let heap ← deleteSelf heap trie.root
    let heap ← update heap node fun n => { n with parent := newNode }
    pure ⟨newNode, heap⟩
  else
    let e ← which build heap here.parent node
    let above ← deref heap here.parent
    let heap ← update heap here.parent fun n => { n with edges := setEdge n.edges e newNode }
    let heap ← update heap newNode fun n => { n with edges := setEdge n.edges bit (above.edges e) }
    let heap ← update heap node fun n => { n with parent := newNode }
    pure ⟨trie.root, heap⟩

/-- The end of `insert_node` where a node without a key is put above `node` and
the new node. -/
def branchNew (build : Build) (heap : NodeHeap T) (node newNode : NodePtr) (key : PatriciaKey)
    (diffbit : Nat) : Except Fault (NodeHeap T) := do
  let here ← deref heap node
  let bit := key.testBit diffbit
  let oldParent := here.parent
  let (n, heap) ← makeBranch heap here.parent (if bit then node else newNode)
    (if bit then newNode else node) diffbit
  let e ← which build heap oldParent node
  let (_, heap) ← attach heap oldParent e n
  update heap node fun m => { m with parent := n }

/-- The end of `insert_node`, at the node where the climb stopped. -/
def placeNew (build : Build) (trie : PatriciaTrie T) (node : NodePtr) (key : PatriciaKey)
    (diffbit : Nat) : Except Fault (NodePtr × PatriciaTrie T) := do
  let keylen := key.sizeBits
  let here ← deref trie.heap node
  if diffbit = keylen ∧ here.data.bit = keylen then pure (node, trie)
  else
    let (newNode, heap) := makeNode trie.heap key keylen
    if here.data.bit = diffbit then
      let heap ← attachNew heap node newNode key
      pure (newNode, ⟨trie.root, heap⟩)
    else if keylen = diffbit then
      let trie ← spliceNew build ⟨trie.root, heap⟩ node newNode keylen
      pure (newNode, trie)
    else
      let heap ← branchNew build heap node newNode key diffbit
      pure (newNode, ⟨trie.root, heap⟩)

/-- `if (!root) root = node_type::make_node();` -/
def makeRoot (trie : PatriciaTrie T) : PatriciaTrie T :=
  if trie.root = none then
    let (root, heap) := makeNode trie.heap .empty 0
    ⟨root, heap⟩
  else trie

/-- `insert_node`. -/
def insertNode (build : Build) (trie : PatriciaTrie T) (key : PatriciaKey) :
    Except Fault (NodePtr × PatriciaTrie T) := do
  let keylen := key.sizeBits
  let trie := makeRoot trie
  let node ← descendLoop (placing key) key trie.heap (trie.heap.size + 1) trie.root
  let found ← deref trie.heap node
  let checkBit := if found.data.bit < keylen then found.data.bit else keylen
  let diffbit := bitDiff key found.data.key
  let diffbit := if checkBit < diffbit then checkBit else diffbit
  let node ← climbLoop diffbit trie.heap (trie.heap.size + 1) node
  placeNew build trie node key diffbit

/-- `insert`. -/
def insert (build : Build) (trie : PatriciaTrie T) (key : PatriciaKey) (value : T) :
    Except Fault (Bool × PatriciaTrie T) := do
  let (node, trie) ← insertNode build trie key
  let here ← deref trie.heap node
  if here.data.value.isSome then pure (false, trie)
  else
    let heap ← update trie.heap node fun n => { n with data := { n.data with value := some value } }
    pure (true, ⟨trie.root, heap⟩)

/-! ## Removing -/

/-- `if (node->value) node->clear_value();` -/
def clearRoot (heap : NodeHeap T) (node : NodePtr) : Except Fault (NodeHeap T) := do
  let here ← deref heap node
  if here.data.value.isSome then clearValue heap node else pure heap

/-- The part of `remove_node` for a root with at most one child. -/
def removeRoot (build : Build) (trie : PatriciaTrie T) (node : NodePtr) :
    Except Fault (PatriciaTrie T) := do
  let here ← deref trie.heap node
  skCheck build (here.parent = none) "!node->parent"
  skCheck build (edgecount here ≤ 1) "node->edgecount() <= 1"
  let heap ← clearRoot trie.heap node
  if here.edges left = none ∧ here.edges right = none then pure ⟨trie.root, heap⟩
  else
    let (child, heap) ← detach heap node (if here.edges left ≠ none then left else right)
    let heap ← deleteSelf heap node
    pure ⟨child, heap⟩

/-- The part of `remove_node` for a node below the root without children. -/
def removeLeaf (build : Build) (heap : NodeHeap T) (node : NodePtr) :
    Except Fault (NodePtr × NodeHeap T) := do
  let here ← deref heap node
  let above ← deref heap here.parent
  skCheck build (above.edges left = node ∨ above.edges right = node)
    "node->parent->leftedge() == node || node->parent->rightedge() == node"
  let e ← which build heap here.parent node
  let heap ← update heap here.parent fun n => { n with edges := setEdge n.edges e none }
  let heap ← deleteSelf heap node
  pure (here.parent, heap)

/-- The part of `remove_node` for a node below the root with one child. -/
def removeInner (build : Build) (heap : NodeHeap T) (node : NodePtr) :
    Except Fault (NodePtr × NodeHeap T) := do
  let here ← deref heap node
  let e ← which build heap here.parent node
  let (child, heap) ← detach heap node (if here.edges left ≠ none then left else right)
  let (_, heap) ← attach heap here.parent e child
  let heap ← deleteSelf heap node
  pure (here.parent, heap)

/-- These two parts.  The node above is returned. -/
def removeBelow (build : Build) (heap : NodeHeap T) (node : NodePtr) :
    Except Fault (NodePtr × NodeHeap T) := do
  let here ← deref heap node
  if edgecount here = 0 then removeLeaf build heap node else removeInner build heap node

/-- The loop of `remove_node`. -/
def removeLoop (build : Build) : (fuel : Nat) → PatriciaTrie T → NodePtr →
    Except Fault (PatriciaTrie T)
  | 0, _, _ => .error .diverged
  | fuel + 1, trie, node => do
      let here ← deref trie.heap node
      if edgecount here = 2 then
        let heap ← clearValue trie.heap node
        pure ⟨trie.root, heap⟩
      else if node = trie.root then removeRoot build trie node
      else
        let (next, heap) ← removeBelow build trie.heap node
        let above ← deref heap next
        if above.data.value.isNone ∧ ¬ (above.edges left ≠ none ∧ above.edges right ≠ none) then
          removeLoop build fuel ⟨trie.root, heap⟩ next
        else pure ⟨trie.root, heap⟩

/-- `remove_node`. -/
def removeNode (build : Build) (trie : PatriciaTrie T) (node : NodePtr) :
    Except Fault (PatriciaTrie T) :=
  removeLoop build (trie.heap.size + 1) trie node

/-- `erase`. -/
def erase (build : Build) (trie : PatriciaTrie T) (it : NodePtr) :
    Except Fault (Nat × PatriciaTrie T) := do
  let trie ← removeNode build trie it
  pure (1, trie)

/-- `remove`. -/
def remove (build : Build) (trie : PatriciaTrie T) (key : PatriciaKey) :
    Except Fault (Bool × PatriciaTrie T) := do
  let it ← find build trie key
  if it = none then pure (false, trie)
  else
    let (_, trie) ← erase build trie it
    pure (true, trie)

end PatriciaTrie

/-! ## Sets -/

/-- `patricia_set`: a trie whose values are their own keys, through a key maker. -/
abbrev PatriciaSet (T : Type) := PatriciaTrie T

namespace PatriciaSet

open PatriciaTrie

variable {T : Type} (build : Build) (keyMaker : T → PatriciaKey)

/-- `insert`. -/
def insert (set : PatriciaSet T) (value : T) :
    Except Fault ((NodePtr × Bool) × PatriciaSet T) := do
  let (node, set) ← insertNode build set (keyMaker value)
  skCheck build (node ≠ none) "node != nullptr"
  let here ← deref set.heap node
  if here.data.value.isSome then
    let it ← iteratorAt set.heap node
    pure ((it, false), set)
  else
    let heap ← update set.heap node fun n => { n with data := { n.data with value := some value } }
    let it ← iteratorAt heap node
    pure ((it, true), ⟨set.root, heap⟩)

/-- `find`. -/
def find (set : PatriciaSet T) (value : T) : Except Fault NodePtr := do
  let node ← findNode build set (keyMaker value)
  if node = none then pure none
  else
    let found ← deref set.heap node
    if found.data.value.isSome then iteratorAt set.heap node else pure none

/-- `begin`. -/
def begin (set : PatriciaSet T) : Except Fault NodePtr :=
  iteratorAt set.heap set.root

/-- `contains`. -/
def contains (set : PatriciaSet T) (value : T) : Except Fault Bool := do
  let node ← findNode build set (keyMaker value)
  if node = none then pure false
  else
    let found ← deref set.heap node
    pure found.data.value.isSome

/-- `prefix_match`. -/
def prefixMatch (set : PatriciaSet T) (value : T) : Except Fault NodePtr := do
  let node ← PatriciaTrie.prefixMatch build set (keyMaker value)
  if node = none then pure none else iteratorAt set.heap node

/-- `prefix_match` of a value of another type, with the key maker that is rebound to it. -/
def prefixMatchRebound {V : Type} (rebound : V → PatriciaKey) (set : PatriciaSet T) (value : V) :
    Except Fault NodePtr := do
  let node ← PatriciaTrie.prefixMatch build set (rebound value)
  if node = none then pure none else iteratorAt set.heap node

/-- `erase` of a value. -/
def erase (set : PatriciaSet T) (value : T) : Except Fault (Nat × PatriciaSet T) := do
  let node ← findNode build set (keyMaker value)
  if node = none then pure (0, set)
  else
    let found ← deref set.heap node
    if found.data.value.isSome then
      let set ← removeNode build set node
      pure (1, set)
    else pure (0, set)

end PatriciaSet

end SkAsync.Patricia
