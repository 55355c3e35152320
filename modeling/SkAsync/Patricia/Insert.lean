import SkAsync.Patricia.Search

/-!
# Inserting a node

`insert_node` walks down, walks up and changes the tree in one of four ways
where it stops.  `graft` is that change on the tree that the heap represents;
it is not defined where the source would follow the null parent of the root.
-/

namespace SkAsync.Patricia

open SkAsync.Library

variable {T : Type}

/-- What `make_node` puts into the node for a key. -/
def newData (key : PatriciaKey) : NodeData T :=
  ⟨key.sizeBits, none, if key.isEmpty then .empty else key⟩

/-- The node that `insert_node` returns, with the rest of the tree. -/
structure Place (T : Type) where
  context : Context (NodeData T)
  address : Address
  data : NodeData T
  children : Bool → LinkedTree (NodeData T)

/-- The tree of a place. -/
def Place.tree (place : Place T) : LinkedTree (NodeData T) :=
  plug place.context (.node place.address place.data place.children)

/-- The tree when a value is stored there, unless there is one. -/
def Place.store (place : Place T) (value : T) : LinkedTree (NodeData T) :=
  plug place.context (.node place.address
    { place.data with value := place.data.value.or (some value) } place.children)

/-- The new node as a child. -/
def Place.hang (key : PatriciaKey) (fresh : Address) (context : Context (NodeData T)) (a : Address)
    (data : NodeData T) (children : Bool → LinkedTree (NodeData T)) : Place T :=
  ⟨⟨a, data, key.testBit data.bit, children (!key.testBit data.bit)⟩ :: context,
    fresh, newData key, fun _ => .empty⟩

/-- The new node in the place of a node, which becomes its child. -/
def Place.splice (key : PatriciaKey) (fresh : Address) (context : Context (NodeData T))
    (a : Address)
    (data : NodeData T) (children : Bool → LinkedTree (NodeData T)) : Place T :=
  ⟨context, fresh, newData key,
    LinkedTree.onEdge (data.key.testBit key.sizeBits) (.node a data children) .empty⟩

/-- The new node beside a node, below a node without a key. -/
def Place.branch (key : PatriciaKey) (fresh : Address) (diffbit : Nat)
    (context : Context (NodeData T)) (a : Address) (data : NodeData T)
    (children : Bool → LinkedTree (NodeData T)) : Place T :=
  ⟨⟨fresh + 1, ⟨diffbit, none, .empty⟩, key.testBit diffbit, .node a data children⟩ :: context,
    fresh, newData key, fun _ => .empty⟩

/-- The change that `insert_node` makes at a node. -/
def graft (key : PatriciaKey) (fresh : Address) (diffbit : Nat) (context : Context (NodeData T))
    (a : Address) (data : NodeData T) (children : Bool → LinkedTree (NodeData T)) :
    Option (Place T) :=
  if diffbit = key.sizeBits ∧ data.bit = key.sizeBits then some ⟨context, a, data, children⟩
  else if data.bit = diffbit then some (Place.hang key fresh context a data children)
  else if context = [] then none
  else if key.sizeBits = diffbit then some (Place.splice key fresh context a data children)
  else some (Place.branch key fresh diffbit context a data children)

/-! ## The changes on the heap -/

section Changes

variable {heap : NodeHeap T} {context : Context (NodeData T)} {a : Address} {data : NodeData T}
  {children : Bool → LinkedTree (NodeData T)}

/-- The cell of a new node. -/
abbrev newCell (key : PatriciaKey) : PatriciaNode T :=
  ⟨newData key, fun _ => none, none⟩

/-- Nothing of the tree is at the address of the next allocation. -/
theorem notMem_size {t : LinkedTree (NodeData T)} (represented : Represents heap none t) :
    heap.size ∉ t.addresses :=
  fun member => Nat.lt_irrefl _ (represented.lt_size member)

theorem mem_addresses_of_child {b : Address} {edge : Bool}
    (member : b ∈ (children edge).addresses) : b ∈ (LinkedTree.node a data children).addresses := by
  cases edge <;> simp [member]

theorem mem_addresses_plug {b : Address} {t : LinkedTree (NodeData T)} :
    b ∈ (plug context t).addresses ↔ b ∈ t.addresses ∨ b ∈ Context.addresses context := by
  rw [(addresses_plug context t).mem_iff, List.mem_append]

/-- A child can be read, and its address is one of the tree. -/
theorem child_read {edge : Bool} {p : Address}
    (represented : Represents heap none (plug context (.node a data children)))
    (child : (children edge).address = some p) :
    p ∈ (children edge).addresses ∧ ∃ cell, heap.read p = some cell := by
  have below := (represents_plug_iff.mp represented).2.2 edge
  cases found : children edge with
  | empty =>
      rw [found] at child
      cases child
  | node b data' children' =>
      rw [found] at child below
      cases child
      exact ⟨by simp, _, below.1⟩

/-- The edge where the new node is attached, seen from the other nodes. -/
theorem setEdge_children (edge : Bool) (p : NodePtr) :
    setEdge (fun e => (children e).address) edge p =
      fun e => if e = edge then p else (children (!edge)).address := by
  funext e
  unfold setEdge
  by_cases same : e = edge
  · rw [if_pos same, if_pos same]
  · rw [if_neg same, if_neg same, eq_not_of_ne same]

theorem attachNew_spec (key : PatriciaKey)
    (represented : Represents heap none (plug context (.node a data children)))
    (distinct : (plug context (.node a data children)).Distinct) :
    ∃ heap', PatriciaTrie.attachNew (heap.allocate (newCell key)) (some a) (some heap.size) key =
        .ok heap' ∧
      Represents heap' none (Place.hang key heap.size context a data children).tree ∧
      (Place.hang key heap.size context a data children).tree.Distinct := by
  generalize edge_eq : key.testBit data.bit = edge
  have apart := distinct.apart edge
  have apart' := distinct.apart (!edge)
  rw [Bool.not_not] at apart'
  have isFresh := notMem_size represented
  have notFresh : ∀ b ∈ (plug context (.node a data children)).addresses, b ≠ heap.size := by
    rintro b member rfl
    exact isFresh member
  have cell := focus_read represented
  have selfNotFresh : heap.size ≠ a := fun same =>
    isFresh (mem_addresses_plug.mpr (Or.inl (by simp [same])))
  -- the heap with the new node, whose parent is already set
  generalize linked_eq : (heap.allocate (newCell key)).write heap.size
    { newCell (T := T) key with parent := some a } = linked
  have read_linked : ∀ b, linked.read b = if b = heap.size then
      some { newCell key with parent := some a } else heap.read b := by
    intro b
    rw [← linked_eq, Heap.read_write (by simp), Heap.read_allocate]
    split <;> rfl
  have cell_linked : linked.read a =
      some ⟨data, fun e => (children e).address, Context.parent context⟩ := by
    rw [read_linked, if_neg selfNotFresh.symm, cell]
  have fresh_linked : linked.read heap.size = some { newCell key with parent := some a } := by
    rw [read_linked, if_pos rfl]
  have before : ∀ p, (children edge).address = some p →
      p ≠ a ∧ p ≠ heap.size ∧ ∃ child, linked.read p = some child := by
    intro p child
    rcases child_read represented child with ⟨member, cell', live⟩
    have other : p ≠ heap.size :=
      notFresh p (mem_addresses_plug.mpr (Or.inl (mem_addresses_of_child member)))
    refine ⟨?_, other, cell', by rw [read_linked, if_neg other, live]⟩
    rintro rfl
    exact apart.1.1 member
  rcases attach_spec (e := edge) cell_linked fresh_linked selfNotFresh before with
    ⟨heap', attached, _, self_eq, fresh_eq, _, others⟩
  -- what is outside the subtree that was cut off is as before
  have kept : ∀ b ∈ (plug context (.node a data children)).addresses, b ≠ a →
      b ∉ (children edge).addresses → heap'.read b = heap.read b := by
    intro b member notSelf notCut
    rw [others b notSelf (notFresh b member), read_linked, if_neg (notFresh b member)]
    intro cut
    exact notCut (child_read represented cut).1
  refine ⟨heap', ?_, ?_, ?_⟩
  · have fresh_made : (heap.allocate (newCell key)).read heap.size = some (newCell key) := by
      rw [Heap.read_allocate, if_pos rfl]
    rw [PatriciaTrie.attachNew, update_eq fresh_made, ok_bind, linked_eq, deref_eq cell_linked,
      ok_bind, edge_eq, attached]
    rfl
  · rcases represents_plug_iff.mp represented with ⟨outer, _, below⟩
    rw [Place.hang, Place.tree, edge_eq, represents_plug_iff]
    refine ⟨⟨?_, ?_, ?_⟩, fresh_eq, fun _ => trivial⟩
    · rw [self_eq, setEdge_children]
      rfl
    · apply (below (!edge)).congr
      intro b member
      apply kept b (mem_addresses_plug.mpr (Or.inl (mem_addresses_of_child member)))
      · rintro rfl
        exact apart'.1.1 member
      · exact (apart'.2 b member).1
    · apply outer.congr
      intro b member
      apply kept b (mem_addresses_plug.mpr (Or.inr member))
      · rintro rfl
        exact apart.1.2 member
      · intro cut
        exact (apart.2 b cut).2 member
  · rw [Place.hang, Place.tree, edge_eq]
    exact distinct_plug_leaf distinct isFresh edge

variable {frame : Frame (NodeData T)}

/-- The node above the focus is another one, and so is the one aside. -/
theorem frame_apart
    (distinct : (plug (frame :: context) (.node a data children)).Distinct) :
    frame.address ≠ a ∧ frame.sibling.address ≠ some a := by
  rcases distinct_plug_iff.mp distinct with ⟨_, _, apart⟩
  have notAbove := apart a (by simp)
  rw [Context.addresses_cons, List.mem_cons, List.mem_append] at notAbove
  constructor
  · rintro rfl
    exact notAbove (Or.inl rfl)
  · intro same
    apply notAbove
    cases found : frame.sibling with
    | empty =>
        rw [found] at same
        cases same
    | node b data' children' =>
        rw [found] at same
        cases same
        simp

/-- The focus is on the edge that the frame names. -/
theorem which_frame {build : Build} {heap' : NodeHeap T} {parent : NodePtr}
    (distinct : (plug (frame :: context) (.node a data children)).Distinct)
    (live : heap'.read frame.address = some ⟨frame.data,
      fun e => if e = frame.edge then some a else frame.sibling.address, parent⟩) :
    which build heap' (some frame.address) (some a) = .ok frame.edge := by
  apply which_eq live
  · exact if_pos rfl
  · dsimp only
    rw [if_neg (by cases frame.edge <;> decide)]
    exact (frame_apart distinct).2

/-- The edge of the frame when another node takes the place of the focus. -/
theorem setEdge_frame (p q : NodePtr) :
    setEdge (fun e => if e = frame.edge then p else frame.sibling.address) frame.edge q =
      fun e => if e = frame.edge then q else frame.sibling.address := by
  funext e
  unfold setEdge
  by_cases same : e = frame.edge
  · rw [if_pos same, if_pos same]
  · rw [if_neg same, if_neg same]
    exact if_neg same

/-- Another node is attached to the node above in place of the focus, which is cut off. -/
theorem attach_frame {heap : NodeHeap T} {n : Address} {self new : PatriciaNode T}
    {parent : NodePtr} (above : heap.read frame.address = some ⟨frame.data,
      fun e => if e = frame.edge then some a else frame.sibling.address, parent⟩)
    (live : heap.read a = some self) (live' : heap.read n = some new)
    (aboveNotSelf : frame.address ≠ a) (aboveNotNew : frame.address ≠ n) (selfNotNew : a ≠ n) :
    ∃ heap', attach heap (some frame.address) frame.edge (some n) = .ok (some a, heap') ∧
      heap'.size = heap.size ∧
      heap'.read frame.address = some ⟨frame.data,
        fun e => if e = frame.edge then some n else frame.sibling.address, parent⟩ ∧
      heap'.read n = some { new with parent := some frame.address } ∧
      heap'.read a = some { self with parent := none } ∧
      ∀ b, b ≠ frame.address → b ≠ n → b ≠ a → heap'.read b = heap.read b := by
  have there : (if frame.edge = frame.edge then some a else frame.sibling.address) = some a :=
    if_pos rfl
  have before : ∀ p, (if frame.edge = frame.edge then some a else frame.sibling.address) =
      some p → p ≠ frame.address ∧ p ≠ n ∧ ∃ child, heap.read p = some child := by
    intro p same
    rw [there] at same
    cases same
    exact ⟨aboveNotSelf.symm, selfNotNew, self, live⟩
  rcases attach_spec (e := frame.edge) above live' aboveNotNew.symm before with
    ⟨heap', attached, size_eq, above_eq, new_eq, cut, others⟩
  rw [setEdge_frame] at above_eq
  refine ⟨heap', ?_, size_eq, above_eq, new_eq, cut a self there live, ?_⟩
  · rw [attached]
    dsimp only
    rw [there]
  · intro b notAbove notNew notSelf
    apply others b notAbove notNew
    dsimp only
    rw [there]
    rintro ⟨⟩
    exact notSelf rfl

/-- The nodes around the focus are as before when only the focus and the node
above it change. -/
theorem context_congr {heap' : NodeHeap T}
    (represented : Represents heap none (plug (frame :: context) (.node a data children)))
    (distinct : (plug (frame :: context) (.node a data children)).Distinct)
    (kept : ∀ b, b < heap.size → b ∉ (LinkedTree.node a data children).addresses →
      b ≠ frame.address → heap'.read b = heap.read b)
    {hole : NodePtr} (above : heap'.read frame.address = some ⟨frame.data,
      fun e => if e = frame.edge then hole else frame.sibling.address,
      Context.parent context⟩) :
    ContextRepresents heap' (frame :: context) hole := by
  rcases represents_plug_iff.mp represented with ⟨⟨_, sibling, outer⟩, _⟩
  rcases distinct_plug_iff.mp distinct with ⟨_, around, apart⟩
  have kept' : ∀ b ∈ Context.addresses (frame :: context), b ≠ frame.address →
      heap'.read b = heap.read b := by
    intro b member notAbove
    apply kept b (represented.lt_size (mem_addresses_plug.mpr (Or.inr member)))
    · exact fun inside => apart b inside member
    · exact notAbove
  rw [Context.addresses_cons, List.nodup_cons, List.mem_append] at around
  refine ⟨above, ?_, ?_⟩
  · apply sibling.congr
    intro b member
    apply kept' b (by simp [member])
    rintro rfl
    exact around.1 (Or.inl member)
  · apply outer.congr
    intro b member
    apply kept' b (by simp [member])
    rintro rfl
    exact around.1 (Or.inr member)

/-- The rest of the tree is as before when only the focus, the node above it and
new nodes change. -/
theorem frame_congr {heap' : NodeHeap T}
    (represented : Represents heap none (plug (frame :: context) (.node a data children)))
    (distinct : (plug (frame :: context) (.node a data children)).Distinct)
    (kept : ∀ b, b < heap.size → b ≠ a → b ≠ frame.address → heap'.read b = heap.read b)
    {hole : NodePtr} (above : heap'.read frame.address = some ⟨frame.data,
      fun e => if e = frame.edge then hole else frame.sibling.address,
      Context.parent context⟩) :
    ContextRepresents heap' (frame :: context) hole ∧
      ∀ e, Represents heap' (some a) (children e) := by
  rcases represents_plug_iff.mp represented with ⟨_, _, below⟩
  rcases distinct_plug_iff.mp distinct with ⟨_, _, apart⟩
  constructor
  · apply context_congr represented distinct _ above
    intro b old outside notAbove
    apply kept b old _ notAbove
    rintro rfl
    exact outside (by simp)
  · intro e
    apply (below e).congr
    intro b member
    have inside : b ∈ (LinkedTree.node a data children).addresses := mem_addresses_of_child member
    apply kept b (represented.lt_size (mem_addresses_plug.mpr (Or.inl inside)))
    · rintro rfl
      exact (distinct.apart e).1.1 member
    · rintro rfl
      exact apart _ inside (by simp)

/-- What linking the new node between the focus and the node above does to the heap. -/
theorem spliceNew_eq (build : Build) (root : NodePtr) (key : PatriciaKey)
    (represented : Represents heap none (plug (frame :: context) (.node a data children)))
    (distinct : (plug (frame :: context) (.node a data children)).Distinct) :
    ∃ heap', PatriciaTrie.spliceNew build ⟨root, heap.allocate (newCell key)⟩ (some a)
        (some heap.size) key.sizeBits = .ok ⟨root, heap'⟩ ∧
      heap'.read a = some ⟨data, fun e => (children e).address, some heap.size⟩ ∧
      heap'.read heap.size = some { newCell key with
        parent := some frame.address
        edges := setEdge (fun _ => none) (data.key.testBit key.sizeBits) (some a) } ∧
      heap'.read frame.address = some ⟨frame.data,
        fun e => if e = frame.edge then some heap.size else frame.sibling.address,
        Context.parent context⟩ ∧
      ∀ b, b < heap.size → b ≠ a → b ≠ frame.address → heap'.read b = heap.read b := by
  generalize bit_eq : data.key.testBit key.sizeBits = bit
  have inHeap := Heap.lt_size_of_read (focus_read represented)
  have inHeap' := Heap.lt_size_of_read (frame_read represented)
  have selfNotFresh : a ≠ heap.size := Nat.ne_of_lt inHeap
  have aboveNotFresh : frame.address ≠ heap.size := Nat.ne_of_lt inHeap'
  have aboveNotSelf := (frame_apart distinct).1
  -- the heap after each assignment, in the order of the source
  let made := heap.allocate (newCell key)
  let withParent := made.write heap.size { newCell (T := T) key with parent := some frame.address }
  let aboveLinked := withParent.write frame.address ⟨frame.data,
    fun e => if e = frame.edge then some heap.size else frame.sibling.address,
    Context.parent context⟩
  let withEdge := aboveLinked.write heap.size { newCell (T := T) key with
    parent := some frame.address, edges := setEdge (fun _ => none) bit (some a) }
  let final := withEdge.write a
    ⟨data, fun e => (children e).address, some heap.size⟩
  have read_made : ∀ b, made.read b = if b = heap.size then some (newCell key) else heap.read b :=
    Heap.read_allocate heap (newCell key)
  have read_withParent : ∀ b, withParent.read b = if b = heap.size then
      some { newCell key with parent := some frame.address } else made.read b :=
    Heap.read_write (by simp [made]) _
  have read_aboveLinked : ∀ b, aboveLinked.read b = if b = frame.address then
      some ⟨frame.data, fun e => if e = frame.edge then some heap.size else frame.sibling.address,
        Context.parent context⟩ else withParent.read b :=
    Heap.read_write (by simpa [withParent, made] using Nat.lt_succ_of_lt inHeap') _
  have read_withEdge : ∀ b, withEdge.read b = if b = heap.size then
      some { newCell key with
        parent := some frame.address, edges := setEdge (fun _ => none) bit (some a) }
      else aboveLinked.read b :=
    Heap.read_write (by simp [aboveLinked, withParent, made]) _
  have read_final : ∀ b, final.read b = if b = a then
      some ⟨data, fun e => (children e).address, some heap.size⟩ else withEdge.read b :=
    Heap.read_write (by
      simpa [withEdge, aboveLinked, withParent, made] using Nat.lt_succ_of_lt inHeap) _
  refine ⟨final, ?_, ?_, ?_, ?_, ?_⟩
  · have self_made : made.read a = some ⟨data, fun e => (children e).address,
        some frame.address⟩ := by
      rw [read_made, if_neg selfNotFresh, focus_read represented]
      rfl
    have fresh_made : made.read heap.size = some (newCell key) := by
      rw [read_made, if_pos rfl]
    have above_withParent : withParent.read frame.address = some ⟨frame.data,
        fun e => if e = frame.edge then some a else frame.sibling.address,
        Context.parent context⟩ := by
      rw [read_withParent, if_neg aboveNotFresh, read_made, if_neg aboveNotFresh,
        frame_read represented]
      rfl
    have fresh_aboveLinked : aboveLinked.read heap.size =
        some { newCell key with parent := some frame.address } := by
      rw [read_aboveLinked, if_neg aboveNotFresh.symm, read_withParent, if_pos rfl]
    have self_withEdge : withEdge.read a = some ⟨data, fun e => (children e).address,
        some frame.address⟩ := by
      rw [read_withEdge, if_neg selfNotFresh, read_aboveLinked, if_neg aboveNotSelf.symm,
        read_withParent, if_neg selfNotFresh, self_made]
    have made_eq : heap.allocate (newCell key) = made := rfl
    rw [PatriciaTrie.spliceNew, made_eq, deref_eq self_made, ok_bind, update_eq fresh_made, ok_bind]
    dsimp only
    rw [if_neg (Option.some_ne_none _), which_frame distinct above_withParent, ok_bind,
      deref_eq above_withParent, ok_bind, update_eq above_withParent, ok_bind]
    dsimp only
    rw [setEdge_frame, if_pos rfl, update_eq fresh_aboveLinked, ok_bind]
    dsimp only
    rw [bit_eq, update_eq self_withEdge, ok_bind]
    rfl
  · rw [read_final, if_pos rfl]
  · rw [read_final, if_neg selfNotFresh.symm, read_withEdge, if_pos rfl]
  · rw [read_final, if_neg aboveNotSelf, read_withEdge, if_neg aboveNotFresh, read_aboveLinked,
      if_pos rfl]
  · intro b old notSelf notAbove
    have notNew : b ≠ heap.size := Nat.ne_of_lt old
    rw [read_final, if_neg notSelf, read_withEdge, if_neg notNew, read_aboveLinked,
      if_neg notAbove, read_withParent, if_neg notNew, read_made, if_neg notNew]

theorem spliceNew_spec (build : Build) (root : NodePtr) (key : PatriciaKey)
    (represented : Represents heap none (plug (frame :: context) (.node a data children)))
    (distinct : (plug (frame :: context) (.node a data children)).Distinct) :
    ∃ heap', PatriciaTrie.spliceNew build ⟨root, heap.allocate (newCell key)⟩ (some a)
        (some heap.size) key.sizeBits = .ok ⟨root, heap'⟩ ∧
      Represents heap' none
        (Place.splice key heap.size (frame :: context) a data children).tree ∧
      (Place.splice key heap.size (frame :: context) a data children).tree.Distinct := by
  rcases spliceNew_eq build root key represented distinct with
    ⟨heap', spliced, self, new, above, kept⟩
  rcases frame_congr represented distinct kept above with ⟨outer, below⟩
  refine ⟨heap', spliced, ?_, ?_⟩
  · rw [Place.splice, Place.tree, represents_plug_iff]
    refine ⟨outer, ?_, ?_⟩
    · have edges_eq : setEdge (fun _ => none) (data.key.testBit key.sizeBits) (some a) =
          fun e => (LinkedTree.onEdge (data.key.testBit key.sizeBits) (.node a data children)
            .empty e).address := by
        funext e
        unfold setEdge LinkedTree.onEdge
        split <;> rfl
      rw [new, edges_eq]
      rfl
    · intro e
      dsimp only [LinkedTree.onEdge]
      split
      · exact ⟨self, below⟩
      · trivial
  · have isFresh := notMem_size represented
    have node_perm := LinkedTree.addresses_node_perm heap.size (newData (T := T) key)
      (data.key.testBit key.sizeBits)
      (LinkedTree.onEdge (data.key.testBit key.sizeBits) (.node a data children) .empty)
    rw [LinkedTree.onEdge_self, LinkedTree.onEdge_not] at node_perm
    rw [Place.splice, Place.tree]
    apply distinct_plug_of_subperm distinct (List.nodup_singleton heap.size)
      (by simpa using isFresh)
    refine node_perm.subperm.trans (List.Sublist.subperm ?_)
    simp

/-- What linking a node above the focus and the new node does to the heap. -/
theorem branchNew_eq (build : Build) (key : PatriciaKey) (diffbit : Nat)
    (represented : Represents heap none (plug (frame :: context) (.node a data children)))
    (distinct : (plug (frame :: context) (.node a data children)).Distinct) :
    ∃ heap', PatriciaTrie.branchNew build (heap.allocate (newCell key)) (some a) (some heap.size)
        key diffbit = .ok heap' ∧
      heap'.read a = some ⟨data, fun e => (children e).address, some (heap.size + 1)⟩ ∧
      heap'.read heap.size = some { newCell key with parent := some (heap.size + 1) } ∧
      heap'.read (heap.size + 1) = some ⟨⟨diffbit, none, .empty⟩,
        fun e => if e = key.testBit diffbit then some heap.size else some a,
        some frame.address⟩ ∧
      heap'.read frame.address = some ⟨frame.data,
        fun e => if e = frame.edge then some (heap.size + 1) else frame.sibling.address,
        Context.parent context⟩ ∧
      ∀ b, b < heap.size → b ≠ a → b ≠ frame.address → heap'.read b = heap.read b := by
  generalize bit_eq : key.testBit diffbit = bit
  have inHeap := Heap.lt_size_of_read (focus_read represented)
  have inHeap' := Heap.lt_size_of_read (frame_read represented)
  have selfNotFresh : a ≠ heap.size := Nat.ne_of_lt inHeap
  have aboveNotFresh : frame.address ≠ heap.size := Nat.ne_of_lt inHeap'
  have selfNotTop : a ≠ heap.size + 1 := Nat.ne_of_lt (Nat.lt_succ_of_lt inHeap)
  have aboveNotTop : frame.address ≠ heap.size + 1 := Nat.ne_of_lt (Nat.lt_succ_of_lt inHeap')
  have freshNotTop : heap.size ≠ heap.size + 1 := Nat.ne_of_lt (Nat.lt_succ_self _)
  have aboveNotSelf := (frame_apart distinct).1
  -- the heap with the new node
  generalize made_eq : heap.allocate (newCell key) = made
  have made_size : made.size = heap.size + 1 := by
    rw [← made_eq, Heap.size_allocate]
  have read_made : ∀ b, made.read b =
      if b = heap.size then some (newCell key) else heap.read b := by
    rw [← made_eq]
    exact Heap.read_allocate heap (newCell key)
  have self_made : made.read a = some ⟨data, fun e => (children e).address,
      some frame.address⟩ := by
    rw [read_made, if_neg selfNotFresh, focus_read represented]
    rfl
  have fresh_made : made.read heap.size = some (newCell key) := by
    rw [read_made, if_pos rfl]
  -- the heap with the node above both
  rcases makeBranch_onEdge (some frame.address) diffbit bit fresh_made self_made
    selfNotFresh.symm with ⟨branched, branch_eq, _, top, fresh_branched, self_branched, others⟩
  rw [made_size] at branch_eq top fresh_branched self_branched others
  have above_branched : branched.read frame.address = some ⟨frame.data,
      fun e => if e = frame.edge then some a else frame.sibling.address,
      Context.parent context⟩ := by
    rw [others _ aboveNotTop aboveNotFresh aboveNotSelf, read_made, if_neg aboveNotFresh,
      frame_read represented]
    rfl
  -- the heap with that node attached to the old parent
  rcases attach_frame above_branched self_branched top aboveNotSelf aboveNotTop selfNotTop with
    ⟨attached, attach_eq, _, above_eq, top_eq, self_attached, read_others⟩
  have fresh_attached : attached.read heap.size =
      some { newCell key with parent := some (heap.size + 1) } := by
    rw [read_others _ aboveNotFresh.symm freshNotTop selfNotFresh.symm, fresh_branched]
  have read_final : ∀ b, (attached.write a ⟨data, fun e => (children e).address,
      some (heap.size + 1)⟩).read b = if b = a then
      some ⟨data, fun e => (children e).address, some (heap.size + 1)⟩ else attached.read b :=
    Heap.read_write (Heap.lt_size_of_read self_attached) _
  refine ⟨attached.write a ⟨data, fun e => (children e).address, some (heap.size + 1)⟩,
    ?_, ?_, ?_, ?_, ?_, ?_⟩
  · rw [PatriciaTrie.branchNew, deref_eq self_made, ok_bind]
    dsimp only
    rw [bit_eq, branch_eq, ok_bind]
    dsimp only
    rw [which_frame distinct above_branched, ok_bind, attach_eq, ok_bind]
    dsimp only
    rw [update_eq self_attached]
  · rw [read_final, if_pos rfl]
  · rw [read_final, if_neg selfNotFresh.symm, fresh_attached]
  · rw [read_final, if_neg selfNotTop.symm, top_eq]
  · rw [read_final, if_neg aboveNotSelf, above_eq]
  · intro b old notSelf notAbove
    have notFresh : b ≠ heap.size := Nat.ne_of_lt old
    have notTop : b ≠ heap.size + 1 := Nat.ne_of_lt (Nat.lt_succ_of_lt old)
    rw [read_final, if_neg notSelf, read_others b notAbove notTop notSelf,
      others b notTop notFresh notSelf, read_made, if_neg notFresh]

theorem branchNew_spec (build : Build) (key : PatriciaKey) (diffbit : Nat)
    (represented : Represents heap none (plug (frame :: context) (.node a data children)))
    (distinct : (plug (frame :: context) (.node a data children)).Distinct) :
    ∃ heap', PatriciaTrie.branchNew build (heap.allocate (newCell key)) (some a) (some heap.size)
        key diffbit = .ok heap' ∧
      Represents heap' none
        (Place.branch key heap.size diffbit (frame :: context) a data children).tree ∧
      (Place.branch key heap.size diffbit (frame :: context) a data children).tree.Distinct := by
  rcases branchNew_eq build key diffbit represented distinct with
    ⟨heap', branched, self, new, top, above, kept⟩
  rcases frame_congr represented distinct kept above with ⟨outer, below⟩
  refine ⟨heap', branched, ?_, ?_⟩
  · rw [Place.branch, Place.tree, represents_plug_iff]
    refine ⟨⟨?_, ⟨self, below⟩, outer⟩, ?_, fun _ => trivial⟩
    · rw [top]
      rfl
    · rw [new]
      rfl
  · have isFresh := notMem_size represented
    have isFresh' : heap.size + 1 ∉ (plug (frame :: context) (.node a data children)).addresses :=
      fun member => absurd (represented.lt_size member) (Nat.not_lt_of_le (Nat.le_succ _))
    have freshTwo : [heap.size + 1, heap.size].Nodup := by simp
    have node_perm := LinkedTree.addresses_node_perm (heap.size + 1)
      (⟨diffbit, none, .empty⟩ : NodeData T) (key.testBit diffbit)
      (LinkedTree.onEdge (key.testBit diffbit) (.leaf heap.size (newData key))
        (.node a data children))
    rw [LinkedTree.onEdge_self, LinkedTree.onEdge_not] at node_perm
    rw [Place.branch, Place.tree, plug_cons]
    apply distinct_plug_of_subperm distinct freshTwo (by simpa using ⟨isFresh', isFresh⟩)
    exact node_perm.subperm

end Changes

/-! ## The whole insertion -/

theorem address_plug {t t' : LinkedTree (NodeData T)} (context : Context (NodeData T))
    (same : t.address = t'.address) : (plug context t).address = (plug context t').address := by
  induction context generalizing t t' with
  | nil => exact same
  | cons frame context ih =>
      rw [plug_cons, plug_cons]
      apply ih
      rfl

/-- Below the root, the pointer to the tree does not depend on the focus. -/
theorem address_plug_cons (frame : Frame (NodeData T)) (context : Context (NodeData T))
    (t t' : LinkedTree (NodeData T)) :
    (plug (frame :: context) t).address = (plug (frame :: context) t').address :=
  address_plug context (show (frame.fill t).address = (frame.fill t').address from rfl)

/-- The data in the focus can be changed. -/
theorem update_focus {trie : PatriciaTrie T} {context : Context (NodeData T)} {a : Address}
    {data : NodeData T} {children : Bool → LinkedTree (NodeData T)}
    (onHeap : OnHeap trie (plug context (.node a data children)))
    (change : NodeData T → NodeData T) :
    ∃ heap', update trie.heap (some a) (fun n => { n with data := change n.data }) = .ok heap' ∧
      OnHeap ⟨trie.root, heap'⟩ (plug context (.node a (change data) children)) := by
  have live := focus_read onHeap.represents
  refine ⟨_, update_eq live _, ?_, ?_, ?_⟩
  · rw [onHeap.root_eq]
    exact address_plug context rfl
  · rcases represents_plug_iff.mp onHeap.represents with ⟨outer, _, below⟩
    rcases distinct_plug_iff.mp onHeap.distinct with ⟨_, _, apart⟩
    have kept : ∀ b, b ≠ a → (trie.heap.write a ⟨change data, fun e => (children e).address,
        Context.parent context⟩).read b = trie.heap.read b := by
      intro b notSelf
      rw [Heap.read_write (Heap.lt_size_of_read live), if_neg notSelf]
    rw [represents_plug_iff]
    refine ⟨?_, ?_, ?_⟩
    · apply outer.congr
      intro b member
      apply kept
      rintro rfl
      exact apart b (by simp) member
    · rw [Heap.read_write (Heap.lt_size_of_read live), if_pos rfl]
    · intro e
      apply (below e).congr
      intro b member
      apply kept
      rintro rfl
      exact (onHeap.distinct.apart e).1.1 member
  · have same : (plug context (.node a (change data) children)).addresses.Perm
        (plug context (.node a data children)).addresses :=
      (addresses_plug context _).trans (addresses_plug context (.node a data children)).symm
    exact same.nodup_iff.mpr onHeap.distinct

namespace PatriciaTrie

theorem placeNew_spec (build : Build) {trie : PatriciaTrie T} {context : Context (NodeData T)}
    {a : Address} {data : NodeData T} {children : Bool → LinkedTree (NodeData T)}
    {key : PatriciaKey}
    {diffbit : Nat} {place : Place T}
    (onHeap : OnHeap trie (plug context (.node a data children)))
    (grafted : graft key trie.heap.size diffbit context a data children = some place) :
    ∃ trie', placeNew build trie (some a) key diffbit = .ok (some place.address, trie') ∧
      OnHeap trie' place.tree := by
  have made_eq : makeNode trie.heap key key.sizeBits =
      (some trie.heap.size, trie.heap.allocate (newCell key)) := rfl
  unfold placeNew
  rw [focus_deref onHeap.represents, ok_bind]
  dsimp only
  rw [made_eq]
  dsimp only
  unfold graft at grafted
  by_cases reuse : diffbit = key.sizeBits ∧ data.bit = key.sizeBits
  · rw [if_pos reuse] at grafted ⊢
    cases grafted
    exact ⟨trie, rfl, onHeap⟩
  · rw [if_neg reuse] at grafted ⊢
    by_cases hang : data.bit = diffbit
    · rw [if_pos hang] at grafted ⊢
      cases grafted
      rcases attachNew_spec key onHeap.represents onHeap.distinct with
        ⟨heap', attached, represented, distinct⟩
      refine ⟨⟨trie.root, heap'⟩, by rw [attached]; rfl, ?_, represented, distinct⟩
      rw [onHeap.root_eq]
      exact address_plug context rfl
    · rw [if_neg hang] at grafted ⊢
      cases context with
      | nil => cases grafted
      | cons frame context =>
          rw [if_neg (List.cons_ne_nil _ _)] at grafted
          by_cases splice : key.sizeBits = diffbit
          · rw [if_pos splice] at grafted ⊢
            cases grafted
            rcases spliceNew_spec build trie.root key onHeap.represents onHeap.distinct with
              ⟨heap', spliced, represented, distinct⟩
            refine ⟨⟨trie.root, heap'⟩, by rw [spliced]; rfl, ?_, represented, distinct⟩
            rw [onHeap.root_eq]
            exact address_plug_cons frame context _ _
          · rw [if_neg splice] at grafted ⊢
            cases grafted
            rcases branchNew_spec build key diffbit onHeap.represents onHeap.distinct with
              ⟨heap', branched, represented, distinct⟩
            refine ⟨⟨trie.root, heap'⟩, by rw [branched]; rfl, ?_, represented, distinct⟩
            rw [onHeap.root_eq]
            exact address_plug_cons frame context _ _

/-- Above the root there is no node that could be linked to a new one. -/
theorem placeNew_of_no_parent (build : Build) {trie : PatriciaTrie T} {a : Address}
    {data : NodeData T} {children : Bool → LinkedTree (NodeData T)} {key : PatriciaKey}
    {diffbit : Nat} (onHeap : OnHeap trie (.node a data children)) (notHere : data.bit ≠ diffbit)
    (notWhole : key.sizeBits ≠ diffbit) :
    placeNew build trie (some a) key diffbit = .error .nullDereference := by
  have made_eq : makeNode trie.heap key key.sizeBits =
      (some trie.heap.size, trie.heap.allocate (newCell key)) := rfl
  have live := onHeap.represents.1
  have notNew : a ≠ trie.heap.size := (Heap.lt_size_of_read live).ne
  have self : (trie.heap.allocate (newCell key)).read a =
      some ⟨data, fun e => (children e).address, none⟩ := by
    rw [Heap.read_allocate, if_neg notNew, live]
  have new : (trie.heap.allocate (newCell key)).read trie.heap.size = some (newCell key) := by
    rw [Heap.read_allocate, if_pos rfl]
  rcases makeBranch_onEdge none diffbit (!key.testBit diffbit) self new notNew with
    ⟨heap', made, _⟩
  have made' : makeBranch (trie.heap.allocate (newCell key)) none
      (if key.testBit diffbit then some a else some trie.heap.size)
      (if key.testBit diffbit then some trie.heap.size else some a) diffbit =
      .ok (some (trie.heap.allocate (newCell key)).size, heap') := by
    rw [← made]
    cases key.testBit diffbit <;> rfl
  rw [placeNew, deref_eq live, ok_bind]
  dsimp only
  rw [made_eq, if_neg fun same => notWhole same.1.symm, if_neg notHere, if_neg notWhole, branchNew,
    deref_eq self, ok_bind]
  dsimp only
  rw [made']
  rfl

/-- The tree when there is a root. -/
def rooted (fresh : Address) : LinkedTree (NodeData T) → LinkedTree (NodeData T)
  | .empty => .leaf fresh ⟨0, none, .empty⟩
  | t => t

theorem rooted_ne_empty (fresh : Address) (t : LinkedTree (NodeData T)) :
    rooted fresh t ≠ .empty := by
  cases t with
  | empty => exact fun impossible => by cases impossible
  | node a data children => exact fun impossible => by cases impossible

theorem makeRoot_spec {trie : PatriciaTrie T} {t : LinkedTree (NodeData T)}
    (onHeap : OnHeap trie t) :
    OnHeap (makeRoot trie) (rooted trie.heap.size t) := by
  cases t with
  | empty =>
      rw [makeRoot, onHeap.root_eq, LinkedTree.address_empty, if_pos rfl]
      refine ⟨rfl, ⟨?_, fun _ => trivial⟩, by simp [rooted, LinkedTree.leaf, LinkedTree.Distinct]⟩
      exact (Heap.read_allocate _ _ _).trans (if_pos rfl)
  | node a data children =>
      rw [makeRoot, onHeap.root_eq, LinkedTree.address_node, if_neg (Option.some_ne_none a)]
      exact onHeap

/-- Where an insertion stops: the node at the end of the walk down, the nodes
that the walk up passes, and the node where it stops. -/
structure Stopped (key : PatriciaKey) (t : LinkedTree (NodeData T))
    (passed context : Context (NodeData T))
    (bottom : NodeData T) (below : Bool → LinkedTree (NodeData T)) (a : Address) (data : NodeData T)
    (children : Bool → LinkedTree (NodeData T)) (diffbit : Nat) : Prop where
  tree_eq : plug context (.node a data children) = t
  passed_eq : ∃ b, .node a data children = plug passed (.node b bottom below)
  follows : ∀ frame ∈ passed ++ context,
    placing key frame.data = true ∧ frame.edge = turn key frame.data
  ends : placing key bottom = true → below (turn key bottom) = .empty
  diffbit_eq : diffbit = min (bitDiff key bottom.key) (min bottom.bit key.sizeBits)
  climbed : ∀ frame ∈ passed, diffbit ≤ frame.data.bit
  under : ∀ frame ∈ context.head?, frame.data.bit < diffbit

/-- What the two walks say of the place. -/
theorem Stopped.inKey {key : PatriciaKey} {t : LinkedTree (NodeData T)}
    {passed context : Context (NodeData T)} {bottom : NodeData T}
    {below : Bool → LinkedTree (NodeData T)} {a : Address} {data : NodeData T}
    {children : Bool → LinkedTree (NodeData T)} {diffbit : Nat}
    (stopped : Stopped key t passed context bottom below a data children diffbit) :
    diffbit ≤ key.sizeBits := by
  rw [stopped.diffbit_eq]
  exact (min_le_right _ _).trans (min_le_right _ _)

/-- The walk up does not go above the bit where the keys differ. -/
theorem Stopped.notAbove {key : PatriciaKey} {t : LinkedTree (NodeData T)}
    {passed context : Context (NodeData T)} {bottom : NodeData T}
    {below : Bool → LinkedTree (NodeData T)} {a : Address} {data : NodeData T}
    {children : Bool → LinkedTree (NodeData T)} {diffbit : Nat}
    (stopped : Stopped key t passed context bottom below a data children diffbit) :
    diffbit ≤ data.bit := by
  rcases stopped.passed_eq with ⟨b, passed_eq⟩
  rcases List.eq_nil_or_concat passed with rfl | ⟨inner, last, rfl⟩
  · cases passed_eq
    rw [stopped.diffbit_eq]
    exact (min_le_right _ _).trans (min_le_left _ _)
  · rw [List.concat_eq_append, plug_append] at passed_eq
    cases passed_eq
    exact stopped.climbed last (by simp)

/-- The two walks of `insert_node` end, and the rest is done where they stop. -/
theorem insertNode_stops (build : Build) {trie : PatriciaTrie T} {t : LinkedTree (NodeData T)}
    (onHeap : OnHeap trie t) (key : PatriciaKey) :
    ∃ root passed context bottom below a data children diffbit,
      Stopped key (rooted root t) passed context bottom below a data children diffbit ∧
      OnHeap (makeRoot trie) (plug context (.node a data children)) ∧
      insertNode build trie key = placeNew build (makeRoot trie) (some a) key diffbit := by
  have onHeap' := makeRoot_spec onHeap
  have nonempty := rooted_ne_empty trie.heap.size t
  refine ⟨trie.heap.size, ?_⟩
  generalize rooted trie.heap.size t = t' at onHeap' nonempty
  -- the walk down
  rcases walked : t'.descend (placing key) (turn key) [] with ⟨context₀, found⟩
  have same := plug_descend (placing key) (turn key) [] t'
  rw [walked, plug_nil] at same
  rcases descend_end walked nonempty (by simp) with ⟨follows, b, bottom, below, rfl, ends⟩
  have down : descendLoop (placing key) key (makeRoot trie).heap ((makeRoot trie).heap.size + 1)
      (makeRoot trie).root = .ok (some b) := by
    have enough := onHeap'.represents.length_le onHeap'.distinct
    rw [onHeap'.root_eq, descendLoop_eq [] onHeap'.represents nonempty
      (enough.trans (Nat.le_succ _)), walked]
    rfl
  rw [← same] at onHeap'
  have read_bottom := focus_deref onHeap'.represents
  generalize diffbit_eq : min (bitDiff key bottom.key) (min bottom.bit key.sizeBits) = diffbit
  -- the walk up
  rcases climbed : climb (fun data : NodeData T => diffbit ≤ data.bit) context₀
    (.node b bottom below) with ⟨context, stop⟩
  rcases climb_end climbed with ⟨passed, rfl, stop_eq, asked, last⟩
  have up : climbLoop diffbit (makeRoot trie).heap ((makeRoot trie).heap.size + 1) (some b) =
      .ok stop.address := by
    have enough := onHeap'.length_le
    rw [← LinkedTree.address_node b bottom below, climbLoop_eq onHeap'.represents
      (fun impossible => by cases impossible) (by omega), climbed]
  cases stop with
  | empty =>
      exact absurd stop_eq.symm (plug_ne_empty passed (fun impossible => by cases impossible))
  | node a data children =>
      rw [plug_append, ← stop_eq] at onHeap' same
      refine ⟨passed, context, bottom, below, a, data, children, diffbit,
        ⟨same, ⟨b, stop_eq⟩, follows, ends, diffbit_eq.symm, ?_, ?_⟩, onHeap', ?_⟩
      · intro frame member
        exact of_decide_eq_true (asked frame member)
      · intro frame member
        exact Nat.lt_of_not_le (of_decide_eq_false (last frame member))
      · have clamp : (if (if bottom.bit < key.sizeBits then bottom.bit else key.sizeBits) <
            bitDiff key bottom.key then
              if bottom.bit < key.sizeBits then bottom.bit else key.sizeBits
            else bitDiff key bottom.key) = diffbit := by
          rw [← diffbit_eq]
          split <;> split <;> omega
        unfold insertNode
        dsimp only
        rw [down, ok_bind, read_bottom, ok_bind]
        dsimp only
        rw [clamp, up, ok_bind, LinkedTree.address_node]

/-- The insertion changes the tree as `graft` says, where that is possible. -/
theorem insertNode_spec (build : Build) {trie : PatriciaTrie T} {t : LinkedTree (NodeData T)}
    (onHeap : OnHeap trie t) (key : PatriciaKey) :
    ∃ root fresh passed context bottom below a data children diffbit,
      Stopped key (rooted root t) passed context bottom below a data children diffbit ∧
      ∀ place, graft key fresh diffbit context a data children = some place →
        ∃ trie', insertNode build trie key = .ok (some place.address, trie') ∧
          OnHeap trie' place.tree := by
  rcases insertNode_stops build onHeap key with
    ⟨root, passed, context, bottom, below, a, data, children, diffbit, stopped, onHeap', placed⟩
  refine ⟨root, (makeRoot trie).heap.size, passed, context, bottom, below, a, data, children,
    diffbit, stopped, fun place grafted => ?_⟩
  rw [placed]
  exact placeNew_spec build onHeap' grafted

/-- The end of `insert`, in the trie and in the set: the value is stored unless
there is one. -/
theorem store_spec {trie : PatriciaTrie T} {place : Place T} (onHeap : OnHeap trie place.tree)
    (value : T) :
    (place.data.value.isSome = true → OnHeap trie (place.store value)) ∧
      ∃ heap', update trie.heap (some place.address)
          (fun n => { n with data := { n.data with value := some value } }) = .ok heap' ∧
        (place.data.value.isSome = false → OnHeap ⟨trie.root, heap'⟩ (place.store value)) := by
  rcases update_focus onHeap (fun data => { data with value := some value }) with
    ⟨heap', updated, changed⟩
  constructor
  · intro present
    rcases Option.isSome_iff_exists.mp present with ⟨old, found⟩
    have unchanged : { place.data with value := place.data.value.or (some value) } =
        place.data := by
      rw [found]
      rcases place with ⟨_, _, ⟨_, _, _⟩, _⟩
      dsimp only at found ⊢
      rw [found]
      rfl
    rw [Place.store, unchanged]
    exact onHeap
  · refine ⟨heap', updated, fun absent => ?_⟩
    rw [Option.isSome_eq_false_iff, Option.isNone_iff_eq_none] at absent
    rw [Place.store, absent]
    exact changed

theorem insert_spec {build : Build} {trie trie' : PatriciaTrie T} {key : PatriciaKey}
    {place : Place T} (value : T)
    (inserted : insertNode build trie key = .ok (some place.address, trie'))
    (onHeap : OnHeap trie' place.tree) :
    ∃ trie'', insert build trie key value = .ok (place.data.value.isNone, trie'') ∧
      OnHeap trie'' (place.store value) := by
  rcases store_spec onHeap value with ⟨unchanged, heap', updated, changed⟩
  unfold insert
  rw [inserted, ok_bind]
  dsimp only
  rw [focus_deref onHeap.represents, ok_bind]
  dsimp only
  cases present : place.data.value.isSome with
  | true =>
      rw [if_pos rfl, Option.isNone_eq_false_iff.mpr present]
      exact ⟨trie', rfl, unchanged present⟩
  | false =>
      rw [if_neg Bool.false_ne_true, updated, ok_bind,
        Option.isSome_eq_false_iff.mp present]
      exact ⟨⟨trie'.root, heap'⟩, rfl, changed present⟩

end PatriciaTrie

/-- A node with a value is where an iterator to it stays. -/
theorem iteratorAt_of_isSome {heap : NodeHeap T} {a : Address} {node : PatriciaNode T}
    (live : heap.read a = some node) (present : node.data.value.isSome) :
    iteratorAt heap (some a) = .ok (some a) := by
  rw [iteratorAt, if_neg (Option.some_ne_none a), deref_eq live, ok_bind, if_pos present]
  rfl

theorem PatriciaSet.insert_spec {build : Build} (keyMaker : T → PatriciaKey)
    {set set' : PatriciaSet T} {value : T} {place : Place T}
    (inserted : PatriciaTrie.insertNode build set (keyMaker value) =
      .ok (some place.address, set'))
    (onHeap : OnHeap set' place.tree) :
    ∃ set'', insert build keyMaker set value =
        .ok ((some place.address, place.data.value.isNone), set'') ∧
      OnHeap set'' (place.store value) := by
  rcases PatriciaTrie.store_spec onHeap value with ⟨unchanged, heap', updated, changed⟩
  unfold insert
  rw [inserted, ok_bind]
  dsimp only
  rw [skCheck_of (Option.some_ne_none _), ok_bind, focus_deref onHeap.represents, ok_bind]
  dsimp only
  cases present : place.data.value.isSome with
  | true =>
      rw [if_pos rfl, iteratorAt_of_isSome (focus_read onHeap.represents) present,
        Option.isNone_eq_false_iff.mpr present]
      exact ⟨set', rfl, unchanged present⟩
  | false =>
      have after := changed present
      have stored : (place.data.value.or (some value)).isSome := by simp
      rw [if_neg Bool.false_ne_true, updated, ok_bind,
        iteratorAt_of_isSome (focus_read after.represents) stored,
        Option.isSome_eq_false_iff.mp present]
      exact ⟨⟨set'.root, heap'⟩, rfl, after⟩

end SkAsync.Patricia
