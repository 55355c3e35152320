import SkAsync.Patricia.Trie

/-!
# Walks in a trie

The loops of the trie follow the walks on the tree that the heap represents.
They end, since a tree has no more nodes than were ever allocated.
-/

namespace SkAsync.Patricia

open SkAsync.Library

variable {T : Type}

/-- The trie is the tree `t` on its heap. -/
structure OnHeap (trie : PatriciaTrie T) (t : LinkedTree (NodeData T)) : Prop where
  root_eq : trie.root = t.address
  represents : Represents trie.heap none t
  distinct : t.Distinct

theorem onHeap_empty : OnHeap (PatriciaTrie.empty : PatriciaTrie T) .empty :=
  ⟨rfl, trivial, List.nodup_nil⟩

/-- The node in the focus can be read. -/
theorem focus_read {heap : NodeHeap T} {context : Context (NodeData T)} {a : Address}
    {data : NodeData T} {children : Bool → LinkedTree (NodeData T)}
    (represented : Represents heap none (plug context (.node a data children))) :
    heap.read a = some ⟨data, fun e => (children e).address, Context.parent context⟩ :=
  (represents_plug_iff.mp represented).2.1

theorem focus_deref {heap : NodeHeap T} {context : Context (NodeData T)} {a : Address}
    {data : NodeData T} {children : Bool → LinkedTree (NodeData T)}
    (represented : Represents heap none (plug context (.node a data children))) :
    deref heap (some a) = .ok ⟨data, fun e => (children e).address, Context.parent context⟩ :=
  deref_eq (focus_read represented)

/-- The node above the focus can be read. -/
theorem frame_read {heap : NodeHeap T} {frame : Frame (NodeData T)}
    {context : Context (NodeData T)} {t : LinkedTree (NodeData T)}
    (represented : Represents heap none (plug (frame :: context) t)) :
    heap.read frame.address = some ⟨frame.data,
      fun e => if e = frame.edge then t.address else frame.sibling.address,
      Context.parent context⟩ :=
  (represents_plug_iff.mp represented).1.1

/-- The fuel of the loops is enough for every walk. -/
theorem OnHeap.length_le {trie : PatriciaTrie T} {context : Context (NodeData T)}
    {t : LinkedTree (NodeData T)} (onHeap : OnHeap trie (plug context t)) :
    t.addresses.length + context.length ≤ trie.heap.size := by
  have bound := onHeap.represents.length_le onHeap.distinct
  rw [(addresses_plug context t).length_eq, List.length_append] at bound
  have walk := Context.length_le_addresses context
  omega

namespace PatriciaTrie

/-- The edge that a key takes at a node. -/
def turn (key : PatriciaKey) (node : NodeData T) : Bool :=
  key.testBit node.bit

/-- The loop of the searches is the walk down. -/
theorem descendLoop_eq {continues : NodeData T → Bool} {key : PatriciaKey} {heap : NodeHeap T}
    (context : Context (NodeData T)) {t : LinkedTree (NodeData T)} {fuel : Nat}
    (represented : Represents heap none (plug context t)) (nonempty : t ≠ .empty)
    (enough : t.addresses.length ≤ fuel) :
    descendLoop continues key heap fuel t.address =
      .ok (t.descend continues (turn key) context).2.address := by
  induction t generalizing context fuel with
  | empty => exact absurd rfl nonempty
  | node a data children ih =>
      cases fuel with
      | zero => simp at enough
      | succ fuel =>
          rw [descendLoop, LinkedTree.address_node, focus_deref represented, ok_bind,
            LinkedTree.descend]
          dsimp only
          have condition : (continues data = true ∧
              (children (key.testBit data.bit)).address ≠ none) ↔
              (continues data = true ∧ (children (turn key data)).address.isSome = true) := by
            rw [turn, Option.isSome_iff_ne_none]
          by_cases goes : continues data = true ∧ (children (turn key data)).address.isSome = true
          · rw [if_pos goes, if_pos (condition.mpr goes)]
            apply ih (turn key data)
            · rw [plug_cons, fill_child]
              exact represented
            · intro isEmpty
              rw [isEmpty] at goes
              cases goes.2
            · rw [(LinkedTree.addresses_node_perm a data (turn key data) children).length_eq,
                List.length_cons, List.length_append] at enough
              omega
          · rw [if_neg goes, if_neg (fun asked => goes (condition.mp asked))]
            rfl

/-- The second loop of `insert_node` is the walk up. -/
theorem climbLoop_eq {diffbit : Nat} {heap : NodeHeap T} {context : Context (NodeData T)}
    {t : LinkedTree (NodeData T)} {fuel : Nat} (represented : Represents heap none (plug context t))
    (nonempty : t ≠ .empty) (enough : context.length < fuel) :
    climbLoop diffbit heap fuel t.address =
      .ok (climb (fun data => diffbit ≤ data.bit) context t).2.address := by
  induction context generalizing t fuel with
  | nil =>
      cases fuel with
      | zero => cases enough
      | succ fuel =>
          cases t with
          | empty => exact absurd rfl nonempty
          | node a data children =>
              rw [climbLoop, LinkedTree.address_node, focus_deref represented, ok_bind]
              rfl
  | cons frame context ih =>
      cases fuel with
      | zero => cases enough
      | succ fuel =>
          cases t with
          | empty => exact absurd rfl nonempty
          | node a data children =>
              rw [climbLoop, LinkedTree.address_node, focus_deref represented, ok_bind, climb]
              dsimp only
              rw [Context.parent_cons, if_neg (Option.some_ne_none _),
                deref_eq (frame_read represented), ok_bind]
              by_cases goes : diffbit ≤ frame.data.bit
              · rw [if_pos goes, if_pos (decide_eq_true goes)]
                exact ih represented (fun impossible => by cases impossible)
                  (Nat.lt_of_succ_lt_succ enough)
              · rw [if_neg goes, if_neg (by simpa using goes)]
                rfl

end PatriciaTrie

end SkAsync.Patricia
