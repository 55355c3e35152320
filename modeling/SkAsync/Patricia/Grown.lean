import SkAsync.Patricia.Graft

/-!
# Tries that only grow

What holds of a trie after any sequence of insertions, also of one in which a
key was lost: the bits of the nodes grow along the edges, each key is at its own
bit, and every insertion completes.
-/

namespace SkAsync.Patricia

open SkAsync.Library PatriciaTrie

variable {T : Type}

/-! ## Bits along the edges -/

/-- The bits grow along the edges, from `bound` on. -/
def Ordered : (bound : Nat) → LinkedTree (NodeData T) → Prop
  | _, .empty => True
  | bound, .node _ data children => bound ≤ data.bit ∧ ∀ e, Ordered (data.bit + 1) (children e)

/-- The same for the nodes around the focus; `bound` is the one that they put on
the focus. -/
def ContextOrdered : Context (NodeData T) → (bound : Nat) → Prop
  | [], bound => bound = 0
  | frame :: context, bound =>
      bound = frame.data.bit + 1 ∧ Ordered (frame.data.bit + 1) frame.sibling ∧
        ∃ outer, outer ≤ frame.data.bit ∧ ContextOrdered context outer

@[simp]
theorem ordered_empty (bound : Nat) : Ordered bound (.empty : LinkedTree (NodeData T)) :=
  trivial

theorem Ordered.mono {bound bound' : Nat} {t : LinkedTree (NodeData T)} (ordered : Ordered bound t)
    (le : bound' ≤ bound) : Ordered bound' t := by
  cases t with
  | empty => trivial
  | node a data children => exact ⟨le.trans ordered.1, ordered.2⟩

theorem ordered_plug_iff {context : Context (NodeData T)} {t : LinkedTree (NodeData T)} :
    Ordered 0 (plug context t) ↔ ∃ bound, ContextOrdered context bound ∧ Ordered bound t := by
  induction context generalizing t with
  | nil =>
      constructor
      · intro ordered
        exact ⟨0, rfl, ordered⟩
      · rintro ⟨bound, rfl, ordered⟩
        exact ordered
  | cons frame context ih =>
      rw [plug_cons, ih]
      constructor
      · rintro ⟨outer, around, le, below⟩
        rcases (forall_onEdge_iff (Ordered (frame.data.bit + 1))).mp below with ⟨focus, sibling⟩
        exact ⟨_, ⟨rfl, sibling, outer, le, around⟩, focus⟩
      · rintro ⟨_, ⟨rfl, sibling, outer, le, around⟩, focus⟩
        exact ⟨outer, around, le,
          (forall_onEdge_iff (Ordered (frame.data.bit + 1))).mpr ⟨focus, sibling⟩⟩

/-- Every node of an ordered tree is behind the bound. -/
theorem Ordered.all {bound : Nat} {t : LinkedTree (NodeData T)} (ordered : Ordered bound t) :
    t.All fun data => bound ≤ data.bit := by
  induction t generalizing bound with
  | empty => trivial
  | node a data children ih =>
      refine ⟨ordered.1, fun e => ih e ((ordered.2 e).mono ?_)⟩
      exact ordered.1.trans (Nat.le_succ _)

/-- The bound of the focus does not exceed what stops the walk up. -/
theorem ContextOrdered.bound_le {context : Context (NodeData T)} {bound d : Nat}
    (ordered : ContextOrdered context bound)
    (under : ∀ frame ∈ context.head?, frame.data.bit < d) : bound ≤ d := by
  cases context with
  | nil =>
      rw [ContextOrdered] at ordered
      rw [ordered]
      exact Nat.zero_le d
  | cons frame context =>
      rcases ordered with ⟨rfl, _⟩
      exact under frame rfl

/-! ## Nodes without a value -/

/-- A node without a value has a child. -/
def Bearing : LinkedTree (NodeData T) → Prop
  | .empty => True
  | .node _ data children =>
      (data.value = none → ∃ e, children e ≠ .empty) ∧ ∀ e, Bearing (children e)

theorem bearing_plug_iff {context : Context (NodeData T)} {t : LinkedTree (NodeData T)}
    (nonempty : t ≠ .empty) :
    Bearing (plug context t) ↔ Bearing t ∧ ∀ frame ∈ context, Bearing frame.sibling := by
  induction context generalizing t with
  | nil => simp
  | cons frame context ih =>
      rw [plug_cons, ih (fun impossible => by cases impossible), List.forall_mem_cons, Frame.fill,
        Bearing, forall_onEdge_iff Bearing]
      constructor
      · rintro ⟨⟨_, focus, sibling⟩, around⟩
        exact ⟨focus, sibling, around⟩
      · rintro ⟨focus, sibling, around⟩
        refine ⟨⟨fun _ => ⟨frame.edge, ?_⟩, focus, sibling⟩, around⟩
        rw [LinkedTree.onEdge_self]
        exact nonempty

/-- The same for the nodes below the root. -/
def BearingBelow : LinkedTree (NodeData T) → Prop
  | .empty => True
  | .node _ _ children => ∀ e, Bearing (children e)

theorem Bearing.below {t : LinkedTree (NodeData T)} (bearing : Bearing t) : BearingBelow t := by
  cases t with
  | empty => trivial
  | node a data children => exact bearing.2

theorem BearingBelow.parts {context : Context (NodeData T)} {t : LinkedTree (NodeData T)}
    (bearing : BearingBelow (plug context t)) :
    BearingBelow t ∧ (context ≠ [] → Bearing t) ∧ ∀ frame ∈ context, Bearing frame.sibling := by
  induction context generalizing t with
  | nil => exact ⟨bearing, fun impossible => absurd rfl impossible, by simp⟩
  | cons frame context ih =>
      rcases ih bearing with ⟨below, _, around⟩
      rcases (forall_onEdge_iff Bearing).mp below with ⟨focus, sibling⟩
      exact ⟨focus.below, fun _ => focus, List.forall_mem_cons.mpr ⟨sibling, around⟩⟩

theorem rooted_bearingBelow (root : Address) {t : LinkedTree (NodeData T)} (bearing : Bearing t) :
    BearingBelow (rooted root t) := by
  cases t with
  | empty => exact fun _ => trivial
  | node a data children => exact bearing.2

/-! ## An insertion -/

section Store

variable {key : PatriciaKey} {fresh : Address} {diffbit : Nat} {context : Context (NodeData T)}
  {a : Address} {data : NodeData T} {children : Bool → LinkedTree (NodeData T)} {place : Place T}

/-- The bits still grow, if the insertion stopped between two of them. -/
theorem ordered_store (grafted : graft key fresh diffbit context a data children = some place)
    (ordered : Ordered 0 (plug context (.node a data children)))
    (under : ∀ frame ∈ context.head?, frame.data.bit < diffbit) (notAbove : diffbit ≤ data.bit)
    (inKey : diffbit ≤ key.sizeBits) (value : T) : Ordered 0 (place.store value) := by
  rcases ordered_plug_iff.mp ordered with ⟨bound, around, le, below⟩
  have bound_le := around.bound_le under
  unfold graft at grafted
  split at grafted
  · cases grafted
    exact ordered_plug_iff.mpr ⟨bound, around, le, below⟩
  · rename_i notReused
    split at grafted
    · rename_i here
      cases grafted
      have inside : data.bit + 1 ≤ key.sizeBits := by omega
      exact ordered_plug_iff.mpr ⟨data.bit + 1, ⟨rfl, below _, bound, le, around⟩,
        inside, fun _ => trivial⟩
    · rename_i notHere
      have behind : diffbit + 1 ≤ data.bit := by omega
      split at grafted
      · cases grafted
      · split at grafted
        · rename_i atEnd
          cases grafted
          subst atEnd
          exact ordered_plug_iff.mpr ⟨bound, around, bound_le,
            (forall_onEdge_iff (Ordered (key.sizeBits + 1))).mpr ⟨⟨behind, below⟩, trivial⟩⟩
        · rename_i notAtEnd
          cases grafted
          have inside : diffbit + 1 ≤ key.sizeBits := by omega
          exact ordered_plug_iff.mpr ⟨diffbit + 1, ⟨rfl, ⟨behind, below⟩, bound, bound_le, around⟩,
            inside, fun _ => trivial⟩

theorem bearing_store (grafted : graft key fresh diffbit context a data children = some place)
    (bearing : BearingBelow (plug context (.node a data children))) (value : T) :
    Bearing (place.store value) := by
  rcases bearing.parts with ⟨below, focus, around⟩
  have nonempty : ∀ b (d : NodeData T) (ch : Bool → LinkedTree (NodeData T)),
    LinkedTree.node b d ch ≠ .empty :=
    fun _ _ _ impossible => by cases impossible
  have stored : ∀ b (d : NodeData T) (ch : Bool → LinkedTree (NodeData T)), (∀ e, Bearing (ch e)) →
      Bearing (.node b { d with value := d.value.or (some value) } ch) := by
    intro b d ch inside
    refine ⟨fun impossible => ?_, inside⟩
    simp at impossible
  unfold graft at grafted
  split at grafted
  · cases grafted
    exact (bearing_plug_iff (nonempty _ _ _)).mpr ⟨stored _ _ _ below, around⟩
  · split at grafted
    · cases grafted
      exact (bearing_plug_iff (nonempty _ _ _)).mpr ⟨stored _ _ _ fun _ => trivial,
        List.forall_mem_cons.mpr ⟨below _, around⟩⟩
    · split at grafted
      · cases grafted
      · rename_i belowRoot
        split at grafted
        · cases grafted
          exact (bearing_plug_iff (nonempty _ _ _)).mpr ⟨stored _ _ _
            ((forall_onEdge_iff Bearing).mpr ⟨focus belowRoot, trivial⟩), around⟩
        · cases grafted
          exact (bearing_plug_iff (nonempty _ _ _)).mpr ⟨stored _ _ _ fun _ => trivial,
            List.forall_mem_cons.mpr ⟨focus belowRoot, around⟩⟩

end Store

/-! ## The invariant -/

/-- A node has no key, or one of the keys, which is at its bit and has a value. -/
structure StoredNode (keys : List PatriciaKey) (data : NodeData T) : Prop where
  key_cases : data.key = .empty ∨ data.key.bits = data.bit ∧ data.key.bits ≠ 0 ∧
    data.key ∈ keys ∧ data.key.Sized ∧ data.value.isSome
  bit_of_value : data.value.isSome → ∃ k ∈ keys, k.bits = data.bit

theorem StoredNode.mono {keys keys' : List PatriciaKey} {data : NodeData T}
    (stored : StoredNode keys data) (sub : keys ⊆ keys') : StoredNode keys' data := by
  refine ⟨stored.key_cases.imp_right fun ⟨atBit, nonempty, known, rest⟩ =>
    ⟨atBit, nonempty, sub known, rest⟩, fun hasValue => ?_⟩
  rcases stored.bit_of_value hasValue with ⟨k, known, bits_eq⟩
  exact ⟨k, sub known, bits_eq⟩

theorem StoredNode.sized {keys : List PatriciaKey} {data : NodeData T}
    (stored : StoredNode keys data) : data.key.Sized := by
  rcases stored.key_cases with noKey | ⟨_, _, _, sized, _⟩
  · rw [noKey]
    exact PatriciaKey.empty_sized
  · exact sized

theorem filledData_stored {key : PatriciaKey} {keys : List PatriciaKey} (sized : key.Sized)
    (value : T) : StoredNode (key :: keys) (filledData key value) := by
  refine ⟨?_, fun _ => ⟨key, List.mem_cons_self, rfl⟩⟩
  by_cases noBits : key.bits = 0
  · have noKey : (newData (T := T) key).key = .empty := by
      rw [newData, PatriciaKey.isEmpty, if_pos (decide_eq_true noBits)]
    exact Or.inl noKey
  · have key_eq : (newData (T := T) key).key = key := by
      rw [newData, PatriciaKey.isEmpty, if_neg (by simpa using noBits)]
    right
    rw [key_eq]
    exact ⟨rfl, noBits, List.mem_cons_self, sized, rfl⟩

/-- A trie after the insertion of the keys. -/
structure Grown (keys : List PatriciaKey) (trie : PatriciaTrie T) (t : LinkedTree (NodeData T)) :
    Prop where
  onHeap : OnHeap trie t
  root_bit : ∀ bit ∈ rootBit t, bit = 0
  ordered : Ordered 0 t
  bearing : Bearing t
  stored : t.All (StoredNode keys)

theorem grown_empty : Grown [] (PatriciaTrie.empty : PatriciaTrie T) .empty :=
  ⟨onHeap_empty, (fun _ impossible => nomatch impossible), trivial, trivial, trivial⟩

theorem Grown.mono {keys keys' : List PatriciaKey} {trie : PatriciaTrie T}
    {t : LinkedTree (NodeData T)}
    (grown : Grown keys trie t) (sub : keys ⊆ keys') : Grown keys' trie t :=
  ⟨grown.onHeap, grown.root_bit, grown.ordered, grown.bearing,
    grown.stored.imp fun _ stored => stored.mono sub⟩

namespace Grown

variable {keys : List PatriciaKey} {trie : PatriciaTrie T} {t : LinkedTree (NodeData T)}

theorem rooted_parts (grown : Grown keys trie t) (root : Address) :
    rootBit (rooted root t) = some 0 ∧ Ordered 0 (rooted root t) ∧
      BearingBelow (rooted root t) ∧ (rooted root t).All (StoredNode keys) := by
  refine ⟨?_, ?_, rooted_bearingBelow root grown.bearing, ?_⟩
  · cases t with
    | empty => rfl
    | node a data children => exact congrArg some (grown.root_bit data.bit rfl)
  · cases t with
    | empty => exact ⟨le_rfl, fun _ => trivial⟩
    | node a data children => exact grown.ordered
  · cases t with
    | empty => exact ⟨⟨Or.inl rfl, fun impossible => by cases impossible⟩, fun _ => trivial⟩
    | node a data children => exact grown.stored

/-- The insertion of a key completes, and leaves such a trie. -/
theorem insertNode (build : Build) (grown : Grown keys trie t) (key : PatriciaKey)
    (sized : key.Sized) :
    ∃ (place : Place T) (trie' : PatriciaTrie T),
      PatriciaTrie.insertNode build trie key = .ok (some place.address, trie') ∧
      OnHeap trie' place.tree ∧ ∀ value trie'', OnHeap trie'' (place.store value) →
        Grown (key :: keys) trie'' (place.store value) := by
  rcases insertNode_spec build grown.onHeap key with
    ⟨root, fresh, passed, context, bottom, below, a, data, children, diffbit, stopped, finish⟩
  rcases grown.rooted_parts root with ⟨rootBit_eq, ordered, bearing, stored⟩
  rw [← stopped.tree_eq] at rootBit_eq ordered bearing stored
  have inKey := stopped.inKey
  have notAbove := stopped.notAbove
  have placed : ∃ place, graft key fresh diffbit context a data children = some place := by
    unfold graft
    split
    · exact ⟨_, rfl⟩
    · split
      · exact ⟨_, rfl⟩
      · rename_i notHere
        have belowRoot : context ≠ [] := by
          rintro rfl
          rw [plug_nil, rootBit, Option.some.injEq] at rootBit_eq
          omega
        rw [if_neg belowRoot]
        split <;> exact ⟨_, rfl⟩
  rcases placed with ⟨place, grafted⟩
  rcases finish place grafted with ⟨trie', inserted, onHeap⟩
  refine ⟨place, trie', inserted, onHeap, fun value trie'' onHeap' => ⟨onHeap', ?_,
    ordered_store grafted ordered stopped.under notAbove inKey value,
    bearing_store grafted bearing value, ?_⟩⟩
  · intro bit member
    rw [rootBit_store grafted, rootBit_eq] at member
    cases member
    rfl
  · apply all_store grafted
      (stored.imp fun data stored => stored.mono (List.subset_cons_self key keys))
    · intro atEnd
      have before := (all_plug_iff.mp stored).1.1.mono (List.subset_cons_self key keys)
      refine ⟨before.key_cases.imp_right fun ⟨atBit, nonempty, known, isSized, hasValue⟩ =>
        ⟨atBit, nonempty, known, isSized, ?_⟩, fun _ => ⟨key, List.mem_cons_self, atEnd.symm⟩⟩
      simp
    · exact filledData_stored sized value
    · exact ⟨Or.inl rfl, fun impossible => by cases impossible⟩

/-- The same for a sequence of steps that each insert one key. -/
theorem run {ω ο : Type} {step : PatriciaTrie T → ω → Except Fault (ο × PatriciaTrie T)}
    {keyOf : ω → PatriciaKey} (grown : Grown keys trie t)
    (grows : ∀ {keys trie t}, Grown keys trie t → ∀ op, ∃ out trie' t',
      step trie op = .ok (out, trie') ∧ Grown (keyOf op :: keys) trie' t') (ops : List ω) :
    ∃ outs final t', Library.run step trie ops = .ok (outs, final) ∧
      Grown (ops.map keyOf ++ keys) final t' := by
  induction ops generalizing keys trie t with
  | nil => exact ⟨[], trie, t, rfl, grown⟩
  | cons op ops ih =>
      rcases grows grown op with ⟨out, trie', t', stepped, grown'⟩
      rcases ih grown' with ⟨outs, final, t'', ran, grown''⟩
      refine ⟨out :: outs, final, t'', run_cons_eq_ok_iff.mpr ⟨out, trie', outs, stepped, ran, rfl⟩,
        grown''.mono ?_⟩
      rw [List.map_cons, List.cons_append]
      exact List.perm_middle.subset

end Grown

end SkAsync.Patricia
