import SkAsync.Library.Preorder
import SkAsync.Patricia.Insert

/-!
# Iterating over a trie

`_advance` has no stack: it climbs by the parent pointers to a node that it
left on the left edge.  This visits the nodes in pre-order and passes over
those without a value.
-/

namespace SkAsync.Patricia

open SkAsync.Library PatriciaTrie

variable {T : Type} {heap : NodeHeap T} {context : Context (NodeData T)}

/-- A node that a walk arrives at: its place in the same tree, below the root,
with the nodes that come after it. -/
def ArrivesAt (whole : LinkedTree (NodeData T)) (b : Address) (data : NodeData T)
    (rest : List (Address × NodeData T)) : Prop :=
  ∃ context children, plug context (.node b data children) = whole ∧ context ≠ [] ∧
    following context children = rest

/-- The climb ends at the first node that is pending. -/
theorem advanceClimb_spec {t : LinkedTree (NodeData T)} {fuel : Nat}
    (represented : Represents heap none (plug context t)) (distinct : (plug context t).Distinct)
    (nonempty : t ≠ .empty) (belowRoot : context ≠ []) (enough : context.length ≤ fuel) :
    (advanceClimb heap fuel t.address = .ok none ∧ Context.pending context = []) ∨
      ∃ b data rest, advanceClimb heap fuel t.address = .ok (some b) ∧
        Context.pending context = (b, data) :: rest ∧ ArrivesAt (plug context t) b data rest := by
  induction context generalizing t fuel with
  | nil => exact absurd rfl belowRoot
  | cons frame context ih =>
      cases fuel with
      | zero => simp at enough
      | succ fuel =>
          cases t with
          | empty => exact absurd rfl nonempty
          | node a data children =>
              have apart := frame_apart distinct
              rcases frame with ⟨p, above, edge, sibling⟩
              have live := frame_read represented
              dsimp only at apart live
              rw [advanceClimb, LinkedTree.address_node, focus_deref represented, ok_bind]
              dsimp only
              rw [Context.parent_cons, deref_eq live, ok_bind]
              dsimp only
              -- the climb goes on from the node above, if nothing is pending at it
              have climbs : Context.pending (⟨p, above, edge, sibling⟩ :: context) =
                  Context.pending context → ((if Context.parent context = none then pure none
                    else advanceClimb heap fuel (some p)) = .ok none ∧
                  Context.pending (⟨p, above, edge, sibling⟩ :: context) = []) ∨
                  ∃ b data' rest, (if Context.parent context = none then pure none
                    else advanceClimb heap fuel (some p)) = .ok (some b) ∧
                    Context.pending (⟨p, above, edge, sibling⟩ :: context) = (b, data') :: rest ∧
                    ArrivesAt (plug (⟨p, above, edge, sibling⟩ :: context)
                      (.node a data children)) b data' rest := by
                intro same
                rw [same]
                cases context with
                | nil => exact Or.inl ⟨rfl, rfl⟩
                | cons frame context =>
                    rw [Context.parent_cons, if_neg (Option.some_ne_none _)]
                    exact ih represented distinct (fun impossible => by cases impossible)
                      (List.cons_ne_nil _ _) (Nat.le_of_succ_le_succ enough)
              cases edge with
              | true =>
                  rw [if_neg]
                  · exact climbs (Context.pending_right _ _ _ _)
                  · rintro ⟨isLeft, _⟩
                    exact apart.2 isLeft
              | false =>
                  cases sibling with
                  | empty =>
                      rw [if_neg]
                      · exact climbs (Context.pending_left _ _ _ _)
                      · rintro ⟨_, present⟩
                        exact present rfl
                  | node b data' children' =>
                      right
                      refine ⟨b, data', _, ?_, ?_,
                        ⟨p, above, true, .node a data children⟩ :: context, children', ?_,
                        List.cons_ne_nil _ _, rfl⟩
                      · rw [if_pos ⟨rfl, by simp⟩]
                        rfl
                      · rw [Context.pending_left, LinkedTree.preorder_node, following,
                          Context.pending_right]
                        rfl
                      · rw [plug_cons, plug_cons, Frame.fill, Frame.fill]
                        congr 2
                        funext e
                        cases e <;> rfl

/-- One step of `_advance` goes to the node that comes next.  At a root without
children there is no parent to climb to. -/
theorem advanceStep_spec {a : Address} {data : NodeData T}
    {children : Bool → LinkedTree (NodeData T)}
    (represented : Represents heap none (plug context (.node a data children)))
    (distinct : (plug context (.node a data children)).Distinct)
    (notAlone : context = [] → ∃ e, children e ≠ .empty) :
    (advanceStep heap (some a) = .ok none ∧ following context children = []) ∨
      ∃ b data' rest, advanceStep heap (some a) = .ok (some b) ∧
        following context children = (b, data') :: rest ∧
        ArrivesAt (plug context (.node a data children)) b data' rest := by
  rw [advanceStep, focus_deref represented, ok_bind]
  dsimp only
  rcases (children false).empty_or_node with onLeft | ⟨b, data', children', onLeft⟩
  · have notLeft : ¬ (children left).address ≠ none := by
      rw [left, onLeft]
      simp
    rw [if_neg notLeft]
    rcases (children true).empty_or_node with onRight | ⟨b, data', children', onRight⟩
    · have noChild : ∀ e, children e = .empty := by
        intro e
        cases e with
        | false => exact onLeft
        | true => exact onRight
      have belowRoot : context ≠ [] := by
        intro atRoot
        rcases notAlone atRoot with ⟨e, child⟩
        exact child (noChild e)
      have length := represented.length_le distinct
      rw [(addresses_plug context _).length_eq, List.length_append] at length
      have walk := Context.length_le_addresses context
      have notRight : ¬ (children right).address ≠ none := by
        rw [right, onRight]
        simp
      rw [if_neg notRight, following_of_leaf noChild]
      exact advanceClimb_spec represented distinct (fun impossible => by cases impossible)
        belowRoot (by omega)
    · have isRight : (children right).address = some b := by
        rw [right, onRight]
        rfl
      refine Or.inr ⟨b, data', _, ?_, following_of_right a data onLeft onRight,
        _, children', ?_, List.cons_ne_nil _ _, rfl⟩
      · rw [if_pos (by rw [isRight]; exact Option.some_ne_none b), isRight]
        rfl
      rw [plug_cons, ← onRight]
      exact congrArg (plug context) (fill_child a data true children)
  · have isLeft : (children left).address = some b := by
      rw [left, onLeft]
      rfl
    refine Or.inr ⟨b, data', _, ?_, following_of_left a data onLeft,
      _, children', ?_, List.cons_ne_nil _ _, rfl⟩
    · rw [if_pos (by rw [isLeft]; exact Option.some_ne_none b), isLeft]
      rfl
    rw [plug_cons, ← onLeft]
    exact congrArg (plug context) (fill_child a data false children)

/-- The node where an iterator goes on: the next one with a value. -/
def nextValued (rest : List (Address × NodeData T)) : NodePtr :=
  (rest.find? fun entry => entry.2.value.isSome).map Prod.fst

theorem nextValued_cons_of_none {a : Address} {data : NodeData T}
    (rest : List (Address × NodeData T))
    (absent : data.value = none) : nextValued ((a, data) :: rest) = nextValued rest := by
  rw [nextValued, nextValued, List.find?_cons]
  dsimp only
  rw [absent]
  rfl

theorem nextValued_cons_of_some {a : Address} {data : NodeData T} {value : T}
    (rest : List (Address × NodeData T)) (present : data.value = some value) :
    nextValued ((a, data) :: rest) = some a := by
  rw [nextValued, List.find?_cons]
  dsimp only
  rw [present]
  rfl

/-- `_advance` goes to the next node with a value.  The induction is on the
nodes to come. -/
theorem advance_spec {a : Address} {data : NodeData T} {children : Bool → LinkedTree (NodeData T)}
    {fuel : Nat} (represented : Represents heap none (plug context (.node a data children)))
    (distinct : (plug context (.node a data children)).Distinct)
    (notAlone : context = [] → ∃ e, children e ≠ .empty)
    (enough : (following context children).length < fuel) :
    advance heap fuel (some a) = .ok (nextValued (following context children)) := by
  generalize rest_eq : following context children = rest at enough
  induction rest generalizing context a data children fuel with
  | nil =>
      cases fuel with
      | zero => cases enough
      | succ fuel =>
          rcases advanceStep_spec represented distinct notAlone with
            ⟨stepped, _⟩ | ⟨b, data', rest', _, same, _⟩
          · rw [advance, stepped, ok_bind, if_pos rfl]
            rfl
          · rw [rest_eq] at same
            cases same
  | cons entry rest ih =>
      cases fuel with
      | zero => cases enough
      | succ fuel =>
          rcases advanceStep_spec represented distinct notAlone with
            ⟨_, same⟩ | ⟨b, data', rest', stepped, same, context', children', whole, below, after⟩
          · rw [rest_eq] at same
            cases same
          · rw [rest_eq] at same
            cases same
            rw [← whole] at represented distinct
            rw [advance, stepped, ok_bind, if_neg (Option.some_ne_none b),
              focus_deref represented, ok_bind]
            dsimp only
            cases present : data'.value with
            | some value =>
                rw [nextValued_cons_of_some rest present]
                rfl
            | none =>
                rw [nextValued_cons_of_none rest present, Option.isSome_none,
                  if_neg Bool.false_ne_true]
                exact ih represented distinct (fun atRoot => absurd atRoot below)
                  after (Nat.lt_of_succ_lt_succ enough)

/-- An iterator that is made at a node is there, if the node has a value. -/
theorem iteratorAt_spec {a : Address} {data : NodeData T}
    {children : Bool → LinkedTree (NodeData T)}
    (represented : Represents heap none (plug context (.node a data children)))
    (distinct : (plug context (.node a data children)).Distinct)
    (notAlone : data.value = none → context = [] → ∃ e, children e ≠ .empty) :
    iteratorAt heap (some a) = .ok (nextValued ((a, data) :: following context children)) := by
  cases present : data.value with
  | some value =>
      rw [iteratorAt_of_isSome (focus_read represented) (by rw [present]; rfl),
        nextValued_cons_of_some _ present]
  | none =>
      have enough : (following context children).length < heap.size + 1 :=
        (length_following_lt a data).trans_le
          ((represented.length_le distinct).trans (Nat.le_succ _))
      rw [iteratorAt, if_neg (Option.some_ne_none a), focus_deref represented, ok_bind]
      dsimp only
      rw [present, if_neg (by simp), advance_spec represented distinct (notAlone present) enough,
        nextValued_cons_of_none _ present]

/-! ## Going through a set -/

/-- `for (; it != end(); ++it)`, with the values `*it`. -/
def traverseLoop (build : Build) (heap : NodeHeap T) : (fuel : Nat) → NodePtr →
    Except Fault (List T)
  | 0, _ => .error .diverged
  | fuel + 1, it =>
      if it = none then pure []
      else do
        let value ← iteratorValue build heap it
        let next ← increment heap it
        let rest ← traverseLoop build heap fuel next
        pure (value :: rest)

/-- The loop from `begin()` on. -/
def PatriciaSet.traverse (build : Build) (set : PatriciaSet T) : Except Fault (List T) := do
  let it ← PatriciaSet.begin set
  traverseLoop build set.heap (set.heap.size + 1) it

/-- The root has a child. -/
def RootBearing (t : LinkedTree (NodeData T)) : Prop :=
  ∀ {a data children}, t = .node a data children → ∃ e, children e ≠ .empty

theorem RootBearing.notAlone {t : LinkedTree (NodeData T)} (bearing : RootBearing t) {a : Address}
    {data : NodeData T} {children : Bool → LinkedTree (NodeData T)}
    (whole : plug context (.node a data children) = t) (atRoot : context = []) :
    ∃ e, children e ≠ .empty := by
  subst atRoot
  exact bearing whole.symm

/-- From any point of the walk on, the loop yields the values of the nodes to come. -/
theorem traverseLoop_spec (build : Build) {t : LinkedTree (NodeData T)}
    (represented : Represents heap none t) (distinct : t.Distinct) (bearing : RootBearing t)
    {before rest : List (Address × NodeData T)} {fuel : Nat}
    (preorder_eq : t.preorder = before ++ rest) (enough : rest.length < fuel) :
    traverseLoop build heap fuel (nextValued rest) =
      .ok (rest.filterMap fun entry => entry.2.value) := by
  induction rest generalizing before fuel with
  | nil =>
      cases fuel with
      | zero => cases enough
      | succ fuel => rfl
  | cons entry rest ih =>
      rcases entry with ⟨a, data⟩
      have later : t.preorder = (before ++ [(a, data)]) ++ rest := by
        rw [preorder_eq, List.append_assoc, List.singleton_append]
      cases present : data.value with
      | none =>
          rw [nextValued_cons_of_none rest present, List.filterMap_cons]
          dsimp only
          rw [present]
          exact ih later (Nat.lt_of_succ_lt enough)
      | some value =>
          cases fuel with
          | zero => cases enough
          | succ fuel =>
              rcases exists_plug_of_preorder [] preorder_eq with ⟨context, children, whole, after⟩
              rw [plug_nil] at whole
              rw [Context.pending_nil, List.append_nil] at after
              rw [← whole] at represented distinct
              have bound : (following context children).length < heap.size + 1 :=
                (length_following_lt a data).trans_le
                  ((represented.length_le distinct).trans (Nat.le_succ _))
              have stepped := advance_spec represented distinct (bearing.notAlone whole) bound
              rw [nextValued_cons_of_some rest present, traverseLoop,
                if_neg (Option.some_ne_none a),
                iteratorValue_eq build (focus_read represented) present, ok_bind, increment,
                  stepped,
                ok_bind, after, ih later (Nat.lt_of_succ_lt_succ enough), ok_bind,
                List.filterMap_cons]
              dsimp only
              rw [present]
              rfl

/-- `begin()` is at the first node with a value. -/
theorem PatriciaSet.begin_spec {set : PatriciaSet T} {t : LinkedTree (NodeData T)}
    (onHeap : OnHeap set t)
    (notAlone : ∀ {a data children}, t = .node a data children → data.value = none →
      ∃ e, children e ≠ .empty) :
    PatriciaSet.begin set = .ok (nextValued t.preorder) := by
  rw [PatriciaSet.begin, onHeap.root_eq]
  cases t with
  | empty => rfl
  | node a data children =>
      rw [LinkedTree.address_node, preorder_eq_following]
      exact iteratorAt_spec onHeap.represents onHeap.distinct fun absent _ => notAlone rfl absent

/-- The loop goes through the values of all nodes, in pre-order. -/
theorem PatriciaSet.traverse_spec (build : Build) {set : PatriciaSet T}
    {t : LinkedTree (NodeData T)}
    (onHeap : OnHeap set t) (bearing : RootBearing t) :
    PatriciaSet.traverse build set = .ok (t.preorder.filterMap fun entry => entry.2.value) := by
  have started := PatriciaSet.begin_spec onHeap fun t_eq _ => bearing t_eq
  have enough : t.preorder.length < set.heap.size + 1 := by
    rw [t.length_preorder]
    exact Nat.lt_succ_of_le (onHeap.represents.length_le onHeap.distinct)
  rw [PatriciaSet.traverse, started, ok_bind]
  exact traverseLoop_spec build onHeap.represents onHeap.distinct bearing (List.nil_append _).symm
    enough

end SkAsync.Patricia
