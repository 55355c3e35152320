import SkAsync.Library.Tenancy
import SkAsync.Patricia.Map
import SkAsync.Patricia.NullSafety

/-!
# Maps that are constructed, copied, moved and destroyed

Any number of `patricia_map` objects with their nodes on one heap.  Each is a finite map of
its own, whatever happens to the others.  The nodes of an object are deleted with it, or
when it is assigned a copy; move assignment drops them.
-/

namespace SkAsync.Patricia

open SkAsync.Library PatriciaTrie

/-! ## Operations on one map -/

inductive MapOp (K V : Type)
  | insert (key : K) (value : V)
  /-- `map[key]` is read. -/
  | index (key : K)
  /-- `map[key] = value`. -/
  | assign (key : K) (value : V)
  | find (key : K)
  | contains (key : K)
  | erase (key : K)
  | isEmpty

inductive MapOut (V : Type)
  | done
  | inserted (isNew : Bool)
  | value (value : V)
  | found (value : Option V)
  | answer (holds : Bool)
  | erased (count : Nat)
  deriving DecidableEq, Repr

section OneMap

variable {K V : Type} [DecidableEq K] [Inhabited V]

def mapStep (build : Build) (keys : KeyMaker K) (map : PatriciaMap K V) :
    MapOp K V → Except Fault (MapOut V × PatriciaMap K V)
  | .insert key value => do
      let (result, map) ← PatriciaMap.insert build keys.make map (key, value)
      pure (.inserted result.2, map)
  | .index key => do
      let (node, map) ← PatriciaMap.index build keys.make map key
      let value ← PatriciaMap.readAt map node
      pure (.value value, map)
  | .assign key value => do
      let (node, map) ← PatriciaMap.index build keys.make map key
      let map ← PatriciaMap.assignAt map node value
      pure (.done, map)
  | .find key => do
      let it ← PatriciaMap.find build keys.make map key
      let value ← PatriciaMap.valueAt build map it
      pure (.found value, map)
  | .contains key => do
      let holds ← PatriciaMap.contains build keys.make map key
      pure (.answer holds, map)
  | .erase key => do
      let (count, map) ← PatriciaMap.erase build keys.make map key
      pure (.erased count, map)
  | .isEmpty => do
      let holds ← PatriciaMap.isEmpty map
      pure (.answer holds, map)

/-- The same operations of a finite map. -/
def mapReference (entries : Finmap fun _ : K => V) :
    MapOp K V → MapOut V × Finmap fun _ : K => V
  | .insert key value => (.inserted (decide (key ∉ entries)), added entries key value)
  | .index key => (.value ((entries.lookup key).getD default), added entries key default)
  | .assign key value => (.done, entries.insert key value)
  | .find key => (.found (entries.lookup key), entries)
  | .contains key => (.answer (decide (key ∈ entries)), entries)
  | .erase key => (.erased (if key ∈ entries then 1 else 0), entries.erase key)
  | .isEmpty => (.answer (decide (entries.keys = ∅)), entries)

/-- No entry is made above the root. -/
def MapOp.BelowRoot (keys : KeyMaker K) (map : PatriciaMap K V) (entries : Finmap fun _ : K => V) :
    MapOp K V → Prop
  | .insert key _ | .index key | .assign key _ => PatriciaMap.BelowRoot keys map entries key
  | _ => True

instance (keys : KeyMaker K) (map : PatriciaMap K V) (entries : Finmap fun _ : K => V)
    (op : MapOp K V) : Decidable (op.BelowRoot keys map entries) :=
  match op with
  | .insert key _ | .index key | .assign key _ =>
      inferInstanceAs (Decidable (PatriciaMap.BelowRoot keys map entries key))
  | .find _ | .contains _ | .erase _ | .isEmpty => inferInstanceAs (Decidable True)

/-- One step of the map is one step of the finite map, and exchanges the nodes of its tree. -/
theorem MapHolds.step (build : Build) {keys : KeyMaker K} {root : NodePtr} {heap : NodeHeap (K × V)}
    {entries : Finmap fun _ : K => V} {t : LinkedTree (NodeData (K × V))}
    (holds : MapHolds keys ⟨root, heap⟩ entries t) {op : MapOp K V}
    (below : op.BelowRoot keys ⟨root, heap⟩ entries) :
    ∃ root' heap' t', mapStep build keys ⟨root, heap⟩ op =
        .ok ((mapReference entries op).1, ⟨root', heap'⟩) ∧
      MapHolds keys ⟨root', heap'⟩ (mapReference entries op).2 t' ∧
      Exchanged heap heap' t.addresses t'.addresses := by
  cases op with
  | insert key value =>
      rcases holds.insert build below value with ⟨it, root', heap', t', inserted, after⟩
      refine ⟨root', heap', t', ?_, after⟩
      rw [mapStep, inserted]
      rfl
  | index key =>
      rcases holds.index build below with
        ⟨context, a, data, children, root', heap', done, value_eq, holds', exchanged⟩
      refine ⟨root', heap', _, ?_, holds', exchanged⟩
      rw [mapStep, done, ok_bind]
      dsimp only
      rw [PatriciaMap.readAt, focus_deref holds'.onHeap.represents, ok_bind]
      dsimp only
      rw [value_eq]
      rfl
  | assign key value =>
      rcases holds.index build below with
        ⟨context, a, data, children, root', heap₁, done, value_eq, holds₁, exchanged⟩
      rcases holds₁.assignAt value_eq value with ⟨heap', t', assigned, holds', exchanged'⟩
      refine ⟨root', heap', t', ?_, ?_, exchanged.trans exchanged'⟩
      · rw [mapStep, done, ok_bind]
        dsimp only
        rw [assigned]
        rfl
      · rw [insert_added] at holds'
        exact holds'
  | find key =>
      rcases holds.find build key with ⟨it, found, value_eq⟩
      refine ⟨root, heap, t, ?_, holds, holds.onHeap.exchanged_refl⟩
      rw [mapStep, found, ok_bind, value_eq]
      rfl
  | contains key =>
      refine ⟨root, heap, t, ?_, holds, holds.onHeap.exchanged_refl⟩
      rw [mapStep, holds.contains]
      rfl
  | erase key =>
      rcases holds.erase build key with ⟨root', heap', t', erased, after⟩
      refine ⟨root', heap', t', ?_, after⟩
      rw [mapStep, erased]
      rfl
  | isEmpty =>
      refine ⟨root, heap, t, ?_, holds, holds.onHeap.exchanged_refl⟩
      rw [mapStep, holds.isEmpty]
      rfl

end OneMap

/-! ## Operations on several maps -/

/-- The objects, each with its root pointer, and the heap of their nodes. -/
structure World (N K V : Type) where
  heap : NodeHeap (K × V)
  objects : N → Option NodePtr

/-- What a program does with objects; `self` is the one that is constructed, assigned to,
destroyed or called. -/
inductive WorldOp (N K V : Type)
  | construct (self : N)
  | copyConstruct (self other : N)
  | moveConstruct (self other : N)
  | copyAssign (self other : N)
  | moveAssign (self other : N)
  | destroy (self : N)
  | call (self : N) (op : MapOp K V)

/-- `~patricia_trie`, which is also how `operator=` begins. -/
def PatriciaTrie.destroy {T : Type} (trie : PatriciaTrie T) : Except Fault (NodeHeap T) :=
  if trie.root = none then pure trie.heap else deleteSelf trie.heap trie.root

namespace World

variable {N K V : Type}

/-- No object has been constructed. -/
def empty : World N K V :=
  ⟨.empty, fun _ => none⟩

/-- The map that an object is. -/
def map (world : World N K V) (self : N) : Except Fault (PatriciaMap K V) :=
  match world.objects self with
  | none => .error .danglingDereference
  | some root => pure ⟨root, world.heap⟩

variable [DecidableEq N]

/-- What an object is made. -/
def set (world : World N K V) (self : N) (map : PatriciaMap K V) : World N K V :=
  ⟨map.heap, Function.update world.objects self (some map.root)⟩

/-- `root = std::exchange(other.root, nullptr)`, in another object. -/
def take (world : World N K V) (self other : N) (root : NodePtr) : World N K V :=
  ⟨world.heap,
    Function.update (Function.update world.objects self (some root)) other (some none)⟩

end World

section Steps

variable {N K V : Type} [DecidableEq N] [DecidableEq K] [Inhabited V]

def worldStep (build : Build) (keys : KeyMaker K) (world : World N K V) :
    WorldOp N K V → Except Fault (MapOut V × World N K V)
  | .construct self => pure (.done, world.set self ⟨none, world.heap⟩)
  | .copyConstruct self other => do
      let map ← world.map other
      let map ← copyConstruct map
      pure (.done, world.set self map)
  | .moveConstruct self other => do
      let map ← world.map other
      pure (.done, world.take self other map.root)
  | .copyAssign self other =>
      if other = self then pure (.done, world)
      else do
        let map ← world.map self
        let source ← world.map other
        let heap ← destroy map
        let map ← copyConstruct ⟨source.root, heap⟩
        pure (.done, world.set self map)
  | .moveAssign self other =>
      if other = self then pure (.done, world)
      else do
        let map ← world.map other
        pure (.done, world.take self other map.root)
  | .destroy self => do
      let map ← world.map self
      let heap ← destroy map
      pure (.done, ⟨heap, Function.update world.objects self none⟩)
  | .call self op => do
      let map ← world.map self
      let (out, map) ← mapStep build keys map op
      pure (out, world.set self map)

/-- The same operations of finite maps, one for each object; a map is empty when it has been
moved from. -/
def worldReference (maps : N → Option (Finmap fun _ : K => V)) :
    WorldOp N K V → MapOut V × (N → Option (Finmap fun _ : K => V))
  | .construct self => (.done, Function.update maps self (some ∅))
  | .copyConstruct self other | .copyAssign self other =>
      (.done, Function.update maps self (maps other))
  | .moveConstruct self other =>
      (.done, Function.update (Function.update maps self (maps other)) other (some ∅))
  | .moveAssign self other =>
      if other = self then (.done, maps)
      else (.done, Function.update (Function.update maps self (maps other)) other (some ∅))
  | .destroy self => (.done, Function.update maps self none)
  | .call self op =>
      match maps self with
      | none => (.done, maps)
      | some entries => ((mapReference entries op).1,
          Function.update maps self (some (mapReference entries op).2))

/-- The object can be copied: its root has a child. -/
def World.Copyable (world : World N K V) (other : N) : Prop :=
  ∃ root ∈ world.objects other, RootHasChild (⟨root, world.heap⟩ : PatriciaMap K V)

/-- Objects are constructed where there is none and used where there is one, none is copied
that cannot be, and no entry is made above a root. -/
def WorldOp.Proper (keys : KeyMaker K) (world : World N K V)
    (maps : N → Option (Finmap fun _ : K => V)) : WorldOp N K V → Prop
  | .construct self => world.objects self = none
  | .copyConstruct self other => world.objects self = none ∧ world.Copyable other
  | .moveConstruct self other => world.objects self = none ∧ (world.objects other).isSome
  | .copyAssign self other =>
      (world.objects self).isSome ∧ (other ≠ self → world.Copyable other)
  | .moveAssign self other => (world.objects self).isSome ∧ (world.objects other).isSome
  | .destroy self => (world.objects self).isSome
  | .call self op => ∃ root ∈ world.objects self, ∃ entries ∈ maps self,
      op.BelowRoot keys ⟨root, world.heap⟩ entries

instance (trie : PatriciaTrie (K × V)) : Decidable (RootHasChild trie) :=
  decidable_of_iff (∃ node ∈ trie.root.bind trie.heap.read, ∃ e, node.edges e ≠ none) Iff.rfl

instance (world : World N K V) (other : N) : Decidable (world.Copyable other) :=
  inferInstanceAs (Decidable (∃ root ∈ world.objects other, RootHasChild _))

instance (keys : KeyMaker K) (world : World N K V)
    (maps : N → Option (Finmap fun _ : K => V)) (op : WorldOp N K V) :
    Decidable (op.Proper keys world maps) :=
  match op with
  | .construct self => inferInstanceAs (Decidable (world.objects self = none))
  | .copyConstruct self other =>
      inferInstanceAs (Decidable (world.objects self = none ∧ world.Copyable other))
  | .moveConstruct self other =>
      inferInstanceAs (Decidable (world.objects self = none ∧ (world.objects other).isSome))
  | .copyAssign self other =>
      inferInstanceAs (Decidable ((world.objects self).isSome ∧
        (other ≠ self → world.Copyable other)))
  | .moveAssign self other =>
      inferInstanceAs (Decidable ((world.objects self).isSome ∧ (world.objects other).isSome))
  | .destroy self => inferInstanceAs (Decidable ((world.objects self).isSome = true))
  | .call self _ => inferInstanceAs (Decidable (∃ root ∈ world.objects self,
      ∃ entries ∈ maps self, MapOp.BelowRoot keys ⟨root, world.heap⟩ entries _))

/-- A move assignment to another object that has a root: its nodes are dropped. -/
def WorldOp.Drops (world : World N K V) : WorldOp N K V → Prop
  | .moveAssign self other => other ≠ self ∧ ∃ root ∈ world.objects self, root ≠ none
  | _ => False

end Steps

/-! ## What the objects hold -/

/-- An object is a map with a tree, or there is none. -/
inductive ObjectHolds {K V : Type} [DecidableEq K] (keys : KeyMaker K) (heap : NodeHeap (K × V)) :
    Option NodePtr → Option (Finmap fun _ : K => V) → LinkedTree (NodeData (K × V)) → Prop
  | absent : ObjectHolds keys heap none none .empty
  | present {root : NodePtr} {entries : Finmap fun _ : K => V}
      {t : LinkedTree (NodeData (K × V))} :
      MapHolds keys ⟨root, heap⟩ entries t → ObjectHolds keys heap (some root) (some entries) t

/-- Each object is the map that it should be, and has nodes of its own.  Other nodes are lost. -/
structure WorldHolds {N K V : Type} [DecidableEq K] (keys : KeyMaker K) (world : World N K V)
    (maps : N → Option (Finmap fun _ : K => V)) (trees : N → LinkedTree (NodeData (K × V)))
    (lost : List Address) : Prop where
  tenancy : Tenancy world.heap (fun self => (trees self).addresses) lost
  object : ∀ self, ObjectHolds keys world.heap (world.objects self) (maps self) (trees self)

section Holds

variable {N K V : Type} [DecidableEq K] {keys : KeyMaker K} {heap heap' : NodeHeap (K × V)}
  {world : World N K V} {maps : N → Option (Finmap fun _ : K => V)}
  {trees : N → LinkedTree (NodeData (K × V))} {lost : List Address}

theorem MapHolds.congr {root : NodePtr} {entries : Finmap fun _ : K => V}
    {t : LinkedTree (NodeData (K × V))} (holds : MapHolds keys ⟨root, heap⟩ entries t)
    (same : ∀ a ∈ t.addresses, heap'.read a = heap.read a) :
    MapHolds keys ⟨root, heap'⟩ entries t :=
  ⟨⟨holds.onHeap.root_eq, holds.onHeap.represents.congr same, holds.onHeap.distinct⟩,
    holds.wellFormed, holds.branching, holds.lookup_eq, holds.only⟩

theorem ObjectHolds.congr {object : Option NodePtr} {entries : Option (Finmap fun _ : K => V)}
    {t : LinkedTree (NodeData (K × V))} (holds : ObjectHolds keys heap object entries t)
    (same : ∀ a ∈ t.addresses, heap'.read a = heap.read a) :
    ObjectHolds keys heap' object entries t := by
  cases holds with
  | absent => exact .absent
  | present holds => exact .present (holds.congr same)

namespace WorldHolds

theorem initial (keys : KeyMaker K) :
    WorldHolds keys (World.empty : World N K V) (fun _ => none) (fun _ => .empty) [] :=
  ⟨.initial, fun _ => .absent⟩

/-- The map of an object that exists. -/
theorem map_eq (holds : WorldHolds keys world maps trees lost) {self : N}
    (exists_ : (world.objects self).isSome) :
    ∃ root entries, world.map self = .ok ⟨root, world.heap⟩ ∧ world.objects self = some root ∧
      maps self = some entries ∧ MapHolds keys ⟨root, world.heap⟩ entries (trees self) := by
  have object := holds.object self
  rw [World.map]
  generalize world.objects self = object', maps self = entries', trees self = t at *
  cases object with
  | absent => cases exists_
  | present holds => exact ⟨_, _, rfl, rfl, rfl, holds⟩

/-- Where there is no object, there are no nodes. -/
theorem tree_eq_empty (holds : WorldHolds keys world maps trees lost) {self : N}
    (absent : world.objects self = none) : trees self = .empty := by
  have object := holds.object self
  rw [absent] at object
  generalize maps self = entries, trees self = t at *
  cases object
  rfl

variable [DecidableEq N]

omit [DecidableEq K] in
theorem addresses_update (trees : N → LinkedTree (NodeData (K × V))) (self : N)
    (t : LinkedTree (NodeData (K × V))) :
    (fun other => (Function.update trees self t other).addresses) =
      Function.update (fun other => (trees other).addresses) self t.addresses :=
  Function.comp_update LinkedTree.addresses trees self t

/-- An object becomes another map, or none, and exchanges its nodes. -/
theorem exchange (holds : WorldHolds keys world maps trees lost) {self : N}
    {object : Option NodePtr} {entries : Option (Finmap fun _ : K => V)}
    {t : LinkedTree (NodeData (K × V))}
    (exchanged : Exchanged world.heap heap' (trees self).addresses t.addresses)
    (becomes : ObjectHolds keys heap' object entries t) :
    WorldHolds keys ⟨heap', Function.update world.objects self object⟩
      (Function.update maps self entries) (Function.update trees self t) lost := by
  constructor
  · rw [addresses_update]
    exact holds.tenancy.exchange exchanged
  · intro other
    dsimp only
    by_cases same : other = self
    · subst same
      rw [Function.update_self, Function.update_self, Function.update_self]
      exact becomes
    · rw [Function.update_of_ne same, Function.update_of_ne same, Function.update_of_ne same]
      apply (holds.object other).congr
      exact fun a inside => holds.tenancy.others exchanged same inside

/-- An object takes over the map of another. -/
theorem takeOver (holds : WorldHolds keys world maps trees lost) {self other : N}
    (different : self ≠ other) {root : NodePtr} {entries : Finmap fun _ : K => V}
    (source : MapHolds keys ⟨root, world.heap⟩ entries (trees other)) :
    WorldHolds keys (world.take self other root)
      (Function.update (Function.update maps self (some entries)) other (some ∅))
      (Function.update (Function.update trees self (trees other)) other .empty)
      ((trees self).addresses ++ lost) := by
  constructor
  · rw [addresses_update, addresses_update]
    exact holds.tenancy.takeOver different
  · intro third
    rw [World.take]
    dsimp only
    by_cases isOther : third = other
    · subst isOther
      rw [Function.update_self, Function.update_self, Function.update_self]
      exact .present (.initial keys world.heap)
    · rw [Function.update_of_ne isOther, Function.update_of_ne isOther,
        Function.update_of_ne isOther]
      by_cases isSelf : third = self
      · subst isSelf
        rw [Function.update_self, Function.update_self, Function.update_self]
        exact .present source
      · rw [Function.update_of_ne isSelf, Function.update_of_ne isSelf,
          Function.update_of_ne isSelf]
        exact holds.object third

end WorldHolds

/-! ## One step -/

/-- The destructor gives up the nodes of its map. -/
theorem MapHolds.destroy {root : NodePtr} {entries : Finmap fun _ : K => V}
    {t : LinkedTree (NodeData (K × V))} (holds : MapHolds keys ⟨root, heap⟩ entries t) :
    ∃ heap', PatriciaTrie.destroy ⟨root, heap⟩ = .ok heap' ∧
      Exchanged heap heap' t.addresses [] := by
  have root_eq : root = t.address := holds.onHeap.root_eq
  rw [PatriciaTrie.destroy]
  cases t with
  | empty =>
      rw [LinkedTree.address_empty] at root_eq
      exact ⟨heap, if_pos root_eq, holds.onHeap.exchanged_refl⟩
  | node a data children =>
      rw [LinkedTree.address_node] at root_eq
      rcases deleteSelf_exchanged holds.onHeap with ⟨heap', deleted, exchanged⟩
      exact ⟨heap', (if_neg (by simp [root_eq])).trans deleted, exchanged⟩

/-- The copy constructor makes another tree with the same entries. -/
theorem MapHolds.copyConstruct {root : NodePtr} {entries : Finmap fun _ : K => V} {a : Address}
    {data : NodeData (K × V)} {children : Bool → LinkedTree (NodeData (K × V))}
    (holds : MapHolds keys ⟨root, heap⟩ entries (.node a data children))
    (child : ∃ e, children e ≠ .empty) :
    ∃ root' heap' t', PatriciaTrie.copyConstruct ⟨root, heap⟩ = .ok ⟨root', heap'⟩ ∧
      MapHolds keys ⟨root', heap'⟩ entries t' ∧ Exchanged heap heap' [] t'.addresses := by
  rcases copy_exchanged holds.onHeap holds.wellFormed holds.branching child with
    ⟨root', heap', t', copied, onHeap, wellFormed, branching, lookup_eq, exchanged⟩
  refine ⟨root', heap', t', ?_, ⟨onHeap, wellFormed, branching, ?_, ?_⟩, exchanged⟩
  · rw [PatriciaTrie.copyConstruct, copied]
    rfl
  · intro key
    rw [lookup_eq, holds.lookup_eq]
  · intro q found
    rw [lookup_eq] at found
    exact holds.only q found

/-- What can be copied has a child below its root. -/
theorem MapHolds.child {root : NodePtr} {entries : Finmap fun _ : K => V}
    {t : LinkedTree (NodeData (K × V))} (holds : MapHolds keys ⟨root, heap⟩ entries t)
    (hasChild : RootHasChild (⟨root, heap⟩ : PatriciaMap K V)) :
    ∃ a data children, t = .node a data children ∧ ∃ e, children e ≠ .empty := by
  have root_eq : root = t.address := holds.onHeap.root_eq
  rcases hasChild with ⟨node, live, e, edge⟩
  subst root_eq
  cases t with
  | empty => cases live
  | node a data children =>
      have represented : heap.read a = some _ := holds.onHeap.represents.1
      rw [LinkedTree.address_node, Option.bind_some, represented] at live
      cases live
      refine ⟨a, data, children, rfl, e, fun empty => edge ?_⟩
      dsimp only
      rw [empty, LinkedTree.address_empty]

/-- The step does what the finite maps do, and leaves these nodes lost. -/
def StepHolds [DecidableEq N] [Inhabited V] (build : Build) (keys : KeyMaker K)
    (world : World N K V) (maps : N → Option (Finmap fun _ : K => V)) (op : WorldOp N K V)
    (lost : List Address) : Prop :=
  ∃ world' trees', worldStep build keys world op = .ok ((worldReference maps op).1, world') ∧
    WorldHolds keys world' (worldReference maps op).2 trees' lost

namespace WorldHolds

variable [DecidableEq N] [Inhabited V] (build : Build)

theorem construct (holds : WorldHolds keys world maps trees lost) {self : N}
    (absent : world.objects self = none) :
    StepHolds build keys world maps (.construct self) lost := by
  have exchanged : Exchanged world.heap world.heap (trees self).addresses
      (LinkedTree.empty : LinkedTree (NodeData (K × V))).addresses := by
    rw [holds.tree_eq_empty absent]
    exact Exchanged.refl (by simp)
  exact ⟨_, _, rfl, holds.exchange exchanged (.present (.initial keys _))⟩

theorem copyConstruct (holds : WorldHolds keys world maps trees lost) {self other : N}
    (absent : world.objects self = none) (copyable : world.Copyable other) :
    StepHolds build keys world maps (.copyConstruct self other) lost := by
  rcases copyable with ⟨root, object_eq, hasChild⟩
  rcases holds.map_eq (Option.isSome_of_mem object_eq) with
    ⟨root', entries, found, object_eq', map_eq, source⟩
  cases object_eq.symm.trans object_eq'
  rcases source.child hasChild with ⟨a, data, children, tree_eq, child⟩
  rw [tree_eq] at source
  rcases source.copyConstruct child with ⟨root', heap', t', copied, copy, exchanged⟩
  have free : (trees self).addresses = [] := by
    rw [holds.tree_eq_empty absent]
    rfl
  rw [← free] at exchanged
  have after := holds.exchange exchanged (.present copy)
  rw [← map_eq] at after
  refine ⟨_, _, ?_, after⟩
  rw [worldStep, found, ok_bind, copied]
  rfl

/-- A moved object leaves an empty one behind. -/
theorem moveConstruct (holds : WorldHolds keys world maps trees lost) {self other : N}
    (absent : world.objects self = none) (present : (world.objects other).isSome) :
    StepHolds build keys world maps (.moveConstruct self other) lost := by
  rcases holds.map_eq present with ⟨root, entries, found, _, map_eq, source⟩
  have different : self ≠ other := by
    rintro rfl
    rw [absent] at present
    cases present
  have after := holds.takeOver different source
  rw [holds.tree_eq_empty absent, ← map_eq] at after
  refine ⟨_, _, ?_, after⟩
  rw [worldStep, found]
  rfl

theorem copyAssign (holds : WorldHolds keys world maps trees lost) {self other : N}
    (present : (world.objects self).isSome) (copyable : other ≠ self → world.Copyable other) :
    StepHolds build keys world maps (.copyAssign self other) lost := by
  by_cases same : other = self
  · subst same
    refine ⟨world, trees, if_pos rfl, ?_⟩
    rw [worldReference, Function.update_eq_self]
    exact holds
  · rcases copyable same with ⟨root, object_eq, hasChild⟩
    rcases holds.map_eq present with ⟨root₁, entries₁, found₁, _, _, mine⟩
    rcases holds.map_eq (Option.isSome_of_mem object_eq) with
      ⟨root', entries, found, object_eq', map_eq, source⟩
    cases object_eq.symm.trans object_eq'
    rcases source.child hasChild with ⟨a, data, children, tree_eq, child⟩
    rcases mine.destroy with ⟨heap₁, destroyed, exchanged₁⟩
    -- the other map is still there when the own one has been deleted
    have source₁ := source.congr fun a inside => holds.tenancy.others exchanged₁ same inside
    rw [tree_eq] at source₁
    rcases source₁.copyConstruct child with ⟨root', heap', t', copied, copy, exchanged⟩
    have after := holds.exchange (exchanged₁.trans exchanged) (.present copy)
    rw [← map_eq] at after
    refine ⟨_, _, ?_, after⟩
    rw [worldStep, if_neg same, found₁, ok_bind, found, ok_bind, destroyed, ok_bind]
    dsimp only
    rw [copied]
    rfl

theorem moveAssign_self (holds : WorldHolds keys world maps trees lost) (self : N) :
    StepHolds build keys world maps (.moveAssign self self) lost := by
  refine ⟨world, trees, ?_, ?_⟩
  · rw [worldStep, worldReference, if_pos rfl, if_pos rfl]
    rfl
  · rw [worldReference, if_pos rfl]
    exact holds

/-- What the object held before is lost. -/
theorem moveAssign (holds : WorldHolds keys world maps trees lost) {self other : N}
    (different : other ≠ self) (present : (world.objects other).isSome) :
    StepHolds build keys world maps (.moveAssign self other)
      ((trees self).addresses ++ lost) := by
  rcases holds.map_eq present with ⟨root, entries, found, _, map_eq, source⟩
  have after := holds.takeOver (Ne.symm different) source
  rw [StepHolds, worldReference, if_neg different, map_eq]
  refine ⟨_, _, ?_, after⟩
  rw [worldStep, if_neg different, found]
  rfl

theorem destroy (holds : WorldHolds keys world maps trees lost) {self : N}
    (present : (world.objects self).isSome) :
    StepHolds build keys world maps (.destroy self) lost := by
  rcases holds.map_eq present with ⟨root, entries, found, _, _, mine⟩
  rcases mine.destroy with ⟨heap', destroyed, exchanged⟩
  refine ⟨_, _, ?_, holds.exchange (t := .empty) exchanged .absent⟩
  rw [worldStep, found, ok_bind, destroyed]
  rfl

/-- A call changes its object only. -/
theorem call (holds : WorldHolds keys world maps trees lost) {self : N} {op : MapOp K V}
    {root : NodePtr} {entries : Finmap fun _ : K => V} (object_eq : world.objects self = some root)
    (map_eq : maps self = some entries) (below : op.BelowRoot keys ⟨root, world.heap⟩ entries) :
    StepHolds build keys world maps (.call self op) lost := by
  rcases holds.map_eq (Option.isSome_of_mem object_eq) with
    ⟨root', entries', found, object_eq', map_eq', mine⟩
  cases object_eq.symm.trans object_eq'
  cases map_eq.symm.trans map_eq'
  rcases mine.step build below with ⟨root', heap', t', stepped, after, exchanged⟩
  rw [StepHolds, worldReference, map_eq]
  refine ⟨_, _, ?_, holds.exchange exchanged (.present after)⟩
  rw [worldStep, found, ok_bind, stepped]
  rfl

omit [DecidableEq N] [Inhabited V] in
/-- An object without nodes has no root. -/
theorem drops_iff (holds : WorldHolds keys world maps trees lost) {self other : N}
    (different : other ≠ self) (present : (world.objects self).isSome) :
    WorldOp.Drops world (.moveAssign self other : WorldOp N K V) ↔
      (trees self).addresses ≠ [] := by
  rcases holds.map_eq present with ⟨root, entries, _, object_eq, _, mine⟩
  have root_eq : root = (trees self).address := mine.onHeap.root_eq
  rw [WorldOp.Drops, object_eq]
  cases tree_eq : trees self with
  | empty => simp [root_eq, tree_eq]
  | node a data children => simp [root_eq, tree_eq, different]

/-- Every step does what the finite maps do, and loses nodes only where it drops them. -/
theorem step (holds : WorldHolds keys world maps trees lost) {op : WorldOp N K V}
    (proper : op.Proper keys world maps) :
    ∃ dropped, StepHolds build keys world maps op (dropped ++ lost) ∧
      (dropped = [] ↔ ¬ op.Drops world) := by
  have nothing : ([] : List Address) = [] ↔ ¬ False := by simp
  cases op with
  | construct self => exact ⟨[], holds.construct build proper, nothing⟩
  | copyConstruct self other => exact ⟨[], holds.copyConstruct build proper.1 proper.2, nothing⟩
  | moveConstruct self other => exact ⟨[], holds.moveConstruct build proper.1 proper.2, nothing⟩
  | copyAssign self other => exact ⟨[], holds.copyAssign build proper.1 proper.2, nothing⟩
  | moveAssign self other =>
      by_cases same : other = self
      · subst same
        exact ⟨[], holds.moveAssign_self build other, by simp [WorldOp.Drops]⟩
      · refine ⟨(trees self).addresses, holds.moveAssign build same proper.2, ?_⟩
        rw [holds.drops_iff same proper.1, not_not]
  | destroy self => exact ⟨[], holds.destroy build proper, nothing⟩
  | call self op =>
      rcases proper with ⟨root, object_eq, entries, map_eq, below⟩
      exact ⟨[], holds.call build object_eq map_eq below, nothing⟩

/-- The whole run does what the finite maps do, and loses nodes only if a step drops some. -/
theorem run (holds : WorldHolds keys world maps trees lost) {ops : List (WorldOp N K V)}
    (proper : Guarded (withReference (worldStep build keys) fun maps op =>
      (worldReference maps op).2) (fun both op => op.Proper keys both.1 both.2) (world, maps) ops) :
    ∃ outs world' maps' trees' dropped,
      Library.run (worldStep build keys) world ops = .ok (outs, world') ∧
      Trace (fun maps op out maps' => (out, maps') = worldReference maps op) maps ops outs maps' ∧
      WorldHolds keys world' maps' trees' (dropped ++ lost) ∧
      (dropped = [] ↔
        Guarded (worldStep build keys) (fun world op => ¬ op.Drops world) world ops) := by
  induction ops generalizing world maps trees lost with
  | nil => exact ⟨[], world, maps, trees, [], rfl, .nil maps, holds, by simp [Guarded]⟩
  | cons op ops ih =>
      rcases holds.step build proper.1 with ⟨dropped, ⟨world₁, trees₁, stepped, holds₁⟩, none_iff⟩
      rcases ih holds₁ (proper.2 _ _ (withReference_of_ok _ maps stepped)) with
        ⟨outs, world', maps', trees', dropped', ran, trace, holds', none_iff'⟩
      refine ⟨_, world', maps', trees', dropped' ++ dropped,
        run_cons_eq_ok_iff.mpr ⟨_, _, _, stepped, ran, rfl⟩, .cons rfl trace, ?_, ?_⟩
      · rw [List.append_assoc]
        exact holds'
      · rw [List.append_eq_nil_iff, guarded_cons_iff stepped, none_iff, none_iff']
        exact and_comm

end WorldHolds

end Holds

/-! ## Whole runs -/

section Runs

variable {N K V : Type} [DecidableEq N] [DecidableEq K] [Inhabited V]

/-- Every step of a run that begins without objects is proper. -/
abbrev AllProper (build : Build) (keys : KeyMaker K) (ops : List (WorldOp N K V)) : Prop :=
  Guarded (withReference (worldStep build keys) fun maps op => (worldReference maps op).2)
    (fun both op => op.Proper keys both.1 both.2) (World.empty, fun _ => none) ops

/-- A run completes with the results of the finite maps. -/
def ActsAsFiniteMaps (build : Build) (keys : KeyMaker K) (ops : List (WorldOp N K V)) : Prop :=
  ∃ outs final maps, run (worldStep build keys) World.empty ops = .ok (outs, final) ∧
    Trace (fun maps op out maps' => (out, maps') = worldReference maps op) (fun _ => none)
      ops outs maps

/-- The maps are finite maps of their own, as long as every step is proper. -/
theorem actsAsFiniteMaps_of_allProper (build : Build) (keys : KeyMaker K)
    (ops : List (WorldOp N K V)) (proper : AllProper build keys ops) :
    ActsAsFiniteMaps build keys ops := by
  rcases (WorldHolds.initial keys).run build proper with
    ⟨outs, final, maps, _, _, ran, trace, _⟩
  exact ⟨outs, final, maps, ran, trace⟩

/-- When every object has been destroyed, the heap is empty exactly if nothing was moved to an
object that had a root. -/
theorem heap_empty_iff_of_allProper (build : Build) (keys : KeyMaker K)
    (ops : List (WorldOp N K V)) (proper : AllProper build keys ops) :
    ∃ outs final, run (worldStep build keys) World.empty ops = .ok (outs, final) ∧
      ((∀ self, final.objects self = none) →
        ((∀ a, final.heap.read a = none) ↔
          Guarded (worldStep build keys) (fun world op => ¬ op.Drops world) World.empty ops)) := by
  rcases (WorldHolds.initial keys).run build proper with
    ⟨outs, final, maps, trees, dropped, ran, _, holds, none_iff⟩
  refine ⟨outs, final, ran, fun destroyed => ?_⟩
  rw [holds.tenancy.empty_iff, List.append_nil, none_iff]
  intro self
  rw [holds.tree_eq_empty (destroyed self)]
  rfl

/-- A copy is changed, moved from, assigned and moved over the original. -/
abbrev copiedAndMoved : List (WorldOp Bool (BitVec 8) Nat) :=
  [.construct false, .call false (.assign 0x01 1), .call false (.index 0x81),
    .copyConstruct true false, .call true (.insert 0x41 4), .call true (.erase 0x81),
    .call false (.find 0x81), .copyAssign false true, .moveAssign true false,
    .call false .isEmpty, .call true (.contains 0x41), .destroy false, .destroy true]

theorem actsAsFiniteMaps_copiedAndMoved :
    ActsAsFiniteMaps .debug (KeyMaker.unsigned 1 (by decide)) copiedAndMoved :=
  actsAsFiniteMaps_of_allProper .debug _ _ (by decide +kernel)

theorem heap_empty_iff_of_copiedAndMoved :
    ∃ outs final, run (worldStep .debug (KeyMaker.unsigned 1 (by decide))) World.empty
        copiedAndMoved = .ok (outs, final) ∧
      ((∀ self, final.objects self = none) →
        ((∀ a, final.heap.read a = none) ↔
          Guarded (worldStep .debug (KeyMaker.unsigned 1 (by decide)))
            (fun world op => ¬ op.Drops world) World.empty copiedAndMoved)) :=
  heap_empty_iff_of_allProper .debug _ _ (by decide +kernel)

end Runs

end SkAsync.Patricia
