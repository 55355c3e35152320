import SkAsync.Library.Execution
import SkAsync.Patricia.Find
import SkAsync.Patricia.Grown
import SkAsync.Patricia.Iterate
import SkAsync.Patricia.MixedKeys

/-!
# Longest prefixes

`prefix_match` goes down as `find_node` does and then back up to the first node
whose key is a prefix of the query.  A node without a key has the empty key,
which is a prefix of everything, so that the match ends there, too.
-/

namespace SkAsync.Patricia

open SkAsync.Library PatriciaTrie

variable {T : Type}

/-- What a prefix match is for, given how keys are found. -/
def LongestPrefix (find : PatriciaKey → Except Fault NodePtr) (keys : List PatriciaKey)
    (q : PatriciaKey) : NodePtr → Prop
  | none => ∀ k ∈ keys, ¬ k.content <+: q.content
  | some a => ∃ k ∈ keys, k.content <+: q.content ∧ find k = .ok (some a) ∧
      ∀ k' ∈ keys, k'.content <+: q.content → k'.content.length ≤ k.content.length

/-- The nodes on the way down that a search for a key takes. -/
def descent (key : PatriciaKey) (heap : NodeHeap T) : (fuel : Nat) → NodePtr → List (NodeData T)
  | 0, _ => []
  | fuel + 1, ptr =>
      match ptr.bind heap.read with
      | none => []
      | some node =>
          node.data :: if node.data.bit < key.sizeBits then
            descent key heap fuel (node.edges (key.testBit node.data.bit)) else []

/-- Every node without a key on the way down to a query is the root, which is the
node at bit 0, and has a value, or it has below it on that way a node with a key
that is a prefix of the query. -/
def KeysBelow (trie : PatriciaTrie T) (q : PatriciaKey) : Prop :=
  ∀ data ∈ descent q trie.heap (trie.heap.size + 1) trie.root, data.key.bits = 0 →
    (data.bit = 0 ∧ data.value.isSome) ∨
      ∃ below ∈ descent q trie.heap (trie.heap.size + 1) trie.root,
        data.bit < below.bit ∧ below.key.bits ≠ 0 ∧ below.key.content <+: q.content

instance (trie : PatriciaTrie T) (q : PatriciaKey) : Decidable (KeysBelow trie q) :=
  inferInstanceAs (Decidable (∀ data ∈ _, _ → _))

/-! ## The two walks -/

/-- The way down, as it is on the heap. -/
theorem descent_eq {key : PatriciaKey} {heap : NodeHeap T} (context : Context (NodeData T))
    {t : LinkedTree (NodeData T)} (fuel : Nat) {context' : Context (NodeData T)} {b : Address}
    {data' : NodeData T} {children' : Bool → LinkedTree (NodeData T)}
    (represented : Represents heap none (plug context t)) (enough : t.addresses.length ≤ fuel)
    (walked : t.descend (searching key) (turn key) context = (context', .node b data' children')) :
    (context.map Frame.data).reverse ++ descent key heap fuel t.address =
      (data' :: context'.map Frame.data).reverse := by
  induction t generalizing context fuel with
  | empty => cases walked
  | node a data children ih =>
      cases fuel with
      | zero => simp at enough
      | succ fuel =>
          rw [descent, LinkedTree.address_node, Option.bind_some, focus_read represented]
          dsimp only
          unfold LinkedTree.descend at walked
          rw [(LinkedTree.addresses_node_perm a data (turn key data) children).length_eq,
            List.length_cons, List.length_append] at enough
          split at walked
          · rename_i goes
            have inside : data.bit < key.sizeBits := of_decide_eq_true goes.1
            have rest := ih (turn key data)
              (⟨a, data, turn key data, children (!turn key data)⟩ :: context) fuel
              (by rw [plug_cons, fill_child]; exact represented) (by omega) walked
            rw [if_pos inside, ← rest, List.map_cons, List.reverse_cons, List.append_assoc]
            rfl
          · rename_i stays
            have ends : data.bit < key.sizeBits →
                (children (key.testBit data.bit)).address = none := by
              intro inside
              rw [← Option.not_isSome_iff_eq_none]
              exact fun present => stays ⟨decide_eq_true inside, present⟩
            cases walked
            rw [List.reverse_cons]
            congr 2
            split
            · rename_i inside
              rw [ends inside]
              cases fuel <;> rfl
            · rfl

/-- The way up ends at the first key that is a prefix. -/
theorem prefixClimb_spec (build : Build) {key : PatriciaKey} {heap : NodeHeap T}
    {context : Context (NodeData T)} {a : Address} {data : NodeData T}
    {children : Bool → LinkedTree (NodeData T)} {fuel : Nat} (sized : key.Sized)
    (represented : Represents heap none (plug context (.node a data children)))
    (allSized : (plug context (.node a data children)).All fun data => data.key.Sized)
    (enough : context.length + 1 < fuel) :
    prefixClimb build key heap fuel (some a) = .ok (((pathUp context a data).find? fun entry =>
      decide (entry.2.key.content <+: key.content)).map Prod.fst) := by
  induction fuel generalizing context a data children with
  | zero => cases enough
  | succ fuel ih =>
      have sized' : data.key.Sized := (all_plug_iff.mp allSized).1.1
      rw [prefixClimb, if_neg (Option.some_ne_none a), focus_deref represented, ok_bind, pathUp,
        List.find?_cons]
      dsimp only
      by_cases isPrefix : data.key.content <+: key.content
      · have notLonger : ¬ key.sizeBits < data.key.bits := by
          have lengths := isPrefix.length_le
          rw [sized.length_content, sized'.length_content] at lengths
          exact Nat.not_lt_of_le lengths
        rw [if_neg notLonger, prefixCompare_eq build sized' sized, decide_eq_true isPrefix]
        rfl
      · -- the climb goes on from the parent, if there is one
        have climbs : prefixClimb build key heap fuel (Context.parent context) =
            .ok (((context.map fun frame => (frame.address, frame.data)).find? fun entry =>
              decide (entry.2.key.content <+: key.content)).map Prod.fst) := by
          cases context with
          | nil =>
              cases fuel with
              | zero => simp at enough
              | succ fuel => rfl
          | cons frame context =>
              exact ih represented allSized (Nat.lt_of_succ_lt_succ enough)
        rw [climbs, decide_eq_false isPrefix]
        dsimp only
        split
        · rfl
        · rw [prefixCompare_eq build sized' sized, decide_eq_false isPrefix]
          rfl

/-! ## The way to a query -/

theorem pathUp_decreasing {context : Context (NodeData T)} {bound : Nat} {a : Address}
    {data : NodeData T} (ordered : ContextOrdered context bound) (le : bound ≤ data.bit) :
    (pathUp context a data).Pairwise fun entry above => above.2.bit < entry.2.bit := by
  induction context generalizing bound a data with
  | nil => exact List.pairwise_singleton _ _
  | cons frame context ih =>
      rcases ordered with ⟨rfl, _, outer, outer_le, around⟩
      have rest := ih (a := frame.address) around outer_le
      have here : frame.data.bit < data.bit := le
      refine List.pairwise_cons.mpr ⟨fun entry member => ?_, rest⟩
      rcases List.mem_cons.mp member with rfl | above
      · exact here
      · exact ((List.pairwise_cons.mp rest).1 entry above).trans here

/-- What `find` yields, seen from where its walk ends. -/
theorem find_eq_some {build : Build} {trie : PatriciaTrie T} {t : LinkedTree (NodeData T)}
    {keys : List PatriciaKey} {key : PatriciaKey} {a : Address} (grown : Grown keys trie t)
    (sized : key.Sized) (found : find build trie key = .ok (some a)) :
    ∃ context data children, plug context (.node a data children) = t ∧
      Follows key.content context ∧ data.key.content = key.content ∧ data.bit = key.bits ∧
      data.value.isSome := by
  have notEmpty : t ≠ .empty := by
    rintro rfl
    unfold find findNode at found
    rw [grown.onHeap.root_eq, LinkedTree.address_empty, if_pos rfl] at found
    cases found
  rcases descendLoop_spec grown.onHeap notEmpty sized with
    ⟨context, b, data, children, rfl, down, follows, _⟩
  have live := focus_deref grown.onHeap.represents
  have stored := (all_plug_iff.mp grown.stored).1.1
  have notNull : trie.root ≠ none := by
    rw [grown.onHeap.root_eq]
    exact fun absent => notEmpty (LinkedTree.address_eq_none_iff.mp absent)
  unfold find findNode at found
  rw [if_neg notNull, down, ok_bind, live, ok_bind] at found
  dsimp only at found
  rw [keyEqual_eq build sized stored.sized.kept, ok_bind] at found
  by_cases same : key.content = data.key.content
  · rw [decide_eq_true same, if_pos rfl, pure_eq_ok, ok_bind, if_neg (Option.some_ne_none b), live,
      ok_bind] at found
    dsimp only at found
    cases present : data.value.isSome with
    | false =>
        rw [present] at found
        cases found
    | true =>
        rw [present, if_pos rfl,
          iteratorAt_of_isSome (focus_read grown.onHeap.represents) present] at found
        cases found
        refine ⟨context, data, children, rfl, follows, same.symm, ?_, present⟩
        rcases stored.key_cases with noKey | ⟨atBit, _⟩
        · -- only the walk with an empty key ends at an empty key, at the root
          rw [noKey, PatriciaKey.content_empty] at same
          have noBits : key.bits = 0 := by
            rw [← sized.length_content, same]
            rfl
          rw [noBits]
          cases context with
          | nil => exact grown.root_bit data.bit rfl
          | cons frame context =>
              have inside := (follows frame List.mem_cons_self).1
              rw [same] at inside
              cases inside
        · rw [← atBit, ← stored.sized.length_content, ← same, sized.length_content]
  · rw [decide_eq_false same] at found
    cases found

/-- The way down to a query in a trie, and what is on it. -/
structure WayDown (trie : PatriciaTrie T) (keys : List PatriciaKey) (q : PatriciaKey)
    (path : List (Address × NodeData T)) : Prop where
  descent_iff : ∀ data, data ∈ descent q trie.heap (trie.heap.size + 1) trie.root ↔
    ∃ entry ∈ path, entry.2 = data
  decreasing : path.Pairwise fun entry above => above.2.bit < entry.2.bit
  stored : ∀ entry ∈ path, StoredNode keys entry.2
  read : ∀ entry ∈ path, ∃ cell, trie.heap.read entry.1 = some cell ∧ cell.data = entry.2
  root_mem : ∃ entry ∈ path, entry.2.bit = 0
  found_mem : ∀ (build : Build) (k : PatriciaKey) (a : Address), k.Sized → k.content <+: q.content →
    find build trie k = .ok (some a) →
    ∃ data, (a, data) ∈ path ∧ data.key.content = k.content ∧ data.bit = k.bits ∧ data.value.isSome

/-- `prefix_match` returns the first node on the way up with a key that is a prefix. -/
theorem prefixMatch_spec (build : Build) {trie : PatriciaTrie T} {t : LinkedTree (NodeData T)}
    {keys : List PatriciaKey} {q : PatriciaKey} (grown : Grown keys trie t) (nonempty : t ≠ .empty)
    (sized : q.Sized) :
    ∃ context a data children, plug context (.node a data children) = t ∧
      WayDown trie keys q (pathUp context a data) ∧
      prefixMatch build trie q = .ok (((pathUp context a data).find? fun entry =>
        decide (entry.2.key.content <+: q.content)).map Prod.fst) := by
  have onHeap := grown.onHeap
  rcases walked : t.descend (searching q) (turn q) [] with ⟨context, found⟩
  have same := plug_descend (searching q) (turn q) [] t
  rw [walked, plug_nil] at same
  rcases descend_end walked nonempty (by simp) with ⟨_, a, data, children, rfl, _⟩
  dsimp only at same
  have enough := onHeap.represents.length_le onHeap.distinct
  have whole := grown
  rw [← same] at whole
  refine ⟨context, a, data, children, same, ⟨?_, ?_, ?_, ?_, ?_, ?_⟩, ?_⟩
  · intro d
    have down := descent_eq [] (trie.heap.size + 1) onHeap.represents
      (enough.trans (Nat.le_succ _)) walked
    rw [List.map_nil, List.reverse_nil, List.nil_append] at down
    rw [onHeap.root_eq, down, List.mem_reverse, pathUp]
    simp [List.mem_cons, List.mem_map, eq_comm]
  · rcases ordered_plug_iff.mp whole.ordered with ⟨bound, around, le, _⟩
    exact pathUp_decreasing around le
  · intro entry member
    rcases exists_plug_of_mem_pathUp children member with ⟨context', children', eq⟩
    have stored := whole.stored
    rw [← eq] at stored
    exact (all_plug_iff.mp stored).1.1
  · intro entry member
    rcases exists_plug_of_mem_pathUp children member with ⟨context', children', eq⟩
    have represented := whole.onHeap.represents
    rw [← eq] at represented
    exact ⟨_, focus_read represented, rfl⟩
  · cases t with
    | empty => exact absurd rfl nonempty
    | node b d ch =>
        exact ⟨(b, d), (pathUp_descend walked).2 b d ch rfl, grown.root_bit d.bit rfl⟩
  · intro build k b sized' isPrefix foundAt
    rcases find_eq_some grown sized' foundAt with
      ⟨context', d, ch, rfl, follows, content_eq, bit_eq, hasValue⟩
    refine ⟨d, ?_, content_eq, bit_eq, hasValue⟩
    have asked : ∀ frame ∈ context',
        searching q frame.data = true ∧ frame.edge = turn q frame.data := by
      intro frame member
      rcases follows frame member with ⟨inside, edge_eq⟩
      have inQuery := inside.trans_le isPrefix.length_le
      rw [sized.length_content] at inQuery
      refine ⟨decide_eq_true inQuery, ?_⟩
      rw [← edge_eq, turn, PatriciaKey.testBit_eq_bitAt inQuery, bitAt_of_isPrefix isPrefix inside]
    rw [descend_plug [] (fun impossible => by cases impossible) asked] at walked
    exact (pathUp_descend walked).2 b d ch rfl
  · have notNull : trie.root ≠ none := by
      rw [onHeap.root_eq]
      exact fun absent => nonempty (LinkedTree.address_eq_none_iff.mp absent)
    have allSized : (plug context (.node a data children)).All fun data => data.key.Sized :=
      whole.stored.imp fun _ stored => stored.sized
    have bound := whole.onHeap.length_le
    rw [LinkedTree.addresses_node, List.length_cons] at bound
    rw [prefixMatch, if_neg notNull]
    have down : descendLoop (searching q) q trie.heap (trie.heap.size + 1) trie.root =
        .ok (some a) := by
      rw [onHeap.root_eq, descendLoop_eq [] onHeap.represents nonempty
        (enough.trans (Nat.le_succ _)), walked]
      rfl
    rw [down, ok_bind]
    exact prefixClimb_spec build sized whole.onHeap.represents allSized (by omega)

/-! ## When the match is the longest prefix -/

/-- The node has a key of its own, or it is the root with the value of the empty key. -/
def OwnKey (data : NodeData T) : Prop :=
  data.key.bits ≠ 0 ∨ data.bit = 0 ∧ data.value.isSome

namespace WayDown

variable {build : Build} {trie : PatriciaTrie T} {keys : List PatriciaKey} {q : PatriciaKey}
  {path : List (Address × NodeData T)} {entry : Address × NodeData T}

/-- There is one node at an address. -/
theorem data_eq (way : WayDown trie keys q path) {a : Address} {data data' : NodeData T}
    (member : (a, data) ∈ path) (member' : (a, data') ∈ path) : data = data' := by
  rcases way.read _ member with ⟨cell, live, rfl⟩
  rcases way.read _ member' with ⟨cell', live', rfl⟩
  rw [live] at live'
  cases live'
  rfl

/-- The root is on the way, and its key is a prefix. -/
theorem exists_match (way : WayDown trie keys q path) :
    ∃ entry, path.find? (fun entry => decide (entry.2.key.content <+: q.content)) = some entry := by
  rw [← Option.isSome_iff_exists, List.find?_isSome]
  rcases way.root_mem with ⟨entry, member, atRoot⟩
  refine ⟨entry, member, decide_eq_true ?_⟩
  rcases (way.stored entry member).key_cases with noKey | ⟨atBit, nonempty, _⟩
  · rw [noKey]
    exact List.nil_prefix
  · rw [atBit] at nonempty
    exact absurd atRoot nonempty

section Match

variable (way : WayDown trie keys q path)
  (matched : path.find? (fun entry => decide (entry.2.key.content <+: q.content)) = some entry)
include way matched

omit way in
theorem match_mem : entry ∈ path ∧ entry.2.key.content <+: q.content := by
  have holds := List.find?_some matched
  exact ⟨List.mem_of_find?_eq_some matched, of_decide_eq_true holds⟩

/-- Every other key on the way that is a prefix is above the match. -/
theorem bit_le {other : Address × NodeData T} (member : other ∈ path)
    (isPrefix : other.2.key.content <+: q.content) :
    other = entry ∨ other.2.bit < entry.2.bit :=
  find?_eq_or_rel way.decreasing matched member (decide_eq_true isPrefix)

/-- The match is what the claim asks for exactly if the node has a key of its own. -/
theorem longestPrefix_iff (allSized : ∀ k ∈ keys, k.Sized)
    (allFound : ∀ k ∈ keys, ∃ a, find build trie k = .ok (some a)) :
    LongestPrefix (find build trie) keys q (some entry.1) ↔ OwnKey entry.2 := by
  rcases match_mem matched with ⟨member, isPrefix⟩
  have stored := way.stored entry member
  constructor
  · rintro ⟨k, known, isPrefix', found, _⟩
    rcases way.found_mem build k entry.1 (allSized k known) isPrefix' found with
      ⟨data, onPath, content_eq, bit_eq, hasValue⟩
    cases way.data_eq member onPath
    by_cases noBits : entry.2.key.bits = 0
    · right
      rw [PatriciaKey.content_of_bits_eq_zero noBits] at content_eq
      rw [bit_eq, ← (allSized k known).length_content, ← content_eq]
      exact ⟨rfl, hasValue⟩
    · exact Or.inl noBits
  · intro own
    -- the key that belongs to the match
    have ownKey : ∃ k ∈ keys, k.content <+: q.content ∧ k.bits = entry.2.bit := by
      rcases stored.key_cases with noKey | ⟨atBit, _, known, _⟩
      · rcases own with nonempty | ⟨atRoot, hasValue⟩
        · rw [noKey] at nonempty
          exact absurd rfl nonempty
        · rcases stored.bit_of_value hasValue with ⟨k, known, bits_eq⟩
          refine ⟨k, known, ?_, bits_eq⟩
          rw [PatriciaKey.content_of_bits_eq_zero (bits_eq.trans atRoot)]
          exact List.nil_prefix
      · exact ⟨entry.2.key, known, isPrefix, atBit⟩
    rcases ownKey with ⟨k, known, isPrefix', bits_eq⟩
    have onPath : ∀ k' ∈ keys, k'.content <+: q.content →
        ∃ a data, find build trie k' = .ok (some a) ∧ (a, data) ∈ path ∧ data.bit = k'.bits ∧
          ((a, data) = entry ∨ data.bit < entry.2.bit) := by
      intro k' known' isPrefix''
      rcases allFound k' known' with ⟨a, found⟩
      rcases way.found_mem build k' a (allSized k' known') isPrefix'' found with
        ⟨data, inPath, content_eq, bit_eq, _⟩
      exact ⟨a, data, found, inPath, bit_eq,
        way.bit_le matched inPath (by rw [content_eq]; exact isPrefix'')⟩
    refine ⟨k, known, isPrefix', ?_, fun k' known' isPrefix'' => ?_⟩
    · rcases onPath k known isPrefix' with ⟨a, data, found, _, bit_eq, rfl | above⟩
      · exact found
      · rw [bit_eq, bits_eq] at above
        exact absurd above (Nat.lt_irrefl _)
    · rw [(allSized k known).length_content, (allSized k' known').length_content, bits_eq]
      rcases onPath k' known' isPrefix'' with ⟨a, data, _, _, bit_eq, rfl | above⟩
      · exact bit_eq.symm.le
      · rw [← bit_eq]
        exact above.le

/-- This can be seen from the keys on the way. -/
theorem keysBelow_iff : KeysBelow trie q ↔ OwnKey entry.2 := by
  rcases match_mem matched with ⟨member, isPrefix⟩
  constructor
  · intro below
    by_cases noBits : entry.2.key.bits = 0
    · rcases below entry.2 ((way.descent_iff _).mpr ⟨entry, member, rfl⟩) noBits with
        atRoot | ⟨other, onWay, lower, _, isPrefix'⟩
      · exact Or.inr atRoot
      · rcases (way.descent_iff _).mp onWay with ⟨other, member', rfl⟩
        rcases way.bit_le matched member' isPrefix' with rfl | above
        · exact absurd lower (Nat.lt_irrefl _)
        · exact absurd lower (Nat.lt_asymm above)
    · exact Or.inl noBits
  · intro own data onWay noBits
    rcases (way.descent_iff _).mp onWay with ⟨other, member', rfl⟩
    have isPrefix' : other.2.key.content <+: q.content := by
      rw [PatriciaKey.content_of_bits_eq_zero noBits]
      exact List.nil_prefix
    rcases way.bit_le matched member' isPrefix' with rfl | above
    · rcases own with nonempty | atRoot
      · exact absurd noBits nonempty
      · exact Or.inl atRoot
    · rcases own with nonempty | ⟨atRoot, _⟩
      · exact Or.inr ⟨entry.2, (way.descent_iff _).mpr ⟨entry, member, rfl⟩, above, nonempty,
          isPrefix⟩
      · rw [atRoot] at above
        cases above

end Match

end WayDown

/-! ## The match of a set -/

theorem exists_value {t : LinkedTree (NodeData T)} (bearing : Bearing t) (nonempty : t ≠ .empty) :
    ∃ entry ∈ t.preorder, entry.2.value.isSome := by
  induction t with
  | empty => exact absurd rfl nonempty
  | node a data children ih =>
      cases present : data.value with
      | some value =>
          refine ⟨(a, data), List.mem_cons_self, ?_⟩
          rw [present]
          rfl
      | none =>
          rcases bearing.1 present with ⟨e, child⟩
          rcases ih e (bearing.2 e) child with ⟨entry, member, hasValue⟩
          refine ⟨entry, ?_, hasValue⟩
          rw [LinkedTree.preorder_node, List.mem_cons, List.mem_append]
          cases e with
          | false => exact Or.inr (Or.inl member)
          | true => exact Or.inr (Or.inr member)

/-- An iterator to a node without a value is one to a node below it. -/
theorem iteratorAt_below {trie : PatriciaTrie T} {keys : List PatriciaKey}
    {context : Context (NodeData T)} {a : Address} {data : NodeData T}
    {children : Bool → LinkedTree (NodeData T)}
    (grown : Grown keys trie (plug context (.node a data children))) (noValue : data.value = none) :
    ∃ b cell, iteratorAt trie.heap (some a) = .ok (some b) ∧ trie.heap.read b = some cell ∧
      data.bit < cell.data.bit := by
  have represented := grown.onHeap.represents
  have bearing := (bearing_plug_iff (fun impossible => by cases impossible)).mp grown.bearing
  rcases ordered_plug_iff.mp grown.ordered with ⟨_, _, _, ordered⟩
  rcases bearing.1.1 noValue with ⟨e, child⟩
  have below : ∃ entry ∈ (children false).preorder ++ (children true).preorder,
      entry.2.value.isSome := by
    rcases exists_value (bearing.1.2 e) child with ⟨entry, member, hasValue⟩
    refine ⟨entry, List.mem_append.mpr ?_, hasValue⟩
    cases e with
    | false => exact Or.inl member
    | true => exact Or.inr member
  rcases Option.isSome_iff_exists.mp (List.find?_isSome.mpr below) with ⟨entry, found⟩
  have next : iteratorAt trie.heap (some a) = .ok (some entry.1) := by
    rw [iteratorAt_spec represented grown.onHeap.distinct fun noValue _ => bearing.1.1 noValue,
      nextValued, List.find?_cons, noValue, Option.isSome_none, following, List.find?_append, found]
    rfl
  have inside : ∃ e, entry ∈ (children e).preorder := by
    rcases List.mem_append.mp (List.mem_of_find?_eq_some found) with member | member
    · exact ⟨false, member⟩
    · exact ⟨true, member⟩
  rcases inside with ⟨e', member⟩
  rcases ((represents_plug_iff.mp represented).2.2 e').read_preorder member with
    ⟨cell, live, data_eq⟩
  refine ⟨entry.1, cell, next, live, ?_⟩
  rw [data_eq]
  exact (ordered e').all.mem_preorder member

/-- `find` of a set is that of its trie. -/
theorem PatriciaSet.find_eq (build : Build) (keyMaker : T → PatriciaKey) (set : PatriciaSet T)
    (value : T) : PatriciaSet.find build keyMaker set value =
      PatriciaTrie.find build set (keyMaker value) :=
  rfl

theorem PatriciaSet.prefixMatch_eq (build : Build) (keyMaker : T → PatriciaKey)
    (set : PatriciaSet T) (value : T) : PatriciaSet.prefixMatch build keyMaker set value =
      PatriciaSet.prefixMatchRebound build keyMaker set value :=
  rfl

/-! ## Every trie and every set -/

/-- `find` finds every key. -/
def AllFound (build : Build) (trie : PatriciaTrie T) (keys : List PatriciaKey) : Prop :=
  ∀ k ∈ keys, ∃ a, find build trie k = .ok (some a)

theorem exists_ok_some_iff {α : Type} {result : Except Fault (Option α)} :
    (∃ a, result = .ok (some a)) ↔ result.toOption.join.isSome := by
  rcases result with fault | _ | a <;> simp [Except.toOption]

instance (build : Build) (trie : PatriciaTrie T) (keys : List PatriciaKey) :
    Decidable (AllFound build trie keys) :=
  decidable_of_iff (∀ k ∈ keys, (find build trie k).toOption.join.isSome)
    (forall₂_congr fun _ _ => exists_ok_some_iff.symm)

namespace Grown

variable {trie : PatriciaTrie T} {keys : List PatriciaKey} {t : LinkedTree (NodeData T)}
  {q : PatriciaKey}

/-- Nothing is found in an empty trie. -/
theorem keys_eq_nil {build : Build} (grown : Grown keys trie .empty)
    (allFound : AllFound build trie keys) : keys = [] := by
  cases keys with
  | nil => rfl
  | cons k keys =>
      rcases allFound k List.mem_cons_self with ⟨a, found⟩
      unfold find findNode at found
      rw [grown.onHeap.root_eq, LinkedTree.address_empty, if_pos rfl] at found
      cases found

theorem keysBelow_of_empty (grown : Grown keys trie .empty) : KeysBelow trie q := by
  intro data member
  rw [grown.onHeap.root_eq, LinkedTree.address_empty] at member
  cases member

theorem prefixMatch_of_empty (build : Build) (grown : Grown keys trie .empty) :
    prefixMatch build trie q = .ok none := by
  rw [prefixMatch, grown.onHeap.root_eq, LinkedTree.address_empty, if_pos rfl]
  rfl

/-- In an empty trie no key is a prefix, and nothing is the right result. -/
theorem longestPrefix_iff_of_empty {build : Build} (grown : Grown keys trie .empty)
    (allFound : AllFound build trie keys) :
    (∃ node, (.ok none : Except Fault NodePtr) = .ok node ∧
      LongestPrefix (find build trie) keys q node) ↔ KeysBelow trie q := by
  have noKeys := grown.keys_eq_nil allFound
  subst noKeys
  constructor
  · exact fun _ => grown.keysBelow_of_empty
  · exact fun _ => ⟨none, rfl, by simp [LongestPrefix]⟩

/-- `prefix_match` of a trie yields the longest prefix exactly if nodes without a
key have one below them. -/
theorem prefixMatch_iff (build : Build) (grown : Grown keys trie t)
    (allSized : ∀ k ∈ keys, k.Sized) (allFound : AllFound build trie keys) (sized : q.Sized) :
    (∃ node, prefixMatch build trie q = .ok node ∧
      LongestPrefix (find build trie) keys q node) ↔ KeysBelow trie q := by
  by_cases nonempty : t = .empty
  · subst nonempty
    rw [prefixMatch_of_empty build grown]
    exact grown.longestPrefix_iff_of_empty allFound
  · rcases prefixMatch_spec build grown nonempty sized with
      ⟨context, a, data, children, _, way, matched⟩
    rcases way.exists_match with ⟨entry, first⟩
    rw [first] at matched
    rw [way.keysBelow_iff first, ← way.longestPrefix_iff first allSized allFound, matched]
    constructor
    · rintro ⟨node, same, longest⟩
      cases same
      exact longest
    · intro longest
      exact ⟨some entry.1, rfl, longest⟩

/-- The same for a set, whose iterator goes on from a node without a value. -/
theorem prefixMatchRebound_iff {V : Type} (build : Build) (grown : Grown keys trie t)
    (allSized : ∀ k ∈ keys, k.Sized) (allFound : AllFound build trie keys)
    (rebound : V → PatriciaKey) (query : V) (sized : (rebound query).Sized) :
    (∃ it, PatriciaSet.prefixMatchRebound build rebound trie query = .ok it ∧
      LongestPrefix (find build trie) keys (rebound query) it) ↔
        KeysBelow trie (rebound query) := by
  unfold PatriciaSet.prefixMatchRebound
  by_cases nonempty : t = .empty
  · subst nonempty
    rw [prefixMatch_of_empty build grown]
    exact grown.longestPrefix_iff_of_empty allFound
  · rcases prefixMatch_spec build grown nonempty sized with
      ⟨context, a, data, children, same, way, matched⟩
    rcases way.exists_match with ⟨entry, first⟩
    rcases WayDown.match_mem first with ⟨member, _⟩
    rcases exists_plug_of_mem_pathUp children member with
      ⟨context', children', focus⟩
    rw [same] at focus
    rw [← focus] at grown
    rw [first] at matched
    rw [way.keysBelow_iff first, matched]
    cases present : entry.2.value with
    | some value =>
        have stays := iteratorAt_of_isSome (focus_read grown.onHeap.represents)
          (by rw [present]; rfl)
        rw [← way.longestPrefix_iff first allSized allFound]
        constructor
        · rintro ⟨it, same, longest⟩
          rw [ok_bind, Option.map_some, if_neg (Option.some_ne_none _), stays] at same
          cases same
          exact longest
        · intro longest
          refine ⟨some entry.1, ?_, longest⟩
          rw [ok_bind, Option.map_some, if_neg (Option.some_ne_none _), stays]
    | none =>
        -- the iterator is below the match, where no prefix is left
        rcases iteratorAt_below grown present with ⟨b, cell, next, live, lower⟩
        have noKey : entry.2.key = .empty := by
          rcases (way.stored entry member).key_cases with noKey | ⟨_, _, _, _, hasValue⟩
          · exact noKey
          · rw [present] at hasValue
            cases hasValue
        constructor
        · rintro ⟨it, same, longest⟩
          rw [ok_bind, Option.map_some, if_neg (Option.some_ne_none _), next] at same
          cases same
          rcases longest with ⟨k, known, isPrefix, found, _⟩
          rcases way.found_mem build k b (allSized k known) isPrefix found with
            ⟨data', onPath, content_eq, _, _⟩
          rcases way.read _ onPath with ⟨cell', live', rfl⟩
          rw [live] at live'
          cases live'
          rcases way.bit_le first onPath (by rw [content_eq]; exact isPrefix) with same | above
          · rw [← same] at lower
            exact absurd lower (Nat.lt_irrefl _)
          · exact absurd lower (Nat.lt_asymm above)
        · rintro (nonempty | ⟨_, hasValue⟩)
          · rw [noKey] at nonempty
            exact absurd rfl nonempty
          · rw [present] at hasValue
            cases hasValue

end Grown

/-- An insertion into a set, with whether the value was new. -/
def setInsertStep (build : Build) (keyMaker : T → PatriciaKey) (set : PatriciaSet T) (value : T) :
    Except Fault (Bool × PatriciaSet T) := do
  let (result, set) ← PatriciaSet.insert build keyMaker set value
  pure (result.2, set)

theorem insertStep_grows (build : Build) {keys : List PatriciaKey} {trie : PatriciaTrie T}
    {t : LinkedTree (NodeData T)} (grown : Grown keys trie t) (entry : Entry T) :
    ∃ out trie' t', insertStep build trie entry = .ok (out, trie') ∧
      Grown (entry.key :: keys) trie' t' := by
  rcases grown.insertNode build entry.key entry.sized with
    ⟨place, trie', inserted, onHeap, grows⟩
  rcases insert_spec entry.value inserted onHeap with ⟨trie'', stepped, onHeap'⟩
  exact ⟨_, trie'', _, stepped, grows entry.value trie'' onHeap'⟩

theorem setInsertStep_grows (build : Build) {keyMaker : T → PatriciaKey}
    (allSized : ∀ value, (keyMaker value).Sized) {keys : List PatriciaKey} {set : PatriciaSet T}
    {t : LinkedTree (NodeData T)} (grown : Grown keys set t) (value : T) :
    ∃ out set' t', setInsertStep build keyMaker set value = .ok (out, set') ∧
      Grown (keyMaker value :: keys) set' t' := by
  rcases grown.insertNode build (keyMaker value) (allSized value) with
    ⟨place, set', inserted, onHeap, grows⟩
  rcases PatriciaSet.insert_spec keyMaker inserted onHeap with
    ⟨set'', stepped, onHeap'⟩
  refine ⟨place.data.value.isNone, set'', _, ?_, grows value set'' onHeap'⟩
  rw [setInsertStep, stepped]
  rfl

/-- After any insertions of which no key was lost, `prefix_match` yields the node
of the longest stored prefix of a query, or none if there is no such prefix,
exactly if on the way down to the query every node without a key has one below
it that is a prefix; this holds of tries and of sets. -/
theorem prefixMatch_longest_iff (build : Build) :
    (∀ entries : List (Entry T), ∃ outs final,
      run (insertStep build) PatriciaTrie.empty entries = .ok (outs, final) ∧
      (AllFound build final (entries.map Entry.key) → ∀ q : PatriciaKey, q.Sized →
        ((∃ node, prefixMatch build final q = .ok node ∧
          LongestPrefix (find build final) (entries.map Entry.key) q node) ↔
            KeysBelow final q))) ∧
    ∀ keyMaker : T → PatriciaKey, (∀ value, (keyMaker value).Sized) → ∀ values : List T,
      ∃ outs final,
        run (setInsertStep build keyMaker) PatriciaTrie.empty values = .ok (outs, final) ∧
        (AllFound build final (values.map keyMaker) → ∀ (V : Type) (rebound : V → PatriciaKey)
          (query : V), (rebound query).Sized →
          ((∃ it, PatriciaSet.prefixMatchRebound build rebound final query = .ok it ∧
            LongestPrefix (find build final) (values.map keyMaker) (rebound query) it) ↔
              KeysBelow final (rebound query))) := by
  constructor
  · intro entries
    rcases grown_empty.run (insertStep_grows build) entries with ⟨outs, final, t, ran, grown⟩
    rw [List.append_nil] at grown
    have allSized : ∀ k ∈ entries.map Entry.key, k.Sized := by
      intro k member
      rcases List.mem_map.mp member with ⟨entry, _, rfl⟩
      exact entry.sized
    exact ⟨outs, final, ran, fun allFound q sized =>
      grown.prefixMatch_iff build allSized allFound sized⟩
  · intro keyMaker sizedKeys values
    rcases grown_empty.run (setInsertStep_grows build sizedKeys) values with
      ⟨outs, final, t, ran, grown⟩
    rw [List.append_nil] at grown
    have allSized : ∀ k ∈ values.map keyMaker, k.Sized := by
      intro k member
      rcases List.mem_map.mp member with ⟨value, _, rfl⟩
      exact sizedKeys value
    exact ⟨outs, final, ran, fun allFound V rebound query sized =>
      grown.prefixMatchRebound_iff build allSized allFound rebound query sized⟩

/-- An empty key, four bits and eight bits that go on from them. -/
abbrev nestedKeys : List (Entry Nat) :=
  [⟨.empty, 0, by decide⟩, ⟨⟨[0xA0], 4⟩, 1, by decide⟩, ⟨⟨[0xA0], 8⟩, 2, by decide⟩]

/-- The four bits are the longest prefix of a key that differs from the others in its last bit. -/
theorem prefixMatch_longest_iff_of_nestedKeys :
    ∃ outs final, run (insertStep .debug) PatriciaTrie.empty nestedKeys = .ok (outs, final) ∧
      ∃ node, prefixMatch .debug final ⟨[0xA1], 8⟩ = .ok node ∧
        LongestPrefix (find .debug final) (nestedKeys.map Entry.key) ⟨[0xA1], 8⟩ node := by
  rcases (prefixMatch_longest_iff (T := Nat) .debug).1 nestedKeys with ⟨outs, final, ran, correct⟩
  have computed : (run (insertStep .debug) PatriciaTrie.empty nestedKeys).toOption.any fun result =>
      decide (AllFound .debug result.2 (nestedKeys.map Entry.key) ∧
        KeysBelow result.2 ⟨[0xA1], 8⟩) := by
    decide +kernel
  rw [ran] at computed
  rcases of_decide_eq_true computed with ⟨allFound, below⟩
  exact ⟨outs, final, ran, (correct allFound ⟨[0xA1], 8⟩ (by decide)).mpr below⟩

/-- Two keys of eight bits that begin with 1. -/
abbrev besideKeys : List (Entry Nat) :=
  [⟨⟨[0x90], 8⟩, 1, by decide⟩, ⟨⟨[0xB0], 8⟩, 2, by decide⟩]

/-- Neither is a prefix of a query that begins with 0, and still a node is returned. -/
theorem not_longestPrefix_of_besideKeys :
    ∃ outs final, run (insertStep .debug) PatriciaTrie.empty besideKeys = .ok (outs, final) ∧
      AllFound .debug final (besideKeys.map Entry.key) ∧
      ¬ ∃ node, prefixMatch .debug final ⟨[0x00], 8⟩ = .ok node ∧
        LongestPrefix (find .debug final) (besideKeys.map Entry.key) ⟨[0x00], 8⟩ node := by
  rcases grown_empty.run (insertStep_grows (T := Nat) .debug) besideKeys with
    ⟨outs, final, t, ran, _⟩
  have computed : (run (insertStep .debug) PatriciaTrie.empty besideKeys).toOption.any fun result =>
      decide (AllFound .debug result.2 (besideKeys.map Entry.key) ∧
        (prefixMatch .debug result.2 ⟨[0x00], 8⟩).toOption = some (some 0)) := by
    decide +kernel
  rw [ran] at computed
  rcases of_decide_eq_true computed with ⟨allFound, matched⟩
  refine ⟨outs, final, ran, allFound, ?_⟩
  rintro ⟨node, same, longest⟩
  rw [same] at matched
  cases matched
  rcases longest with ⟨k, known, isPrefix, _⟩
  have noPrefix : ∀ k ∈ besideKeys.map Entry.key,
      ¬ k.content <+: PatriciaKey.content ⟨[0x00], 8⟩ := by
    decide
  exact noPrefix k known isPrefix

end SkAsync.Patricia
