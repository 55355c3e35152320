import SkAsync.Library.Framing
import SkAsync.Patricia.Copy
import SkAsync.Patricia.Trie

/-!
# Tries beside other nodes

The operations of a trie come to the nodes through its root, and so they run in the same
way whatever other nodes are on the heap.  Each function is compared with itself on a heap
that has further nodes.
-/

namespace SkAsync.Patricia

open SkAsync.Library PatriciaTrie

variable {T β : Type}

/-- The same result, on a heap with further nodes. -/
inductive SameBeside (others : Address → Option (PatriciaNode T)) :
    β × NodeHeap T → β × NodeHeap T → Prop
  | mk (result : β) {small big : NodeHeap T} (beside : Beside others small big) :
      SameBeside others (result, small) (result, big)

/-- The same trie, on a heap with further nodes. -/
inductive TrieBeside (others : Address → Option (PatriciaNode T)) :
    PatriciaTrie T → PatriciaTrie T → Prop
  | mk (root : NodePtr) {small big : NodeHeap T} (beside : Beside others small big) :
      TrieBeside others ⟨root, small⟩ ⟨root, big⟩

/-- The same result with the same trie, on a heap with further nodes. -/
inductive PlaceBeside (others : Address → Option (PatriciaNode T)) :
    β × PatriciaTrie T → β × PatriciaTrie T → Prop
  | mk (result : β) {trie trie' : PatriciaTrie T} (beside : TrieBeside others trie trie') :
      PlaceBeside others (result, trie) (result, trie')

section Nodes

variable {others : Address → Option (PatriciaNode T)} {small big : NodeHeap T}

theorem deref_repeats (beside : Beside others small big) (ptr : NodePtr) :
    Repeats (· = ·) (deref small ptr) (deref big ptr) := by
  intro node found
  rcases deref_eq_ok_iff.mp found with ⟨a, rfl, live⟩
  exact ⟨node, deref_eq (beside.read live), rfl⟩

/-- What follows a read is compared for the node that was read. -/
theorem deref_bind_repeats (beside : Beside others small big) {ptr : NodePtr} {α α' : Type}
    {related : α → α' → Prop} {next : PatriciaNode T → Except Fault α}
    {next' : PatriciaNode T → Except Fault α'}
    (goesOn : ∀ node, Repeats related (next node) (next' node)) :
    Repeats related (deref small ptr >>= next) (deref big ptr >>= next') := by
  apply (deref_repeats beside ptr).bind
  rintro node _ rfl
  exact goesOn node

theorem update_repeats (beside : Beside others small big) (ptr : NodePtr)
    (change : PatriciaNode T → PatriciaNode T) :
    Repeats (Beside others) (update small ptr change) (update big ptr change) := by
  intro small' updated
  rcases update_eq_ok_iff.mp updated with ⟨a, node, rfl, live, rfl⟩
  exact ⟨_, update_eq (beside.read live) change, beside.write live _⟩

theorem deleteNode_repeats (beside : Beside others small big) (ptr : NodePtr) :
    Repeats (Beside others) (deleteNode small ptr) (deleteNode big ptr) := by
  cases ptr with
  | none => exact repeats_ok beside
  | some a =>
      intro small' deleted
      rcases deleteNode_eq_ok_iff.mp deleted with ⟨⟨node, live⟩, rfl⟩
      exact ⟨_, deleteNode_eq (beside.read live), beside.release live⟩

theorem makeNode_beside (beside : Beside others small big) (key : PatriciaKey) (bit : Nat) :
    SameBeside others (makeNode small key bit) (makeNode big key bit) := by
  unfold makeNode
  rw [Heap.next_eq_size, Heap.next_eq_size, beside.size_eq]
  exact ⟨_, beside.allocate _⟩

theorem setParent_repeats (beside : Beside others small big) (n parent : NodePtr) :
    Repeats (Beside others) (setParent small n parent) (setParent big n parent) := by
  unfold setParent
  apply repeats_ite
  · exact fun _ => repeats_ok beside
  · exact fun _ => update_repeats beside n _

theorem makeBranch_repeats (beside : Beside others small big) (parent l r : NodePtr) (bit : Nat) :
    Repeats (SameBeside others) (makeBranch small parent l r bit)
      (makeBranch big parent l r bit) := by
  have made := makeNode_beside beside .empty bit
  unfold makeBranch
  generalize makeNode small .empty bit = first at made
  generalize makeNode big .empty bit = second at made
  rcases made with ⟨node, beside'⟩
  apply (update_repeats beside' _ _).bind
  intro _ _ beside'
  apply (update_repeats beside' _ _).bind
  intro _ _ beside'
  apply (setParent_repeats beside' _ _).bind
  intro _ _ beside'
  apply (update_repeats beside' _ _).bind
  intro _ _ beside'
  apply (setParent_repeats beside' _ _).bind
  intro _ _ beside'
  exact repeats_ok ⟨_, beside'⟩

theorem detach_repeats (beside : Beside others small big) (self : NodePtr) (e : Edge) :
    Repeats (SameBeside others) (detach small self e) (detach big self e) := by
  unfold detach
  apply deref_bind_repeats beside
  intro node
  apply repeats_ite
  · exact fun _ => repeats_ok ⟨_, beside⟩
  · intro _
    apply (update_repeats beside _ _).bind
    intro _ _ beside'
    apply (update_repeats beside' _ _).bind
    intro _ _ beside'
    exact repeats_ok ⟨_, beside'⟩

theorem attach_repeats (beside : Beside others small big) (self : NodePtr) (e : Edge)
    (n : NodePtr) : Repeats (SameBeside others) (attach small self e n) (attach big self e n) := by
  unfold attach
  apply (detach_repeats beside self e).bind
  rintro _ _ ⟨prev, beside'⟩
  apply (update_repeats beside' _ _).bind
  intro _ _ beside'
  apply (update_repeats beside' _ _).bind
  intro _ _ beside'
  exact repeats_ok ⟨_, beside'⟩

theorem which_repeats (build : Build) (beside : Beside others small big) (self n : NodePtr) :
    Repeats (· = ·) (which build small self n) (which build big self n) := by
  unfold which
  apply deref_bind_repeats beside
  exact fun node => repeats_self _

/-! ## Deleting nodes -/

theorem deleteEdge_repeats (beside : Beside others small big) (current : NodePtr) (e : Edge) :
    Repeats (Beside others) (deleteEdge small current e) (deleteEdge big current e) := by
  unfold deleteEdge
  apply deref_bind_repeats beside
  intro node
  apply repeats_ite
  · exact fun _ => repeats_ok beside
  · intro _
    apply (update_repeats beside _ _).bind
    exact fun _ _ beside' => deleteNode_repeats beside' _

theorem deleteClimb_repeats (fuel : Nat) (beside : Beside others small big) (current : NodePtr) :
    Repeats (SameBeside others) (deleteClimb fuel small current) (deleteClimb fuel big current) := by
  induction fuel generalizing small big current with
  | zero => exact repeats_error _ _ _
  | succ fuel ih =>
      rw [deleteClimb, deleteClimb]
      apply deref_bind_repeats beside
      intro node
      apply repeats_ite
      · exact fun _ => repeats_ok ⟨_, beside⟩
      · intro _
        apply deref_bind_repeats beside
        intro above
        apply repeats_ite
        · intro _
          apply (update_repeats beside _ _).bind
          intro _ _ beside'
          apply (deleteNode_repeats beside' _).bind
          intro _ _ beside'
          exact repeats_ok ⟨_, beside'⟩
        · intro _
          apply (deleteEdge_repeats beside _ _).bind
          intro _ _ beside'
          apply (deleteEdge_repeats beside' _ _).bind
          exact fun _ _ beside' => ih beside' _

theorem deleteLoop_repeats (fuel : Nat) (beside : Beside others small big) (current : NodePtr) :
    Repeats (Beside others) (deleteLoop fuel small current) (deleteLoop fuel big current) := by
  induction fuel generalizing small big current with
  | zero => exact repeats_error _ _ _
  | succ fuel ih =>
      rw [deleteLoop, deleteLoop]
      apply deref_bind_repeats beside
      intro node
      apply repeats_ite
      · exact fun _ => ih beside _
      · intro _
        apply repeats_ite
        · exact fun _ => ih beside _
        · intro _
          rw [beside.size_eq]
          apply (deleteClimb_repeats _ beside _).bind
          rintro _ _ ⟨next, beside'⟩
          apply repeats_ite
          · exact fun _ => repeats_ok beside'
          · exact fun _ => ih beside' _

theorem deleteChildren_repeats (beside : Beside others small big) (current : NodePtr) :
    Repeats (Beside others) (deleteChildren small current) (deleteChildren big current) := by
  unfold deleteChildren
  apply (update_repeats beside _ _).bind
  intro _ _ beside'
  rw [beside'.size_eq]
  exact deleteLoop_repeats _ beside' _

theorem deleteSubtree_repeats (beside : Beside others small big) (self : NodePtr) (e : Edge) :
    Repeats (Beside others) (deleteSubtree small self e) (deleteSubtree big self e) := by
  unfold deleteSubtree
  apply deref_bind_repeats beside
  intro node
  apply repeats_ite
  · exact fun _ => repeats_ok beside
  · intro _
    apply (deleteChildren_repeats beside _).bind
    exact fun _ _ beside' => deleteNode_repeats beside' _

theorem deleteSelf_repeats (beside : Beside others small big) (self : NodePtr) :
    Repeats (Beside others) (deleteSelf small self) (deleteSelf big self) := by
  unfold deleteSelf
  apply (deleteSubtree_repeats beside _ _).bind
  intro _ _ beside'
  apply (deleteSubtree_repeats beside' _ _).bind
  exact fun _ _ beside' => deleteNode_repeats beside' _

/-! ## Copying -/

theorem shallowCopy_repeats (beside : Beside others small big) (n : NodePtr) :
    Repeats (SameBeside others) (shallowCopy small n) (shallowCopy big n) := by
  unfold shallowCopy
  apply deref_bind_repeats beside
  intro node
  have made := makeNode_beside beside node.data.key node.data.bit
  generalize makeNode small node.data.key node.data.bit = first at made
  generalize makeNode big node.data.key node.data.bit = second at made
  rcases made with ⟨newNode, beside'⟩
  apply (update_repeats beside' _ _).bind
  intro _ _ beside'
  apply (update_repeats beside' _ _).bind
  intro _ _ beside'
  exact repeats_ok ⟨_, beside'⟩

theorem copyTo_repeats (beside : Beside others small big) (n newPtr : NodePtr) (e : Edge) :
    Repeats (SameBeside others) (copyTo small n newPtr e) (copyTo big n newPtr e) := by
  unfold copyTo
  apply (shallowCopy_repeats beside n).bind
  rintro _ _ ⟨newNode, beside'⟩
  apply (update_repeats beside' _ _).bind
  intro _ _ beside'
  apply (update_repeats beside' _ _).bind
  intro _ _ beside'
  exact repeats_ok ⟨_, beside'⟩

theorem copyClimb_repeats (fuel : Nat) (beside : Beside others small big)
    (current newPtr : NodePtr) :
    Repeats (SameBeside others) (copyClimb fuel small current newPtr)
      (copyClimb fuel big current newPtr) := by
  induction fuel generalizing small big current newPtr with
  | zero => exact repeats_error _ _ _
  | succ fuel ih =>
      rw [copyClimb, copyClimb]
      apply deref_bind_repeats beside
      intro node
      apply deref_bind_repeats beside
      intro above
      apply deref_bind_repeats beside
      intro new
      apply repeats_ite
      · intro _
        apply (copyTo_repeats beside _ _ _).bind
        rintro _ _ ⟨newNode, beside'⟩
        exact repeats_ok ⟨_, beside'⟩
      · intro _
        apply repeats_ite
        · exact fun _ => repeats_ok ⟨_, beside⟩
        · exact fun _ => ih beside _ _

theorem copyStep_repeats (beside : Beside others small big) (current newPtr : NodePtr) :
    Repeats (SameBeside others) (copyStep small current newPtr)
      (copyStep big current newPtr) := by
  unfold copyStep
  apply deref_bind_repeats beside
  intro node
  apply repeats_ite
  · intro _
    apply (copyTo_repeats beside _ _ _).bind
    rintro _ _ ⟨newNode, beside'⟩
    exact repeats_ok ⟨_, beside'⟩
  · intro _
    apply repeats_ite
    · intro _
      apply (copyTo_repeats beside _ _ _).bind
      rintro _ _ ⟨newNode, beside'⟩
      exact repeats_ok ⟨_, beside'⟩
    · intro _
      rw [beside.size_eq]
      exact copyClimb_repeats _ beside _ _

theorem copyLoop_repeats (fuel : Nat) (beside : Beside others small big)
    (current newPtr : NodePtr) :
    Repeats (Beside others) (copyLoop fuel small current newPtr)
      (copyLoop fuel big current newPtr) := by
  induction fuel generalizing small big current newPtr with
  | zero => exact repeats_error _ _ _
  | succ fuel ih =>
      rw [copyLoop, copyLoop]
      apply (copyStep_repeats beside _ _).bind
      rintro _ _ ⟨⟨next, newNext⟩, beside'⟩
      apply repeats_ite
      · exact fun _ => repeats_ok beside'
      · exact fun _ => ih beside' _ _

theorem copy_repeats (beside : Beside others small big) (self : NodePtr) :
    Repeats (SameBeside others) (copy small self) (copy big self) := by
  unfold copy
  apply (shallowCopy_repeats beside self).bind
  rintro _ _ ⟨newRoot, beside'⟩
  dsimp only
  rw [beside'.size_eq]
  apply (copyLoop_repeats _ beside' _ _).bind
  intro _ _ beside'
  exact repeats_ok ⟨_, beside'⟩

/-! ## Inserting -/

theorem descendLoop_repeats (continues : NodeData T → Bool) (key : PatriciaKey) (fuel : Nat)
    (beside : Beside others small big) (node : NodePtr) :
    Repeats (· = ·) (descendLoop continues key small fuel node)
      (descendLoop continues key big fuel node) := by
  induction fuel generalizing node with
  | zero => exact repeats_error _ _ _
  | succ fuel ih =>
      rw [descendLoop, descendLoop]
      apply deref_bind_repeats beside
      intro here
      apply repeats_ite
      · exact fun _ => ih _
      · exact fun _ => repeats_self _

theorem climbLoop_repeats (diffbit : Nat) (fuel : Nat) (beside : Beside others small big)
    (node : NodePtr) :
    Repeats (· = ·) (climbLoop diffbit small fuel node) (climbLoop diffbit big fuel node) := by
  induction fuel generalizing node with
  | zero => exact repeats_error _ _ _
  | succ fuel ih =>
      rw [climbLoop, climbLoop]
      apply deref_bind_repeats beside
      intro here
      apply repeats_ite
      · exact fun _ => repeats_self _
      · intro _
        apply deref_bind_repeats beside
        intro above
        apply repeats_ite
        · exact fun _ => ih _
        · exact fun _ => repeats_self _

theorem attachNew_repeats (beside : Beside others small big) (node newNode : NodePtr)
    (key : PatriciaKey) :
    Repeats (Beside others) (attachNew small node newNode key)
      (attachNew big node newNode key) := by
  unfold attachNew
  apply (update_repeats beside _ _).bind
  intro _ _ beside'
  apply deref_bind_repeats beside'
  intro here
  apply (attach_repeats beside' _ _ _).bind
  rintro _ _ ⟨_, beside'⟩
  exact repeats_ok beside'

theorem spliceNew_repeats (build : Build) {trie trie' : PatriciaTrie T}
    (beside : TrieBeside others trie trie') (node newNode : NodePtr) (keylen : Nat) :
    Repeats (TrieBeside others) (spliceNew build trie node newNode keylen)
      (spliceNew build trie' node newNode keylen) := by
  rcases beside with ⟨root, beside⟩
  unfold spliceNew
  apply deref_bind_repeats beside
  intro here
  apply (update_repeats beside _ _).bind
  intro _ _ beside'
  apply repeats_ite
  · intro _
    apply (deleteSelf_repeats beside' _).bind
    intro _ _ beside'
    apply (update_repeats beside' _ _).bind
    intro _ _ beside'
    exact repeats_ok ⟨_, beside'⟩
  · intro _
    apply (which_repeats build beside' _ _).bind
    rintro e _ rfl
    apply deref_bind_repeats beside'
    intro above
    apply (update_repeats beside' _ _).bind
    intro _ _ beside'
    apply (update_repeats beside' _ _).bind
    intro _ _ beside'
    apply (update_repeats beside' _ _).bind
    intro _ _ beside'
    exact repeats_ok ⟨_, beside'⟩

theorem branchNew_repeats (build : Build) (beside : Beside others small big)
    (node newNode : NodePtr) (key : PatriciaKey) (diffbit : Nat) :
    Repeats (Beside others) (branchNew build small node newNode key diffbit)
      (branchNew build big node newNode key diffbit) := by
  unfold branchNew
  apply deref_bind_repeats beside
  intro here
  apply (makeBranch_repeats beside _ _ _ _).bind
  rintro _ _ ⟨n, beside'⟩
  apply (which_repeats build beside' _ _).bind
  rintro e _ rfl
  apply (attach_repeats beside' _ _ _).bind
  rintro _ _ ⟨_, beside'⟩
  exact update_repeats beside' _ _

theorem placeNew_repeats (build : Build) {trie trie' : PatriciaTrie T}
    (beside : TrieBeside others trie trie') (node : NodePtr) (key : PatriciaKey) (diffbit : Nat) :
    Repeats (PlaceBeside others) (placeNew build trie node key diffbit)
      (placeNew build trie' node key diffbit) := by
  rcases beside with @⟨root, small, big, beside⟩
  unfold placeNew
  apply deref_bind_repeats beside
  intro here
  apply repeats_ite
  · exact fun _ => repeats_ok ⟨_, ⟨_, beside⟩⟩
  · intro _
    have made := makeNode_beside beside key key.sizeBits
    dsimp only at made ⊢
    generalize makeNode small key key.sizeBits = first at made
    generalize makeNode big key key.sizeBits = second at made
    rcases made with ⟨newNode, beside'⟩
    apply repeats_ite
    · intro _
      apply (attachNew_repeats beside' _ _ _).bind
      intro _ _ beside'
      exact repeats_ok ⟨_, ⟨_, beside'⟩⟩
    · intro _
      apply repeats_ite
      · intro _
        apply (spliceNew_repeats build ⟨_, beside'⟩ _ _ _).bind
        intro _ _ beside'
        exact repeats_ok ⟨_, beside'⟩
      · intro _
        apply (branchNew_repeats build beside' _ _ _ _).bind
        intro _ _ beside'
        exact repeats_ok ⟨_, ⟨_, beside'⟩⟩

theorem makeRoot_beside {trie trie' : PatriciaTrie T} (beside : TrieBeside others trie trie') :
    TrieBeside others (makeRoot trie) (makeRoot trie') := by
  rcases beside with @⟨root, small, big, beside⟩
  unfold makeRoot
  split
  · have made := makeNode_beside beside .empty 0
    dsimp only at made ⊢
    generalize makeNode small .empty 0 = first at made
    generalize makeNode big .empty 0 = second at made
    rcases made with ⟨newRoot, beside'⟩
    exact ⟨_, beside'⟩
  · exact ⟨_, beside⟩

theorem insertNode_repeats (build : Build) {trie trie' : PatriciaTrie T}
    (beside : TrieBeside others trie trie') (key : PatriciaKey) :
    Repeats (PlaceBeside others) (insertNode build trie key) (insertNode build trie' key) := by
  have rooted := makeRoot_beside beside
  unfold insertNode
  dsimp only
  generalize makeRoot trie = first at rooted
  generalize makeRoot trie' = second at rooted
  rcases rooted with ⟨root, beside'⟩
  dsimp only at beside' ⊢
  rw [beside'.size_eq]
  apply (descendLoop_repeats _ key _ beside' root).bind
  rintro node _ rfl
  apply deref_bind_repeats beside'
  intro found
  apply (climbLoop_repeats _ _ beside' node).bind
  rintro node _ rfl
  exact placeNew_repeats build ⟨_, beside'⟩ _ _ _

/-! ## Removing -/

theorem clearRoot_repeats (beside : Beside others small big) (node : NodePtr) :
    Repeats (Beside others) (clearRoot small node) (clearRoot big node) := by
  unfold clearRoot clearValue
  apply deref_bind_repeats beside
  intro here
  apply repeats_ite
  · exact fun _ => update_repeats beside _ _
  · exact fun _ => repeats_ok beside

theorem removeRoot_repeats (build : Build) {trie trie' : PatriciaTrie T}
    (beside : TrieBeside others trie trie') (node : NodePtr) :
    Repeats (TrieBeside others) (removeRoot build trie node) (removeRoot build trie' node) := by
  rcases beside with ⟨root, beside⟩
  unfold removeRoot
  apply deref_bind_repeats beside
  intro here
  apply (repeats_self _).bind
  rintro _ _ rfl
  apply (repeats_self _).bind
  rintro _ _ rfl
  apply (clearRoot_repeats beside _).bind
  intro _ _ beside'
  apply repeats_ite
  · exact fun _ => repeats_ok ⟨_, beside'⟩
  · intro _
    apply (detach_repeats beside' _ _).bind
    rintro _ _ ⟨child, beside'⟩
    apply (deleteSelf_repeats beside' _).bind
    intro _ _ beside'
    exact repeats_ok ⟨_, beside'⟩

theorem removeLeaf_repeats (build : Build) (beside : Beside others small big) (node : NodePtr) :
    Repeats (SameBeside others) (removeLeaf build small node) (removeLeaf build big node) := by
  unfold removeLeaf
  apply deref_bind_repeats beside
  intro here
  apply deref_bind_repeats beside
  intro above
  apply (repeats_self _).bind
  rintro _ _ rfl
  apply (which_repeats build beside _ _).bind
  rintro e _ rfl
  apply (update_repeats beside _ _).bind
  intro _ _ beside'
  apply (deleteSelf_repeats beside' _).bind
  intro _ _ beside'
  exact repeats_ok ⟨_, beside'⟩

theorem removeInner_repeats (build : Build) (beside : Beside others small big) (node : NodePtr) :
    Repeats (SameBeside others) (removeInner build small node) (removeInner build big node) := by
  unfold removeInner
  apply deref_bind_repeats beside
  intro here
  apply (which_repeats build beside _ _).bind
  rintro e _ rfl
  apply (detach_repeats beside _ _).bind
  rintro _ _ ⟨child, beside'⟩
  apply (attach_repeats beside' _ _ _).bind
  rintro _ _ ⟨_, beside'⟩
  apply (deleteSelf_repeats beside' _).bind
  intro _ _ beside'
  exact repeats_ok ⟨_, beside'⟩

theorem removeBelow_repeats (build : Build) (beside : Beside others small big) (node : NodePtr) :
    Repeats (SameBeside others) (removeBelow build small node) (removeBelow build big node) := by
  unfold removeBelow
  apply deref_bind_repeats beside
  intro here
  apply repeats_ite
  · exact fun _ => removeLeaf_repeats build beside node
  · exact fun _ => removeInner_repeats build beside node

theorem removeLoop_repeats (build : Build) (fuel : Nat) {trie trie' : PatriciaTrie T}
    (beside : TrieBeside others trie trie') (node : NodePtr) :
    Repeats (TrieBeside others) (removeLoop build fuel trie node)
      (removeLoop build fuel trie' node) := by
  induction fuel generalizing trie trie' node with
  | zero => exact repeats_error _ _ _
  | succ fuel ih =>
      rcases beside with ⟨root, beside⟩
      rw [removeLoop, removeLoop]
      apply deref_bind_repeats beside
      intro here
      apply repeats_ite
      · intro _
        apply (update_repeats beside _ _).bind
        intro _ _ beside'
        exact repeats_ok ⟨_, beside'⟩
      · intro _
        apply repeats_ite
        · exact fun _ => removeRoot_repeats build ⟨_, beside⟩ node
        · intro _
          apply (removeBelow_repeats build beside node).bind
          rintro _ _ ⟨next, beside'⟩
          apply deref_bind_repeats beside'
          intro above
          apply repeats_ite
          · exact fun _ => ih ⟨_, beside'⟩ _
          · exact fun _ => repeats_ok ⟨_, beside'⟩

theorem removeNode_repeats (build : Build) {trie trie' : PatriciaTrie T}
    (beside : TrieBeside others trie trie') (node : NodePtr) :
    Repeats (TrieBeside others) (removeNode build trie node) (removeNode build trie' node) := by
  have size_eq : trie'.heap.size = trie.heap.size := by
    cases beside with
    | mk root beside => exact beside.size_eq
  unfold removeNode
  rw [size_eq]
  exact removeLoop_repeats build _ beside node

end Nodes

end SkAsync.Patricia
