import SkAsync.Library.Framing
import SkAsync.Patricia.Copy
import SkAsync.Patricia.Graft
import SkAsync.Patricia.Remove

/-!
# How many nodes are made

Each function makes a bounded number of nodes, and brings no other address to life.  What
a function returns does not matter here, so that every branch of the source is followed.
-/

namespace SkAsync.Patricia

open SkAsync.Library PatriciaTrie

variable {T : Type}

section Nodes

variable (heap : NodeHeap T)

theorem update_grown (ptr : NodePtr) (change : PatriciaNode T → PatriciaNode T) :
    Returns (GrownBy 0 heap) (update heap ptr change) := by
  constructor
  intro heap' updated
  rcases update_eq_ok_iff.mp updated with ⟨a, node, rfl, live, rfl⟩
  exact GrownBy.write live _

theorem deleteNode_grown (ptr : NodePtr) : Returns (GrownBy 0 heap) (deleteNode heap ptr) := by
  cases ptr with
  | none => exact returns_ok (.refl heap)
  | some a =>
      constructor
      intro heap' deleted
      rcases deleteNode_eq_ok_iff.mp deleted with ⟨_, rfl⟩
      exact .release heap a

theorem setParent_grown (n parent : NodePtr) :
    Returns (GrownBy 0 heap) (setParent heap n parent) := by
  unfold setParent
  apply returns_ite
  · exact fun _ => returns_ok (.refl heap)
  · exact fun _ => update_grown heap n _

theorem makeNode_grown (key : PatriciaKey) (bit : Nat) :
    GrownBy 1 heap (makeNode heap key bit).2 :=
  .allocate heap _

theorem makeBranch_grown (parent l r : NodePtr) (bit : Nat) :
    Returns (fun made => GrownBy 1 heap made.2) (makeBranch heap parent l r bit) := by
  have made := makeNode_grown heap .empty bit
  unfold makeBranch
  generalize makeNode heap .empty bit = first at made
  rcases first with ⟨node, heap₀⟩
  dsimp only
  apply (update_grown heap₀ _ _).bind
  intro heap₁ grown₁
  apply (update_grown heap₁ _ _).bind
  intro heap₂ grown₂
  apply (setParent_grown heap₂ _ _).bind
  intro heap₃ grown₃
  apply (update_grown heap₃ _ _).bind
  intro heap₄ grown₄
  apply (setParent_grown heap₄ _ _).bind
  intro heap₅ grown₅
  have after := (((grown₁.trans grown₂).trans grown₃).trans grown₄).trans grown₅
  exact returns_ok (made.trans after)

theorem detach_grown (self : NodePtr) (e : Edge) :
    Returns (fun detached => GrownBy 0 heap detached.2) (detach heap self e) := by
  unfold detach
  apply returns_bind
  intro node _
  apply returns_ite
  · exact fun _ => returns_ok (.refl heap)
  · intro _
    apply (update_grown heap _ _).bind
    intro heap₁ grown₁
    apply (update_grown heap₁ _ _).bind
    intro heap₂ grown₂
    exact returns_ok (grown₁.trans grown₂)

theorem attach_grown (self : NodePtr) (e : Edge) (n : NodePtr) :
    Returns (fun attached => GrownBy 0 heap attached.2) (attach heap self e n) := by
  unfold attach
  apply (detach_grown heap self e).bind
  rintro ⟨prev, heap₁⟩ grown₁
  apply (update_grown heap₁ _ _).bind
  intro heap₂ grown₂
  apply (update_grown heap₂ _ _).bind
  intro heap₃ grown₃
  exact returns_ok ((grown₁.trans grown₂).trans grown₃)

theorem deleteEdge_grown (current : NodePtr) (e : Edge) :
    Returns (GrownBy 0 heap) (deleteEdge heap current e) := by
  unfold deleteEdge
  apply returns_bind
  intro node _
  apply returns_ite
  · exact fun _ => returns_ok (.refl heap)
  · intro _
    apply (update_grown heap _ _).bind
    intro heap₁ grown₁
    exact (deleteNode_grown heap₁ _).imp fun heap₂ grown₂ => grown₁.trans grown₂

theorem deleteClimb_grown (fuel : Nat) (current : NodePtr) :
    Returns (fun climbed => GrownBy 0 heap climbed.2) (deleteClimb fuel heap current) := by
  induction fuel generalizing heap current with
  | zero => exact returns_error _ _
  | succ fuel ih =>
      rw [deleteClimb]
      apply returns_bind
      intro node _
      apply returns_ite
      · exact fun _ => returns_ok (.refl heap)
      · intro _
        apply returns_bind
        intro above _
        apply returns_ite
        · intro _
          apply (update_grown heap _ _).bind
          intro heap₁ grown₁
          apply (deleteNode_grown heap₁ _).bind
          intro heap₂ grown₂
          exact returns_ok (grown₁.trans grown₂)
        · intro _
          apply (deleteEdge_grown heap _ _).bind
          intro heap₁ grown₁
          apply (deleteEdge_grown heap₁ _ _).bind
          intro heap₂ grown₂
          exact (ih heap₂ _).imp fun climbed grown₃ => (grown₁.trans grown₂).trans grown₃

theorem deleteLoop_grown (fuel : Nat) (current : NodePtr) :
    Returns (GrownBy 0 heap) (deleteLoop fuel heap current) := by
  induction fuel generalizing heap current with
  | zero => exact returns_error _ _
  | succ fuel ih =>
      rw [deleteLoop]
      apply returns_bind
      intro node _
      apply returns_ite
      · exact fun _ => ih heap _
      · intro _
        apply returns_ite
        · exact fun _ => ih heap _
        · intro _
          apply (deleteClimb_grown heap _ _).bind
          rintro ⟨next, heap₁⟩ grown₁
          apply returns_ite
          · exact fun _ => returns_ok grown₁
          · exact fun _ => (ih heap₁ _).imp fun heap₂ grown₂ => grown₁.trans grown₂

theorem deleteSubtree_grown (self : NodePtr) (e : Edge) :
    Returns (GrownBy 0 heap) (deleteSubtree heap self e) := by
  unfold deleteSubtree deleteChildren
  apply returns_bind
  intro node _
  apply returns_ite
  · exact fun _ => returns_ok (.refl heap)
  · intro _
    rw [bind_assoc]
    apply (update_grown heap _ _).bind
    intro heap₁ grown₁
    apply (deleteLoop_grown heap₁ _ _).bind
    intro heap₂ grown₂
    exact (deleteNode_grown heap₂ _).imp fun heap₃ grown₃ => (grown₁.trans grown₂).trans grown₃

theorem deleteSelf_grown (self : NodePtr) : Returns (GrownBy 0 heap) (deleteSelf heap self) := by
  unfold deleteSelf
  apply (deleteSubtree_grown heap _ _).bind
  intro heap₁ grown₁
  apply (deleteSubtree_grown heap₁ _ _).bind
  intro heap₂ grown₂
  exact (deleteNode_grown heap₂ _).imp fun heap₃ grown₃ => (grown₁.trans grown₂).trans grown₃

/-- The last thing that `delete_self` does is to delete the node. -/
theorem deleteSelf_gone (a : Address) :
    Returns (fun heap' => heap'.read a = none) (deleteSelf heap (some a)) := by
  unfold deleteSelf
  apply returns_bind
  intro heap₁ _
  apply returns_bind
  intro heap₂ _
  constructor
  intro heap₃ deleted
  rcases deleteNode_eq_ok_iff.mp deleted with ⟨_, rfl⟩
  simp [Heap.read_release]

theorem attachNew_grown (node newNode : NodePtr) (key : PatriciaKey) :
    Returns (GrownBy 0 heap) (attachNew heap node newNode key) := by
  unfold attachNew
  apply (update_grown heap _ _).bind
  intro heap₁ grown₁
  apply returns_bind
  intro here _
  apply (attach_grown heap₁ _ _ _).bind
  rintro ⟨_, heap₂⟩ grown₂
  exact returns_ok (grown₁.trans grown₂)

theorem spliceNew_grown (build : Build) (root node newNode : NodePtr) (keylen : Nat) :
    Returns (fun trie => GrownBy 0 heap trie.heap)
      (spliceNew build ⟨root, heap⟩ node newNode keylen) := by
  unfold spliceNew
  apply returns_bind
  intro here _
  apply (update_grown heap _ _).bind
  intro heap₁ grown₁
  apply returns_ite
  · intro _
    apply (deleteSelf_grown heap₁ _).bind
    intro heap₂ grown₂
    apply (update_grown heap₂ _ _).bind
    intro heap₃ grown₃
    exact returns_ok ((grown₁.trans grown₂).trans grown₃)
  · intro _
    apply returns_bind
    intro e _
    apply returns_bind
    intro above _
    apply (update_grown heap₁ _ _).bind
    intro heap₂ grown₂
    apply (update_grown heap₂ _ _).bind
    intro heap₃ grown₃
    apply (update_grown heap₃ _ _).bind
    intro heap₄ grown₄
    exact returns_ok (((grown₁.trans grown₂).trans grown₃).trans grown₄)

theorem branchNew_grown (build : Build) (node newNode : NodePtr) (key : PatriciaKey)
    (diffbit : Nat) : Returns (GrownBy 1 heap) (branchNew build heap node newNode key diffbit) := by
  unfold branchNew
  apply returns_bind
  intro here _
  apply (makeBranch_grown heap _ _ _ _).bind
  rintro ⟨n, heap₁⟩ grown₁
  apply returns_bind
  intro e _
  apply (attach_grown heap₁ _ _ _).bind
  rintro ⟨_, heap₂⟩ grown₂
  exact (update_grown heap₂ _ _).imp fun heap₃ grown₃ => (grown₁.trans grown₂).trans grown₃

end Nodes

/-! ## Removing -/

section Remove

variable (build : Build) (heap : NodeHeap T)

theorem clearRoot_grown (node : NodePtr) : Returns (GrownBy 0 heap) (clearRoot heap node) := by
  unfold clearRoot clearValue
  apply returns_bind
  intro here _
  apply returns_ite
  · exact fun _ => update_grown heap _ _
  · exact fun _ => returns_ok (.refl heap)

/-- A node below the root is gone after it was taken out. -/
theorem removeBelow_grown (a : Address) :
    Returns (fun removed => GrownBy 0 heap removed.2 ∧ removed.2.read a = none)
      (removeBelow build heap (some a)) := by
  unfold removeBelow
  apply returns_bind
  intro node _
  apply returns_ite
  · intro _
    unfold removeLeaf
    apply returns_bind
    intro here _
    apply returns_bind
    intro above _
    apply returns_bind
    intro _ _
    apply returns_bind
    intro e _
    apply (update_grown heap _ _).bind
    intro heap₁ grown₁
    apply returns_bind
    intro heap₂ deleted
    have grown₂ := (deleteSelf_grown heap₁ _).holds heap₂ deleted
    exact returns_ok ⟨grown₁.trans grown₂, (deleteSelf_gone heap₁ a).holds heap₂ deleted⟩
  · intro _
    unfold removeInner
    apply returns_bind
    intro here _
    apply returns_bind
    intro e _
    apply (detach_grown heap _ _).bind
    rintro ⟨child, heap₁⟩ grown₁
    apply (attach_grown heap₁ _ _ _).bind
    rintro ⟨_, heap₂⟩ grown₂
    apply returns_bind
    intro heap₃ deleted
    have grown₃ := (deleteSelf_grown heap₂ _).holds heap₃ deleted
    exact returns_ok ⟨(grown₁.trans grown₂).trans grown₃,
      (deleteSelf_gone heap₂ a).holds heap₃ deleted⟩

/-- The root stays, or its child becomes the root and it is gone. -/
theorem removeRoot_grown (root : NodePtr) (a : Address) :
    Returns (fun trie => GrownBy 0 heap trie.heap ∧ (trie.root = root ∨ trie.heap.read a = none))
      (removeRoot build ⟨root, heap⟩ (some a)) := by
  unfold removeRoot
  apply returns_bind
  intro here _
  apply returns_bind
  intro _ _
  apply returns_bind
  intro _ _
  apply (clearRoot_grown heap _).bind
  intro heap₁ grown₁
  apply returns_ite
  · exact fun _ => returns_ok ⟨grown₁, .inl rfl⟩
  · intro _
    apply (detach_grown heap₁ _ _).bind
    rintro ⟨child, heap₂⟩ grown₂
    apply returns_bind
    intro heap₃ deleted
    have grown₃ := (deleteSelf_grown heap₂ _).holds heap₃ deleted
    exact returns_ok ⟨(grown₁.trans grown₂).trans grown₃,
      .inr ((deleteSelf_gone heap₂ a).holds heap₃ deleted)⟩

end Remove

/-! ## Copying -/

/-- Every key on the heap is one that a node may have. -/
def KeysKept (heap : NodeHeap T) : Prop :=
  ∀ a node, heap.read a = some node → node.data.key.Kept

/-- At most so many nodes were copied, and no key has become another. -/
structure Extends (count : Nat) (heap heap' : NodeHeap T) : Prop where
  grown : GrownBy count heap heap'
  keys : KeysKept heap → KeysKept heap'

namespace Extends

variable {heap heap' heap'' : NodeHeap T} {count more : Nat}

theorem refl (heap : NodeHeap T) : Extends 0 heap heap :=
  ⟨.refl heap, id⟩

theorem trans (first : Extends count heap heap') (second : Extends more heap' heap'') :
    Extends (count + more) heap heap'' :=
  ⟨first.grown.trans second.grown, second.keys ∘ first.keys⟩

end Extends

section Copy

variable (heap : NodeHeap T)

/-- The links of a node do not matter for its key. -/
theorem update_extends (ptr : NodePtr) (change : PatriciaNode T → PatriciaNode T)
    (sameData : ∀ node, (change node).data = node.data) :
    Returns (Extends 0 heap) (update heap ptr change) := by
  constructor
  intro heap' updated
  refine ⟨(update_grown heap ptr change).holds heap' updated, fun keys b node live => ?_⟩
  rcases update_eq_ok_iff.mp updated with ⟨a, found, rfl, present, rfl⟩
  rw [Heap.read_write (Heap.lt_size_of_read present)] at live
  split_ifs at live
  · cases live
    rw [sameData]
    exact keys a found present
  · exact keys b node live

theorem shallowCopy_extends (n : NodePtr) :
    Returns (fun made => Extends 1 heap made.2) (shallowCopy heap n) := by
  constructor
  rintro ⟨newNode, heap'⟩ made
  rcases bind_eq_ok_iff.mp made with ⟨node, found, _⟩
  rcases deref_eq_ok_iff.mp found with ⟨a, rfl, live⟩
  rcases shallowCopy_spec live with ⟨heap'', made', size_eq, new_eq, others⟩
  rw [made'] at made
  cases made
  constructor
  · refine ⟨by simp [size_eq], by simp [size_eq], fun b present => ?_⟩
    by_cases new : b = heap.size
    · exact .inr new.ge
    · rw [others b new] at present
      exact .inl present
  · intro keys b cell present
    by_cases new : b = heap.size
    · subst new
      rw [new_eq] at present
      cases present
      dsimp only [copied]
      split_ifs
      · exact PatriciaKey.empty_sized.kept
      · exact keys a node live
    · rw [others b new] at present
      exact keys b cell present

theorem copyTo_extends (n newPtr : NodePtr) (e : Edge) :
    Returns (fun made => Extends 1 heap made.2) (copyTo heap n newPtr e) := by
  unfold copyTo
  apply (shallowCopy_extends heap n).bind
  rintro ⟨newNode, heap₁⟩ extends₁
  apply (update_extends heap₁ newPtr (fun m => { m with edges := setEdge m.edges e newNode })
    fun _ => rfl).bind
  intro heap₂ extends₂
  apply (update_extends heap₂ newNode (fun m => { m with parent := newPtr }) fun _ => rfl).bind
  intro heap₃ extends₃
  exact returns_ok ((extends₁.trans extends₂).trans extends₃)

/-- How many nodes are copied on the way to a node, which is null at the end. -/
def copiesFor (next : NodePtr) : Nat :=
  if next = none then 0 else 1

theorem copyTo_next (n newPtr : NodePtr) (e : Edge) (present : n ≠ none) :
    Returns (fun stepped => Extends (copiesFor stepped.1.1) heap stepped.2)
      (copyTo heap n newPtr e >>= fun made => pure ((n, made.1), made.2)) := by
  apply (copyTo_extends heap n newPtr e).bind
  intro made extends₁
  apply returns_ok
  rw [copiesFor, if_neg present]
  exact extends₁

theorem copyClimb_extends (fuel : Nat) (current newPtr : NodePtr) :
    Returns (fun stepped => Extends (copiesFor stepped.1.1) heap stepped.2)
      (copyClimb fuel heap current newPtr) := by
  induction fuel generalizing current newPtr with
  | zero => exact returns_error _ _
  | succ fuel ih =>
      rw [copyClimb]
      apply returns_bind
      intro node _
      apply returns_bind
      intro above _
      apply returns_bind
      intro new _
      apply returns_ite
      · exact fun goesRight => copyTo_next heap _ _ _ goesRight.2
      · intro _
        apply returns_ite
        · exact fun _ => returns_ok (.refl heap)
        · exact fun _ => ih _ _

theorem copyStep_extends (current newPtr : NodePtr) :
    Returns (fun stepped => Extends (copiesFor stepped.1.1) heap stepped.2)
      (copyStep heap current newPtr) := by
  unfold copyStep
  apply returns_bind
  intro node _
  apply returns_ite
  · exact fun goesLeft => copyTo_next heap _ _ _ goesLeft
  · intro _
    apply returns_ite
    · exact fun goesRight => copyTo_next heap _ _ _ goesRight
    · exact fun _ => copyClimb_extends heap _ _ _

/-- The last round copies no node. -/
theorem copyLoop_extends (fuel : Nat) (current newPtr : NodePtr) :
    Returns (Extends fuel heap) (copyLoop (fuel + 1) heap current newPtr) := by
  induction fuel generalizing heap current newPtr with
  | zero =>
      rw [copyLoop]
      apply (copyStep_extends heap current newPtr).bind
      rintro ⟨⟨next, newNext⟩, heap₁⟩ extends₁
      apply returns_ite
      · rintro rfl
        exact returns_ok extends₁
      · exact fun _ => returns_error _ _
  | succ fuel ih =>
      rw [copyLoop]
      apply (copyStep_extends heap current newPtr).bind
      rintro ⟨⟨next, newNext⟩, heap₁⟩ extends₁
      apply returns_ite
      · rintro rfl
        exact returns_ok ⟨extends₁.grown.mono (Nat.zero_le _), extends₁.keys⟩
      · intro present
        rw [copiesFor, if_neg present] at extends₁
        apply (ih heap₁ next newNext).imp
        intro heap₂ extends₂
        rw [Nat.add_comm]
        exact extends₁.trans extends₂

/-- More fuel does not change the result. -/
theorem copyLoop_mono {fuel fuel' : Nat} (le : fuel ≤ fuel') {heap heap' : NodeHeap T}
    {current newPtr : NodePtr} (returned : copyLoop fuel heap current newPtr = .ok heap') :
    copyLoop fuel' heap current newPtr = .ok heap' := by
  induction fuel generalizing fuel' heap current newPtr with
  | zero => cases returned
  | succ fuel ih =>
      cases fuel' with
      | zero => cases le
      | succ fuel' =>
          rw [copyLoop] at returned ⊢
          rcases bind_eq_ok_iff.mp returned with ⟨⟨⟨next, newNext⟩, heap₁⟩, stepped, rest⟩
          rw [stepped, ok_bind]
          dsimp only at rest ⊢
          split_ifs at rest ⊢
          · exact rest
          · exact ih (Nat.le_of_succ_le_succ le) rest

end Copy

end SkAsync.Patricia
