import SkAsync.Buffer.Dynamic.Refinement

/-!
# Extents are used again

A dead head is moved behind the tail and becomes a spare.  Only an extent that is
the head can be partly read, so when a new extent is allocated, behind a full tail
and without a spare, every extent but the head is full of unread elements.  This
bounds the number of extents by the largest content there ever was.
-/

namespace SkAsync.Buffer.DynamicBuffer

open SkAsync.Library

variable {α : Type} {X : Nat}

/-- The number of extents on the list. -/
def extentCount (buffer : DynamicBuffer α X) : Nat :=
  (follow buffer.link buffer.allocated buffer.head).length

/-- The largest size of the content in the course of a run. -/
def peak (build : Build) (maxRanges : Nat) : DynamicBuffer α X → List (Op α) → Nat
  | buffer, [] => buffer.content.length
  | buffer, op :: ops =>
      match buffer.step build maxRanges op with
      | .error _ => buffer.content.length
      | .ok (_, next) => max buffer.content.length (peak build maxRanges next ops)

/-! ## Extents behind the head are unread -/

/-- No extent other than the head is read in part. -/
def UnreadBehindHead (buffer : DynamicBuffer α X) : Prop :=
  ∀ address < buffer.allocated, buffer.head ≠ some address →
    (buffer.window address).readPointer = 0

theorem unreadBehindHead_new (storage : Nat → Memory α) :
    (new storage : DynamicBuffer α X).UnreadBehindHead :=
  fun _ _ _ => rfl

/-- An operation that allocates nothing and leaves the extents behind the head unread. -/
structure KeepsExtents (buffer next : DynamicBuffer α X) : Prop where
  allocated_eq : next.allocated = buffer.allocated
  unread : buffer.UnreadBehindHead → next.UnreadBehindHead

theorem KeepsExtents.refl (buffer : DynamicBuffer α X) : buffer.KeepsExtents buffer :=
  ⟨rfl, id⟩

theorem KeepsExtents.trans {first second third : DynamicBuffer α X}
    (before : first.KeepsExtents second) (after : second.KeepsExtents third) :
    first.KeepsExtents third :=
  ⟨after.allocated_eq.trans before.allocated_eq, fun unread => after.unread (before.unread unread)⟩

theorem deref_eq_ok_iff {buffer : DynamicBuffer α X} {pointer : Option Nat} {address : Nat}
    {extent : Extent α X} :
    buffer.deref pointer = .ok (address, extent) ↔
      pointer = some address ∧ address < buffer.allocated ∧ buffer.extents address = extent := by
  cases pointer with
  | none => simp [deref]
  | some cell =>
      by_cases inHeap : cell < buffer.allocated
      · rw [deref, if_pos inHeap, Except.ok.injEq, Prod.mk.injEq, Option.some.injEq]
        constructor
        · rintro ⟨rfl, rfl⟩
          exact ⟨rfl, inHeap, rfl⟩
        · rintro ⟨rfl, _, rfl⟩
          exact ⟨rfl, rfl⟩
      · rw [deref, if_neg inHeap]
        constructor
        · intro impossible
          cases impossible
        · rintro ⟨same, here, _⟩
          exact absurd (Option.some.inj same ▸ here) inHeap

/-- Changing an extent that is the head, or is unread, leaves the others unread. -/
theorem UnreadBehindHead.set {buffer : DynamicBuffer α X} (unread : buffer.UnreadBehindHead)
    {address : Nat} {extent : Extent α X}
    (allowed : buffer.head = some address ∨ extent.readPointer = 0) :
    (buffer.set address extent).UnreadBehindHead := by
  intro other inHeap notHead
  by_cases same : other = address
  · subst same
    rw [window_set_self]
    exact allowed.resolve_left notHead
  · rw [window_set_of_ne _ _ _ same]
    exact unread other inHeap notHead

theorem keepsExtents_set_head {buffer : DynamicBuffer α X} {address : Nat}
    (head_eq : buffer.head = some address) (extent : Extent α X) :
    buffer.KeepsExtents (buffer.set address extent) :=
  ⟨rfl, fun unread => unread.set (.inl head_eq)⟩

/-- The head that is killed is cleared, so the next head may be any extent. -/
theorem keepsExtents_of_killHead {build : Build} {buffer next : DynamicBuffer α X}
    (killed : buffer.killHead build = .ok next) : buffer.KeepsExtents next := by
  unfold killHead at killed
  rcases bind_eq_ok_iff.mp killed with ⟨⟨first, head⟩, head_eq, killed⟩
  rcases bind_eq_ok_iff.mp killed with ⟨_, _, killed⟩
  rcases bind_eq_ok_iff.mp killed with ⟨_, _, killed⟩
  rcases bind_eq_ok_iff.mp killed with ⟨⟨last, tail⟩, tail_eq, killed⟩
  rcases bind_eq_ok_iff.mp killed with ⟨⟨first', old⟩, old_eq, killed⟩
  rcases deref_eq_ok_iff.mp head_eq with ⟨head_eq, _, _⟩
  rcases deref_eq_ok_iff.mp tail_eq with ⟨_, _, rfl⟩
  rcases deref_eq_ok_iff.mp old_eq with ⟨old_eq, _, _⟩
  cases head_eq.symm.trans old_eq
  cases killed
  refine ⟨rfl, ?_⟩
  intro unread address inHeap _
  by_cases isFirst : address = first
  · subst isFirst
    change ((set _ address _).window address).readPointer = 0
    rw [window_set_self]
    rfl
  · change ((set _ first _).window address).readPointer = 0
    rw [window_set_of_ne _ _ _ isFirst]
    have notHead : buffer.head ≠ some address := by
      rw [head_eq]
      exact fun same => isFirst (Option.some.inj same).symm
    have kept := unread address inHeap notHead
    by_cases isLast : address = last
    · subst isLast
      rw [window_set_self]
      exact kept
    · rw [window_set_of_ne _ _ _ isLast]
      exact kept

theorem keepsExtents_of_retireHead {build : Build} {buffer next : DynamicBuffer α X}
    (retired : buffer.retireHead build = .ok next) : buffer.KeepsExtents next := by
  unfold retireHead at retired
  rcases bind_eq_ok_iff.mp retired with ⟨⟨first, head⟩, head_eq, retired⟩
  rcases deref_eq_ok_iff.mp head_eq with ⟨head_eq, _, _⟩
  dsimp only at retired
  split_ifs at retired
  · exact keepsExtents_of_killHead retired
  · cases retired
    exact keepsExtents_set_head head_eq _
  · cases retired
    exact .refl _

/-- Reading allocates nothing. -/
theorem keepsExtents_of_readLoop {build : Build} {fuel left : Nat}
    {buffer next : DynamicBuffer α X} {elements : List α}
    (looped : readLoop build fuel buffer left = .ok (elements, next)) :
    buffer.KeepsExtents next := by
  induction fuel generalizing buffer left elements with
  | zero =>
      cases left with
      | zero =>
          cases looped
          exact .refl _
      | succ left => cases looped
  | succ fuel ih =>
      cases left with
      | zero =>
          cases looped
          exact .refl _
      | succ left =>
          rw [readLoop] at looped
          rcases bind_eq_ok_iff.mp looped with ⟨⟨first, head⟩, head_eq, looped⟩
          rcases deref_eq_ok_iff.mp head_eq with ⟨head_eq, _, _⟩
          rcases bind_eq_ok_iff.mp looped with ⟨_, _, looped⟩
          dsimp only at looped
          split_ifs at looped
          · cases looped
            exact .refl _
          · rcases bind_eq_ok_iff.mp looped with ⟨_, _, looped⟩
            rcases bind_eq_ok_iff.mp looped with ⟨middle, retired, looped⟩
            rcases bind_eq_ok_iff.mp looped with ⟨⟨rest, final⟩, continued, result⟩
            cases result
            exact ((keepsExtents_set_head head_eq _).trans
              (keepsExtents_of_retireHead retired)).trans (ih continued)

/-- Discarding allocates nothing. -/
theorem keepsExtents_of_discardLoop {build : Build} {fuel left : Nat}
    {buffer next : DynamicBuffer α X}
    (looped : discardLoop build fuel buffer left = .ok next) : buffer.KeepsExtents next := by
  induction fuel generalizing buffer left with
  | zero =>
      cases left with
      | zero =>
          cases looped
          exact .refl _
      | succ left => cases looped
  | succ fuel ih =>
      cases left with
      | zero =>
          cases looped
          exact .refl _
      | succ left =>
          rw [discardLoop] at looped
          rcases bind_eq_ok_iff.mp looped with ⟨⟨first, head⟩, head_eq, looped⟩
          rcases deref_eq_ok_iff.mp head_eq with ⟨head_eq, _, _⟩
          rcases bind_eq_ok_iff.mp looped with ⟨_, _, looped⟩
          rcases bind_eq_ok_iff.mp looped with ⟨middle, retired, looped⟩
          exact ((keepsExtents_set_head head_eq _).trans
            (keepsExtents_of_retireHead retired)).trans (ih looped)

/-! ## When an extent is allocated -/

theorem length_contentOf_of_readable {buffer : DynamicBuffer α X} {cells : List Nat} {size : Nat}
    (all : ∀ cell ∈ cells, (buffer.window cell).readable = size) :
    (buffer.contentOf cells).length = cells.length * size := by
  induction cells with
  | nil => simp
  | cons cell cells ih =>
      rw [contentOf_cons, List.length_append, FixedBuffer.length_content,
        all cell List.mem_cons_self,
        ih fun other member => all other (List.mem_cons_of_mem cell member), List.length_cons]
      rw [Nat.succ_mul, Nat.add_comm]

namespace Layout

variable {buffer : DynamicBuffer α X} {full spares : List Nat} {tail : Nat}

theorem allocated_eq (layout : buffer.Layout full tail spares) :
    buffer.allocated = full.length + 1 + spares.length := by
  have length_eq := layout.everyExtent.length_eq
  rw [List.length_range, List.length_append, List.length_cons] at length_eq
  omega

/-- The extents on the list are all that were allocated. -/
theorem extentCount_eq (layout : buffer.Layout full tail spares) :
    buffer.extentCount = buffer.allocated := by
  rw [extentCount, layout.follow_eq, layout.everyExtent.length_eq, List.length_range]

/-- Behind the head, a full extent has all of its elements to read. -/
theorem length_le_of_full (layout : buffer.Layout full tail spares)
    (unread : buffer.UnreadBehindHead) (isFull : (buffer.window tail).writePointer = X) :
    full.length * X ≤ (buffer.contentOf (full ++ [tail])).length := by
  cases full with
  | nil => simp
  | cons first full =>
      have all : ∀ cell ∈ full ++ [tail], (buffer.window cell).readable = X := by
        intro cell member
        have onList : cell ∈ full ++ tail :: spares := by
          rcases List.mem_append.mp member with inFull | isTail
          · exact List.mem_append_left _ inFull
          · rw [List.mem_singleton.mp isTail]
            exact List.mem_append_right _ List.mem_cons_self
        have notHead : buffer.head ≠ some cell := by
          rw [layout.head_eq_of_cons]
          intro same
          cases same
          exact (List.nodup_cons.mp layout.nodup).1 onList
        have start := unread cell (layout.lt_of_mem (List.mem_cons_of_mem first onList)) notHead
        have written : (buffer.window cell).writePointer = X := by
          rcases List.mem_append.mp member with inFull | isTail
          · exact (layout.full_written cell (List.mem_cons_of_mem first inFull)).1
          · rw [List.mem_singleton.mp isTail]
            exact isFull
        rw [FixedBuffer.readable, start, written, Nat.sub_zero]
      rw [List.cons_append, contentOf_cons, List.length_append, length_contentOf_of_readable all,
        List.length_append, List.length_singleton, List.length_cons]
      exact Nat.le_add_left ..

/-- Leaving a full tail without a spare allocates an extent, and then the content fills
all extents but two. -/
theorem leaveFullTail_extents (build : Build) (positive : 0 < X)
    (layout : buffer.Layout full tail spares) (unread : buffer.UnreadBehindHead)
    {ready : DynamicBuffer α X} (made : buffer.leaveFullTail build = .ok ready) :
    ready.UnreadBehindHead ∧ (ready.allocated = buffer.allocated ∨
      ready.allocated ≤ 2 + (buffer.contentOf (full ++ [tail])).length / X) := by
  unfold DynamicBuffer.leaveFullTail at made
  rw [layout.deref_tail, ok_bind] at made
  dsimp only at made
  split_ifs at made with noSpace
  · have isFull : (buffer.window tail).writePointer = X :=
      Nat.le_antisymm layout.tail_wellFormed.writePointer_le (Nat.sub_eq_zero_iff_le.mp noSpace)
    cases spares with
    | cons spare spares =>
        have write_zero := (layout.spares_empty spare List.mem_cons_self).2
        rw [makeTail_of_cons build layout.toLinked write_zero] at made
        cases made
        exact ⟨unread, .inl rfl⟩
    | nil =>
        rcases makeTail_of_nil build layout.toLinked with ⟨next, made', linked, kept, fresh⟩
        rcases Except.ok.inj (made'.symm.trans made) with rfl
        have allocated_eq : next.allocated = full.length + 2 := by
          have length_eq := linked.everyExtent.length_eq
          rw [List.length_range] at length_eq
          rw [← length_eq]
          simp
        have heads : next.head = buffer.head := by
          cases full with
          | nil => exact linked.head_eq_of_cons.trans layout.head_eq_tail.symm
          | cons first full => exact linked.head_eq_of_cons.trans layout.head_eq_of_cons.symm
        constructor
        · intro address inHeap notHead
          rw [heads] at notHead
          have before := layout.allocated_eq
          rcases Nat.lt_or_ge address buffer.allocated with old | new
          · rw [kept address old]
            exact unread address old notHead
          · have isNew : address = buffer.allocated := by
              rw [List.length_nil] at before
              omega
            rw [isNew, fresh]
            rfl
        · right
          have filled := (Nat.le_div_iff_mul_le positive).mpr
            (layout.length_le_of_full unread isFull)
          omega
  · cases made
    exact ⟨unread, .inl rfl⟩

end Layout

/-! ## Runs -/

/-- The buffer holds its content, and has no more extents than the largest content
there was asks for. -/
structure Recycles (buffer : DynamicBuffer α X) (largest : Nat) : Prop where
  holds : buffer.Holds buffer.content
  unread : buffer.UnreadBehindHead
  allocated_le : buffer.allocated ≤ 2 + largest / X

theorem Recycles.mono {buffer : DynamicBuffer α X} {largest largest' : Nat}
    (recycles : buffer.Recycles largest) (le : largest ≤ largest') : buffer.Recycles largest' :=
  ⟨recycles.holds, recycles.unread,
    recycles.allocated_le.trans (Nat.add_le_add_left (Nat.div_le_div_right le) 2)⟩

/-- An operation that keeps the extents. -/
theorem Recycles.keep {buffer next : DynamicBuffer α X} {largest : Nat}
    (recycles : buffer.Recycles largest) (keeps : buffer.KeepsExtents next) {queue : List α}
    (holds : next.Holds queue) : next.Recycles largest := by
  refine ⟨?_, keeps.unread recycles.unread, ?_⟩
  · rw [holds.content_eq]
    exact holds
  · rw [keeps.allocated_eq]
    exact recycles.allocated_le

/-- The loop of `write`, when the content does not get larger than `largest`. -/
theorem Recycles.writeLoop {build : Build} (positive : 0 < X) {fuel largest : Nat}
    {buffer next : DynamicBuffer α X} {data : List α} (recycles : buffer.Recycles largest)
    (enough : buffer.content.length + data.length ≤ largest)
    (looped : writeLoop build fuel buffer data = .ok next) : next.Recycles largest := by
  induction fuel generalizing buffer data with
  | zero =>
      cases data with
      | nil =>
          rw [DynamicBuffer.writeLoop] at looped
          cases looped
          exact recycles
      | cons c cptr => cases looped
  | succ fuel ih =>
      cases data with
      | nil =>
          rw [DynamicBuffer.writeLoop] at looped
          cases looped
          exact recycles
      | cons c cptr =>
          rcases recycles.holds with ⟨full, tail, spares, layout, content_eq⟩
          rcases layout.writeStep build positive c cptr with
            ⟨ready, full', tail', spares', filled, wr, made, _, wr_le, start_eq, layout',
              content_eq', rest⟩
          rcases layout.leaveFullTail_extents build positive recycles.unread made with
            ⟨unread, allocated_le⟩
          have holds' : (ready.set tail' filled).Holds (buffer.content ++ (c :: cptr).take wr) :=
            ⟨full', tail', spares', layout', by rw [content_eq', content_eq]⟩
          have length_eq : (ready.set tail' filled).content.length +
              ((c :: cptr).drop wr).length = buffer.content.length + (c :: cptr).length := by
            rw [holds'.content_eq, List.length_append, List.length_take_of_le wr_le,
              List.length_drop]
            omega
          rw [rest fuel] at looped
          apply ih ⟨?_, ?_, ?_⟩ (length_eq.trans_le enough) looped
          · rw [holds'.content_eq]
            exact holds'
          · -- the tail is the head, or it is unread as before
            apply unread.set
            by_cases isHead : ready.head = some tail'
            · exact .inl isHead
            · exact .inr (start_eq.trans (unread tail' layout'.tail_lt isHead))
          · change ready.allocated ≤ _
            rcases allocated_le with same | bounded
            · exact same.trans_le recycles.allocated_le
            · rw [content_eq] at bounded
              have le : buffer.content.length ≤ largest := Nat.le_of_add_right_le enough
              exact bounded.trans (Nat.add_le_add_left (Nat.div_le_div_right le) 2)

/-- One operation. -/
theorem Recycles.step (build : Build) (maxRanges : Nat) (positive : 0 < X) {largest : Nat}
    {buffer : DynamicBuffer α X} {op : Op α} (recycles : buffer.Recycles largest)
    (moves : buffer.Moves op) :
    ∃ out next, buffer.step build maxRanges op = .ok (out, next) ∧
      next.Recycles (max largest next.content.length) := by
  cases op with
  | write data =>
      rcases write_spec build positive recycles.holds data with ⟨next, written, holds⟩
      have looped := written
      unfold DynamicBuffer.write at looped
      rcases bind_eq_ok_iff.mp looped with ⟨final, inner, result⟩
      rcases (Prod.mk.inj (Except.ok.inj result)).2 with rfl
      refine ⟨.count data.length, final, ?_, ?_⟩
      · rw [DynamicBuffer.step, written]
        rfl
      · apply (recycles.mono (Nat.le_max_left ..)).writeLoop positive _ inner
        rw [holds.content_eq, List.length_append]
        exact Nat.le_max_right ..
  | read n =>
      rcases read_spec build positive recycles.holds n with ⟨next, read_eq, holds⟩
      have looped := read_eq
      unfold DynamicBuffer.read at looped
      rcases bind_eq_ok_iff.mp looped with ⟨⟨elements, final⟩, inner, result⟩
      rcases (Prod.mk.inj (Except.ok.inj result)).2 with rfl
      refine ⟨.data (min n buffer.content.length) (buffer.content.take n), final, ?_, ?_⟩
      · rw [DynamicBuffer.step, read_eq]
        rfl
      · exact (recycles.keep (keepsExtents_of_readLoop inner) holds).mono (Nat.le_max_left ..)
  | discard n =>
      rcases discard_spec build positive recycles.holds moves with ⟨next, discarded, holds⟩
      have looped := discarded
      unfold DynamicBuffer.discard at looped
      rcases bind_eq_ok_iff.mp looped with ⟨final, inner, result⟩
      rcases (Prod.mk.inj (Except.ok.inj result)).2 with rfl
      refine ⟨.count n, final, ?_, ?_⟩
      · rw [DynamicBuffer.step, discarded]
        rfl
      · exact (recycles.keep (keepsExtents_of_discardLoop inner) holds).mono (Nat.le_max_left ..)
  | readableRanges => exact absurd moves id

/-- The operations of a run, from a state on. -/
theorem Recycles.run {build : Build} {maxRanges : Nat} (positive : 0 < X) {largest : Nat}
    {buffer : DynamicBuffer α X} {ops : List (Op α)} (recycles : buffer.Recycles largest)
    (moves : Guarded (DynamicBuffer.step build maxRanges) Moves buffer ops) :
    ∃ outs final, Library.run (DynamicBuffer.step build maxRanges) buffer ops =
        .ok (outs, final) ∧
      final.Recycles (max largest (peak build maxRanges buffer ops)) := by
  induction ops generalizing buffer largest with
  | nil => exact ⟨[], buffer, rfl, recycles.mono (Nat.le_max_left ..)⟩
  | cons op ops ih =>
      rcases recycles.step build maxRanges positive moves.1 with
        ⟨out, next, stepped, recycles'⟩
      rcases ih recycles' (moves.2 out next stepped) with ⟨outs, final, ran, finish⟩
      refine ⟨out :: outs, final, run_cons_eq_ok_iff.mpr ⟨out, next, outs, stepped, ran, rfl⟩,
        finish.mono ?_⟩
      have first_le : next.content.length ≤ peak build maxRanges next ops := by
        cases ops with
        | nil => exact Nat.le_refl _
        | cons op ops =>
            rw [peak]
            split
            · exact Nat.le_refl _
            · exact Nat.le_max_left ..
      rw [peak, stepped]
      dsimp only
      omega

/-- In every run the number of extents on the list is at most two more than the extents
that the largest content fills. -/
theorem run_extentCount_le (maxRanges : Nat) (build : Build) (positive : 0 < X)
    (storage : Nat → Memory α) (ops : List (Op α))
    (moves : Guarded (step build maxRanges (X := X)) Moves (new storage) ops) :
    ∃ outs final, Library.run (step build maxRanges (X := X)) (new storage) ops =
        .ok (outs, final) ∧
      final.extentCount ≤ 2 + peak build maxRanges (new storage : DynamicBuffer α X) ops / X := by
  have start : (new storage : DynamicBuffer α X).Recycles 0 :=
    ⟨(holds_new positive storage).content_eq ▸ holds_new positive storage,
      unreadBehindHead_new storage, Nat.le_add_right_of_le (Nat.le_succ 1)⟩
  rcases start.run positive moves with ⟨outs, final, ran, recycles⟩
  rw [Nat.max_eq_right (Nat.zero_le _)] at recycles
  rcases recycles.holds with ⟨full, tail, spares, layout, _⟩
  exact ⟨outs, final, ran, layout.extentCount_eq.trans_le recycles.allocated_le⟩

theorem run_extentCount_le_of_refills :
    ∃ outs final, Library.run (step .debug 1 (X := 2)) (new fun _ _ => 0)
        [Op.write [1, 2, 3], .read 2, .write [4, 5], .discard 3, .write [6, 7, 8]] =
        .ok (outs, final) ∧
      final.extentCount ≤ 2 + peak .debug 1 (new fun _ _ => 0 : DynamicBuffer Nat 2)
        [.write [1, 2, 3], .read 2, .write [4, 5], .discard 3, .write [6, 7, 8]] / 2 :=
  run_extentCount_le 1 .debug Nat.zero_lt_two (fun _ _ => 0) _ (by decide)

end SkAsync.Buffer.DynamicBuffer
