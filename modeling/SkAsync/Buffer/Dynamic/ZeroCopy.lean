import SkAsync.Buffer.Dynamic.Refinement

/-!
# Writing into a `dynamic_buffer` without a copy

`writable_ranges` may move the tail before it returns, and everything before
the tail has to be written to the end.  `Safe` says when the move is harmless.
From a safe state, storing data through the ranges and committing it has the
effect of `write`; from any other state it does not, and the tail that was left
half written hides everything behind it.
-/

namespace SkAsync.Buffer.DynamicBuffer

open SkAsync.Library

variable {α : Type} {X : Nat}

/-- Store elements through a range, from its start on. -/
def store (buffer : DynamicBuffer α X) (range : Nat × Span) (elements : List α) :
    DynamicBuffer α X :=
  buffer.set range.1 { buffer.extents range.1 with
    data := (buffer.extents range.1).data.store range.2.start elements }

/-- Store data through ranges in order, each range taking what fits. -/
def fill : DynamicBuffer α X → List (Nat × Span) → List α → DynamicBuffer α X
  | buffer, [], _ => buffer
  | buffer, range :: spans, data =>
      fill (buffer.store range (data.take range.2.size)) spans (data.drop range.2.size)

/-- The space in a list of ranges. -/
def spaceIn (spans : List (Nat × Span)) : Nat :=
  (spans.map fun range => range.2.size).sum

/-- How much space the ranges offer. -/
def offered (build : Build) (maxRanges : Nat) (buffer : DynamicBuffer α X) : Nat :=
  match buffer.writableRanges build maxRanges with
  | .ok (spans, _) => spaceIn spans.items
  | .error _ => 0

/-- The zero-copy write: take the ranges, store the data through them, commit. -/
def zeroCopyWrite (build : Build) (maxRanges : Nat) (buffer : DynamicBuffer α X)
    (data : List α) : Except Fault (Nat × DynamicBuffer α X) := do
  let (spans, grown) ← buffer.writableRanges build maxRanges
  (grown.fill spans.items data).commit build data.length

/-- Operations of a run that uses both ways of writing. -/
inductive ZeroCopyOp (α : Type)
  | write (data : List α)
  | read (n : Nat)
  /-- Take the writable ranges and store data through them, none for just looking. -/
  | writableRanges (data : List α)
  | commit (n : Nat)
  deriving Repr

def zeroCopyStep (build : Build) (maxRanges : Nat) (buffer : DynamicBuffer α X) :
    ZeroCopyOp α → Except Fault (Output α × DynamicBuffer α X)
  | .write data => buffer.step build maxRanges (.write data)
  | .read n => buffer.step build maxRanges (.read n)
  | .writableRanges data => do
      let (spans, grown) ← buffer.writableRanges build maxRanges
      pure (.count (spaceIn spans.items), grown.fill spans.items data)
  | .commit n => do
      let (count, next) ← buffer.commit build n
      pure (.count count, next)

/-! ## The condition and the property -/

/-- The tail is empty, or full and the last extent, or has a spare behind it
and, where the check for a full tail is compiled in, is not full. -/
def Safe (build : Build) (buffer : DynamicBuffer α X) : Prop :=
  match buffer.deref buffer.tail with
  | .error _ => False
  | .ok (_, tail) => tail.empty ∨ (tail.writable = 0 ∧ tail.next = none) ∨
      (tail.next ≠ none ∧ (build = .release ∨ 0 < tail.writable))

instance (build : Build) (buffer : DynamicBuffer α X) : Decidable (buffer.Safe build) := by
  unfold Safe
  split <;> infer_instance

/-- The free memory of a list of extents. -/
def free (buffer : DynamicBuffer α X) (cells : List Nat) : List α :=
  cells.flatMap fun address =>
    (buffer.window address).data.slice (buffer.window address).writePointer
      (buffer.window address).writable

/-- The free memory from the tail on, which `commit` hands to the reader. -/
def freeMemory (buffer : DynamicBuffer α X) : List α :=
  buffer.free (follow buffer.link buffer.allocated buffer.tail)

/-- The writable ranges are taken in safe states only, and no more is committed
than there is space for. -/
def SafeStep (build : Build) (buffer : DynamicBuffer α X) : ZeroCopyOp α → Prop
  | .write _ => True
  | .read _ => True
  | .writableRanges _ => buffer.Safe build
  | .commit n => n ≤ buffer.freeMemory.length

instance (build : Build) (buffer : DynamicBuffer α X) :
    (op : ZeroCopyOp α) → Decidable (buffer.SafeStep build op)
  | .write _ => isTrue trivial
  | .read _ => isTrue trivial
  | .writableRanges _ => inferInstanceAs (Decidable (buffer.Safe build))
  | .commit _ => inferInstanceAs (Decidable (_ ≤ _))

/-- Operations that copy into or out of the buffer. -/
def Copies : Op α → Prop
  | .write _ => True
  | .read _ => True
  | .discard _ => False
  | .readableRanges => False

/-- Two buffers from which all later reads deliver the same, whatever is
written in between. -/
def SameReads (build : Build) (maxRanges : Nat) (first second : DynamicBuffer α X) : Prop :=
  ∀ later : List (Op α), (∀ op ∈ later, Copies op) → ∃ outs final final',
    run (step build maxRanges) first later = .ok (outs, final) ∧
      run (step build maxRanges) second later = .ok (outs, final')

/-- Taking the ranges changes nothing for later reads, and data that fits into
them is read later as if `write` had been called. -/
def AgreesWithWrite (build : Build) (maxRanges : Nat) (buffer : DynamicBuffer α X) : Prop :=
  (∃ spans grown, buffer.writableRanges build maxRanges = .ok (spans, grown) ∧
      SameReads build maxRanges grown buffer) ∧
    ∀ data, data.length ≤ buffer.offered build maxRanges → ∃ committed written,
      buffer.zeroCopyWrite build maxRanges data = .ok (data.length, committed) ∧
        buffer.write build data = .ok (data.length, written) ∧
        SameReads build maxRanges committed written

/-! ## Storing through the ranges -/

/-- The writable span of an extent. -/
def writableSpan (buffer : DynamicBuffer α X) (address : Nat) : Nat × Span :=
  (address, ⟨(buffer.window address).writePointer, (buffer.window address).writable⟩)

/-- `after` differs from `before` in free memory only. -/
structure Stored (before after : DynamicBuffer α X) : Prop where
  head_eq : after.head = before.head
  tail_eq : after.tail = before.tail
  allocated_eq : after.allocated = before.allocated
  link_eq : ∀ address, after.link address = before.link address
  readPointer_eq : ∀ address,
    (after.window address).readPointer = (before.window address).readPointer
  writePointer_eq : ∀ address,
    (after.window address).writePointer = (before.window address).writePointer
  content_eq : ∀ address, (after.window address).content = (before.window address).content

namespace Stored

variable {before middle after : DynamicBuffer α X}

theorem refl (buffer : DynamicBuffer α X) : Stored buffer buffer :=
  ⟨rfl, rfl, rfl, fun _ => rfl, fun _ => rfl, fun _ => rfl, fun _ => rfl⟩

theorem trans (first : Stored before middle) (second : Stored middle after) :
    Stored before after where
  head_eq := second.head_eq.trans first.head_eq
  tail_eq := second.tail_eq.trans first.tail_eq
  allocated_eq := second.allocated_eq.trans first.allocated_eq
  link_eq address := (second.link_eq address).trans (first.link_eq address)
  readPointer_eq address := (second.readPointer_eq address).trans (first.readPointer_eq address)
  writePointer_eq address := (second.writePointer_eq address).trans (first.writePointer_eq address)
  content_eq address := (second.content_eq address).trans (first.content_eq address)

theorem writableSpan_eq (stored : Stored before after) :
    after.writableSpan = before.writableSpan := by
  funext address
  simp only [writableSpan, FixedBuffer.writable, stored.writePointer_eq]

/-- A layout survives stores into free memory. -/
theorem layout (stored : Stored before after) {full spares : List Nat} {tail : Nat}
    (layout : before.Layout full tail spares) : after.Layout full tail spares where
  tail_eq := stored.tail_eq.trans layout.tail_eq
  segment := by
    rw [stored.head_eq]
    exact layout.segment.congr fun cell _ => stored.link_eq cell
  everyExtent := by
    rw [stored.allocated_eq]
    exact layout.everyExtent
  full_written := by
    intro address member
    rw [stored.writePointer_eq, stored.readPointer_eq]
    exact layout.full_written address member
  tail_wellFormed := by
    constructor
    · rw [stored.writePointer_eq, stored.readPointer_eq]
      exact layout.tail_wellFormed.ordered
    · rw [stored.writePointer_eq]
      exact layout.tail_wellFormed.writePointer_le
  tail_alive := by
    rw [stored.readPointer_eq]
    exact layout.tail_alive
  spares_empty := by
    intro address member
    rw [stored.writePointer_eq, stored.readPointer_eq]
    exact layout.spares_empty address member

theorem contentOf_eq (stored : Stored before after) (cells : List Nat) :
    after.contentOf cells = before.contentOf cells :=
  List.flatMap_congr fun address _ => stored.content_eq address

end Stored

/-- A store at the write pointer of an extent leaves what can be read alone. -/
theorem stored_store (buffer : DynamicBuffer α X) (address : Nat) (elements : List α) :
    Stored buffer (buffer.store (buffer.writableSpan address) elements) := by
  let filled : Extent α X := { buffer.extents address with
    data := (buffer.extents address).data.store (buffer.extents address).writePointer elements }
  change Stored buffer (buffer.set address filled)
  have content_eq : filled.toFixedBuffer.content = (buffer.window address).content := by
    unfold FixedBuffer.content
    rcases Nat.le_total (buffer.window address).readPointer (buffer.window address).writePointer
      with ordered | reversed
    · apply Memory.slice_store_of_disjoint
      left
      exact (Nat.add_sub_of_le ordered).le
    · have nothing : (buffer.window address).readable = 0 := Nat.sub_eq_zero_of_le reversed
      have nothing' : filled.readable = 0 := nothing
      rw [nothing, nothing', Memory.slice_zero, Memory.slice_zero]
  refine ⟨rfl, rfl, rfl, ?_, ?_, ?_, ?_⟩
  · intro other
    by_cases same : other = address
    · subst same
      simp [link, filled]
    · exact link_set_of_ne _ _ _ same
  all_goals
    intro other
    by_cases same : other = address
    · subst same
      rw [window_set_self]
      first
        | rfl
        | exact content_eq
    · rw [window_set_of_ne _ _ _ same]

theorem free_cons (buffer : DynamicBuffer α X) (cell : Nat) (cells : List Nat) :
    buffer.free (cell :: cells) =
      (buffer.window cell).data.slice (buffer.window cell).writePointer
        (buffer.window cell).writable ++ buffer.free cells :=
  List.flatMap_cons

theorem free_append (buffer : DynamicBuffer α X) (first second : List Nat) :
    buffer.free (first ++ second) = buffer.free first ++ buffer.free second :=
  List.flatMap_append

theorem spaceIn_writableSpan_cons (buffer : DynamicBuffer α X) (cell : Nat) (cells : List Nat) :
    spaceIn ((cell :: cells).map buffer.writableSpan) =
      (buffer.window cell).writable + spaceIn (cells.map buffer.writableSpan) :=
  List.sum_cons

/-- Data stored through the spans of different extents is in their free
memory, and nothing else changes. -/
theorem fill_spec (buffer : DynamicBuffer α X) {cells : List Nat} (nodup : cells.Nodup)
    (data : List α) :
    Stored buffer (buffer.fill (cells.map buffer.writableSpan) data) ∧
      (∀ address, address ∉ cells →
        (buffer.fill (cells.map buffer.writableSpan) data).window address =
          buffer.window address) ∧
      (data.length ≤ spaceIn (cells.map buffer.writableSpan) →
        data <+: (buffer.fill (cells.map buffer.writableSpan) data).free cells) := by
  induction cells generalizing buffer data with
  | nil =>
      refine ⟨Stored.refl buffer, fun _ _ => rfl, ?_⟩
      intro fits
      rw [List.length_eq_zero_iff.mp (Nat.le_zero.mp fits)]
      exact List.nil_prefix
  | cons cell cells ih =>
      rcases List.nodup_cons.mp nodup with ⟨notMember, nodup'⟩
      generalize size_eq : (buffer.window cell).writable = size
      let chunk := data.take size
      let first := buffer.store (buffer.writableSpan cell) chunk
      have fill_eq : buffer.fill ((cell :: cells).map buffer.writableSpan) data =
          first.fill (cells.map buffer.writableSpan) (data.drop size) := by
        rw [← size_eq]
        simp only [first, chunk, ← size_eq]
        rfl
      have stored : Stored buffer first := stored_store buffer cell chunk
      rcases ih first nodup' (data.drop size) with ⟨stored', kept, content⟩
      rw [stored.writableSpan_eq] at stored' kept content
      rw [fill_eq]
      refine ⟨stored.trans stored', ?_, ?_⟩
      · intro address outside
        rw [List.mem_cons, not_or] at outside
        rw [kept address outside.2]
        exact window_set_of_ne _ _ _ outside.1
      · intro fits
        rw [spaceIn_writableSpan_cons, size_eq] at fits
        have window_eq : first.window cell = { buffer.window cell with
            data := (buffer.window cell).data.store (buffer.window cell).writePointer chunk } :=
          window_set_self ..
        have writable_eq : (first.window cell).writable = size := by
          rw [window_eq, ← size_eq]
          rfl
        rw [free_cons, kept cell notMember, writable_eq, window_eq]
        dsimp only
        rcases Nat.le_total data.length size with short | long
        · rcases Nat.exists_eq_add_of_le short with ⟨more, rfl⟩
          have all : chunk = data := List.take_of_length_le short
          rw [all, Memory.slice_add, Memory.slice_store_self, List.append_assoc]
          exact List.prefix_append ..
        · have length_eq : chunk.length = size := List.length_take_of_le long
          have whole : ((buffer.window cell).data.store (buffer.window cell).writePointer
              chunk).slice (buffer.window cell).writePointer size = chunk := by
            rw [← length_eq, Memory.slice_store_self]
          have rest : (data.drop size).length ≤ spaceIn (cells.map buffer.writableSpan) := by
            rw [List.length_drop]
            exact Nat.sub_le_iff_le_add'.mpr fits
          rw [whole]
          have split : chunk ++ data.drop size = data := List.take_append_drop ..
          nth_rewrite 1 [← split]
          exact (List.prefix_append_right_inj chunk).mpr (content rest)

/-! ## Taking the ranges -/

/-- The loop of `writable_ranges` collects the spans of the next extents, as
many as there is room for. -/
theorem writableLoop_spec {maxRanges : Nat} (build : Build) {buffer : DynamicBuffer α X}
    {room : Nat} {tptr : Option Nat} {cells : List Nat}
    {ret : StaticVector (Nat × Span) maxRanges} (segment : Segment buffer.link tptr cells none)
    (allocated : ∀ address ∈ cells, address < buffer.allocated)
    (space : ∀ address ∈ cells, build = .release ∨ 0 < (buffer.window address).writable)
    (capacity : ret.items.length + room = maxRanges) :
    ∃ final, writableLoop build buffer room tptr ret = .ok final ∧
      final.items = ret.items ++ (cells.take room).map buffer.writableSpan := by
  induction room generalizing tptr cells ret with
  | zero =>
      refine ⟨ret, ?_, by simp⟩
      cases tptr with
      | none => rfl
      | some address => rfl
  | succ room ih =>
      cases cells with
      | nil =>
          rw [segment_nil] at segment
          subst segment
          exact ⟨ret, rfl, by simp⟩
      | cons cell cells =>
          rcases segment with ⟨rfl, rest⟩
          have below : ret.items.length < maxRanges := by omega
          rcases StaticVector.pushBack_of_lt build (buffer.writableSpan cell) below with
            ⟨pushed, pushed_eq, items_eq⟩
          have pushed_eq' : ret.pushBack build
              (cell, ⟨(buffer.extents cell).writePointer, (buffer.extents cell).writable⟩) =
                .ok pushed := pushed_eq
          have capacity' : pushed.items.length + room = maxRanges := by
            rw [items_eq, List.length_append, List.length_singleton]
            omega
          rcases ih rest
            (fun address member => allocated address (List.mem_cons_of_mem cell member))
            (fun address member => space address (List.mem_cons_of_mem cell member)) capacity'
            with ⟨final, looped, final_items⟩
          have passes : build = .release ∨ 0 < (buffer.extents cell).writable :=
            space cell List.mem_cons_self
          refine ⟨final, ?_, ?_⟩
          · rw [writableLoop, deref_of_lt buffer (allocated cell List.mem_cons_self)]
            simp only [ok_bind, skCheck_of_release_or passes, pushed_eq']
            exact looped
          · rw [final_items, items_eq, List.append_assoc]
            rfl

theorem writable_pos_of_mem_spares (positive : 0 < X) {buffer : DynamicBuffer α X}
    {full spares : List Nat} {tail : Nat} (layout : buffer.Layout full tail spares)
    {address : Nat} (member : address ∈ spares) : 0 < (buffer.window address).writable := by
  rw [FixedBuffer.writable, (layout.spares_empty address member).2]
  exact positive

/-- From a safe state `_ensure_minfree` keeps the layout and the content, and
the check for a full tail cannot fail afterwards. -/
theorem ensureMinfree_spec (build : Build) (positive : 0 < X) {buffer : DynamicBuffer α X}
    {full spares : List Nat} {tail : Nat} (layout : buffer.Layout full tail spares)
    (safe : buffer.Safe build) :
    ∃ next full' tail' spares', buffer.ensureMinfree build = .ok next ∧
      next.Layout full' tail' spares' ∧
      (build = .release ∨ 0 < (next.window tail').writable) ∧
      next.contentOf (full' ++ [tail']) = buffer.contentOf (full ++ [tail]) := by
  unfold Safe at safe
  unfold ensureMinfree
  rw [layout.deref_tail] at safe ⊢
  rw [ok_bind]
  dsimp only at safe ⊢
  by_cases isEmpty : (buffer.extents tail).empty
  · refine ⟨buffer, full, tail, spares, if_pos isEmpty, layout, Or.inr ?_, rfl⟩
    have write_zero : (buffer.window tail).writePointer = 0 := isEmpty
    rw [FixedBuffer.writable, write_zero]
    exact positive
  · rw [if_neg isEmpty]
    have next_eq := layout.spares_segment
    cases spares with
    | nil =>
        rw [segment_nil] at next_eq
        have noSpace : (buffer.extents tail).writable = 0 := by
          rcases safe with isEmpty' | ⟨noSpace, _⟩ | ⟨hasNext, _⟩
          · exact absurd isEmpty' isEmpty
          · exact noSpace
          · exact absurd next_eq hasNext
        have isFull : (buffer.window tail).writePointer = X :=
          Nat.le_antisymm layout.tail_wellFormed.writePointer_le
            (Nat.sub_eq_zero_iff_le.mp noSpace)
        rcases layout.makeTail build positive isFull with
          ⟨next, full', tail', spares', made, layout', write_zero, content_eq⟩
        refine ⟨next, full', tail', spares', ?_, layout', Or.inr ?_, content_eq⟩
        · simp only [next_eq]
          exact made
        · rw [FixedBuffer.writable, write_zero]
          exact positive
    | cons spare spares =>
        have hasNext : (buffer.extents tail).next = some spare := next_eq.1
        have write_zero : (buffer.extents spare).empty :=
          (layout.spares_empty spare List.mem_cons_self).2
        have inHeap : spare < buffer.allocated := layout.lt_of_mem (by simp)
        refine ⟨buffer, full, tail, spare :: spares, ?_, layout, ?_, rfl⟩
        · simp only [hasNext, deref_of_lt buffer inHeap, ok_bind, skCheck_of write_zero,
            pure_eq_ok]
        · rcases safe with isEmpty' | ⟨_, noNext⟩ | ⟨_, space⟩
          · exact absurd isEmpty' isEmpty
          · rw [hasNext] at noNext
            cases noNext
          · exact space

/-- From a safe state `writable_ranges` keeps the content and returns the spans
of the tail and the spares behind it, as many as there is room for. -/
theorem writableRanges_spec (maxRanges : Nat) (build : Build) (positive : 0 < X)
    {buffer : DynamicBuffer α X} {queue : List α} (holds : buffer.Holds queue)
    (safe : buffer.Safe build) :
    ∃ spans grown full tail spares,
      buffer.writableRanges build maxRanges = .ok (spans, grown) ∧
      grown.Layout full tail spares ∧ grown.contentOf (full ++ [tail]) = queue ∧
      spans.items = ((tail :: spares).take maxRanges).map grown.writableSpan := by
  rcases holds with ⟨full, tail, spares, layout, rfl⟩
  rcases ensureMinfree_spec build positive layout safe with
    ⟨grown, full', tail', spares', ensured, layout', space, content_eq⟩
  have present : grown.tail ≠ none := by
    rw [layout'.tail_eq]
    exact Option.some_ne_none _
  have segment : Segment grown.link grown.tail (tail' :: spares') none := by
    rw [layout'.tail_eq]
    exact ⟨rfl, layout'.spares_segment⟩
  have capacity : (StaticVector.empty : StaticVector (Nat × Span) maxRanges).items.length +
      maxRanges = maxRanges := Nat.zero_add _
  have allSpace : ∀ address ∈ tail' :: spares',
      build = .release ∨ 0 < (grown.window address).writable := by
    intro address member
    rcases List.mem_cons.mp member with rfl | inSpares
    · exact space
    · exact Or.inr (writable_pos_of_mem_spares positive layout' inSpares)
  rcases writableLoop_spec build segment
    (fun address member => layout'.lt_of_mem (List.mem_append_right _ member)) allSpace capacity
    with ⟨spans, looped, items_eq⟩
  refine ⟨spans, grown, full', tail', spares', ?_, layout', content_eq, items_eq⟩
  unfold writableRanges
  rw [ensured, ok_bind]
  simp only [skCheck_of present, ok_bind, looped, pure_eq_ok]

/-! ## Committing -/

/-- Committing space of the tail appends what its free memory holds. -/
theorem Layout.commit_tail {buffer : DynamicBuffer α X} {full spares : List Nat} {tail : Nat}
    (layout : buffer.Layout full tail spares) {n : Nat}
    (fits : n ≤ (buffer.window tail).writable) :
    let moved : Extent α X := { buffer.extents tail with
      writePointer := (buffer.extents tail).writePointer + n }
    (buffer.set tail moved).Layout full tail spares ∧
      (buffer.set tail moved).contentOf (full ++ [tail]) =
        buffer.contentOf (full ++ [tail]) ++ (buffer.free (tail :: spares)).take n ∧
      (buffer.set tail moved).free (tail :: spares) =
        (buffer.free (tail :: spares)).drop n := by
  intro moved
  let chunk := (buffer.window tail).data.slice (buffer.window tail).writePointer n
  have length_eq : chunk.length = n := Memory.length_slice ..
  have stored := layout.store_tail chunk (length_eq.trans_le fits)
  have same : ({ buffer.extents tail with
      data := (buffer.extents tail).data.store (buffer.extents tail).writePointer chunk
      writePointer := (buffer.extents tail).writePointer + chunk.length } : Extent α X) =
        moved := by
    have unchanged : (buffer.extents tail).data.store (buffer.extents tail).writePointer chunk =
        (buffer.extents tail).data := Memory.store_slice ..
    simp only [unchanged, length_eq, moved]
  simp only [same] at stored
  have size_le : n ≤ ((buffer.window tail).data.slice (buffer.window tail).writePointer
      (buffer.window tail).writable).length := by
    rw [Memory.length_slice]
    exact fits
  have kept : (buffer.set tail moved).free spares = buffer.free spares :=
    List.flatMap_congr fun address member => by
      rw [window_set_of_ne _ _ _ (layout.ne_tail_of_mem_spares member)]
  refine ⟨stored.1, ?_, ?_⟩
  · rw [stored.2, free_cons, List.take_append_of_le_length size_le, Memory.take_slice,
      Nat.min_eq_left fits]
  · rw [free_cons, free_cons, kept, List.drop_append_of_le_length size_le, Memory.drop_slice,
      Nat.min_eq_left fits, window_set_self]
    have writable_eq : moved.writable = (buffer.window tail).writable - n := Nat.sub_add_eq ..
    rw [writable_eq]
    rfl

/-- Before committing to a full tail, the tail moves on to the spare behind it. -/
theorem Layout.nextTail (build : Build) (positive : 0 < X) {buffer : DynamicBuffer α X}
    {full spares : List Nat} {tail : Nat} (layout : buffer.Layout full tail spares)
    (space : buffer.free (tail :: spares) ≠ []) :
    ∃ next full' tail' spares', buffer.nextTail build = .ok next ∧
      next.Layout full' tail' spares' ∧ 0 < (next.window tail').writable ∧
      next.contentOf (full' ++ [tail']) = buffer.contentOf (full ++ [tail]) ∧
      next.free (tail' :: spares') = buffer.free (tail :: spares) := by
  unfold DynamicBuffer.nextTail
  rw [layout.deref_tail, ok_bind]
  dsimp only
  by_cases noSpace : (buffer.extents tail).writable = 0
  · rw [if_pos noSpace]
    have nothing : buffer.free (tail :: spares) = buffer.free spares := by
      rw [free_cons, window, noSpace, Memory.slice_zero, List.nil_append]
    cases spares with
    | nil => exact absurd nothing space
    | cons spare spares =>
        have next_eq : (buffer.extents tail).next = some spare := layout.spares_segment.1
        have present : (buffer.extents tail).next ≠ none := by
          rw [next_eq]
          exact Option.some_ne_none _
        have isFull : (buffer.window tail).writePointer = X :=
          Nat.le_antisymm layout.tail_wellFormed.writePointer_le
            (Nat.sub_eq_zero_iff_le.mp noSpace)
        rcases layout.advance positive isFull with ⟨layout', content_eq⟩
        refine ⟨{ buffer with tail := some spare }, full ++ [tail], spare, spares, ?_, layout',
          writable_pos_of_mem_spares positive layout List.mem_cons_self, content_eq,
          nothing.symm⟩
        rw [skCheck_of present, ok_bind, next_eq, pure_eq_ok]
  · exact ⟨buffer, full, tail, spares, if_neg noSpace, layout, Nat.pos_of_ne_zero noSpace, rfl,
      rfl⟩

/-- With enough fuel, the loop of `commit` appends the free memory it passes. -/
theorem commitLoop_spec (build : Build) (positive : 0 < X) {fuel cn : Nat}
    {buffer : DynamicBuffer α X} {full spares : List Nat} {tail : Nat} (enough : cn ≤ fuel)
    (layout : buffer.Layout full tail spares)
    (fits : cn ≤ (buffer.free (tail :: spares)).length) :
    ∃ next, commitLoop build fuel buffer cn = .ok next ∧
      next.Holds (buffer.contentOf (full ++ [tail]) ++
        (buffer.free (tail :: spares)).take cn) := by
  induction fuel generalizing buffer full tail spares cn with
  | zero =>
      obtain rfl := Nat.le_zero.mp enough
      exact ⟨buffer, by simp [commitLoop], full, tail, spares, layout, by simp⟩
  | succ fuel ih =>
      cases cn with
      | zero => exact ⟨buffer, by simp [commitLoop], full, tail, spares, layout, by simp⟩
      | succ cn =>
          have space : buffer.free (tail :: spares) ≠ [] :=
            List.ne_nil_of_length_pos (Nat.lt_of_lt_of_le (Nat.succ_pos cn) fits)
          rcases layout.nextTail build positive space with
            ⟨ready, full', tail', spares', moved_eq, layout', writable, content_eq, free_eq⟩
          generalize step_eq : min (cn + 1) (ready.extents tail').writable = cancommit
          have step_le : cancommit ≤ cn + 1 := step_eq ▸ Nat.min_le_left ..
          have step_fits : cancommit ≤ (ready.window tail').writable :=
            step_eq ▸ Nat.min_le_right ..
          have step_pos : 0 < cancommit := by
            rw [← step_eq]
            exact Nat.lt_min.mpr ⟨Nat.succ_pos _, writable⟩
          rcases layout'.commit_tail step_fits with ⟨layout'', content_eq', free_eq'⟩
          have shorter : cn + 1 - cancommit ≤ fuel := by omega
          have fits' : cn + 1 - cancommit ≤
              ((ready.free (tail' :: spares')).drop cancommit).length := by
            rw [List.length_drop, free_eq]
            exact Nat.sub_le_sub_right fits cancommit
          rw [← free_eq'] at fits'
          rcases ih shorter layout'' fits' with ⟨next, looped, holds⟩
          refine ⟨next, ?_, ?_⟩
          · rw [commitLoop, moved_eq, ok_bind, layout'.deref_tail, ok_bind]
            simp only [step_eq]
            exact looped
          · rw [content_eq', free_eq', content_eq, free_eq, List.append_assoc,
              ← List.take_add, Nat.add_sub_of_le step_le] at holds
            exact holds

theorem commit_spec (build : Build) (positive : 0 < X) {buffer : DynamicBuffer α X}
    {full spares : List Nat} {tail n : Nat} (layout : buffer.Layout full tail spares)
    (fits : n ≤ (buffer.free (tail :: spares)).length) :
    ∃ next, buffer.commit build n = .ok (n, next) ∧
      next.Holds (buffer.contentOf (full ++ [tail]) ++
        (buffer.free (tail :: spares)).take n) := by
  rcases commitLoop_spec build positive (Nat.le_add_right n buffer.allocated) layout fits with
    ⟨next, looped, holds⟩
  refine ⟨next, ?_, holds⟩
  unfold commit
  rw [looped, ok_bind, pure_eq_ok]

/-! ## Agreement with `write` -/

/-- Buffers that hold the same queue deliver the same. -/
theorem sameReads_of_holds {maxRanges : Nat} (build : Build) (positive : 0 < X)
    {first second : DynamicBuffer α X} {queue : List α} (left : first.Holds queue)
    (right : second.Holds queue) : SameReads build maxRanges first second := by
  intro later copies
  induction later generalizing first second queue with
  | nil => exact ⟨[], first, second, rfl, rfl⟩
  | cons op later ih =>
      have rest := fun op' member => copies op' (List.mem_cons_of_mem op member)
      have same : ∃ out next next' queue', first.step build maxRanges op = .ok (out, next) ∧
          second.step build maxRanges op = .ok (out, next') ∧ next.Holds queue' ∧
          next'.Holds queue' := by
        cases op with
        | write data =>
            rcases write_spec build positive left data with ⟨next, written, holds⟩
            rcases write_spec build positive right data with ⟨next', written', holds'⟩
            refine ⟨.count data.length, next, next', queue ++ data, ?_, ?_, holds, holds'⟩
            · rw [step, written]
              rfl
            · rw [step, written']
              rfl
        | read n =>
            rcases read_spec build positive left n with ⟨next, read_eq, holds⟩
            rcases read_spec build positive right n with ⟨next', read_eq', holds'⟩
            refine ⟨.data (min n queue.length) (queue.take n), next, next', queue.drop n, ?_, ?_,
              holds, holds'⟩
            · rw [step, read_eq]
              rfl
            · rw [step, read_eq']
              rfl
        | discard n => exact absurd (copies _ List.mem_cons_self) id
        | readableRanges => exact absurd (copies _ List.mem_cons_self) id
      rcases same with ⟨out, next, next', queue', stepped, stepped', holds, holds'⟩
      rcases ih holds holds' rest with ⟨outs, final, final', ran, ran'⟩
      exact ⟨out :: outs, final, final', run_cons_eq_ok_iff.mpr ⟨out, next, outs, stepped, ran,
        rfl⟩,
        run_cons_eq_ok_iff.mpr ⟨out, next', outs, stepped', ran', rfl⟩⟩

/-- In a safe state the two ways of writing agree. -/
theorem agreesWithWrite_of_safe {maxRanges : Nat} (build : Build) (positive : 0 < X)
    {buffer : DynamicBuffer α X} {queue : List α} (holds : buffer.Holds queue)
    (safe : buffer.Safe build) : AgreesWithWrite build maxRanges buffer := by
  rcases writableRanges_spec maxRanges build positive holds safe with
    ⟨spans, grown, full, tail, spares, taken, layout, content_eq, items_eq⟩
  refine ⟨⟨spans, grown, taken, ?_⟩, ?_⟩
  · exact sameReads_of_holds build positive ⟨full, tail, spares, layout, content_eq⟩ holds
  · intro data fits
    rw [offered, taken] at fits
    dsimp only at fits
    rw [items_eq] at fits
    have nodup : (tail :: spares).Nodup := (List.nodup_append.mp layout.nodup).2.1
    rcases fill_spec grown (nodup.sublist (List.take_sublist maxRanges _)) data with
      ⟨stored, _, prefix_of_fits⟩
    rw [← items_eq] at stored prefix_of_fits fits
    have layout' := stored.layout layout
    have shown : data <+: (grown.fill spans.items data).free (tail :: spares) := by
      rw [← List.take_append_drop maxRanges (tail :: spares), free_append]
      exact (prefix_of_fits fits).trans (List.prefix_append ..)
    rcases commit_spec build positive layout' shown.length_le with ⟨committed, commit_eq, held⟩
    rw [stored.contentOf_eq, content_eq, ← List.prefix_iff_eq_take.mp shown] at held
    rcases write_spec build positive holds data with ⟨written, write_eq, held'⟩
    refine ⟨committed, written, ?_, write_eq, sameReads_of_holds build positive held held'⟩
    unfold zeroCopyWrite
    rw [taken, ok_bind]
    exact commit_eq

/-- What the operations of a safe run do to the queue: reads and writes act on
it, taking the ranges does not, and a commit appends. -/
inductive ZeroCopyAllows : List α → ZeroCopyOp α → Output α → List α → Prop
  | write (queue data : List α) :
      ZeroCopyAllows queue (.write data) (.count data.length) (queue ++ data)
  | read (queue : List α) (n : Nat) :
      ZeroCopyAllows queue (.read n) (.data (min n queue.length) (queue.take n)) (queue.drop n)
  | writableRanges (queue data : List α) (space : Nat) :
      ZeroCopyAllows queue (.writableRanges data) (.count space) queue
  | commit (queue added : List α) :
      ZeroCopyAllows queue (.commit added.length) (.count added.length) (queue ++ added)

theorem zeroCopyStep_refines {maxRanges : Nat} (build : Build) (positive : 0 < X) :
    Refines (zeroCopyStep build maxRanges (X := X)) (ZeroCopyAllows (α := α)) Holds
      (SafeStep build) where
  step_refines := by
    intro buffer queue op holds safe
    cases op with
    | write data =>
        rcases write_spec build positive holds data with ⟨next, written, holds'⟩
        refine ⟨_, next, _, ?_, .write queue data, holds'⟩
        rw [zeroCopyStep, step, written]
        rfl
    | read n =>
        rcases read_spec build positive holds n with ⟨next, read_eq, holds'⟩
        refine ⟨_, next, _, ?_, .read queue n, holds'⟩
        rw [zeroCopyStep, step, read_eq]
        rfl
    | writableRanges data =>
        rcases writableRanges_spec maxRanges build positive holds safe with
          ⟨spans, grown, full, tail, spares, taken, layout, content_eq, items_eq⟩
        have nodup : (tail :: spares).Nodup := (List.nodup_append.mp layout.nodup).2.1
        have stored := (fill_spec grown (nodup.sublist (List.take_sublist maxRanges _)) data).1
        rw [← items_eq] at stored
        refine ⟨_, grown.fill spans.items data, queue, ?_,
          .writableRanges queue data (spaceIn spans.items), full, tail, spares,
          stored.layout layout, (stored.contentOf_eq _).trans content_eq⟩
        rw [zeroCopyStep, taken]
        rfl
    | commit n =>
        rcases holds with ⟨full, tail, spares, layout, rfl⟩
        have free_eq : buffer.freeMemory = buffer.free (tail :: spares) := by
          have segment : Segment buffer.link buffer.tail (tail :: spares) none := by
            rw [layout.tail_eq]
            exact ⟨rfl, layout.spares_segment⟩
          rw [freeMemory, segment.follow_eq]
          have total := layout.everyExtent.length_eq
          rw [List.length_range, List.length_append] at total
          exact total ▸ Nat.le_add_left ..
        have fits : n ≤ (buffer.free (tail :: spares)).length := free_eq ▸ safe
        rcases commit_spec build positive layout fits with ⟨next, commit_eq, holds'⟩
        have added : ((buffer.free (tail :: spares)).take n).length = n :=
          List.length_take_of_le fits
        have allowed := ZeroCopyAllows.commit (buffer.contentOf (full ++ [tail]))
          ((buffer.free (tail :: spares)).take n)
        rw [added] at allowed
        refine ⟨_, next, _, ?_, allowed, holds'⟩
        rw [zeroCopyStep, commit_eq]
        rfl

/-- In every run that takes the ranges in safe states only, every operation
completes and reads deliver the oldest elements; and in each safe state it
reaches, the zero-copy write agrees with `write`. -/
theorem run_agreesWithWrite {maxRanges : Nat} (build : Build) (positive : 0 < X)
    (storage : Nat → Memory α) (ops : List (ZeroCopyOp α))
    (safe : Guarded (zeroCopyStep build maxRanges (X := X)) (SafeStep build) (new storage) ops) :
    ∃ outs final queue,
      run (zeroCopyStep build maxRanges (X := X)) (new storage) ops = .ok (outs, final) ∧
      Trace ZeroCopyAllows [] ops outs queue ∧ final.content = queue ∧
      (final.Safe build → AgreesWithWrite build maxRanges final) := by
  rcases (zeroCopyStep_refines build positive).run (holds_new positive storage) safe with
    ⟨outs, final, queue, ran, trace, holds⟩
  exact ⟨outs, final, queue, ran, trace, holds.content_eq,
    agreesWithWrite_of_safe build positive holds⟩

theorem run_agreesWithWrite_of_full_tail :
    ∃ outs final queue,
      run (zeroCopyStep .debug 5 (X := 4)) (new fun _ _ => 0)
        [.write [1, 2, 3, 4], .writableRanges [5, 6], .commit 2, .read 5] = .ok (outs, final) ∧
      Trace ZeroCopyAllows []
        [.write [1, 2, 3, 4], .writableRanges [5, 6], .commit 2, .read 5] outs queue ∧
      final.content = queue ∧ (final.Safe .debug → AgreesWithWrite .debug 5 final) :=
  run_agreesWithWrite .debug (Nat.succ_pos 3) (fun _ _ => 0) _ (by decide)

/-- The outputs of reading back what the zero-copy write and `write` stored. -/
def readBack (build : Build) (maxRanges : Nat) (written : Except Fault (Nat × DynamicBuffer α X))
    (n : Nat) : Except Fault (List (Output α)) := do
  let (_, buffer) ← written
  let (outs, _) ← run (step build maxRanges) buffer [.read n]
  pure outs

/-- Reading back tells states apart on which later reads differ. -/
theorem AgreesWithWrite.readBack_eq {maxRanges : Nat} {build : Build}
    {buffer : DynamicBuffer α X} (agrees : AgreesWithWrite build maxRanges buffer)
    (data : List α) (fits : data.length ≤ buffer.offered build maxRanges) (n : Nat) :
    readBack build maxRanges (buffer.zeroCopyWrite build maxRanges data) n =
      readBack build maxRanges (buffer.write build data) n := by
  rcases agrees.2 data fits with ⟨committed, written, left, right, same⟩
  have copies : ∀ op ∈ [Op.read (α := α) n], Copies op := by
    intro op member
    rw [List.mem_singleton.mp member]
    trivial
  rcases same [.read n] copies with ⟨outs, final, final', ran, ran'⟩
  rw [left, right, readBack, readBack, ok_bind, ok_bind]
  simp only [ran, ran']
  rfl

/-- One element written into an extent of four, then one more by the zero-copy
write: a read delivers the first only, where `write` would have had it deliver
both. -/
theorem zeroCopy_after_partial_write :
    ∃ outs final,
      run (zeroCopyStep .debug 5 (X := 4)) (new fun _ _ => 0) [.write [1]] = .ok (outs, final) ∧
        readBack .debug 5 (final.zeroCopyWrite .debug 5 [2]) 2 = .ok [.data 1 [1]] ∧
        readBack .debug 5 (final.write .debug [2]) 2 = .ok [.data 2 [1, 2]] ∧
        ¬ AgreesWithWrite .debug 5 final := by
  refine ⟨_, _, rfl, by decide, by decide, ?_⟩
  intro agrees
  have same := agrees.readBack_eq [2] (by decide) 2
  revert same
  decide

end SkAsync.Buffer.DynamicBuffer
