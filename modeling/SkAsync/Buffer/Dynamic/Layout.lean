import SkAsync.Buffer.Dynamic.Core

/-!
# The extent list

The invariant has two halves.  `Linked` is about pointers only: the list from
the head is finite, visits every allocated extent once, and passes the tail.
`Layout` adds what the windows of the extents hold: everything before the tail
is written to the end and not read to the end, everything after it is empty.

`_make_tail` and `_kill_head` rearrange the list; each of them is described once
here, at both levels.
-/

namespace SkAsync.Buffer.DynamicBuffer

open SkAsync.Library

variable {α : Type} {X : Nat}

section Cells

variable (buffer : DynamicBuffer α X) (address : Nat) (extent : Extent α X)

@[simp]
theorem head_set : (buffer.set address extent).head = buffer.head :=
  rfl

@[simp]
theorem tail_set : (buffer.set address extent).tail = buffer.tail :=
  rfl

@[simp]
theorem allocated_set : (buffer.set address extent).allocated = buffer.allocated :=
  rfl

@[simp]
theorem extents_set_self : (buffer.set address extent).extents address = extent :=
  Function.update_self ..

@[simp]
theorem window_set_self : (buffer.set address extent).window address = extent.toFixedBuffer := by
  simp [window]

theorem extents_set_of_ne {other : Nat} (distinct : other ≠ address) :
    (buffer.set address extent).extents other = buffer.extents other :=
  Function.update_of_ne distinct ..

theorem window_set_of_ne {other : Nat} (distinct : other ≠ address) :
    (buffer.set address extent).window other = buffer.window other :=
  congrArg Extent.toFixedBuffer (extents_set_of_ne buffer address extent distinct)

theorem link_set_of_ne {other : Nat} (distinct : other ≠ address) :
    (buffer.set address extent).link other = buffer.link other :=
  congrArg Extent.next (extents_set_of_ne buffer address extent distinct)

/-- Following a pointer to an allocated extent. -/
theorem deref_of_lt {address : Nat} (inHeap : address < buffer.allocated) :
    buffer.deref (some address) = .ok (address, buffer.extents address) :=
  if_pos inHeap

end Cells

@[simp]
theorem contentOf_nil (buffer : DynamicBuffer α X) : buffer.contentOf [] = [] :=
  rfl

@[simp]
theorem contentOf_cons (buffer : DynamicBuffer α X) (cell : Nat) (cells : List Nat) :
    buffer.contentOf (cell :: cells) = (buffer.window cell).content ++ buffer.contentOf cells :=
  List.flatMap_cons

@[simp]
theorem contentOf_append (buffer : DynamicBuffer α X) (first second : List Nat) :
    buffer.contentOf (first ++ second) = buffer.contentOf first ++ buffer.contentOf second :=
  List.flatMap_append

theorem contentOf_congr {buffer buffer' : DynamicBuffer α X} {cells : List Nat}
    (agree : ∀ cell ∈ cells, buffer'.window cell = buffer.window cell) :
    buffer'.contentOf cells = buffer.contentOf cells :=
  List.flatMap_congr fun cell member => by rw [agree cell member]

/-- The same for the extents up to the tail, if all from there on agree. -/
theorem contentOf_upToTail_congr {buffer buffer' : DynamicBuffer α X} {full spares : List Nat}
    {tail : Nat}
    (agree : ∀ cell ∈ full ++ tail :: spares, buffer'.window cell = buffer.window cell) :
    buffer'.contentOf (full ++ [tail]) = buffer.contentOf (full ++ [tail]) := by
  apply contentOf_congr
  intro cell member
  apply agree cell
  rcases List.mem_append.mp member with inFull | isTail
  · exact List.mem_append_left _ inFull
  · rw [List.mem_singleton.mp isTail]
    exact List.mem_append_right _ List.mem_cons_self

/-- Extents with nothing to read contribute nothing. -/
theorem contentOf_eq_nil {buffer : DynamicBuffer α X} {cells : List Nat}
    (nothing : ∀ cell ∈ cells, (buffer.window cell).readable = 0) :
    buffer.contentOf cells = [] := by
  apply List.flatMap_eq_nil_iff.mpr
  intro cell member
  rw [FixedBuffer.content, nothing cell member, Memory.slice_zero]

/-- An extent that is not read to its end is not dead. -/
theorem not_dead_of_lt {buffer : DynamicBuffer α X} {address : Nat}
    (alive : (buffer.window address).readPointer < X) : ¬ (buffer.extents address).dead := by
  rintro ⟨nothing, noSpace⟩
  unfold FixedBuffer.readable at nothing
  unfold FixedBuffer.writable at noSpace
  unfold window at alive
  omega

/-! ## Pointers -/

/-- The list of extents: those before the tail, the tail, the spares after it. -/
structure Linked (buffer : DynamicBuffer α X) (full : List Nat) (tail : Nat)
    (spares : List Nat) : Prop where
  tail_eq : buffer.tail = some tail
  segment : Segment buffer.link buffer.head (full ++ tail :: spares) none
  everyExtent : (full ++ tail :: spares).Perm (List.range buffer.allocated)

namespace Linked

variable {buffer : DynamicBuffer α X} {full spares : List Nat} {tail : Nat}

/-- No extent is on the list twice. -/
theorem nodup (linked : buffer.Linked full tail spares) : (full ++ tail :: spares).Nodup :=
  linked.everyExtent.nodup_iff.mpr List.nodup_range

theorem lt_of_mem (linked : buffer.Linked full tail spares) {address : Nat}
    (member : address ∈ full ++ tail :: spares) : address < buffer.allocated :=
  List.mem_range.mp (linked.everyExtent.mem_iff.mp member)

theorem tail_lt (linked : buffer.Linked full tail spares) : tail < buffer.allocated :=
  linked.lt_of_mem (by simp)

theorem deref_tail (linked : buffer.Linked full tail spares) :
    buffer.deref buffer.tail = .ok (tail, buffer.extents tail) := by
  rw [linked.tail_eq]
  exact deref_of_lt buffer linked.tail_lt

theorem tail_not_mem_full (linked : buffer.Linked full tail spares) : tail ∉ full := by
  intro member
  exact (List.nodup_append.mp linked.nodup).2.2 tail member tail List.mem_cons_self rfl

theorem ne_tail_of_mem_full (linked : buffer.Linked full tail spares) {address : Nat}
    (member : address ∈ full) : address ≠ tail := by
  rintro rfl
  exact linked.tail_not_mem_full member

theorem tail_not_mem_spares (linked : buffer.Linked full tail spares) : tail ∉ spares :=
  (List.nodup_cons.mp (List.nodup_append.mp linked.nodup).2.1).1

theorem ne_tail_of_mem_spares (linked : buffer.Linked full tail spares) {address : Nat}
    (member : address ∈ spares) : address ≠ tail := by
  rintro rfl
  exact linked.tail_not_mem_spares member

/-- The tail's link starts the list of spares. -/
theorem spares_segment (linked : buffer.Linked full tail spares) :
    Segment buffer.link (buffer.extents tail).next spares none :=
  (segment_append_cons.mp linked.segment).2

theorem head_eq_of_cons {first : Nat} (linked : buffer.Linked (first :: full) tail spares) :
    buffer.head = some first :=
  linked.segment.1

theorem head_eq_tail (linked : buffer.Linked [] tail spares) : buffer.head = some tail :=
  linked.segment.1

/-- Changing the window of an extent keeps the list. -/
theorem set (linked : buffer.Linked full tail spares) {address : Nat} {extent : Extent α X}
    (next_eq : extent.next = (buffer.extents address).next) :
    (buffer.set address extent).Linked full tail spares where
  tail_eq := linked.tail_eq
  segment := by
    apply linked.segment.congr
    intro cell _
    by_cases same : cell = address
    · subst same
      simpa [link] using next_eq
    · exact link_set_of_ne buffer address extent same
  everyExtent := linked.everyExtent

end Linked

/-- The tail pointer can move on to the first spare. -/
theorem Linked.advance {buffer : DynamicBuffer α X} {full spares : List Nat} {tail spare : Nat}
    (linked : buffer.Linked full tail (spare :: spares)) :
    ({ buffer with tail := some spare } : DynamicBuffer α X).Linked (full ++ [tail]) spare
      spares := by
  have cells_eq : full ++ [tail] ++ spare :: spares = full ++ tail :: spare :: spares := by simp
  constructor
  · rfl
  · rw [cells_eq]
    exact linked.segment
  · rw [cells_eq]
    exact linked.everyExtent

/-- With a spare behind it, the tail moves on to the spare. -/
theorem makeTail_of_cons (build : Build) {buffer : DynamicBuffer α X} {full spares : List Nat}
    {tail spare : Nat} (linked : buffer.Linked full tail (spare :: spares))
    (isEmpty : (buffer.extents spare).empty) :
    buffer.makeTail build = .ok { buffer with tail := some spare } := by
  have next_eq := linked.spares_segment.1
  have inHeap : spare < buffer.allocated := linked.lt_of_mem (by simp)
  unfold makeTail
  rw [linked.deref_tail, ok_bind]
  simp only [next_eq, deref_of_lt buffer inHeap, ok_bind, skCheck_of isEmpty, pure_eq_ok]

/-- Without a spare, a new extent is allocated and becomes the tail. -/
theorem makeTail_of_nil (build : Build) {buffer : DynamicBuffer α X} {full : List Nat}
    {tail : Nat} (linked : buffer.Linked full tail []) :
    ∃ next, buffer.makeTail build = .ok next ∧
      next.Linked (full ++ [tail]) buffer.allocated [] ∧
      (∀ address < buffer.allocated, next.window address = buffer.window address) ∧
      next.window buffer.allocated = .new (buffer.window buffer.allocated).data := by
  have next_eq : (buffer.extents tail).next = none := linked.spares_segment
  have fresh : ∀ address < buffer.allocated, address ≠ buffer.allocated :=
    fun _ inHeap => Nat.ne_of_lt inHeap
  have tailFresh := fresh tail linked.tail_lt
  have kept : ∀ address, address ≠ buffer.allocated →
      (buffer.allocate none).2.extents address = buffer.extents address :=
    fun address distinct => Function.update_of_ne distinct ..
  let next : DynamicBuffer α X :=
    { (buffer.allocate none).2.set tail { buffer.extents tail with next := some buffer.allocated }
      with tail := some buffer.allocated }
  have link_tail : next.link tail = some buffer.allocated := by simp [next, link, set]
  have link_new : next.link buffer.allocated = none := by
    simp [next, link, set, allocate, Function.update_of_ne tailFresh.symm]
  have link_kept : ∀ address ∈ full, next.link address = buffer.link address := by
    intro address member
    have inHeap := linked.lt_of_mem (List.mem_append_left _ member)
    simp [next, link, set, Function.update_of_ne (linked.ne_tail_of_mem_full member),
      kept address (fresh address inHeap)]
  refine ⟨next, ?_, ⟨rfl, ?_, ?_⟩, ?_, ?_⟩
  · unfold makeTail
    rw [linked.deref_tail, ok_bind]
    simp only [next_eq]
    rfl
  · rw [segment_append_cons, segment_append_cons]
    have left := (segment_append_cons.mp linked.segment).1
    exact ⟨⟨left.congr link_kept, link_tail⟩, link_new⟩
  · have grown : next.allocated = buffer.allocated + 1 := rfl
    rw [grown, List.range_succ]
    exact linked.everyExtent.append_right [buffer.allocated]
  · intro address inHeap
    by_cases same : address = tail
    · subst same
      simp [next, window, set]
    · simp [next, window, set, Function.update_of_ne same, kept address (fresh address inHeap)]
  · simp [next, window, set, allocate, Function.update_of_ne tailFresh.symm]

/-- A dead head in front of the tail is moved behind the tail and cleared. -/
theorem killHead_spec (build : Build) {buffer : DynamicBuffer α X} {full spares : List Nat}
    {first tail : Nat} (linked : buffer.Linked (first :: full) tail spares)
    (dead : (buffer.extents first).dead) :
    ∃ next, buffer.killHead build = .ok next ∧ next.Linked full tail (first :: spares) ∧
      next.window first = (buffer.window first).reset ∧
      ∀ address, address ≠ first → next.window address = buffer.window address := by
  have distinct : first ≠ tail := linked.ne_tail_of_mem_full List.mem_cons_self
  have head_eq := linked.head_eq_of_cons
  have inHeap : first < buffer.allocated := linked.lt_of_mem (by simp)
  have ends : buffer.head ≠ buffer.tail := by
    rw [head_eq, linked.tail_eq]
    exact fun same => distinct (Option.some.inj same)
  let relinked := buffer.set tail { buffer.extents tail with next := buffer.head }
  have first_kept : relinked.extents first = buffer.extents first :=
    extents_set_of_ne buffer _ _ distinct
  let next : DynamicBuffer α X :=
    { relinked.set first { buffer.extents first with next := (buffer.extents tail).next }.clear
      with head := (buffer.extents first).next }
  have window_kept : ∀ address, address ≠ first → next.window address = buffer.window address := by
    intro address notFirst
    have first_step : next.window address = relinked.window address :=
      window_set_of_ne relinked _ _ notFirst
    rw [first_step]
    by_cases same : address = tail
    · subst same
      exact window_set_self ..
    · exact window_set_of_ne buffer _ _ same
  have link_first : next.link first = buffer.link tail := by simp [next, link, set]
  have link_tail : next.link tail = some first := by
    have kept : next.link tail = relinked.link tail := link_set_of_ne relinked _ _ distinct.symm
    rw [kept, ← head_eq]
    simp [relinked, link]
  have link_kept : ∀ address, address ≠ first → address ≠ tail →
      next.link address = buffer.link address := by
    intro address notFirst notTail
    have first_step : next.link address = relinked.link address :=
      link_set_of_ne relinked _ _ notFirst
    rw [first_step]
    exact link_set_of_ne buffer _ _ notTail
  have notMember : first ∉ full ++ tail :: spares := (List.nodup_cons.mp linked.nodup).1
  rw [List.mem_append, List.mem_cons] at notMember
  push Not at notMember
  rcases notMember with ⟨notFull, _, notSpare⟩
  refine ⟨next, ?_, ⟨linked.tail_eq, ?_, ?_⟩, ?_, window_kept⟩
  · unfold killHead
    have deref_head : buffer.deref buffer.head = .ok (first, buffer.extents first) := by
      rw [head_eq]
      exact deref_of_lt buffer inHeap
    have deref_old : relinked.deref buffer.head = .ok (first, buffer.extents first) := by
      rw [head_eq, ← first_kept]
      exact deref_of_lt relinked inHeap
    rw [deref_head, ok_bind, linked.deref_tail]
    simp only [skCheck_of dead, skCheck_of ends, ok_bind]
    rw [deref_old, ok_bind]
    rfl
  · rcases segment_append_cons.mp linked.segment.2 with ⟨before, after⟩
    rw [segment_append_cons]
    constructor
    · apply before.congr
      intro address member
      apply link_kept address
      · rintro rfl
        exact notFull member
      · exact linked.ne_tail_of_mem_full (List.mem_cons_of_mem first member)
    · rw [segment_cons]
      refine ⟨link_tail, ?_⟩
      rw [link_first]
      apply after.congr
      intro address member
      apply link_kept address
      · rintro rfl
        exact notSpare member
      · exact linked.ne_tail_of_mem_spares member
  · have moved : (full ++ tail :: first :: spares).Perm (first :: full ++ tail :: spares) := by
      have split : full ++ tail :: first :: spares = full ++ [tail] ++ first :: spares := by simp
      rw [split]
      exact List.perm_middle.trans (by simp)
    exact moved.trans linked.everyExtent
  · exact window_set_self ..

/-! ## Windows -/

/-- The extent invariant: full extents, the tail, empty spares, and no dead
extent up to the tail. -/
structure Layout (buffer : DynamicBuffer α X) (full : List Nat) (tail : Nat)
    (spares : List Nat) : Prop extends Linked buffer full tail spares where
  full_written : ∀ address ∈ full,
    (buffer.window address).writePointer = X ∧ (buffer.window address).readPointer < X
  tail_wellFormed : (buffer.window tail).WellFormed
  tail_alive : (buffer.window tail).readPointer < X
  spares_empty : ∀ address ∈ spares,
    (buffer.window address).readPointer = 0 ∧ (buffer.window address).writePointer = 0

/-- The buffer holds a queue: some layout of its extents has it as content. -/
def Holds (buffer : DynamicBuffer α X) (queue : List α) : Prop :=
  ∃ full tail spares, buffer.Layout full tail spares ∧
    buffer.contentOf (full ++ [tail]) = queue

/-- Following the list visits every extent. -/
theorem Linked.follow_eq {buffer : DynamicBuffer α X} {full spares : List Nat} {tail : Nat}
    (linked : buffer.Linked full tail spares) :
    follow buffer.link buffer.allocated buffer.head = full ++ tail :: spares := by
  apply linked.segment.follow_eq
  rw [linked.everyExtent.length_eq, List.length_range]

/-- A new buffer is one empty extent. -/
theorem layout_new (positive : 0 < X) (storage : Nat → Memory α) :
    (new storage : DynamicBuffer α X).Layout [] 0 [] where
  tail_eq := rfl
  segment := ⟨rfl, rfl⟩
  everyExtent := List.Perm.refl _
  full_written := by simp
  tail_wellFormed := FixedBuffer.wellFormed_new _
  tail_alive := positive
  spares_empty := by simp

theorem holds_new (positive : 0 < X) (storage : Nat → Memory α) :
    (new storage : DynamicBuffer α X).Holds [] :=
  ⟨[], 0, [], layout_new positive storage, rfl⟩

namespace Layout

variable {buffer : DynamicBuffer α X} {full spares : List Nat} {tail : Nat}

/-- Extents before the tail have something to read. -/
theorem readable_pos_of_mem_full (layout : buffer.Layout full tail spares) {address : Nat}
    (member : address ∈ full) : 0 < (buffer.window address).readable := by
  rcases layout.full_written address member with ⟨written, unread⟩
  rw [FixedBuffer.readable, written]
  exact Nat.sub_pos_of_lt unread

/-- Spares have nothing to read. -/
theorem contentOf_spares (layout : buffer.Layout full tail spares) :
    buffer.contentOf spares = [] := by
  apply contentOf_eq_nil
  intro address member
  rw [FixedBuffer.readable, (layout.spares_empty address member).2]
  exact Nat.zero_sub _

/-- The whole list has the content of the extents up to the tail. -/
theorem content_eq (layout : buffer.Layout full tail spares) :
    buffer.content = buffer.contentOf (full ++ [tail]) := by
  have split : full ++ tail :: spares = full ++ [tail] ++ spares := by simp
  rw [content, layout.follow_eq, split, contentOf_append, layout.contentOf_spares,
    List.append_nil]

/-- Changing only the tail's window keeps the layout. -/
theorem set_tail (layout : buffer.Layout full tail spares) {extent : Extent α X}
    (next_eq : extent.next = (buffer.extents tail).next)
    (wellFormed : extent.toFixedBuffer.WellFormed) (alive : extent.readPointer < X) :
    (buffer.set tail extent).Layout full tail spares where
  toLinked := layout.toLinked.set next_eq
  full_written := by
    intro address member
    rw [window_set_of_ne _ _ _ (layout.ne_tail_of_mem_full member)]
    exact layout.full_written address member
  tail_wellFormed := by
    rw [window_set_self]
    exact wellFormed
  tail_alive := by
    rw [window_set_self]
    exact alive
  spares_empty := by
    intro address member
    rw [window_set_of_ne _ _ _ (layout.ne_tail_of_mem_spares member)]
    exact layout.spares_empty address member

theorem contentOf_set_tail (layout : buffer.Layout full tail spares) (extent : Extent α X) :
    (buffer.set tail extent).contentOf (full ++ [tail]) =
      buffer.contentOf full ++ extent.toFixedBuffer.content := by
  have kept : (buffer.set tail extent).contentOf full = buffer.contentOf full :=
    contentOf_congr fun address member =>
      window_set_of_ne _ _ _ (layout.ne_tail_of_mem_full member)
  simp [kept]

/-- Storing elements at the tail's write pointer appends them. -/
theorem store_tail (layout : buffer.Layout full tail spares) (chunk : List α)
    (fits : chunk.length ≤ (buffer.window tail).writable) :
    let filled : Extent α X := { buffer.extents tail with
      data := (buffer.extents tail).data.store (buffer.extents tail).writePointer chunk
      writePointer := (buffer.extents tail).writePointer + chunk.length }
    (buffer.set tail filled).Layout full tail spares ∧
      (buffer.set tail filled).contentOf (full ++ [tail]) =
        buffer.contentOf (full ++ [tail]) ++ chunk := by
  intro filled
  have bound := layout.tail_wellFormed.writePointer_le
  have wellFormed : filled.toFixedBuffer.WellFormed := by
    constructor
    · exact Nat.le_add_right_of_le layout.tail_wellFormed.ordered
    · simp only [filled]
      unfold FixedBuffer.writable at fits
      unfold window at fits bound
      omega
  constructor
  · exact layout.set_tail rfl wellFormed layout.tail_alive
  · rw [layout.contentOf_set_tail, contentOf_append, List.append_assoc]
    have appended : filled.toFixedBuffer.content = (buffer.window tail).content ++ chunk :=
      FixedBuffer.content_store layout.tail_wellFormed chunk
    rw [appended]
    simp

/-- The first extent of a layout is not dead. -/
theorem head_not_dead (layout : buffer.Layout full tail spares) :
    ∃ first, buffer.head = some first ∧ ¬ (buffer.extents first).dead := by
  cases full with
  | nil => exact ⟨tail, layout.head_eq_tail, not_dead_of_lt layout.tail_alive⟩
  | cons first full =>
      exact ⟨first, layout.head_eq_of_cons,
        not_dead_of_lt (layout.full_written first List.mem_cons_self).2⟩

/-- A spare becomes the tail when the tail is full. -/
theorem advance (positive : 0 < X) {spare : Nat}
    (layout : buffer.Layout full tail (spare :: spares))
    (isFull : (buffer.window tail).writePointer = X) :
    ({ buffer with tail := some spare } : DynamicBuffer α X).Layout (full ++ [tail]) spare
        spares ∧
      ({ buffer with tail := some spare } : DynamicBuffer α X).contentOf
          (full ++ [tail] ++ [spare]) = buffer.contentOf (full ++ [tail]) := by
  rcases layout.spares_empty spare List.mem_cons_self with ⟨read_zero, write_zero⟩
  refine ⟨⟨layout.toLinked.advance, ?_, ?_, ?_, ?_⟩, ?_⟩
  · intro address member
    rcases List.mem_append.mp member with inFull | isTail
    · exact layout.full_written address inFull
    · rw [List.mem_singleton.mp isTail]
      exact ⟨isFull, layout.tail_alive⟩
  · exact ⟨(read_zero.trans write_zero.symm).le, write_zero.trans_le (Nat.zero_le _)⟩
  · exact read_zero.trans_lt positive
  · intro address member
    exact layout.spares_empty address (List.mem_cons_of_mem spare member)
  · have nothing : (buffer.window spare).content = [] := by
      rw [FixedBuffer.content, FixedBuffer.readable, write_zero, Nat.zero_sub, Memory.slice_zero]
    change buffer.contentOf (full ++ [tail] ++ [spare]) = _
    simp [nothing]

/-- A full tail is followed by an empty one, old or new. -/
theorem makeTail (build : Build) (positive : 0 < X) (layout : buffer.Layout full tail spares)
    (isFull : (buffer.window tail).writePointer = X) :
    ∃ next full' tail' spares', buffer.makeTail build = .ok next ∧
      next.Layout full' tail' spares' ∧ (next.window tail').writePointer = 0 ∧
      next.contentOf (full' ++ [tail']) = buffer.contentOf (full ++ [tail]) := by
  cases spares with
  | nil =>
      rcases makeTail_of_nil build layout.toLinked with ⟨next, made, linked, kept, fresh⟩
      have kept_full : ∀ address ∈ full ++ [tail], next.window address = buffer.window address :=
        fun address member => kept address (layout.lt_of_mem member)
      refine ⟨next, full ++ [tail], buffer.allocated, [], made, ⟨linked, ?_, ?_, ?_, ?_⟩, ?_, ?_⟩
      · intro address member
        rw [kept_full address member]
        rcases List.mem_append.mp member with inFull | isTail
        · exact layout.full_written address inFull
        · rw [List.mem_singleton.mp isTail]
          exact ⟨isFull, layout.tail_alive⟩
      · rw [fresh]
        exact FixedBuffer.wellFormed_new _
      · rw [fresh]
        exact positive
      · simp
      · rw [fresh]
        rfl
      · rw [contentOf_append, contentOf_congr kept_full]
        simp [fresh]
  | cons spare spares =>
      have write_zero := (layout.spares_empty spare List.mem_cons_self).2
      rcases layout.advance positive isFull with ⟨layout', content_eq⟩
      exact ⟨_, full ++ [tail], spare, spares,
        makeTail_of_cons build layout.toLinked write_zero, layout', write_zero, content_eq⟩

end Layout

end SkAsync.Buffer.DynamicBuffer
