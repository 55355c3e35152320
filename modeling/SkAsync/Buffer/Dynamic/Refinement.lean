import SkAsync.Buffer.Dynamic.Layout

/-!
# `dynamic_buffer` is an unbounded queue

The copying operations keep the extent invariant and act on the content as on a
queue.  Each loop is described by what one iteration does to the content:
writing extends the tail, reading consumes from the head.
-/

namespace SkAsync.Buffer.DynamicBuffer

open SkAsync.Library

variable {α : Type} {X : Nat}

/-! ## Writing -/

/-- Once a full tail is left, the tail has space. -/
theorem Layout.leaveFullTail (build : Build) (positive : 0 < X) {buffer : DynamicBuffer α X}
    {full spares : List Nat} {tail : Nat} (layout : buffer.Layout full tail spares) :
    ∃ next full' tail' spares', buffer.leaveFullTail build = .ok next ∧
      next.Layout full' tail' spares' ∧ 0 < (next.window tail').writable ∧
      next.contentOf (full' ++ [tail']) = buffer.contentOf (full ++ [tail]) := by
  have bound := layout.tail_wellFormed.writePointer_le
  unfold DynamicBuffer.leaveFullTail
  rw [layout.deref_tail, ok_bind]
  by_cases noSpace : (buffer.extents tail).writable = 0
  · have isFull : (buffer.window tail).writePointer = X := by
      apply Nat.le_antisymm bound
      exact Nat.sub_eq_zero_iff_le.mp noSpace
    rcases layout.makeTail build positive isFull with
      ⟨next, full', tail', spares', made, layout', isEmpty, content_eq⟩
    refine ⟨next, full', tail', spares', (if_pos noSpace).trans made, layout', ?_, content_eq⟩
    rw [FixedBuffer.writable, isEmpty]
    exact positive
  · exact ⟨buffer, full, tail, spares, if_neg noSpace, layout, Nat.pos_of_ne_zero noSpace, rfl⟩

/-- One iteration of the loop of `write` stores the first of the data in a tail with space. -/
theorem Layout.writeStep (build : Build) (positive : 0 < X) {buffer : DynamicBuffer α X}
    {full spares : List Nat} {tail : Nat} (layout : buffer.Layout full tail spares) (c : α)
    (cptr : List α) :
    ∃ ready full' tail' spares' filled wr, buffer.leaveFullTail build = .ok ready ∧
      0 < wr ∧ wr ≤ (c :: cptr).length ∧
      filled.readPointer = (ready.window tail').readPointer ∧
      (ready.set tail' filled).Layout full' tail' spares' ∧
      (ready.set tail' filled).contentOf (full' ++ [tail']) =
        buffer.contentOf (full ++ [tail]) ++ (c :: cptr).take wr ∧
      ∀ fuel, writeLoop build (fuel + 1) buffer (c :: cptr) =
        writeLoop build fuel (ready.set tail' filled) ((c :: cptr).drop wr) := by
  rcases layout.leaveFullTail build positive with
    ⟨ready, full', tail', spares', made, layout', space, content_eq⟩
  generalize wr_eq : min (c :: cptr).length (ready.extents tail').writable = wr
  have wr_le : wr ≤ (c :: cptr).length := wr_eq ▸ Nat.min_le_left ..
  have wr_fits : wr ≤ (ready.window tail').writable := wr_eq ▸ Nat.min_le_right ..
  have wr_pos : 0 < wr := by
    rw [← wr_eq]
    exact Nat.lt_min.mpr ⟨Nat.succ_pos _, space⟩
  have bound := layout'.tail_wellFormed.writePointer_le
  have inside : (ready.extents tail').writePointer + wr ≤ X ∧ wr ≤ (c :: cptr).length := by
    unfold FixedBuffer.writable at wr_fits
    unfold window at wr_fits bound
    omega
  have length_eq : ((c :: cptr).take wr).length = wr := List.length_take_of_le wr_le
  rcases layout'.store_tail _ (length_eq.trans_le wr_fits) with ⟨stored, content_stored⟩
  rw [length_eq] at stored content_stored
  let filled : Extent α X := { ready.extents tail' with
    data := (ready.extents tail').data.store (ready.extents tail').writePointer
      ((c :: cptr).take wr)
    writePointer := (ready.extents tail').writePointer + wr }
  refine ⟨ready, full', tail', spares', filled, wr, made, wr_pos, wr_le, rfl, stored, ?_, ?_⟩
  · rw [← content_eq]
    exact content_stored
  · intro fuel
    rw [writeLoop, made, ok_bind, layout'.deref_tail, ok_bind]
    simp only [wr_eq, skCheck_of inside, ok_bind]
    rfl

/-- With enough fuel, the loop of `write` appends all the data. -/
theorem writeLoop_spec (build : Build) (positive : 0 < X) {fuel : Nat}
    {buffer : DynamicBuffer α X} {queue data : List α} (enough : data.length ≤ fuel)
    (holds : buffer.Holds queue) :
    ∃ next, writeLoop build fuel buffer data = .ok next ∧ next.Holds (queue ++ data) := by
  induction fuel generalizing buffer queue data with
  | zero =>
      have nothing : data = [] := List.length_eq_zero_iff.mp (Nat.le_zero.mp enough)
      subst nothing
      exact ⟨buffer, by simp [writeLoop], by simpa using holds⟩
  | succ fuel ih =>
      cases data with
      | nil => exact ⟨buffer, by simp [writeLoop], by simpa using holds⟩
      | cons c cptr =>
          rcases holds with ⟨full, tail, spares, layout, rfl⟩
          rcases layout.writeStep build positive c cptr with
            ⟨ready, full', tail', spares', filled, wr, _, wr_pos, _, _, stored, content_eq, looped⟩
          have shorter : ((c :: cptr).drop wr).length ≤ fuel := by
            rw [List.length_drop]
            omega
          rcases ih shorter ⟨full', tail', spares', stored, rfl⟩ with ⟨next, rest, holds'⟩
          refine ⟨next, (looped fuel).trans rest, ?_⟩
          rw [content_eq, List.append_assoc, List.take_append_drop] at holds'
          exact holds'

theorem write_spec (build : Build) (positive : 0 < X) {buffer : DynamicBuffer α X}
    {queue : List α} (holds : buffer.Holds queue) (data : List α) :
    ∃ next, buffer.write build data = .ok (data.length, next) ∧ next.Holds (queue ++ data) := by
  rcases writeLoop_spec build positive (Nat.le_add_right data.length buffer.allocated) holds with
    ⟨next, looped, holds'⟩
  refine ⟨next, ?_, holds'⟩
  unfold write
  rw [looped, ok_bind, pure_eq_ok]

/-! ## Reading -/

/-- The extent that holds the oldest elements. -/
structure Head (buffer : DynamicBuffer α X) (queue : List α) (address : Nat) : Prop where
  head_eq : buffer.head = some address
  inHeap : address < buffer.allocated
  /-- The content of the head comes first. -/
  prefix_queue : (buffer.window address).content <+: queue
  /-- A head without content means an empty queue. -/
  queue_eq_nil : (buffer.window address).readable = 0 → queue = []
  wellFormed : (buffer.window address).WellFormed
  alive : (buffer.window address).readPointer < X

theorem Head.deref {buffer : DynamicBuffer α X} {queue : List α} {address : Nat}
    (head : buffer.Head queue address) :
    buffer.deref buffer.head = .ok (address, buffer.extents address) := by
  rw [head.head_eq]
  exact deref_of_lt buffer head.inHeap

theorem Head.not_dead {buffer : DynamicBuffer α X} {queue : List α} {address : Nat}
    (head : buffer.Head queue address) : ¬ (buffer.extents address).dead :=
  not_dead_of_lt head.alive

/-- Moving the head's read pointer and retiring a dead head drops the elements
passed over. -/
def Consumes (build : Build) (buffer : DynamicBuffer α X) (queue : List α) (address : Nat) : Prop :=
  ∀ n, n ≤ (buffer.window address).readable →
    let moved : Extent α X := { buffer.extents address with
      readPointer := (buffer.extents address).readPointer + n }
    ∃ next, (buffer.set address moved).retireHead build = .ok next ∧ next.Holds (queue.drop n)

/-- A head that is still alive is kept. -/
theorem retireHead_of_alive (build : Build) {buffer : DynamicBuffer α X} {address : Nat}
    (head_eq : buffer.head = some address) (inHeap : address < buffer.allocated)
    (alive : ¬ (buffer.extents address).dead) : buffer.retireHead build = .ok buffer := by
  unfold retireHead
  rw [head_eq, deref_of_lt buffer inHeap, ok_bind]
  exact if_neg alive

/-- Consuming from an extent in front of the tail. -/
theorem Layout.consumes_of_cons (build : Build) {buffer : DynamicBuffer α X}
    {full spares : List Nat} {first tail : Nat}
    (layout : buffer.Layout (first :: full) tail spares) :
    buffer.Consumes build (buffer.contentOf (first :: full ++ [tail])) first := by
  intro n within moved
  rcases layout.full_written first List.mem_cons_self with ⟨written, unread⟩
  have readable_eq : (buffer.window first).readable = X - (buffer.window first).readPointer := by
    rw [FixedBuffer.readable, written]
  have notTail : first ≠ tail := layout.ne_tail_of_mem_full List.mem_cons_self
  have linked : (buffer.set first moved).Linked (first :: full) tail spares :=
    layout.toLinked.set rfl
  have notMember : first ∉ full ++ tail :: spares := (List.nodup_cons.mp layout.nodup).1
  have other : ∀ address ∈ full ++ tail :: spares, address ≠ first := by
    rintro address member rfl
    exact notMember member
  have kept : ∀ address ∈ full ++ tail :: spares,
      (buffer.set first moved).window address = buffer.window address :=
    fun address member => window_set_of_ne _ _ _ (other address member)
  have content_moved : moved.toFixedBuffer.content = (buffer.window first).content.drop n :=
    FixedBuffer.content_advance within
  have size_le : n ≤ (buffer.window first).content.length := by
    rw [FixedBuffer.length_content]
    exact within
  have window_moved : (buffer.set first moved).window first = moved.toFixedBuffer :=
    window_set_self ..
  by_cases exhausted : (buffer.window first).readPointer + n = X
  · have dead : ((buffer.set first moved).extents first).dead := by
      rw [extents_set_self]
      constructor
      · exact (congrArg (· - _) written).trans (Nat.sub_eq_zero_of_le exhausted.ge)
      · exact (congrArg (X - ·) written).trans (Nat.sub_self X)
    have ends : (buffer.set first moved).head ≠ (buffer.set first moved).tail := by
      rw [linked.head_eq_of_cons, linked.tail_eq]
      exact fun same => notTail (Option.some.inj same)
    rcases killHead_spec build linked dead with ⟨next, killed, linked', cleared, kept'⟩
    have kept_all : ∀ address ∈ full ++ tail :: spares,
        next.window address = buffer.window address :=
      fun address member => (kept' address (other address member)).trans (kept address member)
    have kept_tail := kept_all tail (by simp)
    refine ⟨next, ?_, full, tail, first :: spares, ⟨linked', ?_, ?_, ?_, ?_⟩, ?_⟩
    · unfold retireHead
      rw [linked.head_eq_of_cons, deref_of_lt _ (linked.lt_of_mem (by simp)), ok_bind,
        ← linked.head_eq_of_cons]
      exact (if_pos dead).trans ((if_pos ends).trans killed)
    · intro address member
      rw [kept_all address (List.mem_append_left _ member)]
      exact layout.full_written address (List.mem_cons_of_mem first member)
    · rw [kept_tail]
      exact layout.tail_wellFormed
    · rw [kept_tail]
      exact layout.tail_alive
    · intro address member
      rcases List.mem_cons.mp member with rfl | inSpares
      · rw [cleared]
        exact ⟨rfl, rfl⟩
      · rw [kept_all address (by simp [inSpares])]
        exact layout.spares_empty address inSpares
    · have all : (buffer.window first).content.drop n = [] := by
        apply List.drop_of_length_le
        rw [FixedBuffer.length_content, readable_eq]
        omega
      rw [contentOf_upToTail_congr kept_all, List.cons_append, contentOf_cons,
        List.drop_append_of_le_length size_le, all, List.nil_append]
  · have still : (buffer.window first).readPointer + n < X := by omega
    have alive : ¬ ((buffer.set first moved).extents first).dead := by
      rw [extents_set_self]
      rintro ⟨nothing, _⟩
      have nothing' : (buffer.window first).writePointer -
          ((buffer.window first).readPointer + n) = 0 := nothing
      omega
    refine ⟨_, retireHead_of_alive build linked.head_eq_of_cons (linked.lt_of_mem (by simp)) alive,
      first :: full, tail, spares, ⟨linked, ?_, ?_, ?_, ?_⟩, ?_⟩
    · intro address member
      rcases List.mem_cons.mp member with rfl | inFull
      · rw [window_moved]
        exact ⟨written, still⟩
      · rw [kept address (List.mem_append_left _ inFull)]
        exact layout.full_written address (List.mem_cons_of_mem first inFull)
    · rw [kept tail (by simp)]
      exact layout.tail_wellFormed
    · rw [kept tail (by simp)]
      exact layout.tail_alive
    · intro address member
      rw [kept address (by simp [member])]
      exact layout.spares_empty address member
    · rw [List.cons_append, contentOf_cons, contentOf_cons, contentOf_upToTail_congr kept,
        List.drop_append_of_le_length size_le, window_moved, content_moved]

/-- Consuming from the tail when it is the head as well. -/
theorem Layout.consumes_of_nil (build : Build) (positive : 0 < X) {buffer : DynamicBuffer α X}
    {spares : List Nat} {tail : Nat} (layout : buffer.Layout [] tail spares) :
    buffer.Consumes build (buffer.contentOf ([] ++ [tail])) tail := by
  intro n within moved
  rcases layout.tail_wellFormed with ⟨ordered, bound⟩
  have linked : (buffer.set tail moved).Linked [] tail spares := layout.toLinked.set rfl
  have content_moved : moved.toFixedBuffer.content = (buffer.window tail).content.drop n :=
    FixedBuffer.content_advance within
  have queue_eq : buffer.contentOf ([] ++ [tail]) = (buffer.window tail).content := by simp
  unfold FixedBuffer.readable at within
  by_cases dead : ((buffer.set tail moved).extents tail).dead
  · have isDead : moved.dead := by simpa using dead
    rcases isDead with ⟨nothing, noSpace⟩
    have cleared : (buffer.set tail moved).set tail moved.clear = buffer.set tail moved.clear := by
      simp [set]
    have layout' : (buffer.set tail moved.clear).Layout [] tail spares :=
      layout.set_tail rfl (FixedBuffer.wellFormed_new _) positive
    have nothing' : (buffer.window tail).content.drop n = [] := by
      rw [← content_moved, FixedBuffer.content, nothing, Memory.slice_zero]
    have ends : (buffer.set tail moved).head = (buffer.set tail moved).tail :=
      linked.head_eq_tail.trans linked.tail_eq.symm
    refine ⟨buffer.set tail moved.clear, ?_, [], tail, spares, layout', ?_⟩
    · unfold retireHead
      rw [linked.head_eq_tail, deref_of_lt _ linked.tail_lt, ok_bind, ← linked.head_eq_tail,
        ← cleared]
      refine (if_pos dead).trans ((if_neg (not_not.mpr ends)).trans ?_)
      rw [extents_set_self, pure_eq_ok]
    · rw [queue_eq, nothing', layout.contentOf_set_tail]
      simp [FixedBuffer.content, FixedBuffer.reset, FixedBuffer.readable]
  · have alive : moved.readPointer < X := by
      by_contra atEnd
      apply dead
      rw [extents_set_self]
      have atEnd' : X ≤ (buffer.window tail).readPointer + n := Nat.not_lt.mp atEnd
      constructor
      · change (buffer.window tail).writePointer - ((buffer.window tail).readPointer + n) = 0
        omega
      · change X - (buffer.window tail).writePointer = 0
        omega
    have wellFormed : moved.toFixedBuffer.WellFormed := by
      constructor
      · change (buffer.window tail).readPointer + n ≤ (buffer.window tail).writePointer
        omega
      · exact bound
    refine ⟨_, retireHead_of_alive build linked.head_eq_tail linked.tail_lt dead, [], tail, spares,
      layout.set_tail rfl wellFormed alive, ?_⟩
    rw [queue_eq, layout.contentOf_set_tail, content_moved]
    simp

/-- A buffer that holds a queue has a head to consume from. -/
theorem Holds.exists_head (build : Build) (positive : 0 < X) {buffer : DynamicBuffer α X}
    {queue : List α} (holds : buffer.Holds queue) :
    ∃ address, buffer.Head queue address ∧ buffer.Consumes build queue address := by
  rcases holds with ⟨full, tail, spares, layout, rfl⟩
  cases full with
  | nil =>
      refine ⟨tail, ⟨layout.head_eq_tail, layout.tail_lt, ?_, ?_, layout.tail_wellFormed,
        layout.tail_alive⟩, layout.consumes_of_nil build positive⟩
      · simp
      · intro nothing
        simp [FixedBuffer.content, nothing]
  | cons first full =>
      have member : first ∈ first :: full := List.mem_cons_self
      rcases layout.full_written first member with ⟨written, unread⟩
      refine ⟨first, ⟨layout.head_eq_of_cons, layout.lt_of_mem (by simp), ?_, ?_, ?_, unread⟩,
        layout.consumes_of_cons build⟩
      · exact List.prefix_append ..
      · intro nothing
        exact absurd nothing (layout.readable_pos_of_mem_full member).ne'
      · exact ⟨unread.le.trans written.ge, written.le⟩

/-- What one iteration copies out is the start of the queue. -/
theorem Head.slice_eq_take {buffer : DynamicBuffer α X} {queue : List α} {address n : Nat}
    (head : buffer.Head queue address) (within : n ≤ (buffer.window address).readable) :
    (buffer.extents address).data.slice (buffer.extents address).readPointer n = queue.take n := by
  rcases head.prefix_queue with ⟨rest, rfl⟩
  have size_le : n ≤ (buffer.window address).content.length := by
    rw [FixedBuffer.length_content]
    exact within
  rw [List.take_append_of_le_length size_le, FixedBuffer.content, Memory.take_slice,
    Nat.min_eq_left within]
  rfl

/-- With enough fuel, the loop of `read` takes the oldest elements. -/
theorem readLoop_spec (build : Build) (positive : 0 < X) {fuel left : Nat}
    {buffer : DynamicBuffer α X} {queue : List α} (enough : left ≤ fuel)
    (holds : buffer.Holds queue) :
    ∃ next, readLoop build fuel buffer left = .ok (queue.take left, next) ∧
      next.Holds (queue.drop left) := by
  induction fuel generalizing buffer queue left with
  | zero =>
      obtain rfl := Nat.le_zero.mp enough
      exact ⟨buffer, by simp [readLoop], by simpa using holds⟩
  | succ fuel ih =>
      cases left with
      | zero => exact ⟨buffer, by simp [readLoop], by simpa using holds⟩
      | succ left =>
          rcases holds.exists_head build positive with ⟨address, head, consumes⟩
          by_cases nothing : (buffer.extents address).readable = 0
          · have isEmpty : queue = [] := head.queue_eq_nil nothing
            subst isEmpty
            refine ⟨buffer, ?_, by simpa using holds⟩
            rw [readLoop, head.deref, ok_bind]
            simp only [skCheck_of head.not_dead, ok_bind, if_pos nothing, pure_eq_ok,
              List.take_nil]
          · generalize rd_eq : min (left + 1) (buffer.extents address).readable = rd
            have rd_le : rd ≤ left + 1 := rd_eq ▸ Nat.min_le_left ..
            have rd_within : rd ≤ (buffer.window address).readable := rd_eq ▸ Nat.min_le_right ..
            have rd_pos : 0 < rd := by
              rw [← rd_eq]
              exact Nat.lt_min.mpr ⟨Nat.succ_pos _, Nat.pos_of_ne_zero nothing⟩
            have inside : (buffer.extents address).readPointer + rd ≤
                (buffer.extents address).writePointer ∧ rd ≤ left + 1 := by
              have ordered := head.wellFormed.ordered
              unfold FixedBuffer.readable at rd_within
              unfold window at rd_within ordered
              omega
            rcases consumes rd rd_within with ⟨middle, retired, holds'⟩
            have shorter : left + 1 - rd ≤ fuel := by omega
            rcases ih shorter holds' with ⟨next, looped, holds''⟩
            have total : rd + (left + 1 - rd) = left + 1 := Nat.add_sub_of_le rd_le
            refine ⟨next, ?_, ?_⟩
            · rw [readLoop, head.deref, ok_bind]
              simp only [skCheck_of head.not_dead, ok_bind, if_neg nothing, rd_eq,
                skCheck_of inside, retired, looped, pure_eq_ok, head.slice_eq_take rd_within]
              rw [← List.take_add, total]
            · rw [List.drop_drop, total] at holds''
              exact holds''

theorem read_spec (build : Build) (positive : 0 < X) {buffer : DynamicBuffer α X}
    {queue : List α} (holds : buffer.Holds queue) (n : Nat) :
    ∃ next, buffer.read build n = .ok ((min n queue.length, queue.take n), next) ∧
      next.Holds (queue.drop n) := by
  rcases readLoop_spec build positive (Nat.le_refl n) holds with ⟨next, looped, holds'⟩
  refine ⟨next, ?_, holds'⟩
  unfold read
  rw [looped, ok_bind, ← List.length_take]
  rfl

/-- With enough fuel, the loop of `discard` drops elements that are there. -/
theorem discardLoop_spec (build : Build) (positive : 0 < X) {fuel left : Nat}
    {buffer : DynamicBuffer α X} {queue : List α} (enough : left ≤ fuel)
    (available : left ≤ queue.length) (holds : buffer.Holds queue) :
    ∃ next, discardLoop build fuel buffer left = .ok next ∧ next.Holds (queue.drop left) := by
  induction fuel generalizing buffer queue left with
  | zero =>
      obtain rfl := Nat.le_zero.mp enough
      exact ⟨buffer, by simp [discardLoop], by simpa using holds⟩
  | succ fuel ih =>
      cases left with
      | zero => exact ⟨buffer, by simp [discardLoop], by simpa using holds⟩
      | succ left =>
          rcases holds.exists_head build positive with ⟨address, head, consumes⟩
          have something : 0 < (buffer.extents address).readable := by
            apply Nat.pos_of_ne_zero
            intro nothing
            simp [head.queue_eq_nil nothing] at available
          generalize rd_eq : min (left + 1) (buffer.extents address).readable = rd
          have rd_le : rd ≤ left + 1 := rd_eq ▸ Nat.min_le_left ..
          have rd_within : rd ≤ (buffer.window address).readable := rd_eq ▸ Nat.min_le_right ..
          have rd_pos : 0 < rd := by
            rw [← rd_eq]
            exact Nat.lt_min.mpr ⟨Nat.succ_pos _, something⟩
          rcases consumes rd rd_within with ⟨middle, retired, holds'⟩
          have shorter : left + 1 - rd ≤ fuel := by omega
          have available' : left + 1 - rd ≤ (queue.drop rd).length := by
            rw [List.length_drop]
            exact Nat.sub_le_sub_right available rd
          rcases ih shorter available' holds' with ⟨next, looped, holds''⟩
          have total : rd + (left + 1 - rd) = left + 1 := Nat.add_sub_of_le rd_le
          refine ⟨next, ?_, ?_⟩
          · rw [discardLoop, head.deref, ok_bind]
            simp only [skCheck_of something, ok_bind, rd_eq, retired]
            exact looped
          · rw [List.drop_drop, total] at holds''
            exact holds''

theorem discard_spec (build : Build) (positive : 0 < X) {buffer : DynamicBuffer α X}
    {queue : List α} (holds : buffer.Holds queue) {n : Nat} (available : n ≤ queue.length) :
    ∃ next, buffer.discard build n = .ok (n, next) ∧ next.Holds (queue.drop n) := by
  rcases discardLoop_spec build positive (Nat.le_add_right n buffer.allocated) available holds with
    ⟨next, looped, holds'⟩
  refine ⟨next, ?_, holds'⟩
  unfold discard
  rw [looped, ok_bind, pure_eq_ok]

/-! ## Looking at the readable ranges -/

/-- The readable span of an extent. -/
def readableSpan (buffer : DynamicBuffer α X) (address : Nat) : Nat × Span :=
  (address, ⟨(buffer.window address).readPointer, (buffer.window address).readable⟩)

/-- The loop of `readable_ranges` collects the spans of the next extents, as
many as there is room for. -/
theorem readableLoop_spec {maxRanges : Nat} (build : Build) {buffer : DynamicBuffer α X}
    {first cell room : Nat} {cells : List Nat} (ret : StaticVector (Nat × Span) maxRanges)
    (head_eq : buffer.head = some first) (inHeap : first < buffer.allocated)
    (something : build = .release ∨ 0 < (buffer.extents first).readable)
    (segment : Segment buffer.link (some cell) (cell :: cells) none)
    (allocated : ∀ address ∈ cell :: cells, address < buffer.allocated)
    (capacity : ret.items.length + room = maxRanges) :
    ∃ final, readableLoop build buffer room (some cell) ret = .ok final ∧
      final.items = ret.items ++ ((cell :: cells).take room).map buffer.readableSpan := by
  induction room generalizing cell cells ret with
  | zero => exact ⟨ret, rfl, by simp⟩
  | succ room ih =>
      have space : ret.items.length < maxRanges := by omega
      rcases StaticVector.pushBack_of_lt build (buffer.readableSpan cell) space with
        ⟨pushed, pushed_eq, items_eq⟩
      have pushed_eq' : ret.pushBack build
          (cell, ⟨(buffer.extents cell).readPointer, (buffer.extents cell).readable⟩) =
            .ok pushed := pushed_eq
      rw [readableLoop, head_eq, deref_of_lt buffer inHeap]
      simp only [ok_bind, skCheck_of_release_or something,
        deref_of_lt buffer (allocated cell List.mem_cons_self), pushed_eq']
      cases cells with
      | nil =>
          have last : (buffer.extents cell).next = none := segment.2
          refine ⟨pushed, ?_, ?_⟩
          · simp only [last, pure_eq_ok]
          · rw [items_eq, List.take_of_length_le (Nat.succ_le_succ (Nat.zero_le room))]
            rfl
      | cons cell' cells =>
          have more : (buffer.extents cell).next = some cell' := segment.2.1
          have capacity' : pushed.items.length + room = maxRanges := by
            rw [items_eq, List.length_append, List.length_singleton]
            omega
          have rest : Segment buffer.link (some cell') (cell' :: cells) none := ⟨rfl, segment.2.2⟩
          rcases ih pushed rest
            (fun address member => allocated address (List.mem_cons_of_mem cell member))
            capacity' with ⟨final, looped, final_items⟩
          refine ⟨final, ?_, ?_⟩
          · simp only [more]
            exact looped
          · rw [final_items, items_eq, List.append_assoc]
            rfl

/-- Seeing through the readable spans of extents shows their content. -/
theorem flatten_seenThrough_readableSpan (buffer : DynamicBuffer α X) (cells : List Nat) :
    (buffer.seenThrough (cells.map buffer.readableSpan)).flatten = buffer.contentOf cells := by
  rw [seenThrough, List.map_map]
  rfl

/-- The content of a buffer is that of its first extents followed by that of the others. -/
theorem Layout.content_eq_append {buffer : DynamicBuffer α X} {full spares : List Nat}
    {tail : Nat} (layout : buffer.Layout full tail spares) (count : Nat) :
    buffer.content = buffer.contentOf ((full ++ tail :: spares).take count) ++
      buffer.contentOf ((full ++ tail :: spares).drop count) := by
  rw [content, layout.follow_eq, ← contentOf_append, List.take_append_drop]

/-- The first extent of a buffer with content has something to read. -/
theorem Layout.head_readable {buffer : DynamicBuffer α X} {full spares : List Nat} {tail : Nat}
    (layout : buffer.Layout full tail spares) (nonempty : buffer.content ≠ []) :
    ∃ first cells, full ++ tail :: spares = first :: cells ∧
      0 < (buffer.window first).readable := by
  cases full with
  | nil =>
      refine ⟨tail, spares, rfl, Nat.pos_of_ne_zero ?_⟩
      intro nothing
      apply nonempty
      rw [layout.content_eq]
      simp [FixedBuffer.content, nothing]
  | cons first full =>
      exact ⟨first, full ++ tail :: spares, rfl,
        layout.readable_pos_of_mem_full List.mem_cons_self⟩

/-- Unless its check fires, `readable_ranges` returns the spans of the first
extents, as many as there is room for. -/
theorem readableRanges_eq (maxRanges : Nat) (build : Build) {buffer : DynamicBuffer α X}
    {full spares : List Nat} {tail : Nat} (layout : buffer.Layout full tail spares)
    (visible : build = .release ∨ maxRanges = 0 ∨ buffer.content ≠ []) :
    ∃ ranges, buffer.readableRanges build maxRanges = .ok ranges ∧
      ranges.items = ((full ++ tail :: spares).take maxRanges).map buffer.readableSpan := by
  by_cases noRoom : maxRanges = 0
  · subst noRoom
    exact ⟨.empty, rfl, by simp⟩
  · have segment := layout.segment
    have allocated : ∀ address ∈ full ++ tail :: spares, address < buffer.allocated :=
      fun address member => layout.lt_of_mem member
    have something : ∀ first cells, full ++ tail :: spares = first :: cells →
        build = .release ∨ 0 < (buffer.window first).readable := by
      intro first cells shape
      rcases visible with release | none | nonempty
      · exact .inl release
      · exact absurd none noRoom
      · rcases layout.head_readable nonempty with ⟨first', cells', shape', readable⟩
        rw [shape] at shape'
        rw [(List.cons.inj shape').1]
        exact .inr readable
    have inhabited : full ++ tail :: spares ≠ [] := by simp
    generalize full ++ tail :: spares = cells at segment allocated something inhabited
    cases cells with
    | nil => exact absurd rfl inhabited
    | cons first cells =>
        rcases readableLoop_spec build (.empty : StaticVector _ maxRanges) segment.1
          (allocated first List.mem_cons_self) (something first cells rfl) ⟨rfl, segment.2⟩
          allocated (Nat.zero_add _) with ⟨ranges, looped, items_eq⟩
        refine ⟨ranges, ?_, items_eq⟩
        rw [readableRanges, segment.1]
        exact looped

/-- On a non-empty buffer, the readable ranges show a non-empty prefix of the content. -/
theorem readableRanges_spec {maxRanges : Nat} (build : Build) (roomy : 0 < maxRanges)
    {buffer : DynamicBuffer α X} {full spares : List Nat} {tail : Nat}
    (layout : buffer.Layout full tail spares) (nonempty : buffer.content ≠ []) :
    ∃ ranges, buffer.readableRanges build maxRanges = .ok ranges ∧
      (buffer.seenThrough ranges.items).flatten <+: buffer.content ∧
      (buffer.seenThrough ranges.items).flatten ≠ [] := by
  rcases readableRanges_eq maxRanges build layout (.inr (.inr nonempty)) with
    ⟨ranges, ranges_eq, items_eq⟩
  rcases layout.head_readable nonempty with ⟨first, cells, shape, readable⟩
  refine ⟨ranges, ranges_eq, ?_, ?_⟩
  · rw [items_eq, flatten_seenThrough_readableSpan, layout.content_eq_append maxRanges]
    exact List.prefix_append ..
  · rw [items_eq, flatten_seenThrough_readableSpan, shape]
    obtain ⟨room, rfl⟩ := Nat.exists_eq_succ_of_ne_zero roomy.ne'
    rw [List.take_succ_cons, contentOf_cons]
    apply List.append_ne_nil_of_left_ne_nil
    apply List.ne_nil_of_length_pos
    rw [FixedBuffer.length_content]
    exact readable

/-! ## The refinement -/

/-- What a caller has to respect: never discard more than there is, and look at
ranges only when there is something to see. -/
def Permitted (buffer : DynamicBuffer α X) : Op α → Prop
  | .discard n => n ≤ buffer.content.length
  | .readableRanges => buffer.content ≠ []
  | .write _ => True
  | .read _ => True

instance (buffer : DynamicBuffer α X) : (op : Op α) → Decidable (buffer.Permitted op)
  | .discard _ => inferInstanceAs (Decidable (_ ≤ _))
  | .readableRanges => decidable_of_iff _ (not_congr List.isEmpty_iff)
  | .write _ => isTrue trivial
  | .read _ => isTrue trivial

/-- What the ranges may show of the content. -/
def NonemptyPrefix (shown queue : List α) : Prop :=
  shown <+: queue ∧ shown ≠ []

theorem Holds.content_eq {buffer : DynamicBuffer α X} {queue : List α}
    (holds : buffer.Holds queue) : buffer.content = queue := by
  rcases holds with ⟨full, tail, spares, layout, rfl⟩
  exact layout.content_eq

/-- Moving elements without looking at the ranges, and discarding no more than
there is. -/
def Moves (buffer : DynamicBuffer α X) : Op α → Prop
  | .write _ => True
  | .read _ => True
  | .discard n => n ≤ buffer.content.length
  | .readableRanges => False

instance (buffer : DynamicBuffer α X) : (op : Op α) → Decidable (buffer.Moves op)
  | .write _ => isTrue trivial
  | .read _ => isTrue trivial
  | .discard _ => inferInstanceAs (Decidable (_ ≤ _))
  | .readableRanges => isFalse id

/-- Moving elements is an operation on the unbounded queue, however many ranges
there may be. -/
theorem moves_refine (maxRanges : Nat) (build : Build) (positive : 0 < X)
    (seen : List α → List α → Prop) :
    Refines (step build maxRanges (X := X)) (Allows none seen) Holds Moves where
  step_refines := by
    intro buffer queue op holds moves
    cases op with
    | write data =>
        rcases write_spec build positive holds data with ⟨next, written, holds'⟩
        refine ⟨_, next, _, ?_, .write queue data, ?_⟩
        · rw [step, written]
          rfl
        · rw [accepted, List.take_length]
          exact holds'
    | read n =>
        rcases read_spec build positive holds n with ⟨next, read_eq, holds'⟩
        refine ⟨_, next, _, ?_, .read queue n, holds'⟩
        rw [step, read_eq]
        rfl
    | discard n =>
        have available : n ≤ queue.length := holds.content_eq ▸ moves
        rcases discard_spec build positive holds available with ⟨next, discarded, holds'⟩
        refine ⟨_, next, _, ?_, .discard queue n, holds'⟩
        rw [step, discarded, Nat.min_eq_left available]
        rfl
    | readableRanges => exact absurd moves id

/-- Every permitted operation is an operation on the unbounded queue. -/
theorem step_refines {maxRanges : Nat} (build : Build) (positive : 0 < X)
    (roomy : 0 < maxRanges) :
    Refines (step build maxRanges (X := X)) (Allows none (NonemptyPrefix (α := α))) Holds
      Permitted where
  step_refines := by
    intro buffer queue op holds permitted
    have moving := moves_refine maxRanges build positive (NonemptyPrefix (α := α))
    cases op with
    | write data => exact moving.step_refines holds trivial
    | read n => exact moving.step_refines holds trivial
    | discard n => exact moving.step_refines holds permitted
    | readableRanges =>
        have content_eq := holds.content_eq
        have layout := holds
        rcases layout with ⟨full, tail, spares, layout, _⟩
        rcases readableRanges_spec build roomy layout permitted with ⟨ranges, ranges_eq, shown⟩
        rw [content_eq] at shown
        refine ⟨_, buffer, _, ?_, .readableRanges queue _ shown, holds⟩
        rw [step, ranges_eq]
        rfl

/-- For every extent capacity, number of ranges, build and permitted run, the
buffer completes every operation and answers as the unbounded queue does.  In
the state reached, the list visits every extent once, the extents before the
tail are full, those after it are empty, and the head is not dead. -/
theorem run_refines_queue {maxRanges : Nat} (build : Build) (positive : 0 < X)
    (roomy : 0 < maxRanges) (storage : Nat → Memory α) (ops : List (Op α))
    (permitted : Guarded (step build maxRanges (X := X)) Permitted (new storage) ops) :
    ∃ outs final queue full tail spares first,
      run (step build maxRanges (X := X)) (new storage) ops = .ok (outs, final) ∧
      Trace (Allows none NonemptyPrefix) [] ops outs queue ∧ final.content = queue ∧
      final.Layout full tail spares ∧
      final.head = some first ∧ ¬ (final.extents first).dead := by
  rcases (step_refines build positive roomy).run (holds_new positive storage) permitted with
    ⟨outs, final, queue, ran, trace, holds⟩
  have content_eq := holds.content_eq
  rcases holds with ⟨full, tail, spares, layout, _⟩
  rcases layout.head_not_dead with ⟨first, head_eq, alive⟩
  exact ⟨outs, final, queue, full, tail, spares, first, ran, trace, content_eq, layout, head_eq,
    alive⟩

theorem run_refines_queue_of_write_discard :
    ∃ outs final queue full tail spares first,
      run (step .debug 1 (X := 2)) (new fun _ _ => 0) [Op.write [1, 2, 3], .discard 2] =
        .ok (outs, final) ∧
      Trace (Allows none NonemptyPrefix) [] [Op.write [1, 2, 3], .discard 2] outs queue ∧
      final.content = queue ∧ final.Layout full tail spares ∧
      final.head = some first ∧ ¬ (final.extents first).dead :=
  run_refines_queue .debug Nat.zero_lt_two Nat.one_pos (fun _ _ => 0) _
    (by decide)

end SkAsync.Buffer.DynamicBuffer
