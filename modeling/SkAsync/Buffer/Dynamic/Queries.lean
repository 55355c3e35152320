import SkAsync.Buffer.Dynamic.ZeroCopy

/-!
# Discarding from a `dynamic_buffer` and looking at its ranges

`discard` and the two range queries carry checks that assume something about
the extent list.  `discard` assumes that there is enough to discard: in a debug
build it aborts when the content runs out, in a release build its loop never
ends.  `readable_ranges` assumes that there is content, and `writable_ranges`
that no spare is queued behind a full tail.  For every state that moving
elements reaches, the conditions below say exactly when the assumptions hold.
-/

namespace SkAsync.Buffer.DynamicBuffer

open SkAsync.Library

variable {α : Type} {X : Nat}

/-! ## The properties and the conditions -/

/-- `discard` removes and returns what there is, up to the number asked for. -/
def DiscardsWhatIsThere (build : Build) (buffer : DynamicBuffer α X) (n : Nat) : Prop :=
  ∃ next, buffer.discard build n = .ok (min n buffer.content.length, next) ∧
    next.content = buffer.content.drop n

/-- Both range queries complete; there is at least one writable range and none
is empty, and the readable ranges of an empty buffer contain no element. -/
def QueriesLegal (build : Build) (maxRanges : Nat) (buffer : DynamicBuffer α X) : Prop :=
  (∃ spans grown, buffer.writableRanges build maxRanges = .ok (spans, grown) ∧
    spans.items ≠ [] ∧ ∀ span ∈ spans.items, 0 < span.2.size) ∧
  ∃ spans, buffer.readableRanges build maxRanges = .ok spans ∧
    (buffer.content = [] → (buffer.seenThrough spans.items).flatten = [])

/-- The tail is full and a spare is queued behind it. -/
def FullBeforeSpare (buffer : DynamicBuffer α X) : Prop :=
  ∃ found, buffer.deref buffer.tail = .ok found ∧ found.2.writable = 0 ∧ found.2.next.isSome

theorem fullBeforeSpare_iff {buffer : DynamicBuffer α X} :
    buffer.FullBeforeSpare ↔ (buffer.deref buffer.tail).toOption.any fun found =>
      found.2.writable == 0 && found.2.next.isSome := by
  unfold FullBeforeSpare
  cases buffer.deref buffer.tail with
  | error fault => simp [Except.toOption]
  | ok found => simp [Except.toOption]

instance (buffer : DynamicBuffer α X) : Decidable buffer.FullBeforeSpare :=
  decidable_of_iff' _ fullBeforeSpare_iff

/-- Extents and range vectors have room, no spare is queued behind a full tail,
and where the check for an unreadable head is compiled in there is content. -/
def QueriesPrepared (build : Build) (maxRanges : Nat) (buffer : DynamicBuffer α X) : Prop :=
  0 < X ∧ 0 < maxRanges ∧ ¬ buffer.FullBeforeSpare ∧ (build = .release ∨ buffer.content ≠ [])

/-! ## Extents without room -/

/-- With extents of capacity zero, writing an element never ends. -/
theorem writeLoop_zero_ne_ok {build : Build} {fuel : Nat} {buffer final : DynamicBuffer α 0}
    {c : α} {cptr : List α} : writeLoop build fuel buffer (c :: cptr) ≠ .ok final := by
  induction fuel generalizing buffer with
  | zero =>
      intro looped
      cases looped
  | succ fuel ih =>
      intro looped
      rw [writeLoop] at looped
      rcases bind_eq_ok_iff.mp looped with ⟨ready, _, rest⟩
      rcases bind_eq_ok_iff.mp rest with ⟨⟨address, tail⟩, _, rest⟩
      rcases bind_eq_ok_iff.mp rest with ⟨_, _, rest⟩
      have noRoom : tail.writable = 0 := Nat.zero_sub _
      simp only [noRoom, Nat.min_zero, List.drop_zero] at rest
      exact ih rest

/-- With extents of capacity zero, nothing is ever stored. -/
theorem step_zero_eq_self {build : Build} {maxRanges : Nat} {storage : Nat → Memory α} {op : Op α}
    {out : Output α} {next : DynamicBuffer α 0}
    (moves : (new storage : DynamicBuffer α 0).Moves op)
    (stepped : (new storage : DynamicBuffer α 0).step build maxRanges op = .ok (out, next)) :
    next = new storage := by
  cases op with
  | write data =>
      cases data with
      | nil =>
          cases stepped
          rfl
      | cons c cptr =>
          rcases bind_eq_ok_iff.mp stepped with ⟨written, write_eq, _⟩
          rcases bind_eq_ok_iff.mp write_eq with ⟨final, looped, _⟩
          exact absurd looped writeLoop_zero_ne_ok
  | read n =>
      cases n with
      | zero =>
          cases stepped
          rfl
      | succ n =>
          cases build with
          | debug => cases stepped
          | release =>
              cases stepped
              rfl
  | discard n =>
      obtain rfl : n = 0 := Nat.le_zero.mp moves
      cases stepped
      rfl
  | readableRanges => exact absurd moves id

theorem run_zero_eq_self {build : Build} {maxRanges : Nat} {storage : Nat → Memory α}
    {ops : List (Op α)} {outs : List (Output α)} {final : DynamicBuffer α 0}
    (moves : Guarded (step build maxRanges) Moves (new storage : DynamicBuffer α 0) ops)
    (ran : run (step build maxRanges) (new storage : DynamicBuffer α 0) ops = .ok (outs, final)) :
    final = new storage := by
  induction ops generalizing outs with
  | nil =>
      cases ran
      rfl
  | cons op ops ih =>
      rcases run_cons_eq_ok_iff.mp ran with ⟨out, next, rest, stepped, tail, _⟩
      have rest_moves := moves.2 out next stepped
      rw [step_zero_eq_self moves.1 stepped] at rest_moves tail
      exact ih rest_moves tail

/-- Moving elements completes when extents have room. -/
theorem run_completes {maxRanges : Nat} (build : Build) (positive : 0 < X)
    (storage : Nat → Memory α) (ops : List (Op α))
    (moves : Guarded (step build maxRanges (X := X)) Moves (new storage) ops) :
    ∃ outs final, run (step build maxRanges (X := X)) (new storage) ops = .ok (outs, final) := by
  rcases (moves_refine maxRanges build positive Eq).run (holds_new positive storage) moves with
    ⟨outs, final, _, ran, _⟩
  exact ⟨outs, final, ran⟩

/-- The state that moving elements reaches: a queue in extents that have room,
or the new buffer. -/
theorem reached {build : Build} {maxRanges : Nat} {storage : Nat → Memory α}
    {ops : List (Op α)} {outs : List (Output α)} {final : DynamicBuffer α X}
    (moves : Guarded (step build maxRanges) Moves (new storage : DynamicBuffer α X) ops)
    (ran : run (step build maxRanges) (new storage : DynamicBuffer α X) ops = .ok (outs, final)) :
    (0 < X ∧ final.Holds final.content) ∨ (X = 0 ∧ final = new storage) := by
  rcases Nat.eq_zero_or_pos X with rfl | positive
  · exact .inr ⟨rfl, run_zero_eq_self moves ran⟩
  · left
    rcases (moves_refine maxRanges build positive Eq).run (holds_new positive storage) moves with
      ⟨outs', final', queue, ran', _, holds⟩
    rw [ran] at ran'
    cases ran'
    rw [holds.content_eq]
    exact ⟨positive, holds⟩

/-! ## Discarding -/

/-- When the content runs out, a head without content is left as it is. -/
theorem Head.retireHead_zero (build : Build) {buffer : DynamicBuffer α X} {queue : List α}
    {address : Nat} (head : buffer.Head queue address) :
    (buffer.set address { buffer.extents address with
      readPointer := (buffer.extents address).readPointer + 0 }).retireHead build = .ok buffer := by
  have unchanged : buffer.set address { buffer.extents address with
      readPointer := (buffer.extents address).readPointer + 0 } = buffer := by
    simp [set]
  rw [unchanged]
  exact retireHead_of_alive build head.head_eq head.inHeap head.not_dead

/-- Discarding more than there is fails: the check aborts a debug build, and in
a release build no number of iterations ends the loop. -/
theorem discardLoop_overrun (build : Build) (positive : 0 < X) {fuel left : Nat}
    {buffer : DynamicBuffer α X} {queue : List α} (beyond : queue.length < left)
    (holds : buffer.Holds queue) :
    ∃ fault, discardLoop build fuel buffer left = .error fault ∧
      (build = .release → fault = .diverged) ∧
      (build = .debug → left ≤ fuel →
        fault = .checkFailed "INTERNAL ERROR: dynamic_buffer::discard: unreadable head") := by
  induction fuel generalizing buffer queue left with
  | zero =>
      obtain ⟨left, rfl⟩ := Nat.exists_eq_succ_of_ne_zero (Nat.ne_zero_of_lt beyond)
      refine ⟨.diverged, rfl, fun _ => rfl, ?_⟩
      intro _ enough
      exact absurd enough (Nat.not_succ_le_zero left)
  | succ fuel ih =>
      obtain ⟨left, rfl⟩ := Nat.exists_eq_succ_of_ne_zero (Nat.ne_zero_of_lt beyond)
      rcases holds.exists_head build positive with ⟨address, head, consumes⟩
      rw [discardLoop, head.deref, ok_bind]
      by_cases nothing : (buffer.extents address).readable = 0
      · have unreadable : ¬ 0 < (buffer.extents address).readable := nothing.not_gt
        cases build with
        | debug =>
            refine ⟨_, ?_, fun release => (by cases release), fun _ _ => rfl⟩
            simp only [skCheck_debug_of_not unreadable, error_bind]
        | release =>
            -- Nothing was discarded and nothing changed: the next iteration is this one.
            rcases ih beyond holds with ⟨fault, looped, diverged, _⟩
            refine ⟨fault, ?_, diverged, fun debug => (by cases debug)⟩
            simp only [skCheck_release, ok_bind, nothing, Nat.min_zero, head.retireHead_zero,
              Nat.sub_zero]
            exact looped
      · have something : 0 < (buffer.extents address).readable := Nat.pos_of_ne_zero nothing
        generalize rd_eq : min (left + 1) (buffer.extents address).readable = rd
        have rd_within : rd ≤ (buffer.window address).readable := rd_eq ▸ Nat.min_le_right ..
        have rd_pos : 0 < rd := by
          rw [← rd_eq]
          exact Nat.lt_min.mpr ⟨Nat.succ_pos _, something⟩
        have within : rd ≤ queue.length := by
          have prefix_le := head.prefix_queue.length_le
          rw [FixedBuffer.length_content] at prefix_le
          exact rd_within.trans prefix_le
        rcases consumes rd rd_within with ⟨middle, retired, holds'⟩
        have beyond' : (queue.drop rd).length < left + 1 - rd := by
          rw [List.length_drop]
          omega
        rcases ih beyond' holds' with ⟨fault, looped, diverged, aborted⟩
        refine ⟨fault, ?_, diverged, ?_⟩
        · simp only [skCheck_of something, ok_bind, rd_eq, retired]
          exact looped
        · intro debug enough
          exact aborted debug (by omega)

theorem discardLoop_ne_ok {build : Build} (positive : 0 < X) {fuel left : Nat}
    {buffer final : DynamicBuffer α X} {queue : List α} (beyond : queue.length < left)
    (holds : buffer.Holds queue) : discardLoop build fuel buffer left ≠ .ok final := by
  intro looped
  rcases discardLoop_overrun build positive beyond holds with ⟨fault, failed, _⟩
  rw [failed] at looped
  cases looped

theorem discardsWhatIsThere_iff (build : Build) (positive : 0 < X) {buffer : DynamicBuffer α X}
    (holds : buffer.Holds buffer.content) (n : Nat) :
    buffer.DiscardsWhatIsThere build n ↔ n ≤ buffer.content.length := by
  constructor
  · rintro ⟨next, discarded, _⟩
    by_contra beyond
    rcases bind_eq_ok_iff.mp discarded with ⟨final, looped, _⟩
    exact discardLoop_ne_ok positive (Nat.not_le.mp beyond) holds looped
  · intro available
    rcases discard_spec build positive holds available with ⟨next, discarded, holds'⟩
    refine ⟨next, ?_, holds'.content_eq⟩
    rw [Nat.min_eq_left available]
    exact discarded

/-- With extents of capacity zero, discarding an element never ends well. -/
theorem discardLoop_zero_ne_ok {build : Build} {fuel n : Nat} {storage : Nat → Memory α}
    {final : DynamicBuffer α 0} :
    discardLoop build fuel (new storage : DynamicBuffer α 0) (n + 1) ≠ .ok final := by
  induction fuel with
  | zero =>
      intro looped
      cases looped
  | succ fuel ih =>
      cases build with
      | debug =>
          intro looped
          cases looped
      | release =>
          let head := (new storage : DynamicBuffer α 0).extents 0
          have retired : ((new storage : DynamicBuffer α 0).set 0
              { head with readPointer := head.readPointer + 0 }).retireHead .release =
                .ok (new storage) := by
            simp [head, retireHead, deref, set, new, FixedBuffer.new, Extent.dead,
              FixedBuffer.readable, FixedBuffer.writable, Extent.clear, FixedBuffer.reset]
          have again : discardLoop .release (fuel + 1) (new storage : DynamicBuffer α 0) (n + 1) =
              (do
                let next ← ((new storage : DynamicBuffer α 0).set 0
                  { head with readPointer := head.readPointer + 0 }).retireHead .release
                discardLoop .release fuel next (n + 1)) := rfl
          rw [again, retired]
          exact ih

theorem discardsWhatIsThere_zero_iff (build : Build) (storage : Nat → Memory α) (n : Nat) :
    (new storage : DynamicBuffer α 0).DiscardsWhatIsThere build n ↔
      n ≤ (new storage : DynamicBuffer α 0).content.length := by
  cases n with
  | zero =>
      constructor
      · intro _
        exact Nat.zero_le _
      · intro _
        exact ⟨new storage, rfl, rfl⟩
  | succ n =>
      constructor
      · rintro ⟨next, discarded, _⟩
        rcases bind_eq_ok_iff.mp discarded with ⟨final, looped, _⟩
        exact absurd looped discardLoop_zero_ne_ok
      · intro beyond
        exact absurd beyond (Nat.not_succ_le_zero n)

/-- A run that moves elements, and discards no more than there is, completes;
and in the state reached, discarding removes what is there exactly when no more
is asked for.  When more is asked for, no number of iterations ends the loop
normally. -/
theorem run_discardsWhatIsThere_iff (maxRanges : Nat) (build : Build) (storage : Nat → Memory α)
    (ops : List (Op α))
    (moves : Guarded (step build maxRanges (X := X)) Moves (new storage) ops) :
    (0 < X → ∃ outs final,
      run (step build maxRanges (X := X)) (new storage) ops = .ok (outs, final)) ∧
    ∀ outs final, run (step build maxRanges (X := X)) (new storage) ops = .ok (outs, final) →
      ∀ n, (final.DiscardsWhatIsThere build n ↔ n ≤ final.content.length) ∧
        (final.content.length < n →
          ∀ fuel next, discardLoop build fuel final n ≠ .ok next) := by
  refine ⟨fun positive => run_completes build positive storage ops moves, ?_⟩
  intro outs final ran n
  rcases reached moves ran with ⟨positive, holds⟩ | ⟨rfl, rfl⟩
  · refine ⟨discardsWhatIsThere_iff build positive holds n, ?_⟩
    intro beyond fuel next
    exact discardLoop_ne_ok positive beyond holds
  · refine ⟨discardsWhatIsThere_zero_iff build storage n, ?_⟩
    intro beyond fuel next
    obtain ⟨n, rfl⟩ := Nat.exists_eq_succ_of_ne_zero (Nat.ne_zero_of_lt beyond)
    exact discardLoop_zero_ne_ok

theorem run_discardsWhatIsThere_iff_of_write_read :
    ∃ outs final,
      run (step .release 1 (X := 2)) (new fun _ _ => 0) [Op.write [1, 2, 3], .read 1] =
        .ok (outs, final) ∧
      ∀ n, (final.DiscardsWhatIsThere .release n ↔ n ≤ final.content.length) ∧
        (final.content.length < n →
          ∀ fuel next, discardLoop .release fuel final n ≠ .ok next) :=
  ⟨_, _, rfl, (run_discardsWhatIsThere_iff 1 .release (fun _ _ => 0) [.write [1, 2, 3], .read 1]
    (by decide)).2 _ _ rfl⟩

/-- Two elements in a buffer, three to discard: a debug build aborts, and in a
release build the call never returns. -/
theorem discard_beyond_content :
    (run (step .debug 1 (X := 4)) (new fun _ _ => 0) [.write [1, 2], .discard 3]).map Prod.fst =
      .error (.checkFailed "INTERNAL ERROR: dynamic_buffer::discard: unreadable head") ∧
    (run (step .release 1 (X := 4)) (new fun _ _ => 0) [.write [1, 2], .discard 3]).map Prod.fst =
      .error .diverged ∧
    ∀ build, ∃ outs final,
      run (step build 1 (X := 4)) (new fun _ _ => 0) [.write [1, 2]] = .ok (outs, final) ∧
        final.content = [1, 2] ∧ ¬ final.DiscardsWhatIsThere build 3 ∧
        ∀ fuel next, discardLoop build fuel final 3 ≠ .ok next := by
  refine ⟨by decide, by decide, ?_⟩
  intro build
  have positive : 0 < 4 := Nat.succ_pos 3
  rcases write_spec build positive (holds_new positive fun _ _ => 0) [1, 2] with
    ⟨final, written, holds⟩
  have content_eq : final.content = [1, 2] := holds.content_eq
  rw [List.nil_append, ← content_eq] at holds
  refine ⟨[.count 2], final, ?_, content_eq, ?_, ?_⟩
  · rw [run_cons, step, written]
    rfl
  · rw [discardsWhatIsThere_iff build positive holds, content_eq]
    decide
  · intro fuel next
    have beyond : final.content.length < 3 := by
      rw [content_eq]
      decide
    exact discardLoop_ne_ok positive beyond holds

/-! ## Writable ranges -/

/-- `_ensure_minfree` leaves a tail without space exactly when it finds a full
tail with a spare behind it.  The spares always have space. -/
theorem Layout.ensureMinfree (build : Build) (positive : 0 < X) {buffer : DynamicBuffer α X}
    {full spares : List Nat} {tail : Nat} (layout : buffer.Layout full tail spares) :
    ∃ grown full' tail' spares', buffer.ensureMinfree build = .ok grown ∧
      grown.Linked full' tail' spares' ∧
      (∀ address ∈ spares', 0 < (grown.window address).writable) ∧
      ((grown.window tail').writable = 0 ↔ buffer.FullBeforeSpare) := by
  have spaces : ∀ address ∈ spares, 0 < (buffer.window address).writable :=
    fun _ member => writable_pos_of_mem_spares positive layout member
  have full_iff : buffer.FullBeforeSpare ↔
      (buffer.extents tail).writable = 0 ∧ (buffer.extents tail).next.isSome := by
    rw [FullBeforeSpare, layout.deref_tail]
    simp
  rw [full_iff]
  unfold DynamicBuffer.ensureMinfree
  rw [layout.deref_tail, ok_bind]
  dsimp only
  by_cases isEmpty : (buffer.extents tail).empty
  · refine ⟨buffer, full, tail, spares, if_pos isEmpty, layout.toLinked, spaces, ?_⟩
    have write_zero : (buffer.extents tail).writePointer = 0 := isEmpty
    have space : (buffer.extents tail).writable ≠ 0 := by
      rw [FixedBuffer.writable, write_zero]
      exact positive.ne'
    exact iff_of_false space fun isFull => space isFull.1
  · rw [if_neg isEmpty]
    have next_eq := layout.spares_segment
    cases spares with
    | nil =>
        rw [segment_nil] at next_eq
        rcases makeTail_of_nil build layout.toLinked with ⟨grown, made, linked, _, fresh⟩
        refine ⟨grown, full ++ [tail], buffer.allocated, [], ?_, linked, by simp, ?_⟩
        · simp only [next_eq]
          exact made
        · have space : (grown.window buffer.allocated).writable ≠ 0 := by
            rw [fresh]
            exact positive.ne'
          rw [next_eq]
          exact iff_of_false space fun isFull => Bool.false_ne_true isFull.2
    | cons spare spares =>
        have hasNext : (buffer.extents tail).next = some spare := next_eq.1
        have write_zero : (buffer.extents spare).empty :=
          (layout.spares_empty spare List.mem_cons_self).2
        have inHeap : spare < buffer.allocated := layout.lt_of_mem (by simp)
        refine ⟨buffer, full, tail, spare :: spares, ?_, layout.toLinked, spaces, ?_⟩
        · simp only [hasNext, deref_of_lt buffer inHeap, ok_bind, skCheck_of write_zero,
            pure_eq_ok]
        · rw [hasNext]
          constructor
          · intro noSpace
            exact ⟨noSpace, rfl⟩
          · exact And.left

/-- `writable_ranges` is legal exactly when there is room in the vector and no
spare is queued behind a full tail. -/
theorem writableRanges_legal_iff {maxRanges : Nat} (build : Build) (positive : 0 < X)
    {buffer : DynamicBuffer α X} {queue : List α} (holds : buffer.Holds queue) :
    (∃ spans grown, buffer.writableRanges build maxRanges = .ok (spans, grown) ∧
        spans.items ≠ [] ∧ ∀ span ∈ spans.items, 0 < span.2.size) ↔
      0 < maxRanges ∧ ¬ buffer.FullBeforeSpare := by
  rcases holds with ⟨full, tail, spares, layout, _⟩
  rcases layout.ensureMinfree build positive with
    ⟨grown, full', tail', spares', ensured, linked, spaces, noSpace_iff⟩
  have present : grown.tail ≠ none := by
    rw [linked.tail_eq]
    exact Option.some_ne_none _
  have segment : Segment grown.link grown.tail (tail' :: spares') none := by
    rw [linked.tail_eq]
    exact ⟨rfl, linked.spares_segment⟩
  have capacity : (StaticVector.empty : StaticVector (Nat × Span) maxRanges).items.length +
      maxRanges = maxRanges := Nat.zero_add _
  have inHeap : ∀ address ∈ tail' :: spares', address < grown.allocated :=
    fun address member => linked.lt_of_mem (List.mem_append_right _ member)
  have ranges_eq : buffer.writableRanges build maxRanges = (do
      let ret ← writableLoop build grown maxRanges grown.tail .empty
      pure (ret, grown)) := by
    unfold writableRanges
    rw [ensured, ok_bind]
    simp only [skCheck_of present, ok_bind]
  rw [ranges_eq, ← noSpace_iff]
  constructor
  · rintro ⟨spans, grown', taken, nonempty, allSpace⟩
    rcases bind_eq_ok_iff.mp taken with ⟨ret, looped, returned⟩
    cases returned
    cases maxRanges with
    | zero =>
        cases looped
        exact absurd rfl nonempty
    | succ room =>
        refine ⟨Nat.succ_pos room, ?_⟩
        intro noSpace
        have noSpace' : (grown.extents tail').writable = 0 := noSpace
        cases build with
        | debug =>
            rw [linked.tail_eq, writableLoop, deref_of_lt grown (inHeap tail' List.mem_cons_self),
              ok_bind] at looped
            simp only [skCheck_debug_of_not noSpace'.not_gt, error_bind] at looped
            cases looped
        | release =>
            rcases writableLoop_spec .release segment inHeap (fun _ _ => .inl rfl) capacity with
              ⟨spans', looped', items_eq⟩
            rw [looped] at looped'
            cases looped'
            have member : grown.writableSpan tail' ∈ spans.items := by
              rw [items_eq]
              exact List.mem_cons_self
            exact absurd noSpace (allSpace _ member).ne'
  · rintro ⟨roomy, hasSpace⟩
    have allSpace : ∀ address ∈ tail' :: spares', 0 < (grown.window address).writable := by
      intro address member
      rcases List.mem_cons.mp member with rfl | inSpares
      · exact Nat.pos_of_ne_zero hasSpace
      · exact spaces address inSpares
    rcases writableLoop_spec build segment inHeap (fun address member => .inr (allSpace address
      member)) capacity with ⟨spans, looped, items_eq⟩
    rw [StaticVector.items_empty, List.nil_append] at items_eq
    refine ⟨spans, grown, ?_, ?_, ?_⟩
    · rw [looped]
      rfl
    · rw [items_eq]
      obtain ⟨room, rfl⟩ := Nat.exists_eq_succ_of_ne_zero roomy.ne'
      simp
    · intro span member
      rw [items_eq] at member
      rcases List.mem_map.mp member with ⟨address, inCells, rfl⟩
      exact allSpace address (List.mem_of_mem_take inCells)

/-! ## Readable ranges -/

/-- `readable_ranges` is legal exactly when its check is not compiled in, or not
reached, or there is content. -/
theorem readableRanges_legal_iff {maxRanges : Nat} (build : Build) (positive : 0 < X)
    {buffer : DynamicBuffer α X} (holds : buffer.Holds buffer.content) :
    (∃ spans, buffer.readableRanges build maxRanges = .ok spans ∧
        (buffer.content = [] → (buffer.seenThrough spans.items).flatten = [])) ↔
      build = .release ∨ maxRanges = 0 ∨ buffer.content ≠ [] := by
  constructor
  · rintro ⟨spans, taken, _⟩
    by_contra hidden
    rw [not_or, not_or, not_not] at hidden
    rcases hidden with ⟨checks, roomy, isEmpty⟩
    have debug : build = .debug := by
      cases build with
      | debug => rfl
      | release => exact absurd rfl checks
    subst debug
    obtain ⟨room, rfl⟩ := Nat.exists_eq_succ_of_ne_zero roomy
    rcases holds.exists_head .debug positive with ⟨address, head, _⟩
    have unreadable : ¬ 0 < (buffer.extents address).readable := by
      intro readable
      have nothing := head.prefix_queue.length_le
      rw [FixedBuffer.length_content, isEmpty] at nothing
      exact absurd nothing (Nat.not_le.mpr readable)
    rw [readableRanges, readableLoop, head.deref, ok_bind] at taken
    simp only [skCheck_debug_of_not unreadable, error_bind] at taken
    cases taken
  · intro visible
    rcases holds with ⟨full, tail, spares, layout, _⟩
    rcases readableRanges_eq maxRanges build layout visible with ⟨spans, taken, items_eq⟩
    refine ⟨spans, taken, ?_⟩
    intro isEmpty
    rw [layout.content_eq_append maxRanges] at isEmpty
    rw [items_eq, flatten_seenThrough_readableSpan]
    exact (List.append_eq_nil_iff.mp isEmpty).1

theorem queriesLegal_iff {maxRanges : Nat} (build : Build) (positive : 0 < X)
    {buffer : DynamicBuffer α X} (holds : buffer.Holds buffer.content) :
    buffer.QueriesLegal build maxRanges ↔ buffer.QueriesPrepared build maxRanges := by
  rw [QueriesLegal, QueriesPrepared, writableRanges_legal_iff build positive holds,
    readableRanges_legal_iff build positive holds]
  constructor
  · rintro ⟨⟨roomy, behind⟩, visible⟩
    refine ⟨positive, roomy, behind, visible.imp_right ?_⟩
    exact fun shown => shown.resolve_left roomy.ne'
  · rintro ⟨_, roomy, behind, visible⟩
    exact ⟨⟨roomy, behind⟩, visible.imp_right .inr⟩

/-- Extents of capacity zero have no writable ranges to offer. -/
theorem not_queriesLegal_zero {maxRanges : Nat} (build : Build) (storage : Nat → Memory α) :
    ¬ (new storage : DynamicBuffer α 0).QueriesLegal build maxRanges := by
  rintro ⟨⟨spans, grown, taken, nonempty, allSpace⟩, _⟩
  cases maxRanges with
  | zero =>
      rcases bind_eq_ok_iff.mp taken with ⟨_, ensured, rest⟩
      cases ensured
      rcases bind_eq_ok_iff.mp rest with ⟨_, _, looped⟩
      cases looped
      exact nonempty rfl
  | succ room =>
      cases build with
      | debug => cases taken
      | release =>
          have member : (0, ⟨0, 0⟩) ∈ spans.items := by
            cases room with
            | zero =>
                cases taken
                exact List.mem_cons_self
            | succ room =>
                cases taken
                exact List.mem_cons_self
          exact absurd (allSpace _ member) (Nat.lt_irrefl 0)

/-- A run that moves elements completes, and in the state reached the two range
queries are legal exactly when it is prepared for them. -/
theorem run_queriesLegal_iff (maxRanges : Nat) (build : Build) (storage : Nat → Memory α)
    (ops : List (Op α))
    (moves : Guarded (step build maxRanges (X := X)) Moves (new storage) ops) :
    (0 < X → ∃ outs final,
      run (step build maxRanges (X := X)) (new storage) ops = .ok (outs, final)) ∧
    ∀ outs final, run (step build maxRanges (X := X)) (new storage) ops = .ok (outs, final) →
      (final.QueriesLegal build maxRanges ↔ final.QueriesPrepared build maxRanges) := by
  refine ⟨fun positive => run_completes build positive storage ops moves, ?_⟩
  intro outs final ran
  rcases reached moves ran with ⟨positive, holds⟩ | ⟨rfl, rfl⟩
  · exact queriesLegal_iff build positive holds
  · constructor
    · intro legal
      exact absurd legal (not_queriesLegal_zero build storage)
    · intro prepared
      exact absurd prepared.1 (Nat.lt_irrefl 0)

theorem run_queriesLegal_iff_of_write_read :
    ∃ outs final,
      run (step .debug 3 (X := 2)) (new fun _ _ => 0) [Op.write [1, 2, 3], .read 1] =
        .ok (outs, final) ∧
      (final.QueriesLegal .debug 3 ↔ final.QueriesPrepared .debug 3) :=
  ⟨_, _, rfl, (run_queriesLegal_iff 3 .debug (fun _ _ => 0) [.write [1, 2, 3], .read 1]
    (by decide)).2 _ _ rfl⟩

/-- Two extents filled, the first of them read, and the second filled up to its
end: the extent that was read is queued behind a full tail. -/
def refill : List (Op Nat) :=
  [.write [1, 2, 3], .read 2, .write [4]]

/-- The readable ranges of a new buffer abort a debug build, and so do the
writable ranges of a refilled one; in a release build the first of these is
empty. -/
theorem queries_of_new_and_refilled :
    ((new fun _ _ => 0 : DynamicBuffer Nat 2).readableRanges .debug 2).map StaticVector.items =
      .error (.checkFailed
        "INTERNAL ERROR: dynamic_buffer::readable_ranges: unreadable head") ∧
    ¬ (new fun _ _ => 0 : DynamicBuffer Nat 2).QueriesLegal .debug 2 ∧
    (do
      let (_, final) ← run (step .debug 2 (X := 2)) (new fun _ _ => 0) refill
      let (spans, _) ← final.writableRanges .debug 2
      pure spans.items) =
      .error (.checkFailed
        "INTERNAL ERROR: dynamic_buffer::writable_ranges: unexpected full tail") ∧
    (do
      let (_, final) ← run (step .release 2 (X := 2)) (new fun _ _ => 0) refill
      let (spans, _) ← final.writableRanges .release 2
      pure spans.items) = .ok [(1, ⟨2, 0⟩), (0, ⟨0, 2⟩)] ∧
    ∀ build, ∃ outs final,
      run (step build 2 (X := 2)) (new fun _ _ => 0) refill = .ok (outs, final) ∧
        ¬ final.QueriesLegal build 2 := by
  have positive : 0 < 2 := Nat.zero_lt_two
  refine ⟨by decide, ?_, by decide, by decide, ?_⟩
  · rw [queriesLegal_iff .debug positive (holds_new positive fun _ _ => 0)]
    rintro ⟨_, _, _, release | nonempty⟩
    · cases release
    · exact nonempty rfl
  · intro build
    have moves : Guarded (step build 2 (X := 2)) Moves (new fun _ _ => 0) refill := by
      cases build with
      | debug => decide
      | release => decide
    have isFull : (run (step build 2 (X := 2)) (new fun _ _ => 0) refill).map
        (fun result => decide result.2.FullBeforeSpare) = .ok true := by
      cases build with
      | debug => decide
      | release => decide
    rcases run_completes build positive (fun _ _ => 0) refill moves with ⟨outs, final, ran⟩
    rw [ran] at isFull
    refine ⟨outs, final, ran, ?_⟩
    rcases reached moves ran with ⟨_, holds⟩ | ⟨noRoom, _⟩
    · rw [queriesLegal_iff build positive holds]
      rintro ⟨_, _, behind, _⟩
      exact behind (of_decide_eq_true (Except.ok.inj isFull))
    · exact absurd noRoom positive.ne'

end SkAsync.Buffer.DynamicBuffer
