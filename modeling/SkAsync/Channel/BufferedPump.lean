import SkAsync.Buffer.Circular.ZeroCopy
import SkAsync.Buffer.Fixed
import SkAsync.Channel.Pump

/-!
# Pumps through the buffers of fixed size

The abstract pump instantiated at `circular_buffer` and `fixed_buffer`.
-/

namespace SkAsync.Channel.Pump

open SkAsync.Buffer
open SkAsync.Library

variable {α ε : Type}

/-- No element is lost or duplicated between a source and a sink that are
connected by a ring or by a fixed buffer of any size: every run of calls with
any limits completes, each call returns how many elements it moved, at most its
limit, and at the end what left the source is what reached the sink followed by
what the buffer holds. -/
theorem fixedSize_run_conserves (build : Build) (N : Nat) (source : Source α ε)
    (sink : Sink α ε) (input : source.State) (output : sink.State) (data : Memory α)
    (calls : List PumpOp) :
    (∃ outs final flow,
      run (step (CircularBuffer.ranges (N := N) build))
        (⟨(input, []), .new data, (output, [])⟩ : Pump source sink (CircularBuffer α N)) calls =
          .ok (outs, final) ∧
      Trace (Flow.Allows (ε := ε)) ⟨[], [], []⟩ calls outs flow ∧
      final.input.2 = flow.consumed ∧ final.buffer.content = flow.buffered ∧
      final.output.2 = flow.delivered ∧
      final.input.2 = final.output.2 ++ final.buffer.content) ∧
    (∃ outs final flow,
      run (step (FixedBuffer.ranges (N := N)))
        (⟨(input, []), .new data, (output, [])⟩ : Pump source sink (FixedBuffer α N)) calls =
          .ok (outs, final) ∧
      Trace (Flow.Allows (ε := ε)) ⟨[], [], []⟩ calls outs flow ∧
      final.input.2 = flow.consumed ∧ final.buffer.content = flow.buffered ∧
      final.output.2 = flow.delivered ∧
      final.input.2 = final.output.2 ++ final.buffer.content) := by
  constructor
  · exact run_conserves (CircularBuffer.ranges_lawful build) input (.new data) output
      (CircularBuffer.wellFormed_new data) (CircularBuffer.content_new data) calls
  · exact run_conserves FixedBuffer.ranges_lawful input (.new data) output
      (FixedBuffer.wellFormed_new data) (FixedBuffer.content_new data) calls

end SkAsync.Channel.Pump
