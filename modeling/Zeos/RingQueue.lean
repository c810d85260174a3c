import Zeos.Circbuff
import Zeos.Foundation.BoundedQueue

/-! # The keyboard ring over histories of calls

From `init_circbuff` on, the calls of `circbuff.c` answer like those of a queue of
`CIRCBUFF_SIZE` characters.
-/

namespace Zeos

open Foundation

/-- The buffer keeps whatever it held. -/
def initCircbuff (ring : Circbuff) : Circbuff := { ring with last := 0, first := 0, counter := 0 }

namespace Circbuff

def perform (ring : Circbuff) : QueueCall UInt8 → Circbuff × QueueAnswer UInt8
  | .push k => (ring.push k, .done)
  | .pop => (ring.pop, .done)
  | .front => (ring, .item ring.front)
  | .empty => (ring, .flag ring.empty)
  | .full => (ring, .flag ring.full)
  | .count => (ring, .number ring.counter)

theorem initCircbuff_wellFormed (ring : Circbuff) : (initCircbuff ring).WellFormed :=
  ⟨(by decide : 0 < circbuffSize), rfl, Nat.zero_le _⟩

variable {ring : Circbuff}

theorem push_full (full : ring.counter = circbuffSize) (k : UInt8) : ring.push k = ring := by
  rw [push, if_pos (full_iff.mpr full)]

theorem pop_empty (empty : ring.counter = 0) : ring.pop = ring := by
  rw [pop, if_pos (empty_iff.mpr empty)]

theorem WellFormed.perform (wellFormed : ring.WellFormed) (call : QueueCall UInt8) :
    (ring.perform call).1.WellFormed := by
  cases call with
  | push k =>
      by_cases room : ring.counter = circbuffSize
      · change (ring.push k).WellFormed
        rwa [push_full room]
      · exact (wellFormed.push room k).1
  | pop =>
      by_cases notEmpty : ring.counter = 0
      · change ring.pop.WellFormed
        rwa [pop_empty notEmpty]
      · exact wellFormed.pop notEmpty
  | _ => exact wellFormed

theorem front_eq {oldest : UInt8} (first : oldest ∈ ring.contents.head?) : ring.front = oldest := by
  by_cases empty : ring.counter = 0
  · rw [contents_empty empty] at first
    cases first
  · rw [contents_pop empty] at first
    exact Option.some.inj first

theorem WellFormed.simulates (wellFormed : ring.WellFormed) (call : QueueCall UInt8) :
    BoundedQueue.Answers circbuffSize ring.contents call (ring.perform call).2 ∧
      (ring.perform call).1.contents = BoundedQueue.after circbuffSize ring.contents call := by
  have bound := wellFormed.counter_le
  cases call with
  | push k =>
      refine ⟨rfl, ?_⟩
      change (ring.push k).contents = if ring.contents.length < circbuffSize then _ else _
      rw [contents_length]
      by_cases full : ring.counter = circbuffSize
      · rw [push_full full, if_neg (by omega)]
      · rw [(wellFormed.push full k).2, if_pos (by omega)]
  | pop =>
      refine ⟨rfl, ?_⟩
      change ring.pop.contents = ring.contents.tail
      by_cases empty : ring.counter = 0
      · rw [pop_empty empty, contents_empty empty]
        rfl
      · rw [contents_pop empty]
        rfl
  | front => exact ⟨⟨ring.front, rfl, fun _ => front_eq⟩, rfl⟩
  | empty =>
      refine ⟨?_, rfl⟩
      change QueueAnswer.flag (decide (ring.counter = 0)) = _
      rw [contents_length]
      rfl
  | full =>
      refine ⟨?_, rfl⟩
      change QueueAnswer.flag (decide (ring.counter = circbuffSize)) = _
      rw [contents_length]
      rfl
  | count =>
      refine ⟨?_, rfl⟩
      change QueueAnswer.number ring.counter = _
      rw [contents_length]

end Circbuff

/-- After `init_circbuff`, whatever the buffer held before, every history of calls is one of
a queue of `CIRCBUFF_SIZE` characters, and leaves both pointers inside the buffer, the last
one `circbuffcounter` places behind the first. -/
theorem ringServes (ring : Circbuff) (calls : List (QueueCall UInt8)) :
    BoundedQueue.Serves circbuffSize []
        (BoundedQueue.history Circbuff.perform (initCircbuff ring) calls).1 ∧
      let after := (BoundedQueue.history Circbuff.perform (initCircbuff ring) calls).2
      after.first < circbuffSize ∧ after.last < circbuffSize ∧
        after.last = (after.first + after.counter) % circbuffSize := by
  have initially := Circbuff.initCircbuff_wellFormed ring
  rcases BoundedQueue.serves_of_simulates Circbuff.WellFormed Circbuff.contents
    (fun _ call wellFormed => wellFormed.perform call)
    (fun _ call wellFormed => wellFormed.simulates call) initially calls with ⟨served, wellFormed⟩
  refine ⟨served, wellFormed.first_lt, ?_, wellFormed.last_eq⟩
  rw [wellFormed.last_eq]
  exact Nat.mod_lt _ (by decide)

/-- Two characters go in and come out in order. -/
example : (BoundedQueue.history Circbuff.perform (initCircbuff ⟨fun _ => 0, 5, 7, 3⟩)
    [.push 104, .push 105, .pop, .front, .count]).1.map (·.2) =
      [.done, .done, .done, .item 105, .number 1] := rfl

end Zeos
