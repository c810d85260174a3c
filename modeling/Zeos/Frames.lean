import Zeos.Foundation.ResourcePool
import Zeos.Tables

/-! # Frames to be had

Which frames `alloc_frame` can hand out, and when a group of them can be allocated.
-/

namespace Zeos

open Foundation

namespace Mm

/-- The frames in reach of the search of `alloc_frame` that are free. -/
def available (mm : Mm) : Finset Nat :=
  (Finset.range totalPages).filter fun frame =>
    numPagKernel ≤ frame ∧ frame % 2 = 0 ∧ mm.physMem frame = .freeFrame

theorem mem_available {mm : Mm} {frame : Nat} :
    frame ∈ mm.available ↔
      frame < totalPages ∧ numPagKernel ≤ frame ∧ frame % 2 = 0 ∧
        mm.physMem frame = .freeFrame := by
  simp [available]

theorem allocScan_some {physMem : Nat → FrameMark} {fuel start frame : Nat}
    (found : allocScan physMem fuel start = some frame) :
    start ≤ frame ∧ frame % 2 = start % 2 ∧ frame < totalPages ∧ physMem frame = .freeFrame := by
  induction fuel generalizing start with
  | zero => cases found
  | succ fuel induction =>
      unfold allocScan at found
      split at found
      · rename_i inside
        split at found
        · rename_i free
          cases found
          exact ⟨le_refl _, rfl, inside, free⟩
        · rcases induction found with ⟨above, parity, below, free⟩
          exact ⟨by omega, by omega, below, free⟩
      · cases found

theorem allocScan_none {physMem : Nat → FrameMark} {fuel start : Nat}
    (missing : allocScan physMem fuel start = none) (enough : totalPages ≤ start + 2 * fuel)
    {frame : Nat} (above : start ≤ frame) (parity : frame % 2 = start % 2)
    (below : frame < totalPages) : physMem frame ≠ .freeFrame := by
  induction fuel generalizing start with
  | zero => omega
  | succ fuel induction =>
      unfold allocScan at missing
      split at missing
      · split at missing
        · cases missing
        · rename_i used
          rcases Nat.eq_or_lt_of_le above with here | later
          · rwa [← here]
          · exact induction missing (by omega) (by omega) (by omega)
      · omega

theorem allocScan_least {physMem : Nat → FrameMark} {fuel start frame : Nat}
    (found : allocScan physMem fuel start = some frame) {other : Nat} (above : start ≤ other)
    (parity : other % 2 = start % 2) (free : physMem other = .freeFrame) : frame ≤ other := by
  induction fuel generalizing start with
  | zero => cases found
  | succ fuel induction =>
      unfold allocScan at found
      split at found
      · split at found
        · cases found
          exact above
        · rename_i used
          have later : start ≠ other := fun same => used (same ▸ free)
          exact induction found (by omega) (by omega)
      · cases found

theorem allocFrame_some {mm after : Mm} {frame : Nat}
    (found : mm.allocFrame = (after, some frame)) :
    frame ∈ mm.available ∧
      after = { mm with physMem := Function.update mm.physMem frame .usedFrame } := by
  unfold allocFrame at found
  split at found
  · rename_i scanned
    cases found
    rcases allocScan_some scanned with ⟨above, parity, below, free⟩
    exact ⟨mem_available.mpr ⟨below, above, parity, free⟩, rfl⟩
  · cases found

theorem allocFrame_none {mm after : Mm} (missing : mm.allocFrame = (after, none)) :
    mm.available = ∅ ∧ after = mm := by
  unfold allocFrame at missing
  split at missing
  · cases missing
  · rename_i scanned
    cases missing
    apply And.intro _ rfl
    apply Finset.eq_empty_of_forall_notMem
    intro frame member
    rcases mem_available.mp member with ⟨below, above, parity, free⟩
    exact allocScan_none scanned (by decide) above parity below free

theorem allocFrame_least {mm after : Mm} {result : Option Nat}
    (allocated : mm.allocFrame = (after, result)) : Least mm.available result := by
  cases result with
  | none => exact (allocFrame_none allocated).1
  | some frame =>
      apply And.intro (allocFrame_some allocated).1
      intro other member
      rcases mem_available.mp member with ⟨-, above, parity, free⟩
      unfold allocFrame at allocated
      split at allocated
      · rename_i scanned
        cases allocated
        exact allocScan_least scanned above parity free
      · cases allocated

theorem available_allocated (mm : Mm) (frame : Nat) :
    available { mm with physMem := Function.update mm.physMem frame .usedFrame } =
      mm.available.erase frame := by
  ext other
  by_cases same : other = frame
  · subst same
    simp [mem_available]
  · simp [mem_available, same]

theorem available_freed (mm : Mm) {frame : Nat} (above : numPagKernel < frame)
    (below : frame < totalPages) (even : frame % 2 = 0) :
    (mm.freeFrame frame).available = insert frame mm.available := by
  rw [freeFrame, if_pos ⟨above, below⟩]
  ext other
  by_cases same : other = frame
  · subst same
    simp [mem_available, even, below, Nat.le_of_lt above]
  · simp [mem_available, same]

theorem allocFrames_isSome (count : Nat) (mm : Mm) (allocated : List Nat) :
    (allocFrames count mm allocated).2.isSome = true ↔ count ≤ mm.available.card := by
  induction count generalizing mm allocated with
  | zero => simp [allocFrames]
  | succ count induction =>
      unfold allocFrames
      cases allocation : mm.allocFrame with
      | mk after result =>
          cases result with
          | none =>
              rcases allocFrame_none allocation with ⟨empty, -⟩
              simp [empty]
          | some frame =>
              rcases allocFrame_some allocation with ⟨member, same⟩
              have rest := induction after (allocated ++ [frame])
              rw [same, available_allocated, Finset.card_erase_of_mem member] at rest
              have positive : 0 < mm.available.card := Finset.card_pos.mpr ⟨frame, member⟩
              subst same
              exact rest.trans (by omega)

end Mm

end Zeos
