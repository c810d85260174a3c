import Zeos.Frames

/-! # The bitmap of frames as a pool

The calls of `alloc_frame` and `free_frame` from `init_frames` on, together with the
frames that are handed out at the moment.
-/

namespace Zeos

open Foundation

/-- The frames that `alloc_frame` looks at. -/
def poolFrames : Finset Nat :=
  (Finset.range totalPages).filter fun frame => numPagKernel ≤ frame ∧ frame % 2 = 0

structure FrameUse where
  mm : Mm
  handedOut : Finset Nat

/-- Only frames that are handed out are given back. -/
def framePool : TransitionSystem FrameUse (PoolCall Nat) where
  init use := use.mm.physMem = initialMark ∧ use.handedOut = ∅
  step use call next :=
    match call with
    | .alloc result =>
        use.mm.allocFrame = (next.mm, result) ∧ next.handedOut = withResult use.handedOut result
    | .free frame =>
        frame ∈ use.handedOut ∧ next.mm = use.mm.freeFrame frame ∧
          next.handedOut = use.handedOut.erase frame

/-- What a call is to do: an allocation hands out the lowest frame that is not handed
out and changes no other entry, and what is given back can be handed out again. -/
def AsPool (transition : Transition FrameUse (PoolCall Nat)) : Prop :=
  match transition.label with
  | .alloc result =>
      Least (poolFrames \ transition.before.handedOut) result ∧
        ∀ other, result ≠ some other →
          transition.after.mm.physMem other = transition.before.mm.physMem other
  | .free frame => Obtains framePool transition.after frame

theorem mem_poolFrames {frame : Nat} :
    frame ∈ poolFrames ↔ frame < totalPages ∧ numPagKernel ≤ frame ∧ frame % 2 = 0 := by
  simp [poolFrames]

theorem allocFrame_others {mm after : Mm} {result : Option Nat}
    (allocated : mm.allocFrame = (after, result)) {other : Nat} (spared : result ≠ some other) :
    after.physMem other = mm.physMem other := by
  cases result with
  | none => rw [(Mm.allocFrame_none allocated).2]
  | some frame =>
      have different : other ≠ frame := fun same => spared (congrArg some same.symm)
      rw [(Mm.allocFrame_some allocated).2]
      exact Function.update_of_ne different _ _

/-! ## Invariants -/

namespace FrameUse

structure Sound (use : FrameUse) : Prop where
  members : use.handedOut ⊆ poolFrames
  available : use.mm.available ⊆ poolFrames \ use.handedOut

structure Exact (use : FrameUse) : Prop where
  members : use.handedOut ⊆ poolFrames
  available : use.mm.available = poolFrames \ use.handedOut

theorem Exact.sound {use : FrameUse} (exactly : use.Exact) : use.Sound :=
  ⟨exactly.members, exactly.available.subset⟩

theorem exact_of_init {use : FrameUse} (initial : framePool.init use) : use.Exact := by
  rcases initial with ⟨marks, none⟩
  constructor
  · rw [none]
    exact Finset.empty_subset poolFrames
  · ext frame
    have kernel := memoryMap
    rw [none, Finset.sdiff_empty, Mm.mem_available, mem_poolFrames, marks, initialMark]
    by_cases reserved : frame < numPagKernel
    · simp [reserved]
    · simp [reserved]

variable {use next : FrameUse} {result : Option Nat} {frame : Nat}

theorem alloc_available (step : framePool.step use (.alloc result) next) :
    next.mm.available = use.mm.available \ (withResult ∅ result) ∧
      next.handedOut = use.handedOut ∪ withResult ∅ result := by
  rcases step with ⟨allocated, handed⟩
  rw [handed]
  cases result with
  | none =>
      rw [(Mm.allocFrame_none allocated).2]
      simp [withResult]
  | some frame =>
      rw [(Mm.allocFrame_some allocated).2, Mm.available_allocated]
      apply And.intro (Finset.sdiff_singleton_eq_erase frame _).symm
      rw [withResult, Finset.insert_eq, Finset.union_comm]
      rfl

theorem alloc_subset (step : framePool.step use (.alloc result) next) :
    withResult ∅ result ⊆ use.mm.available := by
  cases result with
  | none => exact Finset.empty_subset _
  | some frame =>
      rw [withResult, insert_empty_eq, Finset.singleton_subset_iff]
      exact (Mm.allocFrame_some step.1).1

theorem Sound.alloc (sound : use.Sound) (step : framePool.step use (.alloc result) next) :
    next.Sound := by
  rcases alloc_available step with ⟨available, handed⟩
  have members := (alloc_subset step).trans (sound.available.trans Finset.sdiff_subset)
  constructor
  · rw [handed]
    exact Finset.union_subset sound.members members
  · rw [available, handed]
    apply (Finset.sdiff_subset_sdiff sound.available (Finset.Subset.refl _)).trans
    exact le_of_eq sdiff_sdiff_left

theorem Exact.alloc (exactly : use.Exact) (step : framePool.step use (.alloc result) next) :
    next.Exact := by
  rcases alloc_available step with ⟨available, handed⟩
  apply Exact.mk (exactly.sound.alloc step).members
  rw [available, handed, exactly.available]
  exact sdiff_sdiff_left

theorem free_available (members : use.handedOut ⊆ poolFrames)
    (step : framePool.step use (.free frame) next) (notFirst : frame ≠ numPagKernel) :
    next.mm.available = insert frame use.mm.available := by
  rcases step with ⟨handed, freed, -⟩
  rcases mem_poolFrames.mp (members handed) with ⟨below, above, even⟩
  rw [freed]
  exact Mm.available_freed use.mm (by omega) below even

theorem free_first (step : framePool.step use (.free numPagKernel) next) : next.mm = use.mm := by
  rw [step.2.1, Mm.freeFrame, if_neg fun inside => Nat.lt_irrefl _ inside.1]

theorem Sound.free (sound : use.Sound) (step : framePool.step use (.free frame) next) :
    next.Sound := by
  have members : next.handedOut ⊆ poolFrames := by
    rw [step.2.2]
    exact (Finset.erase_subset frame _).trans sound.members
  apply Sound.mk members
  rw [step.2.2, Finset.sdiff_erase (sound.members step.1)]
  by_cases first : frame = numPagKernel
  · subst first
    rw [free_first step]
    exact sound.available.trans (Finset.subset_insert _ _)
  · rw [free_available sound.members step first]
    exact Finset.insert_subset_insert frame sound.available

theorem Exact.free (exactly : use.Exact) (step : framePool.step use (.free frame) next)
    (notFirst : frame ≠ numPagKernel) : next.Exact := by
  apply Exact.mk (exactly.sound.free step).members
  rw [free_available exactly.members step notFirst, step.2.2,
    Finset.sdiff_erase (exactly.members step.1), exactly.available]

/-! ## Obtaining frames -/

theorem Exact.answers (exactly : use.Exact) (least : Least (poolFrames \ use.handedOut) result) :
    ∃ next, framePool.step use (.alloc result) next ∧ next.Exact ∧
      next.handedOut = withResult use.handedOut result := by
  have same : use.mm.allocFrame.2 = result := by
    rw [← exactly.available] at least
    exact (Mm.allocFrame_least rfl).unique least
  let next : FrameUse := ⟨use.mm.allocFrame.1, withResult use.handedOut result⟩
  have step : framePool.step use (.alloc result) next := ⟨by rw [← same], rfl⟩
  exact ⟨next, step, exactly.alloc step, rfl⟩

theorem Exact.obtains (exactly : use.Exact) (member : frame ∈ poolFrames)
    (back : frame ∉ use.handedOut) : Obtains framePool use frame :=
  Obtains.implemented (fun _ _ holds least => holds.answers least) exactly
    (obtains_of_candidate (Finset.mem_sdiff.mpr ⟨member, back⟩))

theorem not_obtains (missing : frame ∉ use.mm.available) : ¬Obtains framePool use frame := by
  rintro ⟨history, last, results, run, labels⟩
  have attempts : ∀ transition ∈ history, ∃ result, transition.label = .alloc result := by
    intro transition member
    have label := List.mem_map_of_mem (f := Transition.label) member
    rw [labels] at label
    rcases List.mem_append.mp label with earlier | final
    · rcases List.mem_map.mp earlier with ⟨result, -, same⟩
      exact ⟨result, same.symm⟩
    · exact ⟨some frame, List.mem_singleton.mp final⟩
  have never : ∀ transition ∈ history, frame ∉ transition.before.mm.available ∧
      frame ∉ transition.after.mm.available := by
    apply @TransitionSystem.Run.along _ _ _ _ _ _ (fun use => frame ∉ use.mm.available) run missing
    intro transition member step missing
    rcases attempts transition member with ⟨result, label⟩
    rw [label] at step
    rw [(alloc_available step).1]
    exact fun found => missing (Finset.mem_sdiff.mp found).1
  have final : PoolCall.alloc (some frame) ∈ history.map Transition.label := by
    rw [labels]
    exact List.mem_append_right _ (List.mem_singleton_self _)
  rcases List.mem_map.mp final with ⟨transition, member, label⟩
  have step := run.step_of_mem member
  rw [label] at step
  exact (never transition member).1 (Mm.allocFrame_some step.1).1

end FrameUse

/-! ## The pool -/

section Pool

variable {history : List (Transition FrameUse (PoolCall Nat))} {first last : FrameUse}

theorem framePool_sound (booted : framePool.init first) (run : framePool.Run first history last) :
    ∀ transition ∈ history, transition.before.Sound := by
  intro transition member
  apply And.left
  apply run.along (FrameUse.exact_of_init booted).sound _ transition member
  rintro ⟨before, call, after⟩ _ step sound
  cases call with
  | alloc result => exact sound.alloc step
  | free frame => exact sound.free step

/-- The bitmap is an exact pool in the runs that never give back the first frame of
the pool, and in no others. -/
theorem framePoolExact (booted : framePool.init first)
    (run : framePool.Run first history last) :
    (∀ transition ∈ history, AsPool transition) ↔
      ∀ transition ∈ history, transition.label ≠ .free numPagKernel := by
  constructor
  · rintro asPool ⟨before, call, after⟩ member label
    have step := run.step_of_mem member
    have told := asPool _ member
    simp only at label
    subst label
    have sound := framePool_sound booted run _ member
    apply FrameUse.not_obtains _ told
    rw [FrameUse.free_first step]
    intro available
    exact (Finset.mem_sdiff.mp (sound.available available)).2 step.1
  · intro kept transition member
    have exactly := run.along (FrameUse.exact_of_init booted)
      (fun transition member step exactly => by
        rcases transition with ⟨before, call, after⟩
        cases call with
        | alloc result => exact exactly.alloc step
        | free frame =>
            apply exactly.free step
            intro same
            exact kept _ member (same ▸ rfl)) transition member
    have step := run.step_of_mem member
    have spared := kept transition member
    rcases transition with ⟨before, call, after⟩
    cases call with
    | alloc result =>
        apply And.intro
        · rw [← exactly.1.available]
          exact Mm.allocFrame_least step.1
        · intro other different
          exact allocFrame_others step.1 different
    | free frame =>
        apply exactly.2.obtains (exactly.1.members step.1)
        rw [step.2.2]
        exact Finset.notMem_erase frame _

end Pool

def FrameUse.initial : FrameUse := ⟨Machine.sample.initialMm, ∅⟩

def FrameUse.allocated (use : FrameUse) : FrameUse :=
  ⟨use.mm.allocFrame.1, withResult use.handedOut use.mm.allocFrame.2⟩

theorem FrameUse.allocated_step (use : FrameUse) :
    framePool.step use (.alloc use.mm.allocFrame.2) use.allocated :=
  ⟨rfl, rfl⟩

theorem framePoolExact_twoFrames :
    ∃ history last, framePool.Run FrameUse.initial history last ∧ history.length = 2 ∧
      ∀ transition ∈ history, AsPool transition := by
  have run := TransitionSystem.Run.snoc (.single FrameUse.initial.allocated_step)
    FrameUse.initial.allocated.allocated_step
  refine ⟨_, _, run, rfl, ?_⟩
  exact (framePoolExact ⟨rfl, rfl⟩ run).mpr (by simp)

/-- Frame 256 is handed out, given back, and then passed over. -/
theorem framePool_passesOver :
    ∃ history last, framePool.Run FrameUse.initial history last ∧
      ∃ transition ∈ history, transition.label = .alloc (some 258) ∧
        256 ∈ poolFrames \ transition.before.handedOut ∧ ¬AsPool transition := by
  let taken := FrameUse.initial.allocated
  let back : FrameUse := ⟨taken.mm, ∅⟩
  have freed : framePool.step taken (.free 256) back :=
    ⟨by decide +kernel, (if_neg (by decide)).symm, by decide +kernel⟩
  have result : back.mm.allocFrame.2 = some 258 := by decide +kernel
  have run := TransitionSystem.Run.snoc
    (.snoc (.single FrameUse.initial.allocated_step) freed) back.allocated_step
  have passed : (256 : Nat) ∈ poolFrames \ back.handedOut := by decide +kernel
  refine ⟨_, _, run, ⟨back, .alloc back.mm.allocFrame.2, back.allocated⟩, ?_, ?_, passed, ?_⟩
  · exact List.mem_append_right _ (List.mem_singleton_self _)
  · exact congrArg PoolCall.alloc result
  · rintro ⟨least, -⟩
    rw [result] at least
    exact absurd (least.2 256 passed) (by decide)

end Zeos
