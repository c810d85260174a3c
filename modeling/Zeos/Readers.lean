import Zeos.Keyboard
import Zeos.RoundRobin

/-! # Readers

What the keyboard protocol keeps and what it does not: the order of the waiting
readers, room in the ring, the counts that readers are woken by, and the
characters that a read delivers.
-/

namespace Zeos

open Foundation Kernel

/-- Whose turn it is: only a task that was switched to resumes, and whoever has
the processor does not wait. -/
structure Turn (view : Input) (event : Event) (resumed : Option TaskId) : Prop where
  nodup : view.waiting.Nodup
  absent : view.caller ∉ view.waiting
  resumes : event = .resume → resumed = some view.caller
  otherwise : event ≠ .resume → resumed = none

theorem Turn.of_resumed {view : Input} {event : Event} {resumed : Option TaskId} {t : TaskId}
    (turn : Turn view event resumed) (isResumed : resumed = some t) :
    event = .resume ∧ view.caller = t := by
  have isResume : event = .resume := by
    by_contra notResume
    rw [turn.otherwise notResume] at isResumed
    cases isResumed
  exact ⟨isResume, Option.some.inj ((turn.resumes isResume).symm.trans isResumed)⟩

/-- The ring is in order, whoever waits is suspended in a read, and only the first
can be inside the loop. Nobody waits there while another goes on with its loop. -/
structure InputOrder (view : Input) (resumed : Option TaskId) : Prop where
  ring : view.ring.WellFormed
  fits : ∀ t ∈ view.waiting, Fits .keyboardqueue (view.top t)
  behind : ∀ t ∈ view.waiting.tail, view.top t = some .sysReadQueued
  loop : ∀ t buffer count i, resumed = some t → view.top t = some (.sysReadLoop buffer count i) →
    i < count ∧ ∀ other ∈ view.waiting, view.top other = some .sysReadQueued

section Order

variable {view after : Input} {event : Event} {resumed switched : Option TaskId}

theorem fits_of_queued {top : Option Frame} (queued : top = some .sysReadQueued) :
    Fits .keyboardqueue top := .inl queued

theorem Input.Accepts.room {llegit : UInt8} (accepts : view.Accepts llegit) :
    view.ring.counter ≠ circbuffSize :=
  fun full => accepts.1 (Circbuff.full_iff.mpr full)

theorem Unread.not_loop {t : TaskId} {buffer : Nat} {count i : Int}
    (unread : Unread after switched) (isSwitched : switched = some t) :
    after.top t ≠ some (.sysReadLoop buffer count i) :=
  fun loop => unread t isSwitched (.inr ⟨buffer, count, i, loop⟩)

theorem InputOrder.congr (order : InputOrder view resumed) (ring : after.ring.WellFormed)
    (waiting : after.waiting = view.waiting) (undisturbed : Undisturbed view after)
    (loop : ∀ t buffer count i, switched = some t →
      after.top t ≠ some (.sysReadLoop buffer count i)) : InputOrder after switched where
  ring := ring
  fits t member := by
    rw [waiting] at member
    rw [undisturbed t member]
    exact order.fits t member
  behind t member := by
    rw [waiting] at member
    rw [undisturbed t (List.mem_of_mem_tail member)]
    exact order.behind t member
  loop t buffer count i isSwitched top := absurd top (loop t buffer count i isSwitched)

theorem LoopStep.order {buffer : Nat} {count i : Int} (ring : view.ring.WellFormed)
    (queued : ∀ t ∈ view.waiting, view.top t = some .sysReadQueued)
    (loop : LoopStep view buffer count i after switched) : InputOrder after switched := by
  cases loop with
  | finished taken stored oldest enough complete popped waiting wanted undisturbed caller =>
      have before : InputOrder view none :=
        { ring := ring
          fits := fun t member => fits_of_queued (queued t member)
          behind := fun t member => queued t (List.mem_of_mem_tail member)
          loop := fun t _ _ _ none => by cases none }
      apply before.congr
      · rw [popped]
        exact ring.pops (enough.trans Circbuff.visible_le)
      · exact waiting
      · exact undisturbed
      · intro t _ _ _ none
        cases none
  | waits _ taken stored oldest enough more drained popped waiting wanted undisturbed top unread =>
      refine ⟨?_, ?_, ?_, ?_⟩
      · rw [popped]
        exact ring.pops (enough.trans Circbuff.visible_le)
      · intro t member
        rw [waiting, List.mem_cons] at member
        rcases member with isCaller | old
        · rw [isCaller]
          exact .inr ⟨_, _, _, top, more⟩
        · rw [undisturbed t old]
          exact fits_of_queued (queued t old)
      · intro t member
        rw [waiting, List.tail_cons] at member
        rw [undisturbed t member]
        exact queued t member
      · exact fun t _ _ _ isSwitched loop => absurd loop (unread.not_loop isSwitched)

theorem InputOrder.step (order : InputOrder view resumed) (turn : Turn view event resumed)
    (step : InputStep view event after switched) : InputOrder after switched := by
  cases step with
  | quiet _ _ _ ring waiting wanted undisturbed unread notLoop notRead notKey returns =>
      apply order.congr
      · rw [ring]
        exact order.ring
      · exact waiting
      · exact undisturbed
      · exact fun t _ _ _ isSwitched => unread.not_loop isSwitched
  | pushes llegit _ accepts reader rest first incomplete ring waiting wanted undisturbed =>
      apply order.congr
      · rw [ring]
        exact (order.ring.push accepts.room _).1
      · exact waiting
      · exact undisturbed
      · intro t _ _ _ none
        cases none
  | wakes llegit _ accepts reader rest first complete ring waiting wanted undisturbed =>
      have queued : ∀ t ∈ rest, after.top t = some .sysReadQueued := by
        intro t member
        rw [undisturbed t (by simp [first, member])]
        apply order.behind
        rwa [first]
      refine ⟨?_, ?_, ?_, ?_⟩
      · rw [ring]
        exact (order.ring.push accepts.room _).1
      · rw [waiting]
        exact fun t member => fits_of_queued (queued t member)
      · rw [waiting]
        exact fun t member => queued t (List.mem_of_mem_tail member)
      · intro t buffer count i isReader top
        cases isReader
        rw [waiting]
        refine ⟨?_, queued⟩
        have member : reader ∈ view.waiting := by simp [first]
        rw [undisturbed reader member] at top
        rcases order.fits reader member with isQueued | ⟨buffer', count', i', isLoop, more⟩
        · rw [isQueued] at top
          cases top
        · rw [isLoop] at top
          cases top
          exact more
  | calls fd buffer count i _ _ accepted alone loop =>
      have queued : ∀ t ∈ (view.requesting count).waiting,
          (view.requesting count).top t = some .sysReadQueued := by
        intro t member
        have impossible : t ∈ view.waiting := member
        simp [alone] at impossible
      apply loop.order _ queued
      exact order.ring
  | queues fd buffer count i _ _ accepted behind ring waiting wanted undisturbed top unread =>
      refine ⟨?_, ?_, ?_, ?_⟩
      · rw [ring]
        exact order.ring
      · intro t member
        rw [waiting, List.mem_append, List.mem_singleton] at member
        rcases member with old | isCaller
        · rw [undisturbed t old]
          exact order.fits t old
        · rw [isCaller]
          exact fits_of_queued top
      · intro t member
        rw [waiting, List.tail_append_of_ne_nil behind, List.mem_append,
          List.mem_singleton] at member
        rcases member with old | isCaller
        · rw [undisturbed t (List.mem_of_mem_tail old)]
          exact order.behind t old
        · rw [isCaller]
          exact top
      · exact fun t _ _ _ isSwitched loop => absurd loop (unread.not_loop isSwitched)
  | reads buffer count i _ _ top loop =>
      exact loop.order order.ring (order.loop _ _ _ _ (turn.resumes rfl) top).2

end Order

section Steps

variable {machine : Machine} {before after : SequenceKernel} {event : Event}

theorem Disciplined.turn (disciplined : Disciplined before) (enabled : event.Enabled before.core) :
    Turn before.input event before.resumed where
  nodup := disciplined.placed.nodup .keyboardqueue
  absent member := disciplined.currentUnlinked ⟨_, member⟩
  resumes isResume := by
    have mode := enabled.2
    rw [if_pos isResume] at mode
    rw [resumed, if_pos mode]
    rfl
  otherwise notResume := by
    have mode := enabled.2
    rw [if_neg notResume] at mode
    rw [resumed, if_neg (by simp [mode.1])]

structure Attentive (kernel : SequenceKernel) : Prop where
  disciplined : Disciplined kernel
  suspended : Suspended kernel
  order : InputOrder kernel.input kernel.resumed

theorem Attentive.step (attentive : Attentive before)
    (step : (checkedZeos machine).step before event after) : Attentive after where
  disciplined := execute_disciplined attentive.disciplined step.1 step.2
  suspended := step_suspended attentive.disciplined attentive.suspended step
  order := attentive.order.step (attentive.disciplined.turn step.1)
    (step_input attentive.disciplined attentive.suspended step)

theorem boot_attentive (machine : Machine) :
    Attentive ⟨machine.bootCore 0 1, bootSequences⟩ := by
  refine ⟨boot_disciplined machine, boot_suspended machine, ?_⟩
  have mode : (machine.bootCore 0 1).inKernel = false := (bootCore_frame machine).2.2.1
  refine ⟨?_, ?_, ?_, ?_⟩
  · rw [Kernel.input_ring, bootCore_input]
    exact ⟨by decide, by decide, by decide⟩
  · intro t member
    cases member
  · intro t member
    cases member
  · intro t buffer count i isResumed
    rw [resumed, if_neg (by simp [mode])] at isResumed
    cases isResumed

end Steps

/-! ## Room for the next character -/

/-- The key press fills the ring. Whoever it wakes takes nothing from it. -/
def Input.Jams (view : Input) (event : Event) : Prop :=
  ∃ llegit, event = .keyboard llegit ∧ view.Accepts llegit ∧
    (view.ring.push (charOf llegit)).full = true

section Room

variable {view after : Input} {event : Event} {resumed switched : Option TaskId}

theorem visible_of_full {ring : Circbuff} (full : ring.full = true) : ring.visible = 0 := by
  have counter := Circbuff.full_iff.mp full
  have size : circbuffSize = 666 := rfl
  apply Circbuff.visible_of_le
  omega

theorem LoopStep.full {buffer : Nat} {count i : Int} (full : view.ring.full = true)
    (loop : LoopStep view buffer count i after switched) : after.ring.full = true := by
  have unseen := visible_of_full full
  have untouched : ∀ {taken : List UInt8}, taken.length ≤ view.ring.visible →
      after.ring = view.ring.pops taken.length → after.ring.full = true := by
    intro taken enough popped
    have nothing : taken.length = 0 := by omega
    rw [popped, nothing]
    exact full
  cases loop with
  | finished taken stored oldest enough complete popped => exact untouched enough popped
  | waits _ taken stored oldest enough more drained popped => exact untouched enough popped

theorem InputStep.full (full : view.ring.full = true)
    (step : InputStep view event after switched) : after.ring.full = true := by
  cases step with
  | quiet _ _ _ ring => rwa [ring]
  | pushes llegit _ accepts => exact absurd full accepts.1
  | wakes llegit _ accepts => exact absurd full accepts.1
  | calls fd buffer count i _ _ accepted alone loop =>
      have requesting : (view.requesting count).ring.full = true := full
      exact loop.full requesting
  | queues fd buffer count i _ _ accepted behind ring => rwa [ring]
  | reads buffer count i _ _ top loop => exact loop.full full

theorem LoopStep.not_full {buffer : Nat} {count i : Int} (ring : view.ring.WellFormed)
    (room : ¬view.ring.full = true)
    (loop : LoopStep view buffer count i after switched) : ¬after.ring.full = true := by
  rw [Circbuff.full_iff] at room ⊢
  have bound := ring.counter_le
  have below : ∀ {taken : List UInt8}, taken.length ≤ view.ring.visible →
      after.ring = view.ring.pops taken.length → after.ring.counter ≠ circbuffSize := by
    intro taken enough popped
    rw [popped, Circbuff.pops_counter (enough.trans Circbuff.visible_le)]
    omega
  cases loop with
  | finished taken stored oldest enough complete popped => exact below enough popped
  | waits _ taken stored oldest enough more drained popped => exact below enough popped

theorem InputStep.not_full (ring : view.ring.WellFormed) (room : ¬view.ring.full = true)
    (step : InputStep view event after switched) (open' : ¬view.Jams event) :
    ¬after.ring.full = true := by
  cases step with
  | quiet _ _ _ same => rwa [same]
  | pushes llegit _ accepts reader rest first incomplete pushed =>
      rw [pushed]
      exact fun full => open' ⟨llegit, rfl, accepts, full⟩
  | wakes llegit _ accepts reader rest first complete pushed =>
      rw [pushed]
      exact fun full => open' ⟨llegit, rfl, accepts, full⟩
  | calls fd buffer count i _ _ accepted alone loop =>
      have formed : (view.requesting count).ring.WellFormed := ring
      exact loop.not_full formed room
  | queues fd buffer count i _ _ accepted behind same => rwa [same]
  | reads buffer count i _ _ top loop => exact loop.not_full ring room

theorem InputStep.jammed (jams : view.Jams event)
    (step : InputStep view event after switched) : after.ring.full = true := by
  rcases jams with ⟨llegit, isKey, accepts, full⟩
  cases step with
  | quiet _ _ _ ring waiting wanted undisturbed unread notLoop notRead notKey =>
      exact absurd accepts (notKey llegit isKey)
  | pushes llegit' _ _ reader rest first incomplete pushed =>
      cases isKey
      rwa [pushed]
  | wakes llegit' _ _ reader rest first complete pushed =>
      cases isKey
      rwa [pushed]
  | calls => cases isKey
  | queues => cases isKey
  | reads => cases isKey

end Room

/-- The runs in which no key press jams the ring are those in which there is room
in it whenever interrupts are enabled. -/
theorem keyboardOpen {machine : Machine} {history : List (Transition PointerKernel Event)}
    {last : PointerKernel} (reaches : (zeos machine).Reaches history last)
    (userMode : last.core.inKernel = false) :
    (∀ transition ∈ record history, ¬transition.before.input.Jams transition.label) ↔
      ∀ transition ∈ record history, transition.after.core.inKernel = false →
        transition.after.core.circbuff.full = false := by
  rcases (run_toSequences reaches).2 with ⟨first, start, run⟩
  rw [init_eq start] at run
  constructor
  · intro open' transition member _
    let Kept (kernel : SequenceKernel) : Prop :=
      Attentive kernel ∧ ¬kernel.core.circbuff.full = true
    have initially : Kept ⟨machine.bootCore 0 1, bootSequences⟩ :=
      ⟨boot_attentive machine, Bool.false_ne_true⟩
    have kept := run.along initially fun transition member step kept =>
      ⟨kept.1.step step, (step_input kept.1.disciplined kept.1.suspended step).not_full
        kept.1.order.ring kept.2 (open' transition member)⟩
    rcases kept transition member with ⟨-, -, room⟩
    exact Bool.eq_false_iff.mpr room
  · intro room transition member jams
    rcases List.append_of_mem member with ⟨earlier, later, parts⟩
    have whole := run
    rw [show history.map _ = _ from parts] at run
    rcases run.around with ⟨before, step, rest⟩
    have attentive := before.invariant (boot_attentive machine)
      fun _ _ step attentive => attentive.step step
    have jammed := (step_input attentive.disciplined attentive.suspended step).jammed jams
    let Kept (kernel : SequenceKernel) : Prop :=
      Attentive kernel ∧ kernel.core.circbuff.full = true
    have afterwards : Kept transition.after := ⟨attentive.step step, jammed⟩
    have stuck := rest.invariant afterwards fun _ _ step kept =>
      ⟨kept.1.step step, (step_input kept.1.disciplined kept.1.suspended step).full kept.2⟩
    -- the last step of the run ends in user mode, with the ring still full
    rcases List.eq_nil_or_concat (record history) with none | ⟨front, final, snoc⟩
    · simp [none] at member
    · rw [List.concat_eq_append] at snoc
      rw [show history.map _ = _ from snoc] at whole
      have isLast := whole.of_snoc.2.2
      have open' := room final (by simp [snoc]) (by rw [isLast]; exact userMode)
      rw [isLast] at open'
      exact absurd (open'.symm.trans stuck.2) Bool.false_ne_true

def readOne : List Event := wokenFromClone ++ [.resume]

theorem keyboardOpen_one :
    ∃ history last, (zeos Machine.sample).Reaches history last ∧
      last.core.inKernel = false ∧ history.length = 5 ∧
      ∀ transition ∈ record history, transition.after.core.inKernel = false →
        transition.after.core.circbuff.full = false := by
  have computed : (replay readOne ⟨Machine.sample.bootCore 0 1, bootLinks⟩).any (fun run =>
      decide (run.2.core.inKernel = false ∧ run.1.length = 5) &&
        (record run.1).all fun transition =>
          decide (transition.before.core.circbuff.counter ≤ 1)) = true := by
    decide +kernel
  rcases reaches_of_replay computed with ⟨history, last, reaches, found⟩
  rw [Bool.and_eq_true, decide_eq_true_eq, List.all_eq_true] at found
  rcases found with ⟨⟨userMode, length⟩, roomy⟩
  refine ⟨history, last, reaches, userMode, length, (keyboardOpen reaches userMode).mp ?_⟩
  rintro transition member ⟨llegit, isKey, accepts, full⟩
  have few : transition.before.input.ring.counter ≤ 1 := of_decide_eq_true (roomy transition member)
  have size : circbuffSize = 666 := rfl
  have counter := Circbuff.full_iff.mp full
  rw [Circbuff.push, if_neg (by rw [Circbuff.full_iff]; omega)] at counter
  change transition.before.input.ring.counter + 1 = circbuffSize at counter
  omega

/-- A read of 700 characters. The key that fills the ring wakes the reader, which
takes the ring for an empty one. -/
def readSevenHundred : List Event :=
  [.read 0 1081344 700 0, .resume] ++ List.replicate 666 (.keyboard 30) ++ [.resume, .resume]

set_option maxRecDepth 4096 in
theorem keyboardOpen_full :
    ∃ history last, (zeos Machine.sample).Reaches history last ∧
      last.core.inKernel = false ∧ last.core.circbuff.full = true := by
  have computed : (replay readSevenHundred ⟨Machine.sample.bootCore 0 1, bootLinks⟩).any (fun run =>
      decide (run.2.core.inKernel = false ∧ run.2.core.circbuff.full = true)) = true := by
    decide +kernel
  rcases reaches_of_replay computed with ⟨history, last, reaches, found⟩
  exact ⟨history, last, reaches, of_decide_eq_true found⟩

end Zeos
