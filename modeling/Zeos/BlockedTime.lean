import Zeos.CpuTime
import Zeos.Ownership
import Zeos.Suspension

/-! # Blocked time

The time that a task spends on a queue in which it is blocked against the counters of
its statistics.
-/

namespace Zeos

open Foundation Kernel

/-! ## Places -/

/-- The task is on `keyboardqueue` or on the queue of a semaphore. -/
def Waits (t : TaskId) (kernel : SequenceKernel) : Prop :=
  t ∈ kernel.queues.elements .keyboardqueue ∨ ∃ sem, t ∈ kernel.queues.elements (.blocked sem)

instance (t : TaskId) : DecidablePred (Waits t) := fun _ => inferInstanceAs (Decidable (_ ∨ _))

namespace Disciplined

variable {kernel : SequenceKernel} {t : TaskId}

theorem waits_iff (disciplined : Disciplined kernel) :
    Waits t kernel ↔ (kernel.core.task t).state = .blocked :=
  disciplined.placed.blocked_iff.symm

theorem not_waits_current (disciplined : Disciplined kernel) :
    ¬Waits kernel.core.current kernel := by
  rw [disciplined.waits_iff, disciplined.running]
  exact ProcessState.noConfusion

theorem away_of_waits (disciplined : Disciplined kernel) (waits : Waits t kernel) :
    kernel.core.current ≠ t := by
  intro here
  subst here
  exact disciplined.not_waits_current waits

theorem not_waits_ready (disciplined : Disciplined kernel) (ready : t ∈ kernel.ready) :
    ¬Waits t kernel := by
  have state : (kernel.core.task t).state = .ready := disciplined.placed.ready_iff.mpr ready
  rw [disciplined.waits_iff, state]
  exact ProcessState.noConfusion

theorem not_ready_current (disciplined : Disciplined kernel) :
    kernel.core.current ∉ kernel.ready :=
  fun ready => disciplined.currentUnlinked ⟨_, ready⟩

theorem whereabouts (disciplined : Disciplined kernel) (live : kernel.Live t) :
    t = kernel.core.idleTask ∨ t = kernel.core.current ∨ t ∈ kernel.ready ∨ Waits t kernel := by
  rcases live with idle | current | active
  · exact .inl idle
  · exact .inr (.inl current)
  · refine .inr (.inr ?_)
    cases state : (kernel.core.task t).state with
    | run => exact absurd state active
    | ready => exact .inl (disciplined.placed.ready_iff.mp state)
    | blocked => exact .inr (disciplined.waits_iff.mpr state)

end Disciplined

section Steps

variable {machine : Machine} {before after : SequenceKernel} {event : Event} {t : TaskId}

theorem step_idleTask (disciplined : Disciplined before)
    (step : (checkedZeos machine).step before event after) :
    after.core.idleTask = before.core.idleTask := by
  rcases step_scheduled disciplined step with ⟨core, entry, scheduled⟩
  rw [← entry.idleTask]
  cases scheduled <;> assumption

theorem SwitchedFrom.place {core : Core} {queue : List TaskId}
    (switched : SwitchedFrom core queue after) (member : t ∈ queue) :
    t ∈ after.ready ∨ after.core.current = t := by
  cases switched with
  | toNext next rest contents current ready leftTicks stack =>
      rw [contents] at member
      rcases List.mem_cons.mp member with first | later
      · exact .inr (current.trans first.symm)
      · rw [ready]
        exact .inl later
  | toIdle empty current ready leftTicks stack =>
      rw [empty] at member
      cases member

theorem step_ready (disciplined : Disciplined before)
    (step : (checkedZeos machine).step before event after) (ready : t ∈ before.ready) :
    t ∈ after.ready ∨ after.core.current = t := by
  rcases step_scheduled disciplined step with ⟨core, entry, scheduled⟩
  have ready : t ∈ Kernel.ready ⟨core, before.queues⟩ := ready
  cases scheduled with
  | stays _ _ joined idleTask mode current leftTicks kept notIdle tick keys =>
      rw [kept]
      exact .inl (List.mem_append_left _ ready)
  | switches _ _ joined idleTask mode switched notIdle tick notKey =>
      exact switched.place (List.mem_append_left _ ready)
  | wakes llegit reader _ idleTask mode switched woken keyboardqueue =>
      exact switched.place (List.mem_append_left _ (List.mem_cons_of_mem _ ready))

theorem step_waits (disciplined : Disciplined before)
    (step : (checkedZeos machine).step before event after) (live : before.Live t)
    (away : before.core.current ≠ t) (waits : Waits t after) : Waits t before := by
  have later := execute_disciplined disciplined step.1 step.2
  rcases disciplined.whereabouts live with idle | current | ready | waits
  · have awake := later.idleAwake
    rw [step_idleTask disciplined step, ← idle] at awake
    exact absurd (later.waits_iff.mp waits) awake
  · exact absurd current.symm away
  · rcases step_ready disciplined step ready with ready | current
    · exact absurd waits (later.not_waits_ready ready)
    · subst current
      exact absurd waits later.not_waits_current
  · exact waits

theorem step_idle_ready (disciplined : Disciplined before)
    (step : (checkedZeos machine).step before event after)
    (away : before.core.current ≠ before.core.idleTask)
    (absent : before.core.idleTask ∉ before.ready) : before.core.idleTask ∉ after.ready := by
  rcases step_scheduled disciplined step with ⟨core, entry, scheduled⟩
  rw [← entry.current, ← entry.idleTask] at away
  rw [← entry.idleTask] at absent ⊢
  have absent : core.idleTask ∉ Kernel.ready ⟨core, before.queues⟩ := absent
  have outside : ∀ {queue : List TaskId}, core.idleTask ∉ queue →
      SwitchedFrom core queue after → core.idleTask ∉ after.ready := by
    intro queue absent switched
    cases switched with
    | toNext next rest contents current ready leftTicks stack =>
        rw [contents, List.mem_cons, not_or] at absent
        rw [ready]
        exact absent.2
    | toIdle empty current ready leftTicks stack =>
        rw [ready]
        exact List.not_mem_nil
  cases scheduled with
  | stays _ _ joined idleTask mode current leftTicks kept notIdle tick keys =>
      rw [kept, List.mem_append, not_or]
      exact ⟨absent, notIdle⟩
  | switches _ _ joined idleTask mode switched notIdle tick notKey =>
      refine outside ?_ switched
      rw [List.mem_append, not_or]
      exact ⟨absent, notIdle⟩
  | wakes llegit reader _ idleTask mode switched woken keyboardqueue =>
      refine outside ?_ switched
      have notReader : core.idleTask ≠ reader := by
        intro same
        have member : reader ∈ before.queues.elements .keyboardqueue :=
          List.mem_of_head? woken.first
        rw [← same, entry.idleTask] at member
        cases disciplined.idle_linked member
      simp only [List.cons_append, List.mem_cons, List.mem_append, List.not_mem_nil, or_false,
        not_or]
      exact ⟨notReader, absent, Ne.symm away⟩

/-- When the idle task loses the processor, it is either in the tail of `sched_next_rr`, and
another task has the processor, or it has been left with the processor. -/
theorem step_idle_leaves (disciplined : Disciplined before)
    (step : (checkedZeos machine).step before event after)
    (idle : before.core.current = before.core.idleTask) (switched : after.core.inKernel = true) :
    Queued (after.core.task before.core.current).kernelEsp = true ↔
      after.core.current ≠ before.core.current := by
  rcases step_scheduled disciplined step with ⟨core, entry, scheduled⟩
  have absent := disciplined.not_ready_current
  rw [idle] at absent
  rw [← entry.current, ← entry.idleTask] at idle
  rw [← entry.current]
  rw [← entry.idleTask] at absent
  have absent : core.idleTask ∉ Kernel.ready ⟨core, before.queues⟩ := absent
  have leaves :
      ∀ {queue : List TaskId}, (∀ next rest, queue = next :: rest → next ≠ core.idleTask) →
      SwitchedFrom core queue after →
      (Queued (after.core.task core.current).kernelEsp = true ↔
        after.core.current ≠ core.current) := by
    intro queue notIdle switched
    cases switched with
    | toNext next rest contents current ready leftTicks stack =>
        rcases stack with ⟨frames, stack⟩
        rw [stack, current, idle]
        exact iff_of_true rfl (notIdle next rest contents)
    | toIdle empty current ready leftTicks stack =>
        rw [current, idle] at *
        refine iff_of_false (fun queued => ?_) (fun other => other rfl)
        cases frames : (after.core.task core.idleTask).kernelEsp with
        | nil =>
            rw [frames] at queued
            cases queued
        | cons frame rest =>
            rw [frames] at queued
            cases frame with
            | schedNextRr => exact stack rest frames
            | _ => cases queued
  cases scheduled with
  | stays _ _ joined idleTask mode current leftTicks kept notIdle tick keys =>
      exact absurd (mode.symm.trans switched) Bool.false_ne_true
  | switches _ _ joined idleTask mode switched notIdle tick notKey =>
      refine leaves (fun next rest contents same => ?_) switched
      have member : next ∈ Kernel.ready ⟨core, before.queues⟩ ++ joined := by
        rw [contents]
        exact List.mem_cons_self
      rw [same] at member
      rcases List.mem_append.mp member with ready | joins
      · exact absent ready
      · exact notIdle joins
  | wakes llegit reader _ idleTask mode switched woken keyboardqueue =>
      refine leaves (fun next rest contents same => ?_) switched
      rw [List.cons_append, List.cons.injEq] at contents
      have member : reader ∈ before.queues.elements .keyboardqueue := List.mem_of_head? woken.first
      rw [contents.1, same, entry.idleTask] at member
      cases disciplined.idle_linked member

end Steps

/-! ## Counters -/

namespace Books

variable (books : Books)

theorem post_blockedTicks (posting : Posting) (t : TaskId) :
    ((books.post posting).account t).blockedTicks = (books.account t).blockedTicks := by
  by_cases here : t = books.current
  · subst here
    cases posting <;> simp [post, modify, charged, Posting.credit]
  · rw [books.post_other posting here]

theorem posts_blockedTicks (postings : List Posting) (t : TaskId) :
    ((books.posts postings).account t).blockedTicks = (books.account t).blockedTicks := by
  induction postings generalizing books with
  | nil => rfl
  | cons posting postings induction =>
      exact (induction (books.post posting)).trans (books.post_blockedTicks posting t)

theorem post_readyTicks {posting : Posting} (other : posting ≠ .ready) (t : TaskId) :
    ((books.post posting).account t).readyTicks = (books.account t).readyTicks := by
  by_cases here : t = books.current
  · subst here
    cases posting with
    | ready => exact absurd rfl other
    | user | system | count => simp [post, modify, charged, Posting.credit]
  · rw [books.post_other posting here]

theorem posts_readyTicks {postings : List Posting} (none : .ready ∉ postings) (t : TaskId) :
    ((books.posts postings).account t).readyTicks = (books.account t).readyTicks := by
  induction postings generalizing books with
  | nil => rfl
  | cons posting postings induction =>
      rw [List.mem_cons, not_or] at none
      exact (induction (books.post posting) none.2).trans
        (books.post_readyTicks (Ne.symm none.1) t)

theorem post_mark (steady : Steady books.clock) :
    ((books.post .system).account books.current).elapsedTotalTicks =
      books.clock ((books.post .system).readings - 1) := by
  rcases @post_running books .system Posting.noConfusion with ⟨account, readings⟩
  rw [account, readings]
  exact getTicks_eq steady 1

theorem post_ready (steady : Steady books.clock) {start : Nat}
    (within : books.Within books.current start) :
    ((books.post .ready).account books.current).readyTicks +
        (books.account books.current).elapsedTotalTicks =
      (books.account books.current).readyTicks + books.clock books.readings := by
  have bounded := steady.bounded books.readings
  have now : books.getTicks 0 = books.clock books.readings := getTicks_eq steady 0
  have mark := within.mark.trans (steady.monotone (Nat.sub_le books.readings 1))
  have total := within.total
  rw [(@post_running books .ready Posting.noConfusion).1]
  simp only [Stats.total] at total
  simp only [charged, Posting.credit, now, Core.wrap, toUnsigned]
  omega

end Books

theorem ready_mem_opening {kernel : SequenceKernel} {event : Event}
    (ready : .ready ∈ kernel.opening event) :
    event = .resume ∧ Queued kernel.currentTask.kernelEsp = true := by
  cases event with
  | resume =>
      rw [opening] at ready
      by_cases queued : Queued kernel.currentTask.kernelEsp = true
      · exact ⟨rfl, queued⟩
      · rw [if_neg queued] at ready
        cases ready
  | clock =>
      rw [opening] at ready
      split at ready <;> simp at ready
  | _ => simp [opening] at ready

section Steps

variable {before after : SequenceKernel} {event : Event} {t : TaskId} {closing : List Posting}

theorem Posts.blockedTicks (posts : Posts before event closing after) (live : before.Live t) :
    (after.core.books.account t).blockedTicks = (before.core.books.account t).blockedTicks := by
  rw [posts.account t live, Books.posts_blockedTicks]
  rfl

theorem Posts.not_ready (posts : Posts before event closing after) :
    Posting.ready ∉ closing := by
  rcases posts.shape with none | system
  · simp [none]
  · simp [system]

theorem Posts.readyTicks (posts : Posts before event closing after) (live : before.Live t)
    (elsewhere : ¬Counted t ⟨before, event, after⟩) :
    (after.core.books.account t).readyTicks = (before.core.books.account t).readyTicks := by
  rw [posts.account t live]
  by_cases running : t = before.core.current
  · subst running
    rw [Books.posts_readyTicks]
    · rfl
    · rw [List.mem_append, not_or]
      refine ⟨fun ready => ?_, posts.not_ready⟩
      rcases ready_mem_opening ready with ⟨resumes, queued⟩
      exact elsewhere ⟨resumes, rfl, queued⟩
  · rw [Books.posts_other _ _ running]
    rfl

theorem Posts.readyTicks_counted (posts : Posts before event closing after) (live : before.Live t)
    (steady : Steady before.core.clock) {start : Nat} (within : before.core.books.Within t start)
    (counted : Counted t ⟨before, event, after⟩) :
    (after.core.books.account t).readyTicks +
        (before.core.books.account t).elapsedTotalTicks =
      (before.core.books.account t).readyTicks + before.core.clock before.core.readings := by
  rcases counted with ⟨resumes, here, queued⟩
  change event = .resume at resumes
  change before.core.current = t at here
  subst resumes here
  have opening : before.opening .resume = [.count, .ready] := if_pos queued
  let counting := before.core.books.enter.post .count
  have same : (counting.account before.core.current).elapsedTotalTicks =
      (before.core.books.account before.core.current).elapsedTotalTicks ∧
      (counting.account before.core.current).readyTicks =
      (before.core.books.account before.core.current).readyTicks := by
    have written : counting.account before.core.current = _ := if_pos rfl
    rw [written]
    exact ⟨rfl, rfl⟩
  have entered : before.core.books.enter.Within before.core.current start :=
    ⟨within.total, within.mark⟩
  have counted : counting.Within before.core.current start := (entered.post steady .count).1
  have charged := Books.post_ready counting steady counted
  rw [posts.account _ live, opening, Books.posts_append,
    Books.posts_readyTicks _ posts.not_ready, ← same.1, ← same.2]
  exact charged

/-- A task that leaves for the tail of `sched_next_rr` has been charged up to the last
reading of the clock. -/
theorem Posts.mark (posts : Posts before event closing after) (steady : Steady before.core.clock)
    (switched : after.core.inKernel = true)
    (queued : Queued (after.core.task before.core.current).kernelEsp = true) :
    (after.core.books.account before.core.current).elapsedTotalTicks =
      before.core.clock (after.core.readings - 1) := by
  let opened := before.core.books.enter.posts (before.opening event)
  have clock : opened.clock = before.core.clock := Books.posts_clock _ _
  have here : opened.current = before.core.current := Books.posts_current _ _
  have charged := Books.post_mark opened (clock ▸ steady)
  have live : before.Live before.core.current := .inr (.inl rfl)
  rw [posts.account _ live, posts.readings, posts.tail switched queued, Books.posts_append,
    ← here, ← clock]
  exact charged

end Steps

/-! ## Runs -/

structure Audited (clock : Nat → Nat) (kernel : SequenceKernel) : Prop where
  accountable : Accountable kernel
  suspended : Suspended kernel
  clock : kernel.core.clock = clock
  within : ∀ t, kernel.Live t → kernel.core.books.Within t 0

def Away (t : TaskId) (history : List Recorded) : Prop :=
  ∀ transition ∈ history, transition.before.core.current ≠ t

section Runs

variable {machine : Machine} {before after first last : SequenceKernel} {event : Event}
  {history : List Recorded} {t : TaskId} {clock : Nat → Nat}

theorem boot_audited (machine : Machine) :
    Audited machine.clock ⟨machine.bootCore 0 1, bootSequences⟩ where
  accountable := boot_accountable machine
  suspended := boot_suspended machine
  clock := rfl
  within t _ := by
    have zero : (machine.bootCore 0 1).books.account t = .zero := by
      fin_cases t <;> rfl
    constructor
    · exact (congrArg (fun stats => stats.total + 0 ≤ stats.elapsedTotalTicks) zero).mpr
        (le_refl _)
    · exact (congrArg (fun stats => stats.elapsedTotalTicks ≤ _) zero).mpr (Nat.zero_le _)

theorem Audited.steady (audited : Audited clock before) (steady : Steady clock) :
    Steady before.core.clock := by
  rw [audited.clock]
  exact steady

theorem Audited.step (audited : Audited clock before) (steady : Steady clock)
    (step : (checkedZeos machine).step before event after) : Audited clock after where
  accountable := step_accountable audited.accountable step
  suspended := step_suspended audited.accountable.disciplined audited.suspended step
  clock := by
    rcases step_posts audited.accountable step with ⟨closing, posts⟩
    exact posts.clock.trans audited.clock
  within t alive := by
    by_cases live : before.Live t
    · rcases step_posts audited.accountable step with ⟨closing, posts⟩
      exact (posts.within live (audited.steady steady) (audited.within t live)).1
    · have creates : Creates t ⟨before, event, after⟩ := ⟨live, alive⟩
      have made := step_creates audited.accountable step creates
      constructor
      · rw [made.1]
        exact le_refl _
      · rw [made.1]
        exact Nat.zero_le _

theorem run_audited (run : (checkedZeos machine).Run first history last)
    (steady : Steady clock) (audited : Audited clock first) : Audited clock last :=
  run.invariant audited fun _ _ step audited => audited.step steady step

theorem live_step (accountable : Accountable before)
    (step : (checkedZeos machine).step before event after) (live : before.Live t)
    (away : before.core.current ≠ t) : after.Live t :=
  ((step_processes accountable.disciplined step).keepsLive accountable.disciplined.sound live
    fun _ => Ne.symm away).1

/-- While a task does not run, it stays alive, and its account and its stack stay as
they are. -/
theorem away_keeps (run : (checkedZeos machine).Run first history last)
    (accountable : Accountable first) (live : first.Live t) (away : Away t history) :
    last.Live t ∧ last.core.books.account t = first.core.books.account t ∧
      (last.core.task t).kernelEsp = (first.core.task t).kernelEsp := by
  let Kept (kernel : SequenceKernel) : Prop := Accountable kernel ∧ kernel.Live t ∧
    kernel.core.books.account t = first.core.books.account t ∧
    (kernel.core.task t).kernelEsp = (first.core.task t).kernelEsp
  have initially : Kept first := ⟨accountable, live, rfl, rfl⟩
  have eventually : Kept last := run.invariant initially fun transition member step kept => by
    rcases kept with ⟨accountable, live, account, stack⟩
    have elsewhere := away transition member
    rcases step_posts accountable step with ⟨closing, posts⟩
    refine ⟨step_accountable accountable step, live_step accountable step live elsewhere, ?_, ?_⟩
    · rw [posts.account t live, Books.posts_other _ _ (Ne.symm elsewhere)]
      exact account
    · rw [posts.stack t live (Ne.symm elsewhere)]
      exact stack
  exact eventually.2

theorem away_alive (run : (checkedZeos machine).Run first history last)
    (accountable : Accountable first) (live : first.Live t) (away : Away t history) :
    ∀ transition ∈ history, transition.before.Live t := by
  let Kept (kernel : SequenceKernel) : Prop := Accountable kernel ∧ kernel.Live t
  have initially : Kept first := ⟨accountable, live⟩
  have along := run.along initially fun transition member step kept =>
    ⟨step_accountable kept.1 step, live_step kept.1 step kept.2 (away transition member)⟩
  exact fun transition member => (along transition member).1.2

theorem away_waits (run : (checkedZeos machine).Run first history last)
    (accountable : Accountable first) (live : first.Live t) (away : Away t history)
    (waits : Waits t last) :
    Waits t first ∧ ∀ transition ∈ history, Waits t transition.after := by
  induction run with
  | nil => exact ⟨waits, fun _ member => by cases member⟩
  | @snoc history middle event last run step induction =>
      have earlier : Away t history :=
        fun transition member => away transition (List.mem_append_left _ member)
      have here := away ⟨middle, event, last⟩ (by simp)
      have kept := away_keeps run accountable live earlier
      have disciplined := (run_accountable run accountable).disciplined
      have waited := step_waits disciplined step kept.1 here waits
      rcases induction earlier waited with ⟨start, along⟩
      refine ⟨start, fun transition member => ?_⟩
      rcases List.mem_append.mp member with old | new
      · exact along transition old
      · rw [List.mem_singleton.mp new]
        exact waits

theorem away_wakes (run : (checkedZeos machine).Run first history last)
    (waits : Waits t first) (gone : ¬Waits t last) :
    ∃ waiting wakes queued, history = waiting ++ wakes :: queued ∧
      Waits t wakes.before ∧ ¬Waits t wakes.after := by
  induction run with
  | nil => exact absurd waits gone
  | @snoc history middle event last run step induction =>
      by_cases waited : Waits t middle
      · exact ⟨history, ⟨middle, event, last⟩, [], rfl, waited, gone⟩
      · rcases induction waited with ⟨waiting, wakes, queued, split, both⟩
        refine ⟨waiting, wakes, queued ++ [⟨middle, event, last⟩], ?_, both⟩
        rw [split]
        simp

/-- The last step of a task that is in the tail of `sched_next_rr`. -/
structure Left (t : TaskId) (history : List Recorded) (kernel : SequenceKernel)
    (front : List Recorded) (leaves : Recorded) (away : List Recorded) : Prop where
  split : history = front ++ leaves :: away
  running : leaves.before.core.current = t
  switched : leaves.after.core.inKernel = true
  queued : Queued (leaves.after.core.task t).kernelEsp = true
  live : leaves.after.Live t
  away : Away t away
  account : kernel.core.books.account t = leaves.after.core.books.account t

theorem run_left (run : (checkedZeos machine).Run first history last)
    (accountable : Accountable first)
    (fresh : Queued (first.core.task t).kernelEsp = false) (live : last.Live t)
    (queued : Queued (last.core.task t).kernelEsp = true)
    (absent : last.core.current = t → last.core.inKernel = true) :
    ∃ front leaves away, Left t history last front leaves away := by
  induction run with
  | nil => exact Bool.noConfusion (fresh.symm.trans queued)
  | @snoc history middle event last run step induction =>
      have middling := run_accountable run accountable
      rcases step_posts middling step with ⟨closing, posts⟩
      by_cases here : middle.core.current = t
      · refine ⟨history, ⟨middle, event, last⟩, [], rfl, here, ?_, queued, live, ?_, rfl⟩
        · rcases posts.current with ⟨same, userMode⟩ | ⟨switched, -⟩
          · exact absent (same.trans here)
          · exact switched
        · exact fun _ member => by cases member
      · by_cases alive : middle.Live t
        · have stack := posts.stack t alive (Ne.symm here)
          rw [stack] at queued
          rcases induction alive queued (fun current => absurd current here) with
            ⟨front, leaves, away, left⟩
          refine ⟨front, leaves, away ++ [⟨middle, event, last⟩], ?_, left.running, left.switched,
            left.queued, left.live, ?_, ?_⟩
          · rw [left.split]
            simp
          · intro transition member
            rcases List.mem_append.mp member with old | new
            · exact left.away transition old
            · rw [List.mem_singleton.mp new]
              exact here
          · rw [posts.account t alive, Books.posts_other _ _ (Ne.symm here)]
            exact left.account
        · have creates : Creates t ⟨middle, event, last⟩ := ⟨alive, live⟩
          have made := step_creates middling step creates
          rw [made.2.1] at queued
          cases queued

end Runs

/-! ## Waits and stays -/

section Intervals

variable (t : TaskId) (history : List Recorded)

/-- The task is put on a queue in which it is blocked, is taken off again, and runs. -/
structure Wait where
  front : List Recorded
  blocks : Recorded
  waiting : List Recorded
  wakes : Recorded
  queued : List Recorded
  resumes : Recorded
  rest : List Recorded
  split : history = front ++ blocks :: (waiting ++ wakes :: (queued ++ resumes :: rest))
  begins : ¬Waits t blocks.before ∧ Waits t blocks.after
  waits : ∀ transition ∈ waiting, Waits t transition.after
  ends : Waits t wakes.before ∧ ¬Waits t wakes.after
  away : Away t queued
  returns : resumes.before.core.current = t

def Readied (transition : Recorded) : Prop :=
  t ∉ transition.before.ready ∧ (t ∈ transition.after.ready ∨
    Pending t transition.after ∧ t ≠ transition.after.core.idleTask)

structure Stay where
  front : List Recorded
  joins : Recorded
  queued : List Recorded
  split : history = front ++ joins :: queued
  joined : Readied t joins
  away : Away t queued

/-- The idle task leaves the processor to another task without being put on the readyqueue,
until it runs again. -/
structure IdleAbsence where
  front : List Recorded
  leaves : Recorded
  absent : List Recorded
  returns : Recorded
  rest : List Recorded
  split : history = front ++ leaves :: (absent ++ returns :: rest)
  idle : leaves.before.core.idleTask = t
  running : leaves.before.core.current = t
  another : leaves.after.core.current ≠ t
  unlinked : t ∉ leaves.after.ready
  away : Away t absent
  back : returns.before.core.current = t

end Intervals

/-- A time between the last reading of the clock before a step and the last one of the
step. -/
def TakesPlaceAt (transition : Recorded) (time : Nat) : Prop :=
  transition.before.core.clock (transition.before.core.readings - 1) ≤ time ∧
    time ≤ transition.before.core.clock (transition.after.core.readings - 1)

/-- The times of the steps. -/
def Dated (times : Nat → Nat) (history : List Recorded) : Prop :=
  ∀ i (inRange : i < history.length), TakesPlaceAt (history[i]) (times i)

/-- The time in the counters other than `blocked_ticks`. -/
def Stats.unblocked (stats : Stats) : Nat := stats.userTicks + stats.systemTicks + stats.readyTicks

section Times

variable {t : TaskId} {history : List Recorded} (times : Nat → Nat)

def Stay.began (stay : Stay t history) : Nat := times stay.front.length

namespace Wait

variable (wait : Wait t history)

def began : Nat := times wait.front.length

def ended : Nat := times (wait.front.length + 1 + wait.waiting.length)

def earlier : Stats := (wait.blocks.before.core.task t).pStats

def later : Stats := (wait.resumes.after.core.task t).pStats

def IsBlocked : Prop :=
  wait.later.blockedTicks = wait.earlier.blockedTicks + (wait.ended times - wait.began times)

def NotElsewhere : Prop :=
  wait.later.unblocked + wait.earlier.elapsedTotalTicks +
      (wait.ended times - wait.began times) ≤
    wait.earlier.unblocked +
      wait.resumes.after.core.clock (wait.resumes.after.core.readings - 1)

end Wait

/-- A step only charges as ready the time since the task was put on the readyqueue, when it
runs again for the first time. -/
def OnlyReady (t : TaskId) (earlier : List Recorded) (transition : Recorded) : Prop :=
  let before := (transition.before.core.task t).pStats.readyTicks
  let after := (transition.after.core.task t).pStats.readyTicks
  after ≤ before ∨ ∃ stay : Stay t earlier, transition.before.core.current = t ∧
    after + stay.began times ≤ before + transition.before.core.clock transition.before.core.readings

/-- Blocked time is charged as blocked, and only time in the readyqueue as ready. -/
structure BlockedCharged (t : TaskId) (history : List Recorded) : Prop where
  blocked : ∀ wait : Wait t history, wait.IsBlocked times
  elsewhere : ∀ wait : Wait t history, wait.NotElsewhere times
  ready : ∀ earlier transition rest, history = earlier ++ transition :: rest →
    transition.before.Live t → OnlyReady times t earlier transition

end Times

/-- The clock does not move while the idle task is away. -/
def IdleAbsence.StandsStill {t : TaskId} {history : List Recorded}
    (absence : IdleAbsence t history) : Prop :=
  absence.leaves.after.core.clock (absence.leaves.after.core.readings - 1) =
    absence.returns.before.core.clock absence.returns.before.core.readings

theorem Dated.takesPlace {times : Nat → Nat} {history front back : List Recorded}
    {transition : Recorded} (dated : Dated times history)
    (split : history = front ++ transition :: back) :
    TakesPlaceAt transition (times front.length) := by
  subst split
  have inRange : front.length < (front ++ transition :: back).length := by simp
  have placed := dated front.length inRange
  rwa [List.getElem_append_right (le_refl _), List.getElem_cons, dif_pos (Nat.sub_self _)] at placed

/-! ## Along a run -/

section Charges

variable {machine : Machine} {first last : SequenceKernel} {history : List Recorded} {t : TaskId}
  {clock : Nat → Nat} {times : Nat → Nat}

theorem run_readings_le (run : (checkedZeos machine).Run first history last)
    (accountable : Accountable first) : first.core.readings ≤ last.core.readings := by
  let Later (kernel : SequenceKernel) : Prop :=
    Accountable kernel ∧ first.core.readings ≤ kernel.core.readings
  have initially : Later first := ⟨accountable, le_refl _⟩
  have eventually : Later last := run.invariant initially fun _ _ step later => by
    rcases step_posts later.1 step with ⟨closing, posts⟩
    exact ⟨step_accountable later.1 step, later.2.trans posts.readings_le⟩
  exact eventually.2

theorem run_idleTask (run : (checkedZeos machine).Run first history last)
    (accountable : Accountable first) : last.core.idleTask = first.core.idleTask := by
  let Same (kernel : SequenceKernel) : Prop :=
    Accountable kernel ∧ kernel.core.idleTask = first.core.idleTask
  have initially : Same first := ⟨accountable, rfl⟩
  have eventually : Same last := run.invariant initially fun _ _ step same =>
    ⟨step_accountable same.1 step, (step_idleTask same.1.disciplined step).trans same.2⟩
  exact eventually.2

theorem waits_away (run : (checkedZeos machine).Run first history last)
    (accountable : Accountable first) (waits : Waits t first)
    (along : ∀ transition ∈ history, Waits t transition.after) : Away t history ∧ Waits t last := by
  let Still (kernel : SequenceKernel) : Prop := Accountable kernel ∧ Waits t kernel
  have initially : Still first := ⟨accountable, waits⟩
  have preserved : ∀ transition ∈ history,
      (checkedZeos machine).step transition.before transition.label transition.after →
      Still transition.before → Still transition.after :=
    fun transition member step still => ⟨step_accountable still.1 step, along transition member⟩
  refine ⟨fun transition member here => ?_, (run.invariant initially preserved).2⟩
  rcases (run.along initially preserved transition member).1 with ⟨accountable, waits⟩
  exact accountable.disciplined.away_of_waits waits here

theorem away_dispatched (run : (checkedZeos machine).Run first history last)
    (accountable : Accountable first) (away : Away t history) (elsewhere : first.core.current ≠ t)
    (here : last.core.current = t) : last.core.inKernel = true := by
  cases run with
  | nil => exact absurd here elsewhere
  | @snoc history middle event last run step =>
      rcases step_posts (run_accountable run accountable) step with ⟨closing, posts⟩
      rcases posts.current with ⟨same, -⟩ | ⟨inKernel, -⟩
      · exact absurd (same.symm.trans here) (away ⟨middle, event, last⟩ (by simp))
      · exact inKernel

theorem begins_running {transition : Recorded} (audited : Audited clock transition.before)
    (steady : Steady clock)
    (step : (checkedZeos machine).step transition.before transition.label transition.after)
    (begins : ¬Waits t transition.before ∧ Waits t transition.after) :
    transition.before.Live t ∧ transition.before.core.current = t := by
  have disciplined := audited.accountable.disciplined
  have later := audited.step steady step
  by_cases live : transition.before.Live t
  · refine ⟨live, ?_⟩
    by_contra away
    exact begins.1 (step_waits disciplined step live away begins.2)
  · have blocked := later.accountable.disciplined.waits_iff.mp begins.2
    have alive : transition.after.Live t := by
      refine .inr (.inr ?_)
      rw [blocked]
      exact ProcessState.noConfusion
    have creates : Creates t transition := ⟨live, alive⟩
    have top : transition.after.top t = some .retFromFork :=
      congrArg topFrame (step_creates audited.accountable step creates).2.1
    rcases begins.2 with reads | ⟨sem, waits⟩
    · have fits := later.suspended _ t reads
      rw [top] at fits
      rcases fits with queued | ⟨buffer, count, i, loops, -⟩
      · cases queued
      · cases loops
    · have fits := later.suspended _ t waits
      rw [top] at fits
      cases fits

/-- While a task is alive, its account stays between the same start and its mark, and
nothing is charged as blocked. -/
theorem alive_keeps (run : (checkedZeos machine).Run first history last)
    (steady : Steady clock) (audited : Audited clock first)
    (alive : ∀ transition ∈ history, transition.before.Live t) {start : Nat}
    (within : first.core.books.Within t start) :
    last.core.books.Within t start ∧
      (last.core.books.account t).blockedTicks = (first.core.books.account t).blockedTicks := by
  let Kept (kernel : SequenceKernel) : Prop := Audited clock kernel ∧
    kernel.core.books.Within t start ∧
    (kernel.core.books.account t).blockedTicks = (first.core.books.account t).blockedTicks
  have initially : Kept first := ⟨audited, within, rfl⟩
  have eventually : Kept last := run.invariant initially fun transition member step kept => by
    rcases kept with ⟨audited, within, blocked⟩
    have live := alive transition member
    rcases step_posts audited.accountable step with ⟨closing, posts⟩
    refine ⟨audited.step steady step, (posts.within live (audited.steady steady) within).1, ?_⟩
    rw [posts.blockedTicks live]
    exact blocked
  exact eventually.2

/-- The steps from a block to the resumption: the task is alive all along, and in between it
does not run. -/
theorem Wait.steps (wait : Wait t history) (run : (checkedZeos machine).Run first history last)
    (steady : Steady clock) (audited : Audited clock first) :
    Audited clock wait.blocks.before ∧
      (checkedZeos machine).Run wait.blocks.before
        (wait.blocks :: (wait.waiting ++ wait.wakes :: wait.queued) ++ [wait.resumes])
        wait.resumes.after ∧
      ∀ transition ∈ wait.blocks :: (wait.waiting ++ wait.wakes :: wait.queued) ++ [wait.resumes],
        transition.before.Live t := by
  rw [wait.split] at run
  rcases run.around with ⟨before, blocking, run⟩
  have start := run_audited before steady audited
  have later := (start.step steady blocking).accountable
  rcases begins_running start steady blocking wait.begins with ⟨live, -⟩
  have alive : wait.blocks.after.Live t := by
    refine .inr (.inr ?_)
    rw [later.disciplined.waits_iff.mp wait.begins.2]
    exact ProcessState.noConfusion
  have away : Away t (wait.waiting ++ wait.wakes :: wait.queued) := by
    rcases run.around with ⟨waiting, -, -⟩
    have still := (waits_away waiting later wait.begins.2 wait.waits).1
    intro transition member
    rcases List.mem_append.mp member with waits | member
    · exact still transition waits
    · rcases List.mem_cons.mp member with wakes | queued
      · have disciplined := (run_accountable waiting later).disciplined
        rw [wakes]
        exact disciplined.away_of_waits wait.ends.1
      · exact wait.away transition queued
  have regroup : wait.waiting ++ wait.wakes :: (wait.queued ++ wait.resumes :: wait.rest) =
      (wait.waiting ++ wait.wakes :: wait.queued) ++ wait.resumes :: wait.rest := by
    simp
  rw [regroup] at run
  rcases run.around with ⟨between, resuming, -⟩
  refine ⟨start, ?_, ?_⟩
  · exact ((TransitionSystem.Run.single blocking).append between).append (.single resuming)
  · intro transition member
    rcases List.mem_append.mp member with member | resumes
    · rcases List.mem_cons.mp member with blocks | member
      · rw [blocks]
        exact live
      · exact away_alive between later alive away transition member
    · rw [List.mem_singleton.mp resumes]
      exact (away_keeps between later alive away).1

theorem Wait.charged (wait : Wait t history) (run : (checkedZeos machine).Run first history last)
    (steady : Steady clock) (audited : Audited clock first) :
    wait.later.blockedTicks = wait.earlier.blockedTicks ∧
      wait.later.unblocked + wait.earlier.elapsedTotalTicks ≤ wait.earlier.unblocked +
        wait.resumes.after.core.clock (wait.resumes.after.core.readings - 1) := by
  rcases wait.steps run steady audited with ⟨start, steps, alive⟩
  have within := start.within t (alive wait.blocks (by simp))
  have total : wait.earlier.total + 0 ≤ wait.earlier.elapsedTotalTicks := within.total
  -- The mark is a start from which the whole account is charged with the time since.
  let since := wait.earlier.elapsedTotalTicks - wait.earlier.total
  have started : wait.blocks.before.core.books.Within t since := by
    refine ⟨?_, within.mark⟩
    change wait.earlier.total + (_ - wait.earlier.total) ≤ wait.earlier.elapsedTotalTicks
    omega
  rcases alive_keeps steps steady start alive started with ⟨finished, same⟩
  have blocked : wait.later.blockedTicks = wait.earlier.blockedTicks := same
  refine ⟨blocked, ?_⟩
  have told : wait.later.total + (wait.earlier.elapsedTotalTicks - wait.earlier.total) ≤
      wait.resumes.after.core.clock (wait.resumes.after.core.readings - 1) :=
    finished.total.trans finished.mark
  unfold Stats.total at told total
  unfold Stats.unblocked
  omega

theorem Wait.ordered (wait : Wait t history) (run : (checkedZeos machine).Run first history last)
    (steady : Steady clock) (audited : Audited clock first) (dated : Dated times history) :
    wait.began times ≤ wait.ended times := by
  have blocks := dated.takesPlace wait.split
  have later : history = (wait.front ++ wait.blocks :: wait.waiting) ++
      wait.wakes :: (wait.queued ++ wait.resumes :: wait.rest) :=
    wait.split.trans (by simp)
  have wakes := dated.takesPlace later
  have index : (wait.front ++ wait.blocks :: wait.waiting).length =
      wait.front.length + 1 + wait.waiting.length := by
    simp
    omega
  rw [index] at wakes
  rw [wait.split] at run
  rcases run.around with ⟨before, blocking, run⟩
  have start := run_audited before steady audited
  rcases run.around with ⟨waiting, -, -⟩
  have suspended := start.step steady blocking
  have woken := run_audited waiting steady suspended
  have readings := run_readings_le waiting suspended.accountable
  rw [TakesPlaceAt, start.clock] at blocks
  rw [TakesPlaceAt, woken.clock] at wakes
  apply blocks.2.trans
  exact (steady.monotone (Nat.sub_le_sub_right readings 1)).trans wakes.1

/-- A task that is not in the readyqueue after it has left for the tail of `sched_next_rr` waits,
or is the idle task. -/
theorem Left.places {kernel : SequenceKernel} {front away : List Recorded} {leaves : Recorded}
    (left : Left t history kernel front leaves away)
    (disciplined : Disciplined leaves.before) (later : Disciplined leaves.after)
    (elsewhere : ¬Readied t leaves) :
    t ∉ leaves.after.ready ∧ (t = leaves.after.core.idleTask ∨ Waits t leaves.after) := by
  have outside : t ∉ leaves.before.ready := by
    rw [← left.running]
    exact disciplined.not_ready_current
  have notReady : t ∉ leaves.after.ready := fun ready => elsewhere ⟨outside, .inl ready⟩
  refine ⟨notReady, ?_⟩
  by_cases idle : t = leaves.after.core.idleTask
  · exact .inl idle
  · rcases later.whereabouts left.live with same | here | ready | waits
    · exact absurd same idle
    · exact absurd ⟨outside, .inr ⟨⟨left.switched, here.symm⟩, idle⟩⟩ elsewhere
    · exact absurd ready notReady
    · exact .inr waits

theorem readied_of_wakes {transition : Recorded} (accountable : Accountable transition.before)
    (step : (checkedZeos machine).step transition.before transition.label transition.after)
    (live : transition.before.Live t)
    (wakes : Waits t transition.before ∧ ¬Waits t transition.after) : Readied t transition := by
  have disciplined := accountable.disciplined
  have away := disciplined.away_of_waits wakes.1
  have notIdle : t ≠ transition.after.core.idleTask := by
    intro idle
    rw [step_idleTask disciplined step] at idle
    have awake := disciplined.idleAwake
    rw [← idle] at awake
    exact awake (disciplined.waits_iff.mp wakes.1)
  refine ⟨fun ready => disciplined.not_waits_ready ready wakes.1, ?_⟩
  have later := (step_accountable accountable step).disciplined
  rcases later.whereabouts (live_step accountable step live away) with idle | here | ready | waits
  · exact absurd idle notIdle
  · rcases step_posts accountable step with ⟨closing, posts⟩
    rcases posts.current with ⟨same, -⟩ | ⟨inKernel, -⟩
    · exact absurd (same.symm.trans here.symm) away
    · exact .inr ⟨⟨inKernel, here.symm⟩, notIdle⟩
  · exact .inl ready
  · exact absurd waits wakes.2

theorem Left.waited {kernel : SequenceKernel} {front away : List Recorded} {leaves : Recorded}
    (left : Left t history kernel front leaves away)
    (since : (checkedZeos machine).Run leaves.after away kernel)
    (accountable : Accountable leaves.after) (waits : Waits t leaves.after)
    (gone : ¬Waits t kernel) :
    ∃ waiting wakes queued, away = waiting ++ wakes :: queued ∧
      (∀ transition ∈ waiting, Waits t transition.after) ∧
      (Waits t wakes.before ∧ ¬Waits t wakes.after) ∧ Readied t wakes ∧ Away t queued := by
  rcases away_wakes since waits gone with ⟨waiting, wakes, queued, apart, ends⟩
  have elsewhere := left.away
  rw [apart] at elsewhere since
  have asleep : Away t waiting := fun _ member => elsewhere _ (by simp [member])
  have ready : Away t queued := fun _ member => elsewhere _ (by simp [member])
  rcases since.around with ⟨sleeping, waking, -⟩
  have along := (away_waits sleeping accountable left.live asleep ends.1).2
  have live := (away_keeps sleeping accountable left.live asleep).1
  have joins := readied_of_wakes (run_accountable sleeping accountable) waking live ends
  exact ⟨waiting, wakes, queued, apart, along, ends, joins, ready⟩

theorem Counted.charged {transition leaves : Recorded} (counted : Counted t transition)
    (now : Audited clock transition.before) (steady : Steady clock)
    (step : (checkedZeos machine).step transition.before transition.label transition.after)
    (live : transition.before.Live t) (start : Audited clock leaves.before)
    (leaving : (checkedZeos machine).step leaves.before leaves.label leaves.after)
    (running : leaves.before.core.current = t) (switched : leaves.after.core.inKernel = true)
    (queued : Queued (leaves.after.core.task t).kernelEsp = true)
    (account : transition.before.core.books.account t = leaves.after.core.books.account t) :
    (transition.after.core.task t).pStats.readyTicks + clock (leaves.after.core.readings - 1) =
      (transition.before.core.task t).pStats.readyTicks +
        transition.before.core.clock transition.before.core.readings := by
  rcases step_posts now.accountable step with ⟨closing, posts⟩
  rcases step_posts start.accountable leaving with ⟨closing', posts'⟩
  have mark : (transition.before.core.books.account t).elapsedTotalTicks =
      clock (leaves.after.core.readings - 1) := by
    rw [account, ← start.clock]
    subst running
    exact posts'.mark (start.steady steady) switched queued
  have spent := posts.readyTicks_counted live (now.steady steady) (now.within t live) counted
  rw [mark] at spent
  exact spent

/-- Without time spent waiting, and with the idle task away for no time, only time in the
readyqueue is charged as ready. -/
theorem onlyReady_of_still (run : (checkedZeos machine).Run first history last)
    (steady : Steady clock) (audited : Audited clock first)
    (fresh : Queued (first.core.task t).kernelEsp = false) (dated : Dated times history)
    (still : ∀ wait : Wait t history, wait.ended times = wait.began times)
    (standing : ∀ absence : IdleAbsence t history, absence.StandsStill)
    {earlier rest : List Recorded} {transition : Recorded}
    (split : history = earlier ++ transition :: rest) (live : transition.before.Live t) :
    OnlyReady times t earlier transition := by
  rw [split] at run
  rcases run.around with ⟨before, step, -⟩
  have now := run_audited before steady audited
  by_cases counted : Counted t transition
  swap
  · rcases step_posts now.accountable step with ⟨closing, posts⟩
    exact .inl (posts.readyTicks live counted).le
  have here : transition.before.core.current = t := counted.2.1
  have inKernel : transition.before.core.inKernel = true := by
    have mode := step.1.2
    rwa [if_pos counted.1] at mode
  rcases run_left before audited.accountable fresh live counted.2.2 (fun _ => inKernel) with
    ⟨front, leaves, away, left⟩
  rw [left.split] at before
  rcases before.around with ⟨beginning, leaving, since⟩
  have start := run_audited beginning steady audited
  have later := start.step steady leaving
  have charged := counted.charged now steady step live start leaving left.running left.switched
    left.queued left.account
  have leftAt : history = front ++ leaves :: (away ++ transition :: rest) := by
    rw [split, left.split]
    simp
  have place := dated.takesPlace leftAt
  rw [TakesPlaceAt, start.clock] at place
  by_cases joined : Readied t leaves
  · refine .inr ⟨⟨front, leaves, away, left.split, joined, left.away⟩, here, ?_⟩
    change _ + times front.length ≤ _
    omega
  rcases left.places start.accountable.disciplined later.accountable.disciplined joined with
    ⟨unlinked, idle | waits⟩
  · -- The idle task has been away for no time.
    have same := step_idleTask start.accountable.disciplined leaving
    have running := left.running
    have idleBefore : leaves.before.core.current = leaves.before.core.idleTask := by
      rw [running, idle, same]
    have another := (step_idle_leaves start.accountable.disciplined leaving idleBefore
      left.switched).mp (running ▸ left.queued)
    have stands := standing ⟨front, leaves, away, transition, rest, leftAt, idleBefore ▸ running,
      running, running ▸ another, unlinked, left.away, here⟩
    change leaves.after.core.clock (leaves.after.core.readings - 1) =
      transition.before.core.clock transition.before.core.readings at stands
    rw [later.clock] at stands
    left
    omega
  · -- The task has waited for no time, and has been ready since.
    have gone : ¬Waits t transition.before := fun waits =>
      now.accountable.disciplined.away_of_waits waits here
    rcases left.waited since later.accountable waits gone with
      ⟨waiting, wakes, ready, apart, along, ends, joins, elsewhere⟩
    have begins : ¬Waits t leaves.before := fun waits =>
      start.accountable.disciplined.away_of_waits waits left.running
    have waited :
        history = front ++ leaves :: (waiting ++ wakes :: (ready ++ transition :: rest)) := by
      rw [leftAt, apart]
      simp
    have none := still ⟨front, leaves, waiting, wakes, ready, transition, rest, waited,
      ⟨begins, waits⟩, along, ends, elsewhere, here⟩
    change times (front.length + 1 + waiting.length) = times front.length at none
    have stay : earlier = (front ++ leaves :: waiting) ++ wakes :: ready := by
      rw [left.split, apart]
      simp
    have index : (front ++ leaves :: waiting).length = front.length + 1 + waiting.length := by
      simp
      omega
    refine .inr ⟨⟨_, wakes, ready, stay, joins, elsewhere⟩, here, ?_⟩
    change _ + times (front ++ leaves :: waiting).length ≤ _
    rw [index, none]
    omega

theorem mem_of_suffixes {α : Type} {front front' back back' : List α} {x y : α}
    (same : front ++ x :: back = front' ++ y :: back') (later : y ∉ back) : x ∈ y :: back' := by
  rcases List.append_eq_append_iff.mp same with ⟨between, -, tail⟩ | ⟨between, -, tail⟩
  · cases between with
    | nil =>
        cases tail
        exact List.mem_cons_self
    | cons head between =>
        cases tail
        exact absurd (by simp) later
  · rw [tail]
    simp

/-- When only time in the readyqueue is charged as ready, the idle task is away for no
time. -/
theorem IdleAbsence.stands (absence : IdleAbsence t history)
    (run : (checkedZeos machine).Run first history last)
    (steady : Steady clock) (audited : Audited clock first)
    (only : OnlyReady times t (absence.front ++ absence.leaves :: absence.absent) absence.returns) :
    absence.StandsStill := by
  rcases absence with
    ⟨front, leaves, absent, returns, rest, split, idle, running, another, unlinked, away, back⟩
  change OnlyReady times t (front ++ leaves :: absent) returns at only
  change leaves.after.core.clock (leaves.after.core.readings - 1) =
    returns.before.core.clock returns.before.core.readings
  rw [split] at run
  rcases run.around with ⟨beginning, leaving, rest⟩
  have start := run_audited beginning steady audited
  have later := start.step steady leaving
  rcases rest.around with ⟨between, step, -⟩
  have now := run_audited between steady later
  rcases step_posts start.accountable leaving with ⟨closing, posts⟩
  have switched : leaves.after.core.inKernel = true := by
    rcases posts.current with ⟨same, -⟩ | ⟨inKernel, -⟩
    · exact absurd (same.trans running) another
    · exact inKernel
  have queued : Queued (leaves.after.core.task t).kernelEsp = true := by
    have leaves := step_idle_leaves start.accountable.disciplined leaving (running.trans idle.symm)
      switched
    rw [running] at leaves
    exact leaves.mpr another
  have alive : leaves.after.Live t := .inl
    (idle.symm.trans (step_idleTask start.accountable.disciplined leaving).symm)
  rcases away_keeps between later.accountable alive away with ⟨live, account, stack⟩
  have inKernel := away_dispatched between later.accountable away another back
  have counted : Counted t returns := by
    refine ⟨?_, back, ?_⟩
    · by_contra other
      have mode := step.1.2
      rw [if_neg other] at mode
      exact Bool.noConfusion (mode.1.symm.trans inKernel)
    · rw [stack]
      exact queued
  have charged := counted.charged now steady step live start leaving running switched queued account
  have readings := run_readings_le between later.accountable
  have passed := steady.monotone (Nat.sub_le_of_le_add
    (readings.trans (Nat.le_add_right returns.before.core.readings 1)))
  rw [later.clock]
  rw [now.clock] at charged ⊢
  rcases only with nothing | ⟨stay, -, -⟩
  · omega
  · exfalso
    have elsewhere : leaves ∉ stay.queued := fun member => stay.away leaves member running
    rcases List.mem_cons.mp (mem_of_suffixes stay.split.symm elsewhere) with same | member
    · rcases stay.joined.2 with ready | ⟨pending, -⟩
      · rw [same] at ready
        exact unlinked ready
      · rw [same] at pending
        exact another pending.2
    · have apart := List.append_of_mem member
      rcases apart with ⟨waiting, queued, apart⟩
      rw [apart] at between
      rcases between.around with ⟨between, joining, -⟩
      have accountable := run_accountable between later.accountable
      have idle' : stay.joins.before.core.idleTask = t :=
        (run_idleTask between later.accountable).trans
          ((step_idleTask start.accountable.disciplined leaving).trans idle)
      have outside := step_idle_ready accountable.disciplined joining
      rw [idle'] at outside
      rcases stay.joined.2 with ready | ⟨-, other⟩
      · exact outside (away stay.joins member) stay.joined.1 ready
      · rw [step_idleTask accountable.disciplined joining] at other
        exact other idle'.symm

end Charges

/-- Blocked time is charged as blocked, and only time in the readyqueue as ready, exactly
when no time passes between a block and its end, and, for the idle task, while another task
has the processor. -/
theorem blockedCharged {machine : Machine} {history : List (Transition PointerKernel Event)}
    {last : PointerKernel} (reaches : (zeos machine).Reaches history last)
    (steady : Steady machine.clock) {times : Nat → Nat} (dated : Dated times (record history))
    (t : TaskId) :
    BlockedCharged times t (record history) ↔
      (∀ wait : Wait t (record history), wait.ended times = wait.began times) ∧
        ∀ absence : IdleAbsence t (record history), absence.StandsStill := by
  rcases (run_toSequences reaches).2 with ⟨first, start, run⟩
  rw [init_eq start] at run
  have audited := boot_audited machine
  have fresh : Queued ((machine.bootCore 0 1).task t).kernelEsp = false := by
    rw [bootCore_kernelEsp]
    split <;> rfl
  constructor
  · intro charged
    refine ⟨fun wait => ?_, fun absence => ?_⟩
    · have none := (wait.charged run steady audited).1
      have blocked := charged.blocked wait
      have ordered := wait.ordered run steady audited dated
      rw [Wait.IsBlocked] at blocked
      omega
    · apply absence.stands run steady audited
      have split : record history =
          (absence.front ++ absence.leaves :: absence.absent) ++ absence.returns :: absence.rest :=
        absence.split.trans (by simp)
      apply charged.ready _ _ _ split
      refine .inl ?_
      have whole := run
      change (checkedZeos machine).Run _ (record history) _ at whole
      rw [split] at whole
      rcases whole.around with ⟨before, -, -⟩
      rcases before.around with ⟨beginning, -, -⟩
      apply absence.idle.symm.trans
      rw [run_idleTask before audited.accountable, run_idleTask beginning audited.accountable]
  · rintro ⟨still, standing⟩
    refine ⟨fun wait => ?_, fun wait => ?_, fun earlier transition rest split live => ?_⟩
    · rw [Wait.IsBlocked, still wait, Nat.sub_self]
      exact (wait.charged run steady audited).1
    · rw [Wait.NotElsewhere, still wait, Nat.sub_self]
      exact (wait.charged run steady audited).2
    · exact onlyReady_of_still run steady audited fresh dated still standing split live

instance (transition : Recorded) (time : Nat) : Decidable (TakesPlaceAt transition time) :=
  inferInstanceAs (Decidable (_ ∧ _))

def WaitsFromThird (t : TaskId) : List Recorded → Prop
  | [_, _, blocks, asleep, wakes, queued, resumes] =>
      (¬Waits t blocks.before ∧ Waits t blocks.after) ∧ Waits t asleep.after ∧
        (Waits t wakes.before ∧ ¬Waits t wakes.after) ∧ queued.before.core.current ≠ t ∧
        resumes.before.core.current = t
  | _ => False

instance (t : TaskId) : DecidablePred (WaitsFromThird t)
  | [_, _, _, _, _, _, _] => inferInstanceAs (Decidable (_ ∧ _))
  | [] | [_] | [_, _] | [_, _, _] | [_, _, _, _] | [_, _, _, _, _] | [_, _, _, _, _, _]
  | _ :: _ :: _ :: _ :: _ :: _ :: _ :: _ :: _ => isFalse id

theorem WaitsFromThird.wait {t : TaskId} {history : List Recorded}
    (waits : WaitsFromThird t history) :
    ∃ wait : Wait t history, wait.front.length = 2 ∧ wait.waiting.length = 1 ∧
      history[2]? = some wait.blocks ∧ history[6]? = some wait.resumes := by
  unfold WaitsFromThird at waits
  split at waits
  · rename_i one two blocks asleep wakes queued resumes
    rcases waits with ⟨begins, asleep', ends, away, returns⟩
    refine ⟨⟨[one, two], blocks, [asleep], wakes, [queued], resumes, [], rfl, begins, ?_, ends, ?_,
      returns⟩, rfl, rfl, rfl, rfl⟩
    · intro transition member
      rw [List.mem_singleton.mp member]
      exact asleep'
    · intro transition member
      rw [List.mem_singleton.mp member]
      exact away
  · cases waits

def Machine.standing : Machine := { Machine.sample with clock := fun _ => 7 }

theorem standing_steady : Steady Machine.standing.clock where
  monotone _ _ _ := le_refl 7
  bounded _ := by
    change 7 < 4294967296
    decide

theorem blockedCharged_standing :
    ∃ history last, (zeos Machine.standing).Reaches history last ∧
      Nonempty (Wait 1 (record history)) ∧ BlockedCharged (fun _ => 7) 1 (record history) := by
  have computed :
      (replay signalledByClone ⟨Machine.standing.bootCore 0 1, bootLinks⟩).any (fun run =>
      decide (WaitsFromThird 1 (record run.1)) && (record run.1).all fun transition =>
        decide (TakesPlaceAt transition 7 ∧ transition.before.core.idleTask ≠ 1)) = true := by
    decide +kernel
  rcases reaches_of_replay computed with ⟨history, last, reaches, found⟩
  simp only [Bool.and_eq_true, decide_eq_true_eq, List.all_eq_true] at found
  rcases found with ⟨waits, steps⟩
  rcases waits.wait with ⟨wait, -⟩
  have dated : Dated (fun _ => 7) (record history) :=
    fun i inRange => (steps _ (List.getElem_mem inRange)).1
  refine ⟨history, last, reaches, ⟨wait⟩, ?_⟩
  apply (blockedCharged reaches standing_steady dated 1).mpr
  refine ⟨fun _ => rfl, fun absence => ?_⟩
  have member : absence.leaves ∈ record history :=
    (congrArg (absence.leaves ∈ ·) absence.split).mpr (by simp)
  exact absurd absence.idle (steps _ member).2

/-- When the seven steps take place. -/
def signalledTimes (i : Nat) : Nat := [3, 7, 11, 13, 17, 21, 25].getD i 0

/-- A task that waits for six ticks finds none of them in `blocked_ticks`, and all of them in
`ready_ticks`. -/
theorem blocked_asReady :
    Steady Machine.counting.clock ∧
      ∃ history last, (zeos Machine.counting).Reaches history last ∧
        Dated signalledTimes (record history) ∧
        ¬BlockedCharged signalledTimes 1 (record history) ∧
        ∃ wait : Wait 1 (record history),
          wait.ended signalledTimes = wait.began signalledTimes + 6 ∧
          wait.later.blockedTicks = 0 ∧ wait.earlier.readyTicks + 6 ≤ wait.later.readyTicks := by
  have computed :
      (replay signalledByClone ⟨Machine.counting.bootCore 0 1, bootLinks⟩).any (fun run =>
      decide (WaitsFromThird 1 (record run.1)) &&
        ((record run.1).zipIdx.all fun dated =>
          decide (TakesPlaceAt dated.1 (signalledTimes dated.2))) &&
        (record run.1)[2]?.all fun blocks => (record run.1)[6]?.all fun resumes =>
          decide ((resumes.after.core.task 1).pStats.blockedTicks = 0 ∧
            (blocks.before.core.task 1).pStats.readyTicks + 6 ≤
              (resumes.after.core.task 1).pStats.readyTicks)) = true := by
    decide +kernel
  rcases reaches_of_replay computed with ⟨history, last, reaches, found⟩
  simp only [Bool.and_eq_true, decide_eq_true_eq, List.all_eq_true] at found
  rcases found with ⟨⟨waits, placed⟩, counters⟩
  rcases waits.wait with ⟨wait, front, waiting, blocks, resumes⟩
  rw [blocks, resumes] at counters
  rcases of_decide_eq_true counters with ⟨none, ready⟩
  have dated : Dated signalledTimes (record history) := by
    intro i inRange
    apply placed ((record history)[i], i)
    rw [List.mk_mem_zipIdx_iff_getElem?]
    exact List.getElem?_eq_getElem inRange
  have began : wait.began signalledTimes = 11 := congrArg signalledTimes front
  have ended : wait.ended signalledTimes = 17 := by
    rw [Wait.ended, front, waiting]
    rfl
  refine ⟨counting_steady, history, last, reaches, dated, fun charged => ?_, wait, ?_, none, ready⟩
  · have blocked := charged.blocked wait
    rw [Wait.IsBlocked, ended, began] at blocked
    have none : wait.later.blockedTicks = 0 := none
    omega
  · rw [ended, began]

end Zeos
