import Zeos.Transitions

/-! # CPU time

The time in the statistics of a task against the time it has lived.
-/

namespace Zeos

open Foundation Kernel

namespace Stats

def total (stats : Stats) : Nat :=
  stats.userTicks + stats.systemTicks + stats.readyTicks + stats.blockedTicks

/-- None of the four counters is ahead. -/
structure Below (stats later : Stats) : Prop where
  user : stats.userTicks ≤ later.userTicks
  system : stats.systemTicks ≤ later.systemTicks
  ready : stats.readyTicks ≤ later.readyTicks
  blocked : stats.blockedTicks ≤ later.blockedTicks

theorem Below.refl (stats : Stats) : stats.Below stats :=
  ⟨le_refl _, le_refl _, le_refl _, le_refl _⟩

theorem Below.trans {stats middle later : Stats} (one : stats.Below middle)
    (two : middle.Below later) : stats.Below later :=
  ⟨one.user.trans two.user, one.system.trans two.system, one.ready.trans two.ready,
    one.blocked.trans two.blocked⟩

end Stats

/-- The clock does not run backwards and stays in the range of its readings. -/
structure Steady (clock : Nat → Nat) : Prop where
  monotone : Monotone clock
  bounded : ∀ reading, clock reading < 4294967296

namespace Books

variable {books : Books} {t : TaskId} {start : Nat}

theorem getTicks_eq (steady : Steady books.clock) (later : Nat) :
    books.getTicks later = books.clock (books.readings + later) :=
  Nat.mod_eq_of_lt (steady.bounded _)

/-- The time in the account of a task lies between `start` and its mark, which has been
read off the clock. -/
structure Within (books : Books) (t : TaskId) (start : Nat) : Prop where
  total : (books.account t).total + start ≤ (books.account t).elapsedTotalTicks
  mark : (books.account t).elapsedTotalTicks ≤ books.clock (books.readings - 1)

theorem post_readings_le (books : Books) (posting : Posting) :
    books.readings ≤ (books.post posting).readings := by
  cases posting
  · exact Nat.le_add_right _ 2
  · exact Nat.le_add_right _ 2
  · exact Nat.le_add_right _ 2
  · exact le_refl _

theorem charged_total (steady : Steady books.clock) {posting : Posting} (charges : posting ≠ .count)
    {stats : Stats} (total : stats.total + start ≤ stats.elapsedTotalTicks)
    (mark : stats.elapsedTotalTicks ≤ books.clock books.readings) :
    (books.charged posting stats).total + start ≤ books.clock books.readings ∧
      stats.Below (books.charged posting stats) := by
  have bounded := steady.bounded books.readings
  have now : books.getTicks 0 = books.clock books.readings := getTicks_eq steady 0
  have spent : toUnsigned ((books.getTicks 0 : Int) - stats.elapsedTotalTicks) =
      books.clock books.readings - stats.elapsedTotalTicks := by
    rw [now, toUnsigned]
    omega
  cases stats with
  | mk userTicks systemTicks blockedTicks readyTicks elapsedTotalTicks totalTrans remainingTicks =>
      simp only [Stats.total] at total mark spent
      cases posting with
      | count => exact absurd rfl charges
      | user =>
          have small :
              userTicks + (books.clock books.readings - elapsedTotalTicks) < 4294967296 := by
            omega
          simp only [charged, Posting.credit, Stats.total, spent, Core.wrap, Nat.mod_eq_of_lt small]
          refine ⟨by omega, ⟨Nat.le_add_right _ _, le_refl _, le_refl _, le_refl _⟩⟩
      | system =>
          have small :
              systemTicks + (books.clock books.readings - elapsedTotalTicks) < 4294967296 := by
            omega
          simp only [charged, Posting.credit, Stats.total, spent, Core.wrap, Nat.mod_eq_of_lt small]
          refine ⟨by omega, ⟨le_refl _, Nat.le_add_right _ _, le_refl _, le_refl _⟩⟩
      | ready =>
          have small :
              readyTicks + (books.clock books.readings - elapsedTotalTicks) < 4294967296 := by
            omega
          simp only [charged, Posting.credit, Stats.total, spent, Core.wrap, Nat.mod_eq_of_lt small]
          refine ⟨by omega, ⟨le_refl _, le_refl _, Nat.le_add_right _ _, le_refl _⟩⟩

theorem post_running {posting : Posting} (charges : posting ≠ .count) :
    (books.post posting).account books.current =
        books.charged posting (books.account books.current) ∧
      (books.post posting).readings = books.readings + 2 := by
  cases posting with
  | count => exact absurd rfl charges
  | user | system | ready => exact ⟨if_pos rfl, rfl⟩

theorem posts_readings_le (books : Books) (postings : List Posting) :
    books.readings ≤ (books.posts postings).readings := by
  induction postings generalizing books with
  | nil => exact le_refl _
  | cons posting postings induction =>
      exact (books.post_readings_le posting).trans (induction (books.post posting))

/-- Charging the time since the mark leaves the account between the same start and the
new mark. -/
theorem Within.post (within : books.Within t start) (steady : Steady books.clock)
    (posting : Posting) :
    (books.post posting).Within t start ∧
      (books.account t).Below ((books.post posting).account t) := by
  by_cases running : t = books.current
  · subst running
    by_cases counts : posting = .count
    · subst counts
      have same : (books.post .count).account books.current = _ := if_pos rfl
      refine ⟨⟨?_, ?_⟩, ?_⟩
      · rw [same]
        exact within.total
      · rw [same]
        exact within.mark
      · rw [same]
        exact ⟨le_refl _, le_refl _, le_refl _, le_refl _⟩
    · rcases post_running counts with ⟨account, readings⟩
      have mark := within.mark.trans (steady.monotone (Nat.sub_le books.readings 1))
      have next : (books.charged posting (books.account books.current)).elapsedTotalTicks =
          books.clock (books.readings + 1) := getTicks_eq steady 1
      rcases charged_total steady counts within.total mark with ⟨total, below⟩
      refine ⟨⟨?_, ?_⟩, ?_⟩
      · rw [account, next]
        exact total.trans (steady.monotone (Nat.le_add_right _ 1))
      · rw [account, next, post_clock, readings]
        exact le_refl _
      · rw [account]
        exact below
  · have same := books.post_other posting running
    refine ⟨⟨?_, ?_⟩, ?_⟩
    · rw [same]
      exact within.total
    · rw [same, post_clock]
      apply within.mark.trans
      exact steady.monotone (Nat.sub_le_sub_right (books.post_readings_le posting) 1)
    · rw [same]
      exact .refl _

theorem Within.posts (within : books.Within t start) (steady : Steady books.clock)
    (postings : List Posting) :
    (books.posts postings).Within t start ∧
      (books.account t).Below ((books.posts postings).account t) := by
  induction postings generalizing books with
  | nil => exact ⟨within, .refl _⟩
  | cons posting postings induction =>
      rcases within.post steady posting with ⟨posted, below⟩
      rcases induction posted (by rwa [post_clock]) with ⟨later, further⟩
      exact ⟨later, below.trans further⟩

end Books

/-! ## A lifetime -/

/-- The time at which a state is there: between the last reading of the clock and the
next one. -/
def Core.Moment (core : Core) (now : Nat) : Prop :=
  core.clock (core.readings - 1) ≤ now ∧ now ≤ core.clock core.readings

/-- The new task is there: after the readings at the entry of the call that creates it
and before those at its end. -/
def CreatedAt (creation : Recorded) (created : Nat) : Prop :=
  creation.before.core.clock (creation.before.core.readings + 1) ≤ created ∧
    created ≤ creation.before.core.clock (creation.before.core.readings + 2)

/-- The task returns from the call that created it. -/
def FirstReturn (t : TaskId) (transition : Recorded) : Prop :=
  transition.label = .resume ∧ transition.before.core.current = t ∧
    (transition.before.core.task t).kernelEsp = [.retFromFork]

instance (creation : Recorded) (created : Nat) : Decidable (CreatedAt creation created) :=
  inferInstanceAs (Decidable (_ ∧ _))

instance (t : TaskId) : DecidablePred (FirstReturn t) :=
  fun _ => inferInstanceAs (Decidable (_ ∧ _))

section Lifetime

variable {machine : Machine} {before after first last : SequenceKernel} {event : Event}
  {history : List Recorded} {t : TaskId} {created : Nat}

structure Waiting (kernel : SequenceKernel) (t : TaskId) : Prop where
  account : kernel.core.books.account t = .zero
  stack : (kernel.core.task t).kernelEsp = [.retFromFork]
  switched : kernel.core.current = t → kernel.core.inKernel = true

theorem Posts.within {closing : List Posting} (posts : Posts before event closing after)
    (live : before.Live t) (steady : Steady before.core.clock)
    (within : before.core.books.Within t created) :
    after.core.books.Within t created ∧
      (before.core.books.account t).Below (after.core.books.account t) := by
  have entered : before.core.books.enter.Within t created := ⟨within.total, within.mark⟩
  rcases entered.posts steady (before.opening event ++ closing) with ⟨later, below⟩
  have account := posts.account t live
  have readings : after.core.books.readings =
    (before.core.books.enter.posts (before.opening event ++ closing)).readings := posts.readings
  have clock : after.core.books.clock =
      (before.core.books.enter.posts (before.opening event ++ closing)).clock :=
    posts.clock.trans (Books.posts_clock before.core.books.enter _).symm
  refine ⟨⟨?_, ?_⟩, ?_⟩
  · rw [account]
    exact later.total
  · rw [account, readings, clock]
    exact later.mark
  · rw [account]
    exact below

theorem Waiting.stays (waiting : Waiting before t) (live : before.Live t)
    (accountable : Accountable before) (step : (checkedZeos machine).step before event after)
    (later : ¬FirstReturn t ⟨before, event, after⟩) : Waiting after t := by
  have away : t ≠ before.core.current := by
    intro here
    have inKernel := waiting.switched here.symm
    have mode := step.1.2
    by_cases resumes : event = .resume
    · exact later ⟨resumes, here.symm, waiting.stack⟩
    · rw [if_neg resumes] at mode
      exact Bool.noConfusion (mode.1.symm.trans inKernel)
  rcases step_posts accountable step with ⟨closing, posts⟩
  constructor
  · rw [posts.account t live, Books.posts_other _ _ away]
    exact waiting.account
  · rw [posts.stack t live away]
    exact waiting.stack
  · intro here
    rcases posts.current with stays | switched
    · exact absurd (here.symm.trans stays.1) away
    · exact switched.1

theorem Waiting.returns (waiting : Waiting before t) (steady : Steady before.core.clock)
    (step : (checkedZeos machine).step before event after)
    (returns : FirstReturn t ⟨before, event, after⟩) :
    (after.core.books.account t).total = before.core.clock before.core.readings ∧
      (after.core.books.account t).elapsedTotalTicks =
        before.core.clock (before.core.readings + 1) ∧
      after.core.readings = before.core.readings + 2 := by
  rcases returns with ⟨resumes, here, stack⟩
  change event = .resume at resumes
  change before.core.current = t at here
  subst resumes here
  have books : after.core.books = before.core.books.enter.leave := by
    let entered : SequenceKernel := before.mapCore fun core => { core with inKernel := false }
    have resumed : resumeFrames (before.core.task before.core.current).kernelEsp entered =
        .ok after := step.2
    rw [stack] at resumed
    cases resumed
    have left := @finishCall_books _ entered entered 0 rfl
    exact left
  have account : after.core.books.account before.core.current =
      before.core.books.enter.charged .system (before.core.books.account before.core.current) :=
    (congrFun (congrArg Books.account books) _).trans (if_pos rfl)
  have now : before.core.books.enter.getTicks 0 = before.core.clock before.core.readings :=
    Books.getTicks_eq steady 0
  have next : before.core.books.enter.getTicks 1 = before.core.clock (before.core.readings + 1) :=
    Books.getTicks_eq steady 1
  have bounded := steady.bounded before.core.readings
  rw [account, waiting.account]
  refine ⟨?_, next, congrArg Books.readings books⟩
  simp only [Books.charged, Posting.credit, Stats.total, Stats.zero, now, Core.wrap, toUnsigned]
  omega

def Gone (kernel : SequenceKernel) (t : TaskId) : Prop :=
  (kernel.core.task t).kernelEsp = [.retFromFork] →
    kernel.core.current = t ∧ kernel.core.inKernel = false

theorem Posts.gone {closing : List Posting} (posts : Posts before event closing after) :
    Gone after before.core.current := by
  intro stack
  rcases posts.current with stays | ⟨-, left⟩
  · exact stays
  · exact absurd stack left

theorem Gone.stays (gone : Gone before t) (live : before.Live t)
    (accountable : Accountable before) (step : (checkedZeos machine).step before event after) :
    Gone after t := by
  rcases step_posts accountable step with ⟨closing, posts⟩
  by_cases here : t = before.core.current
  · subst here
    exact posts.gone
  · intro stack
    rw [posts.stack t live here] at stack
    exact absurd (gone stack).1.symm here

theorem Gone.not_firstReturn (gone : Gone before t)
    (step : (checkedZeos machine).step before event after) :
    ¬FirstReturn t ⟨before, event, after⟩ := by
  intro returns
  have mode := step.1.2
  rw [if_pos returns.1] at mode
  exact Bool.noConfusion ((gone returns.2.2).2.symm.trans mode)

/-- The statistics hold no more time than has passed since the task was created. -/
def InTime (t : TaskId) (created : Nat) (kernel : SequenceKernel) : Prop :=
  ∀ now, kernel.core.Moment now → (kernel.core.task t).pStats.total + created ≤ now

/-- The clock moves on by as much as has passed before the creation, during the first
return. -/
def CatchesUp (created : Nat) (transition : Recorded) : Prop :=
  transition.before.core.clock transition.before.core.readings + created ≤
    transition.before.core.clock (transition.before.core.readings + 1)

instance (created : Nat) : DecidablePred (CatchesUp created) :=
  fun _ => inferInstanceAs (Decidable (_ ≤ _))

def Kept (t : TaskId) (created : Nat) (kernel : SequenceKernel) : Prop :=
  created ≤ kernel.core.clock (kernel.core.readings - 1) ∧
    (Waiting kernel t ∨ Gone kernel t ∧ kernel.core.books.Within t created)

theorem Kept.inTime {kernel : SequenceKernel} (kept : Kept t created kernel) :
    InTime t created kernel := by
  rcases kept with ⟨begun, waiting | ⟨-, within⟩⟩
  · intro now moment
    have none : (kernel.core.task t).pStats.total = 0 := congrArg Stats.total waiting.account
    have begun := begun.trans moment.1
    omega
  · intro now moment
    exact within.total.trans (within.mark.trans moment.1)

theorem Posts.readings_le {closing : List Posting} (posts : Posts before event closing after) :
    before.core.readings ≤ after.core.readings := by
  rw [posts.readings]
  exact Books.posts_readings_le before.core.books.enter _

theorem Kept.step (kept : Kept t created before) (live : before.Live t)
    (accountable : Accountable before) (steady : Steady before.core.clock)
    (step : (checkedZeos machine).step before event after)
    (catches : FirstReturn t ⟨before, event, after⟩ → CatchesUp created ⟨before, event, after⟩) :
    Kept t created after ∧
      (before.core.task t).pStats.Below (after.core.task t).pStats := by
  rcases step_posts accountable step with ⟨closing, posts⟩
  rcases kept with ⟨begun, life⟩
  have begun : created ≤ after.core.clock (after.core.readings - 1) := by
    rw [posts.clock]
    exact begun.trans (steady.monotone (Nat.sub_le_sub_right posts.readings_le 1))
  have shown : ∀ {stats later : Stats}, stats.settled.Below later.settled → stats.Below later :=
    fun below => ⟨below.user, below.system, below.ready, below.blocked⟩
  rcases life with waiting | ⟨gone, within⟩
  · have empty : (before.core.books.account t).Below (after.core.books.account t) := by
      rw [waiting.account]
      exact ⟨Nat.zero_le _, Nat.zero_le _, Nat.zero_le _, Nat.zero_le _⟩
    refine ⟨⟨begun, ?_⟩, shown empty⟩
    by_cases returns : FirstReturn t ⟨before, event, after⟩
    · rcases waiting.returns steady step returns with ⟨total, mark, readings⟩
      have caught := catches returns
      refine .inr ⟨?_, ?_, ?_⟩
      · have here : before.core.current = t := returns.2.1
        exact here ▸ posts.gone
      · rw [total, mark]
        exact caught
      · rw [mark]
        change _ ≤ after.core.clock (after.core.readings - 1)
        rw [posts.clock, readings]
        exact le_refl _
    · exact .inl (waiting.stays live accountable step returns)
  · rcases posts.within live steady within with ⟨later, below⟩
    exact ⟨⟨begun, .inr ⟨gone.stays live accountable step, later⟩⟩, shown below⟩

theorem lifetime_phases (run : (checkedZeos machine).Run first history last)
    (accountable : Accountable first) (waiting : Waiting first t)
    (alive : ∀ transition ∈ history, transition.before.Live t) :
    ∀ transition ∈ history, transition.before.core.clock = first.core.clock ∧
      Accountable transition.before ∧ (Waiting transition.before t ∨ Gone transition.before t) := by
  let Phase (kernel : SequenceKernel) : Prop :=
    kernel.core.clock = first.core.clock ∧ Accountable kernel ∧
      (Waiting kernel t ∨ Gone kernel t)
  have initially : Phase first := ⟨rfl, accountable, .inl waiting⟩
  have along := run.along initially fun transition member step phase => by
    rcases phase with ⟨clock, accountable, phase⟩
    rcases step_posts accountable step with ⟨closing, posts⟩
    refine ⟨posts.clock.trans clock, step_accountable accountable step, ?_⟩
    have live := alive transition member
    rcases phase with waiting | gone
    · by_cases returns : FirstReturn t ⟨transition.before, transition.label, transition.after⟩
      · have here : transition.before.core.current = t := returns.2.1
        exact .inr (here ▸ posts.gone)
      · exact .inl (waiting.stays live accountable step returns)
    · exact .inr (gone.stays live accountable step)
  exact fun transition member => (along transition member).1

theorem InTime.catchesUp (inTime : InTime t created after) (waiting : Waiting before t)
    (accountable : Accountable before) (steady : Steady before.core.clock)
    (step : (checkedZeos machine).step before event after)
    (returns : FirstReturn t ⟨before, event, after⟩) :
    CatchesUp created ⟨before, event, after⟩ := by
  rcases step_posts accountable step with ⟨closing, posts⟩
  rcases waiting.returns steady step returns with ⟨total, -, readings⟩
  have told := inTime (before.core.clock (before.core.readings + 1)) (by
    unfold Core.Moment
    rw [posts.clock, readings]
    exact ⟨le_refl _, steady.monotone (Nat.le_add_right _ 1)⟩)
  have same : (after.core.task t).pStats.total = (after.core.books.account t).total := rfl
  rw [same, total] at told
  exact told

theorem lifetime_kept (run : (checkedZeos machine).Run first history last)
    (accountable : Accountable first) (steady : Steady first.core.clock)
    (kept : Kept t created first) (alive : ∀ transition ∈ history, transition.before.Live t)
    (catches : ∀ transition ∈ history, FirstReturn t transition → CatchesUp created transition) :
    ∀ transition ∈ history, InTime t created transition.after ∧
      (transition.before.core.task t).pStats.Below (transition.after.core.task t).pStats := by
  let Sound (kernel : SequenceKernel) : Prop :=
    Accountable kernel ∧ Steady kernel.core.clock ∧ Kept t created kernel
  have initially : Sound first := ⟨accountable, steady, kept⟩
  have along := run.along initially fun transition member step sound => by
    rcases sound with ⟨accountable, steady, kept⟩
    rcases step_posts accountable step with ⟨closing, posts⟩
    refine ⟨step_accountable accountable step, posts.clock ▸ steady, ?_⟩
    exact (kept.step (alive transition member) accountable steady step
      (catches transition member)).1
  intro transition member
  rcases along transition member with ⟨⟨accountable, steady, kept⟩, after⟩
  refine ⟨after.2.2.inTime, ?_⟩
  exact (kept.step (alive transition member) accountable steady (run.step_of_mem member)
    (catches transition member)).2

theorem run_clock (run : (checkedZeos machine).Run first history last)
    (accountable : Accountable first) : last.core.clock = first.core.clock := by
  let Same (kernel : SequenceKernel) : Prop :=
    Accountable kernel ∧ kernel.core.clock = first.core.clock
  have initially : Same first := ⟨accountable, rfl⟩
  have same : Same last := run.invariant initially fun transition _ step same => by
    rcases step_posts same.1 step with ⟨closing, posts⟩
    exact ⟨step_accountable same.1 step, posts.clock.trans same.2⟩
  exact same.2

theorem created_waiting (accountable : Accountable before)
    (step : (checkedZeos machine).step before event after) (steady : Steady before.core.clock)
    (creates : Creates t ⟨before, event, after⟩)
    (moment : CreatedAt ⟨before, event, after⟩ created) :
    Waiting after t ∧ created ≤ after.core.clock (after.core.readings - 1) := by
  rcases step_creates accountable step creates with ⟨account, stack, -, away, readings⟩
  rcases step_posts accountable step with ⟨closing, posts⟩
  refine ⟨⟨account, stack, fun here => absurd here away⟩, ?_⟩
  rw [posts.clock, readings]
  exact moment.2.trans (steady.monotone (Nat.le_add_right _ 1))

end Lifetime

/-- The statistics of a new task never hold more time than it has lived, and only grow,
exactly when the clock catches up with its age during its first return. -/
theorem cpuTimeBounded {machine : Machine} {history : List (Transition PointerKernel Event)}
    {last : PointerKernel} (reaches : (zeos machine).Reaches history last)
    (steady : Steady machine.clock) {earlier since : List Recorded} {creation : Recorded}
    (recorded : record history = earlier ++ creation :: since) {t : TaskId}
    (creates : Creates t creation) {created : Nat} (moment : CreatedAt creation created)
    (alive : ∀ transition ∈ since, transition.before.Live t) :
    ((∀ transition ∈ creation :: since, InTime t created transition.after) ∧
        ∀ transition ∈ since, (transition.before.core.task t).pStats.Below
          (transition.after.core.task t).pStats) ↔
      ∀ transition ∈ since, FirstReturn t transition → CatchesUp created transition := by
  rcases (run_toSequences reaches).2 with ⟨first, start, run⟩
  rw [show history.map _ = _ from recorded, init_eq start] at run
  rcases run.around with ⟨before, step, after⟩
  have accountable := run_accountable before (boot_accountable machine)
  have clock : creation.before.core.clock = machine.clock :=
    run_clock before (boot_accountable machine)
  rw [← clock] at steady
  rcases created_waiting accountable step steady creates moment with ⟨waiting, begun⟩
  have later := step_accountable accountable step
  have kept : Kept t created creation.after := ⟨begun, .inl waiting⟩
  have kind : creation.after.core.clock = creation.before.core.clock := by
    rcases step_posts accountable step with ⟨closing, posts⟩
    exact posts.clock
  constructor
  · rintro ⟨inTime, -⟩ transition member returns
    rcases lifetime_phases after later waiting alive transition member with
      ⟨same, accountable, waiting | gone⟩
    · have told := inTime transition (List.mem_cons_of_mem _ member)
      exact told.catchesUp waiting accountable (by rwa [same, kind]) (after.step_of_mem member)
        returns
    · exact absurd returns (gone.not_firstReturn (after.step_of_mem member))
  · intro catches
    have lifetime := lifetime_kept after later (kind ▸ steady) kept alive catches
    refine ⟨fun transition member => ?_, fun transition member => (lifetime transition member).2⟩
    rcases List.mem_cons.mp member with same | member
    · rw [same]
      exact kept.inTime
    · exact (lifetime transition member).1

def Machine.counting : Machine := { Machine.sample with clock := fun reading => min reading 1000 }

theorem counting_steady : Steady Machine.counting.clock where
  monotone _ _ le := min_le_min_right 1000 le
  bounded reading := Nat.lt_of_le_of_lt (Nat.min_le_right reading 1000) (by decide)

def Machine.leaping : Machine :=
  { Machine.sample with clock := fun reading => if reading ≤ 12 then 1 else 10 }

theorem leaping_steady : Steady Machine.leaping.clock where
  monotone reading later le := by
    change (if reading ≤ 12 then 1 else 10) ≤ if later ≤ 12 then 1 else 10
    split <;> split <;> omega
  bounded reading := by
    change (if reading ≤ 12 then 1 else 10) < 4294967296
    split <;> decide

theorem cpuTimeBounded_leap :
    ∃ history last creation since, (zeos Machine.leaping).Reaches history last ∧
      record history = creation :: since ∧ (∃ transition ∈ since, FirstReturn 2 transition) ∧
      ∀ transition ∈ creation :: since, InTime 2 1 transition.after := by
  have computed : (replay cloneRuns ⟨Machine.leaping.bootCore 0 1, bootLinks⟩).any (fun run =>
      passesAt 0 (fun creation since => decide (¬creation.before.Live 2 ∧ creation.after.Live 2) &&
        decide (CreatedAt creation 1) && (since.all fun transition => transition.before.Live 2) &&
        (since.any fun transition => FirstReturn 2 transition) &&
        since.all fun transition => FirstReturn 2 transition → CatchesUp 1 transition)
          (record run.1)) = true := by
    decide +kernel
  rcases reaches_of_replay computed with ⟨history, last, reaches, found⟩
  rcases split_of_passesAt found with ⟨creation, since, split, tested⟩
  simp only [Bool.and_eq_true, decide_eq_true_eq, List.all_eq_true, List.any_eq_true] at tested
  rcases tested with ⟨⟨⟨⟨creates, moment⟩, alive⟩, returns⟩, catches⟩
  have bounded := cpuTimeBounded reaches leaping_steady split creates moment alive
  exact ⟨history, last, creation, since, reaches, split, returns, (bounded.mpr catches).1⟩

/-- A task that is two ticks younger than the clock is charged for these in its first
return. -/
theorem cpuTime_exceeds :
    Steady Machine.counting.clock ∧
      ∃ history last creation since, (zeos Machine.counting).Reaches history last ∧
        record history = creation :: since ∧ Creates 2 creation ∧ CreatedAt creation 2 ∧
        (∀ transition ∈ since, transition.before.Live 2) ∧ ¬InTime 2 2 last.toSequences := by
  have computed : (replay cloneRuns ⟨Machine.counting.bootCore 0 1, bootLinks⟩).any (fun run =>
      passesAt 0 (fun creation since => decide (¬creation.before.Live 2 ∧ creation.after.Live 2) &&
        decide (CreatedAt creation 2) && since.all fun transition => transition.before.Live 2)
          (record run.1) &&
        decide (run.2.core.clock (run.2.core.readings - 1) ≤ run.2.core.clock run.2.core.readings ∧
          run.2.core.clock (run.2.core.readings - 1) < (run.2.core.task 2).pStats.total + 2)) =
            true := by
    decide +kernel
  rcases reaches_of_replay computed with ⟨history, last, reaches, found⟩
  simp only [Bool.and_eq_true, decide_eq_true_eq] at found
  rcases found with ⟨passes, steady, exceeds⟩
  rcases split_of_passesAt passes with ⟨creation, since, split, tested⟩
  simp only [Bool.and_eq_true, decide_eq_true_eq, List.all_eq_true] at tested
  rcases tested with ⟨⟨creates, moment⟩, alive⟩
  refine ⟨counting_steady, history, last, creation, since, reaches, split, creates, moment, alive,
    fun inTime => ?_⟩
  exact Nat.not_le.mpr exceeds (inTime _ ⟨le_refl _, steady⟩)

end Zeos
