import Zeos.Accounts
import Zeos.RoundRobin

/-! # Statistics over a lifetime

A step as postings to the account of the running task, and how often a task has been
dispatched against `total_trans`.
-/

namespace Zeos

open Foundation Kernel

/-! ## Postings -/

namespace Books

variable (books : Books)

@[simp] theorem post_clock (posting : Posting) : (books.post posting).clock = books.clock := by
  cases posting <;> rfl

theorem posts_append (first second : List Posting) :
    books.posts (first ++ second) = (books.posts first).posts second :=
  List.foldl_append

@[simp] theorem posts_clock (postings : List Posting) :
    (books.posts postings).clock = books.clock := by
  induction postings generalizing books with
  | nil => rfl
  | cons posting postings induction => exact (induction (books.post posting)).trans (by simp)

theorem post_other (posting : Posting) {t : TaskId} (other : t ≠ books.current) :
    (books.post posting).account t = books.account t := by
  cases posting <;> exact if_neg other

theorem posts_other (postings : List Posting) {t : TaskId} (other : t ≠ books.current) :
    (books.posts postings).account t = books.account t := by
  induction postings generalizing books with
  | nil => rfl
  | cons posting postings induction =>
      have later := induction (books.post posting) (by rwa [post_current])
      exact later.trans (books.post_other posting other)

theorem post_totalTrans (posting : Posting) (t : TaskId) :
    ((books.post posting).account t).totalTrans =
      if t = books.current ∧ posting = .count then Core.wrap ((books.account t).totalTrans + 1)
      else (books.account t).totalTrans := by
  by_cases here : t = books.current
  · subst here
    cases posting <;> simp [post, modify, charged, Posting.credit]
  · rw [books.post_other posting here, if_neg fun both => here both.1]

theorem posts_totalTrans (postings : List Posting)
    (small : (books.account t).totalTrans < 4294967296)
    (running : t = books.current) :
    ((books.posts postings).account t).totalTrans =
      Core.wrap ((books.account t).totalTrans + postings.count .count) := by
  induction postings generalizing books with
  | nil => exact (Nat.mod_eq_of_lt small).symm
  | cons posting postings induction =>
      have written := books.post_totalTrans posting t
      have bounded : ((books.post posting).account t).totalTrans < 4294967296 := by
        rw [written]
        split
        · exact Nat.mod_lt _ (by decide)
        · exact small
      have later := induction (books.post posting) bounded (by rwa [post_current])
      change (((books.post posting).posts postings).account t).totalTrans = _
      rw [later, written, List.count_cons]
      unfold Core.wrap
      cases posting <;> simp [running]
      omega

end Books

/-! ## Steps -/

/-- A step posts to the account of the running task, and leaves all others alone that
are alive before it. -/
structure Posts (before : SequenceKernel) (event : Event) (closing : List Posting)
    (after : SequenceKernel) : Prop where
  shape : closing = [] ∨ closing = [.system]
  clock : after.core.clock = before.core.clock
  readings : after.core.readings =
    (before.core.books.enter.posts (before.opening event ++ closing)).readings
  account : ∀ t, before.Live t → after.core.books.account t =
    (before.core.books.enter.posts (before.opening event ++ closing)).account t
  stack : ∀ t, before.Live t → t ≠ before.core.current →
    (after.core.task t).kernelEsp = (before.core.task t).kernelEsp
  current : after.core.current = before.core.current ∧ after.core.inKernel = false ∨
    after.core.inKernel = true ∧
      (after.core.task before.core.current).kernelEsp ≠ [.retFromFork]
  tail : after.core.inKernel = true →
    Queued (after.core.task before.core.current).kernelEsp = true → closing = [.system]

variable {machine : Machine} {before after : SequenceKernel} {event : Event}

theorem first_mem {queue : Queue} {t : TaskId} (found : before.first queue = .ok t) :
    t ∈ before.queues.elements queue := by
  cases contents : before.queues.elements queue with
  | nil => simp [Kernel.first, ListOps.first, contents] at found
  | cons head rest =>
      rw [first_eq contents] at found
      cases found
      exact List.mem_cons_self

theorem Books.opened_post (books : Books) {child t : TaskId} (stats : Stats) (frames : List Frame)
    (posting : Posting) (different : t ≠ child) :
    ((books.opened child stats frames).post posting).account t =
      (books.post posting).account t := by
  have same : (books.opened child stats frames).account t = books.account t := if_neg different
  cases posting <;> simp [post, modify, same] <;> rfl

theorem Bare.not_queued {frames : List Frame} (bare : Bare frames) : ¬Queued frames = true := by
  intro queued
  cases frames with
  | nil => cases queued
  | cons frame frames =>
      cases frame with
      | schedNextRr => exact bare.1 frames rfl
      | _ => cases queued

theorem BookStep.posts (disciplined : Disciplined before) (step : BookStep before event after) :
    ∃ closing, Posts before event closing after := by
  let entered := before.core.books.enter.posts (before.opening event)
  have stay : entered.stack = before.core.books.stack := Books.posts_stack _ _
  have here : entered.current = before.core.current := Books.posts_current _ _
  have closed : ∀ {closing : List Posting} {books : Books}, closing = [] ∨ closing = [.system] →
      after.core.books = books → books.clock = entered.clock →
      books.readings = (entered.posts closing).readings →
      (∀ t, before.Live t → books.account t = (entered.posts closing).account t) →
      (∀ t, before.Live t → t ≠ before.core.current → books.stack t = entered.stack t) →
      books.current = entered.current ∧ books.inKernel = false ∨
        books.inKernel = true ∧ books.stack before.core.current ≠ [.retFromFork] →
      (books.inKernel = true → Queued (books.stack before.core.current) = true →
        closing = [.system]) →
      Posts before event closing after := by
    intro closing books shape same clock readings account stack current tail
    refine ⟨shape, ?_, ?_, ?_, ?_, ?_, ?_⟩
    · exact (congrArg Books.clock same).trans (clock.trans (Books.posts_clock _ _))
    · rw [Books.posts_append]
      exact (congrArg Books.readings same).trans readings
    · intro t live
      rw [Books.posts_append, same]
      exact account t live
    · intro t live other
      have kept := (congrFun (congrArg Books.stack same) t).trans (stack t live other)
      rw [stay] at kept
      exact kept
    · rcases current with ⟨kept, userMode⟩ | ⟨inKernel, left⟩
      · exact .inl ⟨(congrArg Books.current same).trans (kept.trans here),
          (congrArg Books.inKernel same).trans userMode⟩
      · exact .inr ⟨(congrArg Books.inKernel same).trans inKernel,
          fun stack => left ((congrFun (congrArg Books.stack same) _).symm.trans stack)⟩
    · intro inKernel queued
      have left : books.stack before.core.current =
          (after.core.task before.core.current).kernelEsp :=
        (congrFun (congrArg Books.stack same) _).symm
      exact tail ((congrArg Books.inKernel same).symm.trans inKernel) (left ▸ queued)
  have created : ∀ {child : TaskId} (stats : Stats) (frames : List Frame),
      before.first .freequeue = .ok child →
      after.core.books = (entered.opened child stats frames).leave →
      Posts before event [.system] after := by
    intro child stats frames first books
    have apart : ∀ t, before.Live t → t ≠ child := by
      intro t live same
      subst same
      exact disciplined.live_not_free live (first_mem first)
    refine closed (.inr rfl) books rfl rfl (fun t live => ?_) (fun t live _ => ?_)
      (.inl ⟨rfl, rfl⟩) (fun _ _ => rfl)
    · change ((entered.opened child stats frames).post .system).account t =
        (entered.post .system).account t
      exact Books.opened_post _ _ _ _ (apart t live)
    · exact if_neg (apart t live)
  cases step with
  | refused creation states books =>
      exact ⟨[.system], closed (.inr rfl) books rfl rfl (fun _ _ => rfl) (fun _ _ _ => rfl)
        (.inl ⟨rfl, rfl⟩) (fun _ _ => rfl)⟩
  | closes noCreation closes =>
      generalize same : after.core.books = books at closes
      cases closes with
      | leaves =>
          exact ⟨[.system], closed (.inr rfl) same rfl rfl (fun _ _ => rfl) (fun _ _ _ => rfl)
            (.inl ⟨rfl, rfl⟩) (fun _ _ => rfl)⟩
      | yields bare yields =>
          cases yields with
          | toNext next =>
              exact ⟨[.system], closed (.inr rfl) same rfl rfl (fun _ _ => rfl)
                (fun t _ other => if_neg (here ▸ other))
                (.inr ⟨rfl, fun stack => by cases (if_pos here.symm).symm.trans stack⟩)
                (fun _ _ => rfl)⟩
          | toIdle =>
              exact ⟨[], closed (.inl rfl) same rfl rfl (fun _ _ => rfl)
                (fun t _ other => if_neg (here ▸ other))
                (.inr ⟨rfl, fun stack => bare.2 ((if_pos here.symm).symm.trans stack)⟩)
                (fun _ queued =>
                  (bare.not_queued ((congrArg Queued (if_pos here.symm)).symm.trans queued)).elim)⟩
  | rests resumption books =>
      exact ⟨[], closed (.inl rfl) books rfl rfl (fun _ _ => rfl) (fun _ _ _ => rfl)
        (.inl ⟨rfl, Books.posts_inKernel before.core.books.enter _⟩)
        (fun inKernel _ => by
          rw [Books.posts_inKernel] at inKernel
          exact Bool.noConfusion inKernel)⟩
  | opens creation child first books => exact ⟨[.system], created .zero _ first books⟩
  | outOfFrames creation child first state stats books =>
      exact ⟨[.system], created stats _ first books⟩

/-! ## Runs -/

theorem boot_flat (machine : Machine) : (machine.bootCore 0 1).books.Flat := by
  intro t rest
  change ((machine.bootCore 0 1).task t).kernelEsp ≠ _
  rw [bootCore_kernelEsp]
  split <;> simp

structure Accountable (kernel : SequenceKernel) : Prop where
  disciplined : Disciplined kernel
  flat : kernel.core.books.Flat

theorem step_books (accountable : Accountable before)
    (step : (checkedZeos machine).step before event after) : BookStep before event after :=
  execute_books step.1 (accountable.flat before.core.current) step.2

theorem step_accountable (accountable : Accountable before)
    (step : (checkedZeos machine).step before event after) : Accountable after where
  disciplined := execute_disciplined accountable.disciplined step.1 step.2
  flat := (step_books accountable step).flat accountable.flat

theorem boot_accountable (machine : Machine) :
    Accountable ⟨machine.bootCore 0 1, bootSequences⟩ :=
  ⟨boot_disciplined machine, boot_flat machine⟩

theorem step_posts (accountable : Accountable before)
    (step : (checkedZeos machine).step before event after) :
    ∃ closing, Posts before event closing after :=
  (step_books accountable step).posts accountable.disciplined

/-! ## Lifetimes -/

/-- Fork or clone make a task of a free one. -/
def Creates (t : TaskId) (transition : Recorded) : Prop :=
  ¬transition.before.Live t ∧ transition.after.Live t

/-- A task starts to live at the end of the history: at the start of the system or with the
last step. -/
def Begins (t : TaskId) (history : List Recorded) : Prop :=
  history = [] ∨ ∃ earlier creation, history = earlier ++ [creation] ∧ Creates t creation

theorem Creates.first (accountable : Accountable before)
    (step : (checkedZeos machine).step before event after) {t : TaskId}
    (creates : Creates t ⟨before, event, after⟩) :
    before.first .freequeue = .ok t ∧ event.Creation := by
  have processes := step_processes accountable.disciplined step
  rcases creates with ⟨dead, live⟩
  change ¬before.processes.live t at dead
  change after.processes.live t at live
  have taken : ∀ {child rest}, before.queues.elements .freequeue = child :: rest →
      (before.processes.live t ∨ t = child) → before.first .freequeue = .ok t := by
    intro child rest free either
    rw [either.resolve_left dead]
    exact first_eq free
  generalize after.processes = view at processes live
  cases processes with
  | keeps event view keeps full => exact absurd ((keeps.live t).mp live) dead
  | noMemory child rest free mm outOfFrames => exact absurd live dead
  | forked child rest free mm copied => exact ⟨taken free live, trivial⟩
  | cloned function stack child rest free => exact ⟨taken free live, trivial⟩
  | exited mm freed => exact absurd live.1 dead
  | moved amount mm result outcome => exact absurd live dead

theorem step_creates (accountable : Accountable before)
    (step : (checkedZeos machine).step before event after) {t : TaskId}
    (creates : Creates t ⟨before, event, after⟩) :
    after.core.books.account t = .zero ∧ (after.core.task t).kernelEsp = [.retFromFork] ∧
      after.core.inKernel = false ∧ after.core.current ≠ t ∧
      after.core.readings = before.core.readings + 4 := by
  rcases creates.first accountable step with ⟨free, creation⟩
  have dead : ¬before.Live t := creates.1
  have apart : t ≠ before.core.current := fun same => dead (.inr (.inl same))
  have revive : ∀ {books : Books}, after.core.books = books.leave →
      books.idleTask = before.core.idleTask → books.current = before.core.current →
      (after.core.task t).state = .run → False := by
    intro books same idle current state
    have idle' : after.core.idleTask = before.core.idleTask :=
      (congrArg Books.idleTask same).trans idle
    have current' : after.core.current = before.core.current :=
      (congrArg Books.current same).trans current
    rcases creates.2 with isIdle | isCurrent | waits
    · exact dead (.inl (isIdle.trans idle'))
    · exact apart (isCurrent.trans current')
    · exact waits state
  have running : (before.core.task t).state = .run := by
    by_contra waits
    exact dead (.inr (.inr waits))
  let entered := before.core.books.enter.posts (before.opening event)
  have idle : entered.idleTask = before.core.idleTask := Books.posts_idleTask _ _
  have current : entered.current = before.core.current := Books.posts_current _ _
  cases step_books accountable step with
  | refused creation states books =>
      exact (revive books idle current ((states t).trans running)).elim
  | closes noCreation closes => exact absurd creation noCreation
  | rests resumption books =>
      subst resumption
      exact absurd creation id
  | opens creation child first books =>
      cases free.symm.trans first
      have unposted := Books.post_other (entered.opened t .zero [.retFromFork]) .system
        (fun same => apart (same.trans current))
      have charged : entered.readings = before.core.readings + 2 := by
        cases event <;> first | rfl | exact absurd creation id
      refine ⟨?_, ?_, congrArg Books.inKernel books, ?_, ?_⟩
      · rw [books]
        exact unposted.trans (if_pos rfl)
      · exact (congrFun (congrArg Books.stack books) t).trans (if_pos rfl)
      · intro same
        exact apart (same.symm.trans ((congrArg Books.current books).trans current))
      · exact (congrArg Books.readings books).trans (congrArg (· + 2) charged)
  | outOfFrames creation child first state stats books =>
      cases free.symm.trans first
      exact (revive books idle current
        (state.trans accountable.disciplined.running)).elim

/-! ## Dispatches and the counter -/

section Counting

variable (t : TaskId)

/-- The quantum of the task ends. -/
def Expiration (transition : Recorded) : Prop :=
  transition.label = .clock ∧ transition.before.core.current = t ∧ transition.before.Expires

/-- The task goes on with the tail of `sched_next_rr`. -/
def Counted (transition : Recorded) : Prop :=
  transition.label = .resume ∧ transition.before.core.current = t ∧
    Queued (transition.before.core.task t).kernelEsp = true

/-- The task goes on somewhere else: for the first time, or after it has left the
processor to the idle task. -/
def Uncounted (transition : Recorded) : Prop :=
  transition.label = .resume ∧ transition.before.core.current = t ∧
    Queued (transition.before.core.task t).kernelEsp = false

instance : DecidablePred (Expiration t) := fun _ => inferInstanceAs (Decidable (_ ∧ _))

instance : DecidablePred (Counted t) := fun _ => inferInstanceAs (Decidable (_ ∧ _))

instance : DecidablePred (Uncounted t) := fun _ => inferInstanceAs (Decidable (_ ∧ _))

/-- The switch to the task is not over yet. -/
def Pending (kernel : SequenceKernel) : Prop :=
  kernel.core.inKernel = true ∧ kernel.core.current = t

instance (kernel : SequenceKernel) : Decidable (kernel.Live t) :=
  inferInstanceAs (Decidable (_ ∨ _ ∨ _))

instance : DecidablePred (Pending t) := fun _ => inferInstanceAs (Decidable (_ ∧ _))

end Counting

theorem opening_count (before after : SequenceKernel) (event : Event) :
    (before.opening event).count .count =
      (if Expiration before.core.current ⟨before, event, after⟩ then 1 else 0) +
        if Counted before.core.current ⟨before, event, after⟩ then 1 else 0 := by
  cases event with
  | resume =>
      rw [if_neg fun expires => Event.noConfusion expires.1, Nat.zero_add, opening]
      by_cases queued : Queued before.currentTask.kernelEsp = true
      · rw [if_pos queued, if_pos ⟨rfl, rfl, queued⟩]
        rfl
      · rw [if_neg queued, if_neg fun counted => queued counted.2.2]
        rfl
  | clock =>
      have other : ¬Counted before.core.current ⟨before, .clock, after⟩ :=
        fun counted => Event.noConfusion counted.1
      rw [if_neg other, opening]
      by_cases expires : before.Expires
      · rw [if_pos expires, if_pos ⟨rfl, rfl, expires⟩]
        rfl
      · rw [if_neg expires, if_neg fun expiration => expires expiration.2.2]
        rfl
  | _ =>
      rw [if_neg fun expires => Event.noConfusion expires.1,
        if_neg fun counted => Event.noConfusion counted.1]
      rfl

theorem Posts.totalTrans {closing : List Posting} (posts : Posts before event closing after)
    {t : TaskId} (live : before.Live t)
    (small : (before.core.books.account t).totalTrans < 4294967296) :
    (after.core.books.account t).totalTrans =
      Core.wrap ((before.core.books.account t).totalTrans +
        ((if Expiration t ⟨before, event, after⟩ then 1 else 0) +
          if Counted t ⟨before, event, after⟩ then 1 else 0)) := by
  rw [posts.account t live]
  by_cases running : t = before.core.current
  · subst running
    have none : closing.count .count = 0 := by
      rcases posts.shape with empty | system
      · rw [empty]
        rfl
      · rw [system]
        rfl
    have counted := Books.posts_totalTrans (t := before.core.current) before.core.books.enter
      (before.opening event ++ closing) small rfl
    rw [counted, List.count_append, none, Nat.add_zero, opening_count before after event]
    rfl
  · rw [Books.posts_other _ _ running, if_neg fun expires => running expires.2.1.symm,
      if_neg fun counted => running counted.2.1.symm]
    exact (Nat.mod_eq_of_lt small).symm

section Lifetime

variable {t : TaskId} {first last : SequenceKernel} {history : List Recorded}

theorem countP_snoc (p : Recorded → Prop) [DecidablePred p] (history : List Recorded)
    (transition : Recorded) :
    (history ++ [transition]).countP p = history.countP p + if p transition then 1 else 0 := by
  by_cases holds : p transition <;> simp [holds]

theorem dispatched_iff {transition : Recorded} :
    dispatched transition = some t ↔ Pending t transition.after := by
  unfold dispatched Pending
  split
  · rename_i inKernel
    simp [inKernel]
  · rename_i userMode
    simp [userMode]

theorem step_dispatched (step : (checkedZeos machine).step before event after) (t : TaskId) :
    (if dispatched ⟨before, event, after⟩ = some t then 1 else 0) +
        (if Pending t before then 1 else 0) =
      (if Counted t ⟨before, event, after⟩ then 1 else 0) +
        (if Uncounted t ⟨before, event, after⟩ then 1 else 0) +
        (if Pending t after then 1 else 0) := by
  have now : (dispatched ⟨before, event, after⟩ = some t) ↔ Pending t after := dispatched_iff
  have earlier : Pending t before ↔
      Counted t ⟨before, event, after⟩ ∨ Uncounted t ⟨before, event, after⟩ := by
    have mode := step.1.2
    by_cases resumes : event = .resume
    · rw [if_pos resumes] at mode
      constructor
      · intro pending
        cases queued : Queued (before.core.task t).kernelEsp with
        | true => exact .inl ⟨resumes, pending.2, queued⟩
        | false => exact .inr ⟨resumes, pending.2, queued⟩
      · rintro (counted | uncounted)
        · exact ⟨mode, counted.2.1⟩
        · exact ⟨mode, uncounted.2.1⟩
    · rw [if_neg resumes] at mode
      constructor
      · intro pending
        exact absurd (mode.1.symm.trans pending.1) Bool.false_ne_true
      · rintro (counted | uncounted)
        · exact absurd counted.1 resumes
        · exact absurd uncounted.1 resumes
  have apart : Counted t ⟨before, event, after⟩ → ¬Uncounted t ⟨before, event, after⟩ :=
    fun counted uncounted =>
      Bool.noConfusion (counted.2.2.symm.trans uncounted.2.2)
  simp only [now, earlier]
  by_cases counted : Counted t ⟨before, event, after⟩
  · have other := apart counted
    simp only [counted, other, true_or, if_true, if_false]
    omega
  · by_cases uncounted : Uncounted t ⟨before, event, after⟩
    · simp only [counted, uncounted, or_true, if_true, if_false]
      omega
    · simp only [counted, uncounted, or_self, if_false]
      omega

theorem lifetime_counts (run : (checkedZeos machine).Run first history last)
    (accountable : Accountable first) (fresh : (first.core.books.account t).totalTrans = 0)
    (settled : ¬Pending t first) (alive : ∀ transition ∈ history, transition.before.Live t) :
    Accountable last ∧
      (last.core.books.account t).totalTrans =
        Core.wrap (history.countP (Expiration t) + history.countP (Counted t)) ∧
      history.countP (fun transition => dispatched transition = some t) =
        history.countP (Counted t) + history.countP (Uncounted t) +
          if Pending t last then 1 else 0 := by
  induction run with
  | nil => exact ⟨accountable, fresh, by simp [settled]⟩
  | @snoc history middle event last run step induction =>
      rcases induction fun transition member =>
        alive transition (List.mem_append_left _ member) with
        ⟨before, counted, turns⟩
      have live := alive ⟨middle, event, last⟩ (by simp)
      rcases step_posts before step with ⟨closing, posts⟩
      have small : (middle.core.books.account t).totalTrans < 4294967296 := by
        rw [counted]
        exact Nat.mod_lt _ (by decide)
      have written := posts.totalTrans live small
      have switches := step_dispatched step t
      refine ⟨step_accountable before step, ?_, ?_⟩
      · rw [written, counted, countP_snoc, countP_snoc]
        unfold Core.wrap
        omega
      · rw [countP_snoc, countP_snoc, countP_snoc]
        omega

theorem bootCore_totalTrans (machine : Machine) (t : TaskId) :
    ((machine.bootCore 0 1).task t).pStats.totalTrans = 0 := by
  fin_cases t <;> rfl

theorem run_accountable (run : (checkedZeos machine).Run first history last)
    (accountable : Accountable first) : Accountable last :=
  run.invariant accountable fun _ _ step accountable => step_accountable accountable step

theorem Begins.fresh (begins : Begins t history)
    (run : (checkedZeos machine).Run ⟨machine.bootCore 0 1, bootSequences⟩ history last) :
    (last.core.books.account t).totalTrans = 0 ∧ last.core.inKernel = false := by
  rcases begins with none | ⟨earlier, creation, split, creates⟩
  · subst none
    have same := run.of_nil
    subst same
    exact ⟨bootCore_totalTrans machine t, (bootCore_frame machine).2.2.1⟩
  · subst split
    rcases run.of_snoc with ⟨before, step, same⟩
    have made := step_creates (run_accountable before (boot_accountable machine)) step
      (show Creates t ⟨creation.before, creation.label, last⟩ from same ▸ creates)
    exact ⟨congrArg Stats.totalTrans made.1, made.2.2.1⟩

end Lifetime

/-- `total_trans` tells how often a task has been dispatched exactly when, up to the
size of the counter, its quantum has ended as often as it has been dispatched to
somewhere else than the tail of `sched_next_rr`, or has not got there yet. -/
theorem transitionsCounted {machine : Machine} {history : List (Transition PointerKernel Event)}
    {last : PointerKernel} (reaches : (zeos machine).Reaches history last)
    {earlier since : List Recorded} (recorded : record history = earlier ++ since) {t : TaskId}
    (begins : Begins t earlier) (alive : ∀ transition ∈ since, transition.before.Live t) :
    (last.core.task t).pStats.totalTrans =
        since.countP (fun transition => dispatched transition = some t) ↔
      since.countP (fun transition => dispatched transition = some t) < 4294967296 ∧
        since.countP (Expiration t) % 4294967296 =
          (since.countP (Uncounted t) + if Pending t last.toSequences then 1 else 0) %
            4294967296 := by
  rcases (run_toSequences reaches).2 with ⟨first, start, run⟩
  rw [show history.map _ = _ from recorded, init_eq start] at run
  rcases run.split with ⟨middle, before, after⟩
  rcases begins.fresh before with ⟨fresh, userMode⟩
  have settled : ¬Pending t middle := fun pending =>
    Bool.noConfusion (userMode.symm.trans pending.1)
  rcases lifetime_counts after (run_accountable before (boot_accountable machine)) fresh settled
    alive with ⟨-, counted, turns⟩
  have total : (last.core.task t).pStats.totalTrans =
      Core.wrap (since.countP (Expiration t) + since.countP (Counted t)) := counted
  rw [total]
  unfold Core.wrap
  omega

def signalledByClone : List Event :=
  [.clone 1048576 1081344, .semInit 0 0, .semWait 0, .resume, .semSignal 0, .semWait 0, .resume]

theorem transitionsCounted_signalled :
    ∃ history last, (zeos Machine.sample).Reaches history last ∧
      (record history).countP (fun transition => dispatched transition = some 1) = 1 ∧
      (last.core.task 1).pStats.totalTrans =
        (record history).countP fun transition => dispatched transition = some 1 := by
  have computed : (replay signalledByClone ⟨Machine.sample.bootCore 0 1, bootLinks⟩).any (fun run =>
      ((record run.1).all fun transition => transition.before.Live 1) &&
        decide ((record run.1).countP (fun transition => dispatched transition = some 1) = 1) &&
        decide ((record run.1).countP (Expiration 1) = 0 ∧ (record run.1).countP (Uncounted 1) = 0 ∧
          ¬Pending 1 run.2.toSequences)) = true := by
    decide +kernel
  rcases reaches_of_replay computed with ⟨history, last, reaches, found⟩
  simp only [Bool.and_eq_true, decide_eq_true_eq, List.all_eq_true] at found
  rcases found with ⟨⟨alive, once⟩, expirations, uncounted, settled⟩
  refine ⟨history, last, reaches, once, ?_⟩
  apply (transitionsCounted reaches rfl (.inl rfl) alive).mpr
  rw [once, expirations, uncounted, if_neg settled]
  decide

def cloneRuns : List Event := [.clone 1048576 1081344, .semInit 0 0, .semWait 0, .resume]

theorem transitions_firstDispatch :
    ∃ history last creation since, (zeos Machine.sample).Reaches history last ∧
      record history = creation :: since ∧ Creates 2 creation ∧
      (∀ transition ∈ since, transition.before.Live 2) ∧ last.core.idleTask ≠ 2 ∧
      last.core.inKernel = false ∧
      since.countP (fun transition => dispatched transition = some 2) = 1 ∧
      (last.core.task 2).pStats.totalTrans = 0 := by
  have computed : (replay cloneRuns ⟨Machine.sample.bootCore 0 1, bootLinks⟩).any (fun run =>
      passesAt 0 (fun creation since => decide (¬creation.before.Live 2 ∧ creation.after.Live 2) &&
        (since.all fun transition => transition.before.Live 2) &&
        decide (since.countP (fun transition => dispatched transition = some 2) = 1))
          (record run.1) &&
        decide (run.2.core.idleTask ≠ 2 ∧ run.2.core.inKernel = false ∧
          (run.2.core.task 2).pStats.totalTrans = 0)) = true := by
    decide +kernel
  rcases reaches_of_replay computed with ⟨history, last, reaches, found⟩
  simp only [Bool.and_eq_true, decide_eq_true_eq] at found
  rcases found with ⟨passes, idle, userMode, total⟩
  rcases split_of_passesAt passes with ⟨creation, since, split, tested⟩
  simp only [Bool.and_eq_true, decide_eq_true_eq, List.all_eq_true] at tested
  rcases tested with ⟨⟨creates, alive⟩, once⟩
  exact ⟨history, last, creation, since, reaches, split, creates, alive, idle, userMode, once,
    total⟩

end Zeos
