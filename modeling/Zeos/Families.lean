import Zeos.ForkBounds
import Zeos.MemoryRuns

/-! # Processes and their threads

A fork starts a process of its own, and a clone adds a thread to the caller's. As long
as forks find directories, two tasks have one page directory exactly when they are
threads of one process.
-/

namespace Zeos

open Foundation Kernel

/-! ## Leaders -/

namespace Processes

/-- Who leads which task after a step, as a process number: a forked child leads itself,
and the child of a clone has the leader of the caller. -/
def lead (view after : Processes) (caller : TaskId) (event : Event) (leader : TaskId → Int) :
    TaskId → Int :=
  if after.globalPID = view.globalPID then leader
  else
    match view.freequeue with
    | [] => leader
    | child :: _ =>
        Function.update leader child (if event = .fork then view.globalPID else leader caller)

theorem lead_added {view after : Processes} {caller child : TaskId} {rest : List TaskId}
    {leader : TaskId → Int} (event : Event) (free : view.freequeue = child :: rest)
    (next : after.globalPID = view.globalPID + 1) :
    view.lead after caller event leader =
      Function.update leader child (if event = .fork then view.globalPID else leader caller) := by
  rw [lead, if_neg (by omega), free]

end Processes

/-- The leaders after a run: at first `idle_task` and `task1` are on their own. -/
def leaders (history : List Recorded) : TaskId → Int :=
  history.foldl (fun leader transition =>
    transition.before.processes.lead transition.after.processes transition.before.core.current
      transition.label leader) fun t => (t.val : Int)

theorem leaders_snoc (history : List Recorded) (transition : Recorded) :
    leaders (history ++ [transition]) =
      transition.before.processes.lead transition.after.processes transition.before.core.current
        transition.label (leaders history) := by
  rw [leaders, List.foldl_append]
  rfl

/-! ## One directory for a process -/

namespace Processes

theorem Counted.not_live {view : Processes} {caller t : TaskId} {slot : DirSlot}
    (counted : view.Counted) (reserved : view.Reserved) (sound : view.Sound caller)
    (found : view.mm.freeSlot = some slot) (live : view.live t) :
    view.dirPagesBaseAddr t ≠ slot := by
  intro own
  have allocated := sound.liveNotFree live
  have free := Mm.freeSlot_some found
  have other : slot ≠ 0 := by
    intro first
    rw [first, reserved.taken] at free
    cases free
  have member : t ∈ view.users slot :=
    mem_users.mpr ⟨allocated, (reserved.paired t allocated).symm.trans own⟩
  have users := counted slot other
  rw [free] at users
  have nobody : (view.users slot).card = 0 := by omega
  rw [Finset.card_eq_zero.mp nobody] at member
  cases member

/-- The leaders have numbers that have been given out, and tell which tasks have a
directory in common. -/
structure Led (view : Processes) (leader : TaskId → Int) : Prop where
  below : ∀ t, view.live t → leader t < view.globalPID
  together : ∀ t other, view.live t → view.live other →
    (view.dirPagesBaseAddr t = view.dirPagesBaseAddr other ↔ leader t = leader other)

theorem Led.add {view after : Processes} {caller child : TaskId} {rest : List TaskId}
    {leader : TaskId → Int} {slot : DirSlot} {number : Int} (led : view.Led leader)
    (sound : view.Sound caller) (free : view.freequeue = child :: rest)
    (directories : after.dirPagesBaseAddr = Function.update view.dirPagesBaseAddr child slot)
    (live : ∀ t, after.live t → view.live t ∨ t = child)
    (next : after.globalPID = view.globalPID + 1) (given : number < after.globalPID)
    (agrees : ∀ t, view.live t → (view.dirPagesBaseAddr t = slot ↔ leader t = number)) :
    after.Led (Function.update leader child number) where
  below t alive := by
    rcases live t alive with old | isChild
    · rw [sound.update_live free old, next]
      have before := led.below t old
      omega
    · rw [isChild, Function.update_self]
      exact given
  together t other alive otherAlive := by
    rw [directories]
    rcases live t alive with old | isChild <;> rcases live other otherAlive with older | same
    · rw [sound.update_live free old, sound.update_live free old, sound.update_live free older,
        sound.update_live free older]
      exact led.together t other old older
    · rw [sound.update_live free old, sound.update_live free old, same, Function.update_self,
        Function.update_self]
      exact agrees t old
    · rw [sound.update_live free older, sound.update_live free older, isChild,
        Function.update_self, Function.update_self, eq_comm, agrees other older, eq_comm]
    · rw [isChild, same]
      exact ⟨fun _ => rfl, fun _ => rfl⟩

end Processes

open Processes in
theorem ProcessStep.led {view after : Processes} {caller : TaskId} {event : Event}
    {leader : TaskId → Int} (sound : view.Sound caller)
    (step : ProcessStep view caller event after) (finds : FindsDirectory view event)
    (reserved : view.Reserved) (counted : view.Counted) (led : view.Led leader) :
    after.Led (view.lead after caller event leader) := by
  have unnumbered : after.globalPID = view.globalPID →
      view.lead after caller event leader = leader := fun same => if_pos same
  cases step with
  | keeps event after keeps full =>
      rw [unnumbered keeps.globalPID]
      constructor
      · intro t live
        rw [keeps.globalPID]
        exact led.below t ((keeps.live t).mp live)
      · intro t other live otherLive
        rw [keeps.dirPagesBaseAddr]
        exact led.together t other ((keeps.live t).mp live) ((keeps.live other).mp otherLive)
  | noMemory child rest free mm outOfFrames =>
      rw [unnumbered rfl]
      refine ⟨led.below, fun t other live otherLive => ?_⟩
      change Function.update view.dirPagesBaseAddr child _ t =
        Function.update view.dirPagesBaseAddr child _ other ↔ _
      rw [sound.update_live free live, sound.update_live free otherLive]
      exact led.together t other live otherLive
  | forked child rest free mm copied =>
      rcases Option.ne_none_iff_exists'.mp (finds rfl (by simp [free])) with ⟨taken, found⟩
      rw [lead_added _ free rfl]
      apply led.add sound free rfl (fun t live => live) rfl (Int.lt_succ_self _)
      intro t live
      rw [newSlot, found]
      constructor
      · intro own
        exact absurd own (counted.not_live reserved sound found live)
      · intro fresh
        exact absurd fresh (Int.ne_of_lt (led.below t live))
  | cloned function stack child rest free =>
      rw [lead_added _ free rfl]
      apply led.add sound free rfl (fun t live => live) rfl
      · exact Int.lt_add_one_of_le (Int.le_of_lt (led.below caller sound.callerLive))
      · intro t live
        exact led.together t caller live sound.callerLive
  | exited mm freed =>
      rw [unnumbered rfl]
      exact ⟨fun t live => led.below t live.1, fun t other live otherLive =>
        led.together t other live.1 otherLive.1⟩
  | moved amount mm result outcome =>
      rw [unnumbered rfl]
      exact ⟨led.below, led.together⟩

theorem boot_led (machine : Machine) :
    (Kernel.processes ⟨machine.bootCore 0 1, bootSequences⟩).Led (leaders []) where
  below t live := by
    change (t.val : Int) < 2
    rcases boot_live live with same | same <;> subst same <;> decide
  together t other live otherLive := by
    change ((machine.bootCore 0 1).task t).dirPagesBaseAddr =
      ((machine.bootCore 0 1).task other).dirPagesBaseAddr ↔ (t.val : Int) = other.val
    rw [(bootCore_slots machine t).1, (bootCore_slots machine other).1]
    rcases boot_live live with same | same <;> rcases boot_live otherLive with here | here <;>
      subst same here <;> decide

/-! ## Runs -/

/-- Every fork of a run that gets a task structure gets a directory, too. -/
def ForksFindDirectories (history : List Recorded) : Prop :=
  ∀ transition ∈ history, FindsDirectory transition.before.processes transition.label

theorem led_of_reaches {machine : Machine} {history : List Recorded} {last : SequenceKernel}
    (reaches : (checkedZeos machine).Reaches history last)
    (finds : ForksFindDirectories history) : last.processes.Led (leaders history) := by
  induction history using List.reverseRec generalizing last with
  | nil =>
      rcases reaches with ⟨first, start, run⟩
      rw [← run.of_nil, init_eq start]
      exact boot_led machine
  | append_singleton history transition induction =>
      have moved := reaches_memoryStep reaches (List.mem_append_right _ (List.mem_singleton_self _))
      rcases reaches with ⟨first, start, run⟩
      rcases run.of_snoc with ⟨earlier, -, same⟩
      have before : ForksFindDirectories history :=
        fun recorded member => finds recorded (List.mem_append_left _ member)
      have counted := counted_of_reaches ⟨first, start, earlier⟩ before
      rw [leaders_snoc, ← same]
      exact moved.moved.led moved.sound
        (finds transition (List.mem_append_right _ (List.mem_singleton_self _))) moved.reserved
        counted (induction ⟨first, start, earlier⟩ before)

/-- In a run whose forks find directories, two live tasks have the same directory exactly
when they are threads of the same process. -/
theorem directoriesAreProcesses {machine : Machine}
    {history : List (Transition PointerKernel Event)} {last : PointerKernel}
    (reaches : (zeos machine).Reaches history last)
    (finds : ForksFindDirectories (record history)) {t other : TaskId}
    (live : last.toSequences.Live t) (otherLive : last.toSequences.Live other) :
    (last.core.task t).dirPagesBaseAddr = (last.core.task other).dirPagesBaseAddr ↔
      leaders (record history) t = leaders (record history) other :=
  (led_of_reaches (run_toSequences reaches).2 finds).together t other live otherLive

theorem reaches_forkedAtBoot :
    ∃ history last frames, (zeos Machine.sample).Reaches history last ∧
      ForksFindDirectories (record history) ∧
      last.toSequences = forkedAtBoot
        ((Machine.sample.bootCore 0 1).mm.allocateDir.1.forkCopied 3 2 2 frames) ∧
      last.toSequences.Live 1 ∧ last.toSequences.Live 2 ∧
      leaders (record history) 1 = 1 ∧ leaders (record history) 2 = 2 := by
  rcases boot_forks with ⟨frames, -, fork⟩
  have start : (checkedZeos Machine.sample).Reaches _ _ :=
    ⟨_, boot_sequences Machine.sample, .single fork⟩
  rcases reaches_of_sequences start with ⟨history, last, reaches, recorded, same⟩
  refine ⟨history, last, frames, reaches, ?_, same, ?_, ?_, ?_, ?_⟩
  · rw [recorded]
    intro transition member
    rw [List.mem_singleton.mp member]
    intro _ _ missing
    cases (boot_freeSlot Machine.sample).symm.trans missing
  · rw [same]
    exact .inr (.inl rfl)
  · rw [same]
    exact .inr (.inr ProcessState.noConfusion)
  · rw [recorded]
    rfl
  · rw [recorded]
    rfl

theorem directoriesAreProcesses_fork :
    ∃ history last, (zeos Machine.sample).Reaches history last ∧
      ((last.core.task 1).dirPagesBaseAddr = (last.core.task 2).dirPagesBaseAddr ↔
        leaders (record history) 1 = leaders (record history) 2) := by
  rcases reaches_forkedAtBoot with ⟨history, last, -, reaches, finds, -, father, child, -⟩
  exact ⟨history, last, reaches, directoriesAreProcesses reaches finds father child⟩

end Zeos
