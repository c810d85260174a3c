import Zeos.FirstReturn
import Zeos.Foundation.TransitionSystem

/-! # Switching between tasks

Any sequence of calls of `task_switch`, of new tasks and of what the running task does in
between, from the end of `init_task1` on. Every stack but the one of the running task
holds the frame of its last switch or the one it has been built with.
-/

namespace Zeos

open Foundation Foundation.Machine

inductive Standing
  | absent
  | fresh
  | suspended (call : Cpu) (returnTo : Word)

structure SwitchState (Task : Type) where
  cpu : Cpu
  current : Task
  standing : Task → Standing

inductive SwitchEvent (Task : Type)
  | works
  | creates (child : Task) (creation : Creation)
  | switches (new : Task) (returnTo : Word)

variable {Task : Type}

/-- The bytes that belong to the switch back to a task: from its saved stack pointer to the end
of its stack, and the two fields of its PCB. -/
def KernelImage.Saved (image : KernelImage Task) (memory : ByteMap) (task : Task) (byte : Word) :
    Prop :=
  (byte - image.kernelEsp memory task).toNat <
      (image.base task + 4096 - image.kernelEsp memory task).toNat ∨
    InWord (image.base task + 4) byte ∨ InWord (image.base task + 16) byte

/-- What the running task may do: anything but write the saved frames of the other tasks, the
directories of tasks, the TSS and the registers that belong to the switch. -/
structure KernelImage.Works (image : KernelImage Task) (before : SwitchState Task) (after : Cpu) :
    Prop where
  cr3 : after.cr3 = before.cpu.cr3
  msr : after.msr 0x175 = before.cpu.msr 0x175
  tss : after.memory.load (image.tss + 4) = before.cpu.memory.load (image.tss + 4)
  dirPages : image.dirPages after.memory before.current =
    image.dirPages before.cpu.memory before.current
  others : ∀ task, task ≠ before.current → before.standing task ≠ .absent → ∀ byte,
    image.Saved before.cpu.memory task byte → after.memory byte = before.cpu.memory byte

/-- The running task calls `task_switch`. -/
def SwitchState.suspend [DecidableEq Task] (state : SwitchState Task) (returnTo : Word) :
    Task → Standing :=
  Function.update state.standing state.current (.suspended state.cpu returnTo)

/-- `sys_fork` and `sys_clone` may write the whole union of the child before they build its
frame, below the context of the parent. -/
structure KernelImage.Builds (image : KernelImage Task) (before : SwitchState Task) (child : Task)
    (creation : Creation) (after : Cpu) : Prop where
  different : child ≠ before.current
  current : before.cpu.registers.esp &&& 0xFFFFF000 = image.base before.current
  above : 28 ≤ (before.cpu.registers.ebp - image.base before.current).toNat
  below : (before.cpu.registers.ebp - image.base before.current).toNat ≤ 4024
  built : ∃ memory : ByteMap,
    (∀ byte, 4096 ≤ (byte - image.base child).toNat → memory byte = before.cpu.memory byte) ∧
    after = { before.cpu with
      memory := creation.frame image child { before.cpu with memory := memory } }

/-- The kernel after `init_idle` and `init_task1`. -/
def KernelImage.SwitchInit [DecidableEq Task] (image : KernelImage Task)
    (state : SwitchState Task) : Prop :=
  ∃ (idle task1 : Task) (cpu : Cpu), idle ≠ task1 ∧
    state =
      { cpu := image.initTask1 task1 { cpu with memory := image.initIdle idle cpu.memory }
        current := task1
        standing := Function.update (fun _ => .absent) idle .fresh }

inductive KernelImage.SwitchStep [DecidableEq Task] (image : KernelImage Task) :
    SwitchState Task → SwitchEvent Task → SwitchState Task → Prop
  | works {before : SwitchState Task} {cpu : Cpu} (works : image.Works before cpu) :
      SwitchStep image before .works { before with cpu := cpu }
  | creates {before : SwitchState Task} {child : Task} {creation : Creation} {cpu : Cpu}
      (builds : image.Builds before child creation cpu) :
      SwitchStep image before (.creates child creation)
        { before with cpu := cpu, standing := Function.update before.standing child .fresh }
  | switches {before : SwitchState Task} {new : Task} {returnTo : Word} {cpu : Cpu}
      (switches : image.Switches before.current new returnTo before.cpu)
      (outside : image.program.Outside returnTo)
      (ready : before.suspend returnTo new ≠ .absent)
      (completes : image.program.Completes before.cpu cpu) :
      SwitchStep image before (.switches new returnTo)
        { cpu := cpu
          current := new
          standing := Function.update (before.suspend returnTo) new .absent }

def KernelImage.switching [DecidableEq Task] (image : KernelImage Task) :
    TransitionSystem (SwitchState Task) (SwitchEvent Task) where
  init := image.SwitchInit
  step := image.SwitchStep

/-! ## The invariant -/

section Invariant

variable {image : KernelImage Task} {memory other : ByteMap} {task : Task} {call cpu : Cpu}
variable {returnTo : Word}

structure KernelImage.FreshAt (image : KernelImage Task) (memory : ByteMap) (task : Task) :
    Prop where
  inside : (image.kernelEsp memory task - image.base task).toNat ≤ 4088
  start : image.program.Outside (memory.load (image.kernelEsp memory task + 4))

/-- The stack of a task that has called `task_switch`. -/
structure KernelImage.SuspendedAt (image : KernelImage Task) (memory : ByteMap) (task : Task)
    (call : Cpu) (returnTo : Word) : Prop where
  kernelEsp : image.kernelEsp memory task = call.registers.esp - 28
  room : 64 ≤ (call.registers.esp - image.base task).toNat
  inside : (call.registers.esp - image.base task).toNat ≤ 4088
  frame : ∃ argument, memory.Holds (call.registers.esp - 28)
    (image.switchFrame call argument returnTo)
  outside : image.program.Outside returnTo

def KernelImage.StandingAt (image : KernelImage Task) (memory : ByteMap) (task : Task) :
    Standing → Prop
  | .absent => True
  | .fresh => image.FreshAt memory task
  | .suspended call returnTo => image.SuspendedAt memory task call returnTo

structure KernelImage.Switchable (image : KernelImage Task) (state : SwitchState Task) : Prop where
  cr3 : state.cpu.cr3 = image.dirPages state.cpu.memory state.current
  tss : state.cpu.memory.load (image.tss + 4) = image.base state.current + 4096
  msr : state.cpu.msr 0x175 = 0#32 ++ (image.base state.current + 4096)
  others : ∀ task, task ≠ state.current →
    image.StandingAt state.cpu.memory task (state.standing task)

theorem KernelImage.FreshAt.congr (fresh : image.FreshAt memory task)
    (agree : ∀ byte, image.Saved memory task byte → other byte = memory byte) :
    image.FreshAt other task := by
  have inside := fresh.inside
  have pointer : image.kernelEsp other task = image.kernelEsp memory task :=
    ByteMap.load_congr fun byte within => agree byte (Or.inr (Or.inr within))
  have start : other.load (image.kernelEsp memory task + 4) =
      memory.load (image.kernelEsp memory task + 4) := by
    apply ByteMap.load_congr
    intro byte within
    apply agree
    left
    rw [InWord] at within
    bv_omega
  refine ⟨by rw [pointer]; exact inside, ?_⟩
  rw [pointer, start]
  exact fresh.start

theorem KernelImage.SuspendedAt.congr (suspended : image.SuspendedAt memory task call returnTo)
    (agree : ∀ byte, image.Saved memory task byte → other byte = memory byte) :
    image.SuspendedAt other task call returnTo := by
  have room := suspended.room
  have inside := suspended.inside
  have kernelEsp := suspended.kernelEsp
  rcases suspended.frame with ⟨argument, frame⟩
  refine ⟨?_, room, inside, ⟨argument, frame.congr (by simp [KernelImage.switchFrame]) ?_⟩,
    suspended.outside⟩
  · rw [← kernelEsp]
    exact ByteMap.load_congr fun byte within => agree byte (Or.inr (Or.inr within))
  · intro byte within
    apply agree
    left
    have below : (byte - (call.registers.esp - 28)).toNat < 36 := by
      simpa [KernelImage.switchFrame] using within
    rw [kernelEsp]
    bv_omega

theorem KernelImage.StandingAt.congr {standing : Standing}
    (holds : image.StandingAt memory task standing)
    (agree : standing ≠ .absent → ∀ byte, image.Saved memory task byte →
      other byte = memory byte) : image.StandingAt other task standing := by
  cases standing with
  | absent => trivial
  | fresh =>
      have fresh : image.FreshAt memory task := holds
      exact fresh.congr (agree Standing.noConfusion)
  | suspended call returnTo =>
      have suspended : image.SuspendedAt memory task call returnTo := holds
      exact suspended.congr (agree Standing.noConfusion)

theorem KernelImage.StandingAt.page {standing : Standing} {byte : Word}
    (holds : image.StandingAt memory task standing) (stands : standing ≠ .absent)
    (saved : image.Saved memory task byte) : (byte - image.base task).toNat < 4096 := by
  have pointer : (image.kernelEsp memory task - image.base task).toNat ≤ 4096 := by
    cases standing with
    | absent => exact absurd rfl stands
    | fresh =>
        have fresh : image.FreshAt memory task := holds
        exact Nat.le_trans fresh.inside (by decide)
    | suspended call returnTo =>
        have suspended : image.SuspendedAt memory task call returnTo := holds
        have room := suspended.room
        have inside := suspended.inside
        rw [suspended.kernelEsp]
        bv_omega
  rcases saved with stack | dirPages | kernelEsp
  · bv_omega
  · rw [InWord] at dirPages
    bv_omega
  · rw [InWord] at kernelEsp
    bv_omega

theorem KernelImage.StandingAt.congr_page {standing : Standing}
    (holds : image.StandingAt memory task standing)
    (agree : ∀ byte, (byte - image.base task).toNat < 4096 → other byte = memory byte) :
    image.StandingAt other task standing :=
  holds.congr fun stands byte saved => agree byte (holds.page stands saved)

/-! ## The steps -/

variable {before : SwitchState Task} {child : Task} {creation : Creation}

theorem KernelImage.Switchable.works (switchable : image.Switchable before)
    (works : image.Works before cpu) : image.Switchable { before with cpu := cpu } where
  cr3 := works.cr3.trans (switchable.cr3.trans works.dirPages.symm)
  tss := works.tss.trans switchable.tss
  msr := works.msr.trans switchable.msr
  others task different := (switchable.others task different).congr (works.others task different)

/-- The pointer to the frame of a child and the address that it starts at, for whatever place
the frame of its creation has. -/
theorem Creation.frame_start (creation : Creation) {offset : Word}
    (place : cpu.registers.ebp - (cpu.registers.esp &&& 0xFFFFF000) = offset)
    (above : 28 ≤ offset.toNat) (below : offset.toNat ≤ 4024) :
    image.kernelEsp (creation.frame image child cpu) child = image.base child + (offset - 4) ∧
      (creation.frame image child cpu).load (image.base child + offset) = image.retFromFork := by
  have next : image.base child + offset - 4 = image.base child + (offset - 4) := by
    bv_omega
  have apart (stored loaded : Word) (far : 4 ≤ (loaded - stored).toNat)
      (farther : 4 ≤ (stored - loaded).toNat) :
      Apart (image.base child + stored) (image.base child + loaded) :=
    (apart_add_add _ _ _).mpr ⟨far, farther⟩
  have fork : image.kernelEsp (image.forkFrame child cpu) child =
        image.base child + (offset - 4) ∧
      (image.forkFrame child cpu).load (image.base child + offset) = image.retFromFork := by
    simp only [KernelImage.forkFrame, place, next]
    refine ⟨ByteMap.load_store _ _ _, ?_⟩
    rw [ByteMap.load_store_apart _ (apart 16 offset (by bv_omega) (by bv_omega)),
      ByteMap.load_store_apart _ (apart (offset - 4) offset (by bv_omega) (by bv_omega)),
      ByteMap.load_store]
  cases creation with
  | fork => exact fork
  | clone function stack =>
      have eip (loaded : Word) (inside : loaded.toNat ≤ 4024) :
          Apart (image.base child + 4 * (1024 - 5)) (image.base child + loaded) :=
        apart _ _ (by bv_omega) (by bv_omega)
      have esp (loaded : Word) (inside : loaded.toNat ≤ 4024) :
          Apart (image.base child + 4 * (1024 - 2)) (image.base child + loaded) :=
        apart _ _ (by bv_omega) (by bv_omega)
      constructor
      · apply (ByteMap.load_store_apart stack (esp 16 (by decide))).trans
        exact (ByteMap.load_store_apart function (eip 16 (by decide))).trans fork.1
      · apply (ByteMap.load_store_apart stack (esp offset below)).trans
        exact (ByteMap.load_store_apart function (eip offset below)).trans fork.2

theorem Creation.frame_fresh (creation : Creation) {offset : Word}
    (place : cpu.registers.ebp - (cpu.registers.esp &&& 0xFFFFF000) = offset)
    (above : 28 ≤ offset.toNat) (below : offset.toNat ≤ 4024) :
    image.FreshAt (creation.frame image child cpu) child := by
  rcases @Creation.frame_start _ image cpu child creation _ place above below with ⟨pointer, start⟩
  have back : image.base child + (offset - 4) + 4 = image.base child + offset := by
    bv_omega
  refine ⟨?_, ?_⟩
  · rw [pointer]
    bv_omega
  · rw [pointer, back, start]
    exact image.retFromFork_outside

theorem KernelImage.Switchable.creates [DecidableEq Task] (switchable : image.Switchable before)
    (builds : image.Builds before child creation cpu) :
    image.Switchable { before with
      cpu := cpu, standing := Function.update before.standing child .fresh } := by
  rcases builds.built with ⟨memory, prepared, built⟩
  have place : before.cpu.registers.ebp - (before.cpu.registers.esp &&& 0xFFFFF000) =
      before.cpu.registers.ebp - image.base before.current := by
    rw [builds.current]
  have above := builds.above
  have below := builds.below
  have kept : ∀ byte, 4096 ≤ (byte - image.base child).toNat →
      cpu.memory byte = before.cpu.memory byte := by
    intro byte outside
    rw [built, ← prepared byte outside]
    exact creation.frame_outside (by rw [place]; omega) (by rw [place]; omega) outside
  have elsewhere {task : Task} {byte : Word} (other : task ≠ child)
      (inside : (byte - image.base task).toNat < 4096) :
      cpu.memory byte = before.cpu.memory byte := by
    apply kept
    by_contra within
    exact other (image.eq_of_inside inside (by omega))
  have dirPages : image.dirPages cpu.memory before.current =
      image.dirPages before.cpu.memory before.current := by
    apply ByteMap.load_congr
    intro byte inside
    have near := near_of_inWord inside
    exact elsewhere builds.different.symm (by omega)
  have tss : cpu.memory.load (image.tss + 4) = before.cpu.memory.load (image.tss + 4) :=
    ByteMap.load_congr fun byte inside => kept byte (image.tss_outside inside child)
  have registers : cpu.cr3 = before.cpu.cr3 ∧ cpu.msr = before.cpu.msr := by
    rw [built]
    exact ⟨rfl, rfl⟩
  exact
    { cr3 := registers.1.trans (switchable.cr3.trans dirPages.symm)
      tss := tss.trans switchable.tss
      msr := by
        have msr := switchable.msr
        rw [← registers.2] at msr
        exact msr
      others := by
        intro task different
        by_cases new : task = child
        · subst new
          show image.StandingAt cpu.memory task (Function.update before.standing task .fresh task)
          rw [Function.update_self, built]
          exact creation.frame_fresh place above below
        · show image.StandingAt cpu.memory task (Function.update before.standing child .fresh task)
          rw [Function.update_of_ne new]
          exact (switchable.others task different).congr_page fun byte inside =>
            elsewhere new inside }

/-- What a task finds when its call of `task_switch` returns: its stack pointer is the one from
before the return address was pushed. -/
structure KernelImage.Returned (image : KernelImage Task) (task : Task) (call : Cpu)
    (returnTo : Word) (after : Cpu) : Prop where
  eip : after.eip = returnTo
  esp : after.registers.esp = call.registers.esp + 4
  ebp : after.registers.ebp = call.registers.ebp
  ebx : after.registers.ebx = call.registers.ebx
  esi : after.registers.esi = call.registers.esi
  edi : after.registers.edi = call.registers.edi
  cr3 : after.cr3 = image.dirPages after.memory task
  tss : after.memory.load (image.tss + 4) = image.base task + 4096
  msr : after.msr 0x175 = 0#32 ++ (image.base task + 4096)

variable {old new : Task} {after : Cpu}

theorem KernelImage.Switched.owned (switched : image.Switched old new returnTo cpu after)
    (switches : image.Switches old new returnTo cpu)
    (cr3 : cpu.cr3 = image.dirPages cpu.memory old) :
    after.cr3 = image.dirPages after.memory new ∧
      after.msr 0x175 = 0#32 ++ (image.base new + 4096) := by
  constructor
  · rw [switched.dirPages switches, switched.cr3]
    by_cases same : image.dirPages cpu.memory old = image.dirPages cpu.memory new
    · rw [if_pos same, cr3, same]
    · rw [if_neg same]
  · rw [switched.msr, Function.update_self]

theorem KernelImage.Switched.returns {since : Word}
    (switched : image.Switched old new since cpu after)
    (switches : image.Switches old new since cpu)
    (cr3 : cpu.cr3 = image.dirPages cpu.memory old)
    (suspended : image.SuspendedAt after.memory new call returnTo) :
    ∃ final, image.program.Leads after final ∧ final.memory = after.memory ∧
      image.Returned new call returnTo final := by
  rcases suspended.frame with ⟨argument, pointer, address, rest⟩
  have kernelEsp := suspended.kernelEsp
  have esp : after.registers.esp = call.registers.esp - 28 + 4 + 4 := by
    rw [switched.esp, kernelEsp]
    bv_omega
  have ebp : after.registers.ebp = after.registers.esp + 16#32 := by
    rw [switched.ebp, kernelEsp, pointer, esp]
    bv_omega
  have here : after.eip = image.address .taskSwitch 7 := by
    rw [switched.eip, kernelEsp]
    exact address
  rw [← esp] at rest
  rcases rest with ⟨first, second, third, fourth, fifth, sixth, _⟩
  have restores := taskSwitch_restores here
    ⟨first, second, third, fourth, fifth, sixth, trivial⟩ ebp
  rcases switched.owned switches cr3 with ⟨directory, msr⟩
  refine ⟨_, restores, rfl, ?_⟩
  exact
    { eip := rfl
      esp := by
        have place : after.registers.esp + 20#32 + 4 = call.registers.esp + 4 := by
          rw [esp]
          bv_omega
        exact place
      ebp := rfl
      ebx := rfl
      esi := rfl
      edi := rfl
      cr3 := directory
      tss := switched.tss
      msr := msr }

theorem KernelImage.Switched.standingAt [DecidableEq Task]
    (switched : image.Switched before.current new returnTo before.cpu after)
    (switches : image.Switches before.current new returnTo before.cpu)
    (outside : image.program.Outside returnTo) (switchable : image.Switchable before)
    (task : Task) :
    image.StandingAt after.memory task (before.suspend returnTo task) := by
  by_cases own : task = before.current
  · subst own
    rw [SwitchState.suspend, Function.update_self]
    exact
      { kernelEsp := switched.savedEsp
        room := switches.room
        inside := switches.inside
        frame := ⟨_, switched.frame⟩
        outside := outside }
  · rw [SwitchState.suspend, Function.update_of_ne own]
    exact (switchable.others task own).congr_page fun byte inside =>
      switched.kept_page switches own inside

/-- A call of `task_switch` comes to the frame that the new task has been built with, or back
from the call that the new task has made. -/
theorem KernelImage.Switchable.completes [DecidableEq Task] (switchable : image.Switchable before)
    (switches : image.Switches before.current new returnTo before.cpu)
    (outside : image.program.Outside returnTo) (ready : before.suspend returnTo new ≠ .absent) :
    ∃ final, image.program.Completes before.cpu final ∧
      (∀ task, image.StandingAt final.memory task (before.suspend returnTo task)) ∧
      final.cr3 = image.dirPages final.memory new ∧
      final.memory.load (image.tss + 4) = image.base new + 4096 ∧
      final.msr 0x175 = 0#32 ++ (image.base new + 4096) ∧
      ∀ call since, before.suspend returnTo new = .suspended call since →
        image.Returned new call since final := by
  rcases taskSwitch_leads switches with ⟨after, leads, switched⟩
  have standing := switched.standingAt switches outside switchable
  rcases switched.owned switches switchable.cr3 with ⟨cr3, msr⟩
  have here := standing new
  generalize before.suspend returnTo new = own at *
  cases own with
  | absent => exact absurd rfl ready
  | fresh =>
      have fresh : image.FreshAt after.memory new := here
      refine ⟨after, ⟨leads, ?_⟩, standing, cr3, switched.tss, msr, fun _ _ => Standing.noConfusion⟩
      rw [switched.eip]
      exact fresh.start
  | suspended call since =>
      have suspended : image.SuspendedAt after.memory new call since := here
      rcases switched.returns switches switchable.cr3 suspended with
        ⟨final, returning, memory, returned⟩
      refine ⟨final, ⟨leads.trans returning, ?_⟩, ?_, returned.cr3, returned.tss, returned.msr, ?_⟩
      · rw [returned.eip]
        exact suspended.outside
      · rw [memory]
        exact standing
      · intro other again same
        cases same
        exact returned

theorem KernelImage.Switchable.switches [DecidableEq Task] (switchable : image.Switchable before)
    (switches : image.Switches before.current new returnTo before.cpu)
    (outside : image.program.Outside returnTo) (ready : before.suspend returnTo new ≠ .absent)
    (completes : image.program.Completes before.cpu cpu) :
    image.Switchable
        { cpu := cpu
          current := new
          standing := Function.update (before.suspend returnTo) new .absent } ∧
      ∀ call since, before.suspend returnTo new = .suspended call since →
        image.Returned new call since cpu := by
  rcases switchable.completes switches outside ready with
    ⟨final, again, standing, cr3, tss, msr, returned⟩
  have same := completes.unique again
  subst same
  refine ⟨⟨cr3, tss, msr, ?_⟩, returned⟩
  intro task different
  show image.StandingAt cpu.memory task
    (Function.update (before.suspend returnTo) new .absent task)
  rw [Function.update_of_ne different]
  exact standing task

theorem KernelImage.initIdle_eq (image : KernelImage Task) (idle : Task) (memory : ByteMap) :
    image.initIdle idle memory =
      (((memory.store (image.base idle + 16) (image.base idle + 4092)).store
        (image.base idle + 4092) image.cpuIdle).store
        (image.base idle + 16) (image.base idle + 4088)).store (image.base idle + 4088) 0 := by
  have apart (stored : Word) (far : Apart stored 16) :
      Apart (image.base idle + stored) (image.base idle + 16) :=
    (apart_add_add _ _ _).mpr far
  have first : image.base idle + 4 * (1024 - 1) = image.base idle + 4092 := rfl
  have second : image.base idle + 4092 - 4 = image.base idle + 4088 := by
    bv_omega
  simp only [KernelImage.initIdle, KernelImage.kernelEsp, first, ByteMap.load_store,
    ByteMap.load_store_apart image.cpuIdle (apart 4092 (by decide)), second]

theorem KernelImage.initIdle_fresh (image : KernelImage Task) (idle : Task) (memory : ByteMap) :
    image.FreshAt (image.initIdle idle memory) idle := by
  have apart (stored loaded : Word) (far : Apart stored loaded) :
      Apart (image.base idle + stored) (image.base idle + loaded) :=
    (apart_add_add _ _ _).mpr far
  have pointer : image.kernelEsp (image.initIdle idle memory) idle = image.base idle + 4088 := by
    rw [image.initIdle_eq, KernelImage.kernelEsp,
      ByteMap.load_store_apart 0 (apart 4088 16 (by decide)), ByteMap.load_store]
  have start : (image.initIdle idle memory).load (image.base idle + 4092) = image.cpuIdle := by
    rw [image.initIdle_eq, ByteMap.load_store_apart 0 (apart 4088 4092 (by decide)),
      ByteMap.load_store_apart _ (apart 16 4092 (by decide)), ByteMap.load_store]
  have next : image.base idle + 4088 + 4 = image.base idle + 4092 := by
    bv_omega
  refine ⟨?_, ?_⟩
  · rw [pointer, add_sub_self_left]
    decide
  · rw [pointer, next, start]
    exact image.cpuIdle_outside

theorem KernelImage.initTask1_eq (image : KernelImage Task) (task1 : Task) (cpu : Cpu) :
    image.initTask1 task1 cpu =
      let memory := cpu.memory.store (image.tss + 4) (image.base task1 + 4096)
      { cpu with
        memory := memory
        msr := Function.update cpu.msr 0x175 (0#32 ++ (image.base task1 + 4096))
        cr3 := image.dirPages memory task1 } := rfl

theorem KernelImage.SwitchInit.switchable [DecidableEq Task] {state : SwitchState Task}
    (init : image.SwitchInit state) : image.Switchable state := by
  rcases init with ⟨idle, task1, cpu, different, rfl⟩
  have fresh : image.StandingAt (image.initIdle idle cpu.memory) idle .fresh :=
    image.initIdle_fresh idle cpu.memory
  rw [image.initTask1_eq]
  generalize image.initIdle idle cpu.memory = memory at *
  refine ⟨by simp only, ByteMap.load_store _ _ _, by simp only [Function.update_self], ?_⟩
  intro task other
  simp only
  by_cases isIdle : task = idle
  · subst isIdle
    rw [Function.update_self]
    apply fresh.congr_page
    intro byte inside
    apply ByteMap.store_outside
    intro within
    have outside := image.tss_outside within task
    omega
  · rw [Function.update_of_ne isIdle]
    trivial

theorem KernelImage.SwitchStep.switchable [DecidableEq Task] {event : SwitchEvent Task}
    {state : SwitchState Task} (step : image.SwitchStep before event state)
    (switchable : image.Switchable before) : image.Switchable state := by
  cases step with
  | works works => exact switchable.works works
  | creates builds => exact switchable.creates builds
  | switches switches outside ready completes =>
      exact (switchable.switches switches outside ready completes).1

end Invariant

/-- The call that returns when the running task switches to `new`. -/
def CallReturns [DecidableEq Task]
    (transition : Transition (SwitchState Task) (SwitchEvent Task)) (task : Task) (call : Cpu)
    (returnTo : Word) : Prop :=
  ∃ since, transition.label = .switches task since ∧
    transition.before.suspend since task = .suspended call returnTo

/-- Whatever happens between a call of `task_switch` and its return, the task that has called
finds its registers, its directory and its kernel stack. -/
theorem switchesTransparently [DecidableEq Task] (image : KernelImage Task)
    {history : List (Transition (SwitchState Task) (SwitchEvent Task))} {last : SwitchState Task}
    (reaches : image.switching.Reaches history last)
    {transition : Transition (SwitchState Task) (SwitchEvent Task)} (member : transition ∈ history)
    {task : Task} {call : Cpu} {returnTo : Word}
    (returns : CallReturns transition task call returnTo) :
    image.Returned task call returnTo transition.after.cpu := by
  rcases reaches with ⟨first, init, run⟩
  have along := run.along init.switchable
    (fun transition _ step switchable => step.switchable switchable) transition member
  rcases transition with ⟨before, event, after⟩
  have step : image.SwitchStep before event after := run.step_of_mem member
  rcases returns with ⟨since, label, suspended⟩
  cases step with
  | works => cases label
  | creates => cases label
  | switches switches outside ready completes =>
      cases label
      exact (along.1.switches switches outside ready completes).2 call returnTo suspended

section Sample

/-- The running task has pushed the arguments of `task_switch` in the middle of its stack. -/
def KernelImage.call (image : KernelImage Task) (state : SwitchState Task) (new : Task)
    (returnTo : Word) : Cpu :=
  { state.cpu with
    eip := image.address .taskSwitch 0
    registers := { state.cpu.registers with esp := image.base state.current + 0xE00 }
    memory := state.cpu.memory.pushAll (image.base state.current + 0xE08)
      [image.base new, returnTo] }

variable {image : KernelImage Task} {state : SwitchState Task} {new : Task} {returnTo : Word}

theorem KernelImage.call_outside {byte : Word}
    (outside : 8 ≤ (byte - (image.base state.current + 0xE00)).toNat) :
    (image.call state new returnTo).memory byte = state.cpu.memory byte := by
  apply ByteMap.pushAll_outside
  · exact show 8 ≤ 2 ^ 32 by decide
  · have place : image.base state.current + 0xE08 - 4 * BitVec.ofNat 32 2 =
        image.base state.current + 0xE00 := by
      bv_omega
    rw [List.length_cons, List.length_singleton, place]
    exact outside

theorem KernelImage.call_works (switchable : image.Switchable state) :
    image.Works state (image.call state new returnTo) where
  cr3 := by simp only [KernelImage.call]
  msr := by simp only [KernelImage.call]
  tss := by
    apply ByteMap.load_congr
    intro byte inside
    have outside := image.tss_outside inside state.current
    exact image.call_outside (by bv_omega)
  dirPages := by
    apply ByteMap.load_congr
    intro byte inside
    have near := near_of_inWord inside
    exact image.call_outside (by bv_omega)
  others := by
    intro task different stands byte saved
    have page := (switchable.others task different).page stands saved
    apply image.call_outside
    by_contra within
    exact different (image.eq_of_inside page (by bv_omega))

theorem KernelImage.call_switches :
    image.Switches state.current new returnTo (image.call state new returnTo) where
  eip := rfl
  stack := by
    have pushed := @ByteMap.Holds.pushAll state.cpu.memory (image.base state.current + 0xE08) []
      trivial [image.base new, returnTo] (show 8 ≤ 2 ^ 32 by decide)
    have place : image.base state.current + 0xE08 - 4 * BitVec.ofNat 32 2 =
        image.base state.current + 0xE00 := by
      bv_omega
    rw [List.length_cons, List.length_singleton, place] at pushed
    exact pushed
  room := by
    change 64 ≤ (image.base state.current + 0xE00 - image.base state.current).toNat
    rw [add_sub_self_left]
    decide
  inside := by
    change (image.base state.current + 0xE00 - image.base state.current).toNat ≤ 4088
    rw [add_sub_self_left]
    decide

theorem KernelImage.Switchable.call [DecidableEq Task] (switchable : image.Switchable state)
    (outside : image.program.Outside returnTo)
    (ready : SwitchState.suspend { state with cpu := image.call state new returnTo } returnTo new ≠
      .absent) :
    ∃ final, image.switching.step state .works
        { state with cpu := image.call state new returnTo } ∧
      image.switching.step { state with cpu := image.call state new returnTo }
        (.switches new returnTo) final ∧
      final.current = new ∧ final.standing = Function.update
        (SwitchState.suspend { state with cpu := image.call state new returnTo } returnTo) new
        .absent := by
  have works := @KernelImage.call_works _ image state new returnTo switchable
  have switches := @KernelImage.call_switches _ image state new returnTo
  rcases (switchable.works works).completes switches outside ready with ⟨final, completes, -⟩
  exact ⟨_, .works works, .switches switches outside ready completes, rfl, rfl⟩

/-- Task 0 after `init_task1`, with task 1 as the idle task. -/
def sampleStart : SwitchState (Fin 2) where
  cpu := sampleKernel.initTask1 0
    { sampleCloning with memory := sampleKernel.initIdle 1 sampleCopied }
  current := 0
  standing := Function.update (fun _ => .absent) 1 .fresh

theorem sampleStart_init : sampleKernel.SwitchInit sampleStart :=
  ⟨1, 0, sampleCloning, by decide, rfl⟩

theorem sampleStart_idle : sampleStart.standing 1 = .fresh := rfl

theorem switchesTransparently_back :
    ∃ history last, sampleKernel.switching.Reaches history last ∧
      history.map (fun transition => transition.label) =
        [.works, .switches 1 0x20000, .works, .switches 0 0x20000] ∧
      sampleKernel.Returned 0 (sampleKernel.call sampleStart 1 0x20000) 0x20000 last.cpu := by
  have outside : sampleKernel.program.Outside 0x20000 := sampleKernel.cpuIdle_outside
  have switchable := sampleStart_init.switchable
  have fresh : SwitchState.suspend { sampleStart with
      cpu := sampleKernel.call sampleStart 1 0x20000 } 0x20000 1 = .fresh := by
    rw [SwitchState.suspend, Function.update_of_ne (by decide)]
    exact sampleStart_idle
  rcases switchable.call outside (by rw [fresh]; exact Standing.noConfusion) with
    ⟨idle, works, leaves, current, standing⟩
  have calls : sampleKernel.Switchable _ := KernelImage.SwitchStep.switchable works switchable
  have later : sampleKernel.Switchable idle := KernelImage.SwitchStep.switchable leaves calls
  have suspended : idle.standing 0 =
      .suspended (sampleKernel.call sampleStart 1 0x20000) 0x20000 := by
    rw [standing, Function.update_of_ne (by decide)]
    exact Function.update_self ..
  have ready : SwitchState.suspend { idle with cpu := sampleKernel.call idle 0 0x20000 } 0x20000 0 =
      .suspended (sampleKernel.call sampleStart 1 0x20000) 0x20000 := by
    have other : (0 : Fin 2) ≠ 1 := by decide
    rw [SwitchState.suspend, current, Function.update_of_ne other]
    exact suspended
  rcases later.call outside (by rw [ready]; exact Standing.noConfusion) with
    ⟨last, worksAgain, returns, -, -⟩
  have run : sampleKernel.switching.Run sampleStart _ last :=
    .snoc (.snoc (.snoc (.snoc .nil works) leaves) worksAgain) returns
  refine ⟨_, last, ⟨_, sampleStart_init, run⟩, rfl, ?_⟩
  exact switchesTransparently sampleKernel ⟨_, sampleStart_init, run⟩
    (List.mem_append_right _ (List.mem_singleton_self _)) ⟨0x20000, rfl, ready⟩

end Sample

end Zeos
