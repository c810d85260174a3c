import Zeos.BlockCopy
import Zeos.ContextSwitch
import Zeos.SystemCallDispatch

/-! # The first return of a new task

`sys_fork` and `sys_clone` copy the union of the parent and build a frame in it, from which
the first switch to the child goes through `ret_from_fork` to the end of
`system_call_handler`.
-/

namespace Zeos

open Foundation Foundation.Machine

/-- The call that the parent has made. -/
inductive Creation
  | fork
  | clone (function stack : Word)
deriving DecidableEq, Repr

namespace Creation

def frame {Task : Type} (creation : Creation) (image : KernelImage Task) (child : Task)
    (cpu : Cpu) : ByteMap :=
  match creation with
  | fork => image.forkFrame child cpu
  | clone function stack => image.cloneFrame child function stack cpu

def context (creation : Creation) (parent : SavedContext) : SavedContext :=
  match creation with
  | fork => parent
  | clone function stack => { parent with eip := function, oldesp := stack }

end Creation

/-- The memory as `copy_data` takes it. -/
def flatten (memory : ByteMap) : FlatMemory := fun address => UInt8.ofBitVec (memory address)

variable {Task : Type} {image : KernelImage Task} {entry : EntryImage} {creation : Creation}
variable {parent child : Task} {context : SavedContext} {calling : Processor} {cpu : Cpu}
variable {handler : Word} {before copied : ByteMap}

/-- The parent is in `sys_fork` or `sys_clone`. It has come there through the handler with any
context on its stack, and its frame pointer lies below it. -/
structure BuildsFrame (image : KernelImage Task) (entry : EntryImage) (parent child : Task)
    (context : SavedContext) (calling : Processor) (handler : Word) (before copied : ByteMap)
    (cpu : Cpu) : Prop where
  different : parent ≠ child
  framed : entry.Framed (image.base parent + 4096) context.words 26 calling
  called : ∀ byte, (byte - (image.base parent + 4028)).toNat < 68 →
    before byte = (calling.entering (entry.address 27) handler).memory byte
  copies : copyData (image.base parent) (image.base child) 4096 (flatten before) =
    .ok (flatten copied)
  current : cpu.registers.esp &&& 0xFFFFF000 = image.base parent
  framePointer : cpu.registers.ebp = image.base parent + 4024
  frame : ∀ byte, (byte - (image.base child + 4028)).toNat < 68 →
    cpu.memory byte = copied byte

/-! ## The copy of the union -/

theorem union_fits (different : parent ≠ child) :
    CopyFits (image.base parent) (image.base child) 4096 := by
  have base := image.base_toNat parent
  have baseChild := image.base_toNat child
  have bound := (image.page parent).isLt
  have boundChild := (image.page child).isLt
  have apart : (image.page parent).toNat ≠ (image.page child).toNat := fun same =>
    different (image.page_injective (BitVec.eq_of_toNat_eq same))
  refine ⟨by omega, by omega, ?_⟩
  rw [BitVec.le_def]
  omega

theorem BuildsFrame.copyDone
    (builds : BuildsFrame image entry parent child context calling handler before copied cpu) :
    Copied (image.base parent) (image.base child) 4096 (flatten before) (flatten copied) := by
  have fits := @union_fits _ image _ _ builds.different
  have done := @copy_flat (image.base parent) (image.base child) 4096 (flatten before)
    fun _ => fits
  have same : flatten copied = copiedUpTo (image.base parent) (image.base child)
      (flatten before) 4096 :=
    Except.ok.inj (builds.copies.symm.trans done)
  rw [same]
  exact copiedUpTo_copied fun _ => fits

theorem place_add (base offset : Word) : place base offset.toNat = base + offset := by
  apply BitVec.eq_of_toNat_eq
  rw [BitVec.toNat_ofNat, BitVec.toNat_add]

theorem BuildsFrame.copied_eq
    (builds : BuildsFrame image entry parent child context calling handler before copied cpu)
    {offset : Word} (inside : offset.toNat < 4096) :
    copied (image.base child + offset) = before (image.base parent + offset) := by
  have arrives := builds.copyDone.arrives offset.toNat (by omega)
  rw [place_add, place_add] at arrives
  exact UInt8.ofBitVec.inj arrives

theorem BuildsFrame.copied_parent
    (builds : BuildsFrame image entry parent child context calling handler before copied cpu)
    {byte : Word} (inside : (byte - image.base parent).toNat < 4096) :
    copied byte = before byte := by
  apply UInt8.ofBitVec.inj
  apply builds.copyDone.keeps
  intro index below same
  apply builds.different
  apply image.eq_of_inside inside
  have base := image.base_toNat child
  have bound := (image.page child).isLt
  rw [same]
  have there : (place (image.base child) index).toNat = (image.base child).toNat + index :=
    place_toNat (by omega)
  bv_omega

/-! ## The frame -/

theorem BuildsFrame.holds
    (builds : BuildsFrame image entry parent child context calling handler before copied cpu) :
    cpu.memory.Holds (image.base child + 4028) (entry.address 27 :: context.words) := by
  have pushed := builds.framed.entering (Or.inl rfl) 27 handler
  have esp : calling.registers.esp - 4 = image.base parent + 4028 := by
    rw [builds.framed.esp, SavedContext.length_words]
    bv_omega
  rw [esp] at pushed
  have entered : before.Holds (image.base parent + 4028) (entry.address 27 :: context.words) := by
    apply pushed.congr (by simp)
    intro byte inside
    exact builds.called byte (by simpa using inside)
  apply entered.moved (by simp)
  intro offset inside
  have below : offset.toNat < 68 := by simpa using inside
  rw [builds.frame _ (by rw [add_sub_self_left]; exact below), BitVec.add_assoc,
    BitVec.add_assoc]
  apply builds.copied_eq
  bv_omega

theorem BuildsFrame.forkFrame_eq
    (builds : BuildsFrame image entry parent child context calling handler before copied cpu) :
    image.forkFrame child cpu =
      ((cpu.memory.store (image.base child + 4024) image.retFromFork).store
        (image.base child + 4020) 0).store (image.base child + 16) (image.base child + 4020) := by
  have offset : cpu.registers.ebp - (cpu.registers.esp &&& 0xFFFFF000) = 4024 := by
    rw [builds.current, builds.framePointer, add_sub_self_left]
  have place : image.base child + 4024 - 4 = image.base child + 4020 := by
    bv_omega
  rw [KernelImage.forkFrame, offset, place]

theorem BuildsFrame.forkFrame_holds
    (builds : BuildsFrame image entry parent child context calling handler before copied cpu) :
    (image.forkFrame child cpu).Holds (image.base child + 4020)
      (0 :: image.retFromFork :: entry.address 27 :: context.words) := by
  have first := builds.holds.push image.retFromFork (by simp)
  have place : image.base child + 4028 - 4 = image.base child + 4024 := by
    bv_omega
  rw [place] at first
  have second := first.push 0 (by simp)
  have next : image.base child + 4024 - 4 = image.base child + 4020 := by
    bv_omega
  rw [next] at second
  rw [builds.forkFrame_eq]
  apply second.store_apart _ (by simp)
  intro byte inside
  simp only [List.length_cons, SavedContext.length_words]
  rw [InWord] at inside
  bv_omega

theorem BuildsFrame.frame_holds
    (builds : BuildsFrame image entry parent child context calling handler before copied cpu)
    (creation : Creation) :
    (creation.frame image child cpu).Holds (image.base child + 4020)
      (0 :: image.retFromFork :: entry.address 27 :: (creation.context context).words) := by
  have fork := builds.forkFrame_holds
  cases creation with
  | fork => exact fork
  | clone function stack =>
      have eip := fork.set function 14 (by simp) (by simp)
      have oldesp := eip.set stack 17 (by simp) (by simp)
      have first : image.base child + 4020 + 4 * BitVec.ofNat 32 14 =
          image.base child + 4 * (1024 - 5) := by
        bv_omega
      have second : image.base child + 4020 + 4 * BitVec.ofNat 32 17 =
          image.base child + 4 * (1024 - 2) := by
        bv_omega
      rw [first, second] at oldesp
      exact oldesp

theorem BuildsFrame.frame_kernelEsp
    (builds : BuildsFrame image entry parent child context calling handler before copied cpu)
    (creation : Creation) :
    image.kernelEsp (creation.frame image child cpu) child = image.base child + 4020 := by
  have fork : image.kernelEsp (image.forkFrame child cpu) child = image.base child + 4020 := by
    rw [builds.forkFrame_eq]
    exact ByteMap.load_store _ _ _
  cases creation with
  | fork => exact fork
  | clone function stack =>
      have eip : Apart (image.base child + 4 * (1024 - 5)) (image.base child + 16) :=
        (apart_add_add _ _ _).mpr (by decide)
      have oldesp : Apart (image.base child + 4 * (1024 - 2)) (image.base child + 16) :=
        (apart_add_add _ _ _).mpr (by decide)
      apply (ByteMap.load_store_apart stack oldesp).trans
      exact (ByteMap.load_store_apart function eip).trans fork

theorem store_union (memory : ByteMap) {offset : Word} (value : Word) (fits : offset.toNat ≤ 4092)
    {byte : Word} (outside : 4096 ≤ (byte - image.base child).toNat) :
    memory.store (image.base child + offset) value byte = memory byte := by
  apply ByteMap.store_outside
  rw [InWord]
  bv_omega

theorem Creation.frame_outside (creation : Creation)
    (above : 4 ≤ (cpu.registers.ebp - (cpu.registers.esp &&& 0xFFFFF000)).toNat)
    (below : (cpu.registers.ebp - (cpu.registers.esp &&& 0xFFFFF000)).toNat ≤ 4092) {byte : Word}
    (outside : 4096 ≤ (byte - image.base child).toNat) :
    creation.frame image child cpu byte = cpu.memory byte := by
  have fork : image.forkFrame child cpu byte = cpu.memory byte := by
    rw [KernelImage.forkFrame]
    generalize cpu.registers.ebp - (cpu.registers.esp &&& 0xFFFFF000) = offset at *
    have next : image.base child + offset - 4 = image.base child + (offset - 4) := by
      bv_omega
    simp only [next]
    rw [store_union _ _ (by decide) outside, store_union _ _ (by bv_omega) outside,
      store_union _ _ below outside]
  cases creation with
  | fork => exact fork
  | clone function stack =>
      apply (store_union _ stack (by decide) outside).trans
      exact (store_union _ function (by decide) outside).trans fork

theorem BuildsFrame.frame_parent
    (builds : BuildsFrame image entry parent child context calling handler before copied cpu)
    (creation : Creation) {byte : Word} (inside : (byte - image.base parent).toNat < 4096) :
    creation.frame image child cpu byte = cpu.memory byte := by
  have offset : cpu.registers.ebp - (cpu.registers.esp &&& 0xFFFFF000) = 4024 := by
    rw [builds.current, builds.framePointer, add_sub_self_left]
  apply creation.frame_outside (by rw [offset]; decide) (by rw [offset]; decide)
  by_contra within
  exact builds.different (image.eq_of_inside inside (by omega))

/-! ## The return -/

/-- Another task switches to the child for the first time. What has been done in between has
left the frame and the pointer to it alone. -/
structure FirstSwitch (image : KernelImage Task) (outgoing child : Task) (returnTo : Word)
    (built : ByteMap) (switching : Processor) : Prop where
  different : child ≠ outgoing
  switches : image.Switches outgoing child returnTo switching.toCpu
  frame : ∀ byte, (byte - (image.base child + 4020)).toNat < 76 →
    switching.memory byte = built byte
  kernelEsp : image.kernelEsp switching.memory child = image.kernelEsp built child
  codeMsr : switching.msr sysenterCs = kernelCs.setWidth 64
  user : switching.user = false

/-- `ret_from_fork` returns zero to what lies on the stack that ends at `top`. -/
structure ReturnsZero (image : KernelImage Task) (entry : EntryImage) (top : Word) : Prop where
  conforms : entry.Conforms top image.retFromFork
  zero : ∀ begin : Processor, begin.user = false → begin.registers.esp = top - 68 →
    (entry.run image.retFromFork begin).registers.eax = 0

section Return

variable {outgoing : Task} {returnTo : Word} {switching : Processor} {resumed : Cpu}

theorem BuildsFrame.resumes
    (builds : BuildsFrame image entry parent child context calling handler before copied cpu)
    (first : FirstSwitch image outgoing child returnTo (creation.frame image child cpu) switching)
    (switched : image.Switched outgoing child returnTo switching.toCpu resumed) :
    resumed.eip = image.retFromFork ∧ resumed.registers.esp = image.base child + 4028 ∧
      resumed.memory.Holds (image.base child + 4028)
        (entry.address 27 :: (creation.context context).words) := by
  have kept {byte : Word} (inside : (byte - image.base child).toNat < 4096) :
      resumed.memory byte = switching.memory byte :=
    switched.kept_page first.switches first.different inside
  have pointer : image.kernelEsp resumed.memory child = image.base child + 4020 := by
    rw [← builds.frame_kernelEsp creation, ← first.kernelEsp]
    apply ByteMap.load_congr
    intro byte inside
    apply kept
    rw [InWord] at inside
    bv_omega
  have frame : resumed.memory.Holds (image.base child + 4020)
      (0 :: image.retFromFork :: entry.address 27 :: (creation.context context).words) := by
    apply (builds.frame_holds creation).congr (by simp)
    intro byte inside
    have below : (byte - (image.base child + 4020)).toNat < 76 := by simpa using inside
    rw [kept (by bv_omega), first.frame byte below]
  have next : image.base child + 4020 + 8 = image.base child + 4028 := by
    bv_omega
  have above : image.base child + 4020 + 4 + 4 = image.base child + 4028 := by
    bv_omega
  refine ⟨?_, ?_, ?_⟩
  · rw [switched.eip, pointer]
    exact frame.2.1
  · rw [switched.esp, pointer, next]
  · rw [← above]
    exact frame.2.2

theorem BuildsFrame.leaves
    (builds : BuildsFrame image entry parent child context calling handler before copied cpu)
    (first : FirstSwitch image outgoing child returnTo (creation.frame image child cpu) switching)
    (switched : image.Switched outgoing child returnTo switching.toCpu resumed)
    (returns : ReturnsZero image entry (image.base child + 4096))
    (exits : entry.Conforms (image.base child + 4096) entry.exitSystem) :
    (entry.run image.retFromFork { switching with toCpu := resumed }).eip = entry.address 27 ∧
      ∃ final, entry.program.Leads
          (entry.run image.retFromFork { switching with toCpu := resumed }) final ∧
        (creation.context context).Resumes 0 final := by
  rcases builds.resumes first switched with ⟨eip, esp, holds⟩
  have codeMsr : resumed.msr sysenterCs = kernelCs.setWidth 64 := by
    rw [switched.msr, Function.update_of_ne (by decide)]
    exact first.codeMsr
  have top : image.base child + 4028 = image.base child + 4096 -
      4 * BitVec.ofNat 32 16 - 4 := by
    bv_omega
  have framed := @EntryImage.Conforms.framed entry (image.base child + 4096)
    (creation.context context).words image.retFromFork { switching with toCpu := resumed } 27
    returns.conforms (Or.inl rfl) (esp.trans top) (by
      show resumed.memory.Holds resumed.registers.esp _
      rw [esp]
      exact holds) codeMsr first.user
  rcases framed.finishes exits with ⟨final, leads, context, _⟩
  have place : image.base child + 4028 = image.base child + 4096 - 68 := by
    bv_omega
  have zero := returns.zero { switching with toCpu := resumed } first.user (esp.trans place)
  rw [zero] at context
  exact ⟨framed.eip, final, leads, context⟩

end Return

/-- The first switch to a new task leads through `ret_from_fork` and the end of the handler to
user mode, with the registers that the parent has saved; the union of the parent is as it was. -/
theorem returnsToUser {outgoing : Task} {returnTo : Word} {switching : Processor}
    (creation : Creation)
    (builds : BuildsFrame image entry parent child context calling handler before copied cpu)
    (first : FirstSwitch image outgoing child returnTo (creation.frame image child cpu) switching)
    (returns : ReturnsZero image entry (image.base child + 4096))
    (exits : entry.Conforms (image.base child + 4096) entry.exitSystem) :
    (∃ resumed final, image.program.Completes switching.toCpu resumed ∧
      resumed.eip = image.retFromFork ∧
      (entry.run image.retFromFork { switching with toCpu := resumed }).eip = entry.address 27 ∧
      entry.program.Leads (entry.run image.retFromFork { switching with toCpu := resumed })
        final ∧
      (creation.context context).Resumes 0 final) ∧
    ∀ byte, (byte - image.base parent).toNat < 4096 →
      copied byte = before byte ∧ creation.frame image child cpu byte = cpu.memory byte := by
  constructor
  · rcases taskSwitch_leads first.switches with ⟨resumed, leads, switched⟩
    rcases builds.resumes first switched with ⟨eip, _, _⟩
    rcases builds.leaves first switched returns exits with ⟨back, final, leaving, resumes⟩
    refine ⟨resumed, final, ⟨leads, ?_⟩, eip, back, leaving, resumes⟩
    rw [Program.Outside, eip]
    exact image.retFromFork_outside
  · intro byte inside
    exact ⟨builds.copied_parent inside, builds.frame_parent creation inside⟩

section Sample

def sampleRoutine : Nat → Routine
  | 0 => .taskSwitch
  | 1 => .innerTaskSwitch
  | 2 => .writeMsr
  | _ => .setCr3

instance sampleTasks_neZero : NeZero 2 := ⟨by decide⟩

/-- Two tasks, in the pages behind the routines. -/
def sampleKernel : KernelImage (Fin 2) where
  tss := 0x11000
  address routine index := 0x10000 + BitVec.ofNat 32 (64 * routine.ctorIdx + index)
  locate address :=
    if (address - 0x10000).toNat < 256 then
      some (sampleRoutine ((address - 0x10000).toNat / 64), (address - 0x10000).toNat % 64)
    else none
  locate_address := by
    intro routine index inside
    have small : index < 64 := Nat.lt_of_lt_of_le inside (by cases routine <;> decide)
    have number : routine.ctorIdx < 4 := by cases routine <;> decide
    have offset : (0x10000 + BitVec.ofNat 32 (64 * routine.ctorIdx + index) - 0x10000).toNat =
        64 * routine.ctorIdx + index := by
      bv_omega
    have quotient : (64 * routine.ctorIdx + index) / 64 = routine.ctorIdx := by omega
    have remainder : (64 * routine.ctorIdx + index) % 64 = index := by omega
    rw [offset, if_pos (by omega), quotient, remainder]
    cases routine <;> rfl
  cpuIdle := 0x20000
  cpuIdle_outside := by decide
  retFromFork := 0x400000
  retFromFork_outside := by decide
  page task := 0x12 + BitVec.ofNat 12 task
  page_injective := by decide
  tss_inside := by decide
  tss_apart := by decide

def sampleContext : SavedContext where
  ebx := 1
  ecx := 2
  edx := 3
  esi := 4
  edi := 5
  ebp := 0x11D000
  eax := 19
  ds := userDs
  es := userDs
  fs := userDs
  gs := userDs
  eip := 0x100200
  cs := userCs
  eflags := 0x202
  oldesp := 0x11D000
  oldss := userDs

def sampleCalling : Processor :=
  { sampleCaller 19 with
    registers := { (sampleCaller 19).registers with esp := 0x13000 - 64 }
    eip := sampleEntry.address 26
    memory := ByteMap.pushAll (fun _ => 0) 0x13000 sampleContext.words.reverse
    user := false }

def sampleBefore : ByteMap := (sampleCalling.entering (sampleEntry.address 27) 0).memory

def sampleCopied : ByteMap := fun address =>
  (copiedUpTo (sampleKernel.base 0) (sampleKernel.base 1) (flatten sampleBefore) 4096
    address).toBitVec

def sampleCloning : Cpu :=
  { sampleCalling.toCpu with
    registers := { sampleCalling.registers with esp := 0x12F80, ebp := 0x12FB8 }
    memory := sampleCopied }

def sampleCreation : Creation := .clone 0x100100 0x11C000

/-- Task 0 later, when it switches to task 1. -/
def sampleSwitching : Processor :=
  { sampleCalling with
    registers := { sampleCalling.registers with esp := 0x12E00 }
    eip := sampleKernel.address .taskSwitch 0
    memory := (sampleCreation.frame sampleKernel 1 sampleCloning).pushAll 0x12E08
      [sampleKernel.base 1, 0x20000] }

theorem sampleBuilds : BuildsFrame sampleKernel sampleEntry 0 1 sampleContext sampleCalling 0
    sampleBefore sampleCopied sampleCloning where
  different := by decide
  framed :=
    { eip := rfl
      esp := by decide
      holds := by
        have holds := @ByteMap.Holds.pushAll (fun _ => 0) 0x13000 [] trivial
          sampleContext.words.reverse (by simp)
        rw [List.append_nil, List.reverse_reverse] at holds
        exact holds
      codeMsr := rfl
      user := rfl }
  called := fun _ _ => rfl
  copies := by
    have fits : CopyFits (sampleKernel.base 0) (sampleKernel.base 1) 4096 :=
      union_fits (by decide)
    exact copy_flat fun _ => fits
  current := by decide
  framePointer := by decide
  frame := fun _ _ => rfl

theorem sampleFirst : FirstSwitch sampleKernel 0 1 0x20000
    (sampleCreation.frame sampleKernel 1 sampleCloning) sampleSwitching where
  different := by decide
  switches :=
    { eip := rfl
      stack := by
        have holds := @ByteMap.Holds.pushAll (sampleCreation.frame sampleKernel 1 sampleCloning)
          0x12E08 [] trivial [sampleKernel.base 1, 0x20000] (by simp)
        exact holds
      room := by decide
      inside := by decide }
  frame := by
    intro byte inside
    apply ByteMap.pushAll_outside _ (by simp)
    have base : sampleKernel.base 1 = 0x13000 := by decide
    rw [base] at inside
    simp only [List.length_cons, List.length_nil]
    bv_omega
  kernelEsp := by
    apply ByteMap.load_congr
    intro byte inside
    apply ByteMap.pushAll_outside _ (by simp)
    have base : sampleKernel.base 1 = 0x13000 := by decide
    rw [InWord, base] at inside
    simp only [List.length_cons, List.length_nil]
    bv_omega
  codeMsr := rfl
  user := rfl

/-- A thread of task 0. -/
theorem returnsToUser_clone : (∃ resumed final,
      sampleKernel.program.Completes sampleSwitching.toCpu resumed ∧
      resumed.eip = 0x400000 ∧
      (sampleEntry.run 0x400000 { sampleSwitching with toCpu := resumed }).eip =
        sampleEntry.address 27 ∧
      sampleEntry.program.Leads
        (sampleEntry.run 0x400000 { sampleSwitching with toCpu := resumed }) final ∧
      { sampleContext with eip := 0x100100, oldesp := 0x11C000 }.Resumes 0 final) ∧
    ∀ byte, (byte - sampleKernel.base 0).toNat < 4096 →
      sampleCopied byte = sampleBefore byte ∧
      sampleCreation.frame sampleKernel 1 sampleCloning byte = sampleCloning.memory byte :=
  returnsToUser sampleCreation sampleBuilds sampleFirst
    ⟨sampleEntry_conforms _ _, fun _ _ _ => rfl⟩ (sampleEntry_conforms _ _)

end Sample

end Zeos
