import Zeos.TaskSwitch
import Zeos.Foundation.WordStack

/-! # One call of `task_switch`

What the blocks of `task_switch`, `inner_task_switch`, `writeMSR` and `set_cr3` do, and
from there what a call has done when the stack has been changed.
-/

namespace Zeos

open Foundation Foundation.Machine

variable {Task : Type} {image : KernelImage Task} {cpu : Cpu}
variable {returnTo argument value : Word}

/-! ## The blocks -/

theorem performAll_saveRegisters
    (holds : cpu.memory.Holds cpu.registers.esp [returnTo, argument]) :
    performAll image.program.resolve Routine.saveRegisters cpu =
      { cpu with
        registers :=
          { cpu.registers with
            esp := cpu.registers.esp - 20#32
            ebp := cpu.registers.esp - 4#32 }
        memory := cpu.memory.pushAll cpu.registers.esp
          [cpu.registers.ebp, cpu.registers.esi, cpu.registers.edi, cpu.registers.ebx,
            argument] } := by
  have pushed := (holds.pushAll [cpu.registers.ebp, cpu.registers.esi, cpu.registers.edi,
    cpu.registers.ebx] (by simp)).2.2.2.2.2.1
  have place : cpu.registers.esp - 4 * BitVec.ofNat 32 4 + 4 + 4 + 4 + 4 + 4 =
      cpu.registers.esp - 4 + 8 := by
    bv_omega
  simp only [List.length_cons, List.length_nil, Nat.zero_add, Nat.reduceAdd, place,
    ByteMap.pushAll, BitVec.sub_sub, BitVec.reduceAdd] at pushed
  simp only [performAll, Routine.saveRegisters, List.foldl_cons, List.foldl_nil,
    Operation.perform, Cpu.push, Cpu.write, Cpu.read, Registers.set, Registers.get,
    ByteMap.pushAll, BitVec.sub_sub, BitVec.reduceAdd, pushed]
  rfl

theorem performAll_setStack
    (holds : cpu.memory.Holds cpu.registers.esp [returnTo, argument]) :
    performAll image.program.resolve Routine.setStack cpu =
      { cpu with
        registers :=
          { cpu.registers with
            esp := cpu.registers.esp - 12#32
            ebp := cpu.registers.esp - 4#32
            ebx := argument
            esi := argument + 4096#32
            edx := image.tss }
        zf := argument + 4096 == 0
        less := argument.toInt + (4096 : Word).toInt < 0
        memory := ((cpu.memory.store (cpu.registers.esp - 4) cpu.registers.ebp).store
            (image.tss + 4) (argument + 4096)).pushAll (cpu.registers.esp - 4)
          [argument + 4096, 0x175] } := by
  have pushed := (holds.push cpu.registers.ebp (by simp)).2.2.1
  have place : cpu.registers.esp - 4 + 4 + 4 = cpu.registers.esp - 4 + 8 := by
    bv_omega
  rw [place] at pushed
  simp only [performAll, Routine.setStack, List.foldl_cons, List.foldl_nil, Operation.perform,
    Cpu.push, Cpu.write, Cpu.read, Registers.set, Registers.get, ByteMap.pushAll, pushed,
    BitVec.sub_sub, BitVec.reduceAdd]
  rfl

theorem performAll_writeMsrBody
    (holds : cpu.memory.Holds cpu.registers.esp [returnTo, argument, value]) :
    performAll image.program.resolve Routine.writeMsrBody cpu =
      { cpu with
        registers :=
          { cpu.registers with
            eax := value
            ecx := argument
            edx := 0 }
        msr := Function.update cpu.msr argument (0#32 ++ value)
        memory := cpu.memory.store (cpu.registers.esp - 4) cpu.registers.ebp } := by
  have pushed := (holds.push cpu.registers.ebp (by simp)).2.2
  have first : cpu.registers.esp - 4 + 4 + 4 = cpu.registers.esp - 4 + 8 := by
    bv_omega
  have second : cpu.registers.esp - 4 + 8 + 4 = cpu.registers.esp - 4 + 12 := by
    bv_omega
  have back : cpu.registers.esp - 4 + 4 = cpu.registers.esp := BitVec.sub_add_cancel _ _
  simp only [ByteMap.Holds, first, second] at pushed
  simp only [performAll, Routine.writeMsrBody, List.foldl_cons, List.foldl_nil, Operation.perform,
    Cpu.push, Cpu.pop, Cpu.write, Cpu.read, Registers.set, Registers.get, pushed, back,
    ByteMap.load_store]
  rfl

theorem performAll_setCr3Body (holds : cpu.memory.Holds cpu.registers.esp [returnTo, argument]) :
    performAll image.program.resolve Routine.setCr3Body cpu =
      { cpu with
        registers := { cpu.registers with eax := argument }
        cr3 := argument
        memory := cpu.memory.store (cpu.registers.esp - 4) cpu.registers.ebp } := by
  have pushed := (holds.push cpu.registers.ebp (by simp)).2.2.1
  have place : cpu.registers.esp - 4 + 4 + 4 = cpu.registers.esp - 4 + 8 := by
    bv_omega
  have back : cpu.registers.esp - 4 + 4 = cpu.registers.esp := BitVec.sub_add_cancel _ _
  rw [place] at pushed
  simp only [performAll, Routine.setCr3Body, List.foldl_cons, List.foldl_nil, Operation.perform,
    Cpu.push, Cpu.pop, Cpu.write, Cpu.read, Registers.set, Registers.get, pushed, back,
    ByteMap.load_store]

theorem performAll_saveFrame (cpu : Cpu) :
    ∃ less, performAll image.program.resolve Routine.saveFrame cpu =
      let page := cpu.registers.ebp &&& 0xFFF000
      let memory := cpu.memory.store (page + 16) cpu.registers.ebp
      { cpu with
        registers :=
          { cpu.registers with
            esp := cpu.registers.esp + 8
            ecx := page
            edi := memory.load (page + 4) }
        zf := memory.load (page + 4) == memory.load (cpu.registers.ebx + 4)
        less := less
        memory := memory } := ⟨_, rfl⟩

theorem performAll_changeStack (cpu : Cpu) :
    performAll image.program.resolve Routine.changeStack cpu =
      { cpu with
        registers :=
          { cpu.registers with
            esp := cpu.memory.load (cpu.registers.ebx + 16) + 4
            ebp := cpu.memory.load (cpu.memory.load (cpu.registers.ebx + 16)) } } := rfl

theorem performAll_restoreRegisters {spilled ebx edi esi ebp : Word}
    (holds : cpu.memory.Holds cpu.registers.esp [spilled, ebx, edi, esi, ebp])
    (frame : cpu.registers.ebp = cpu.registers.esp + 16#32) :
    performAll image.program.resolve Routine.restoreRegisters cpu =
      { cpu with
        registers :=
          { cpu.registers with
            esp := cpu.registers.esp + 20#32
            ebp := ebp
            ebx := ebx
            esi := esi
            edi := edi }
        zf := cpu.registers.esp + 4 == 0
        less := cpu.registers.esp.toInt + (4 : Word).toInt < 0 } := by
  simp only [ByteMap.Holds, BitVec.add_assoc, BitVec.reduceAdd] at holds
  simp only [performAll, Routine.restoreRegisters, List.foldl_cons, List.foldl_nil,
    Operation.perform, Cpu.pop, Cpu.write, Cpu.read, Registers.set, Registers.get, frame,
    BitVec.add_assoc, BitVec.reduceAdd, holds]
  rfl

/-! ## A call -/

theorem taskSwitch_restores {spilled ebx edi esi ebp : Word}
    (here : cpu.eip = image.address .taskSwitch 7)
    (holds : cpu.memory.Holds cpu.registers.esp [spilled, ebx, edi, esi, ebp, returnTo])
    (frame : cpu.registers.ebp = cpu.registers.esp + 16#32) :
    image.program.Leads cpu
      { cpu with
        eip := returnTo
        registers :=
          { cpu.registers with
            esp := cpu.registers.esp + 20#32 + 4
            ebp := ebp
            ebx := ebx
            esi := esi
            edi := edi }
        zf := cpu.registers.esp + 4 == 0
        less := cpu.registers.esp.toInt + (4 : Word).toInt < 0 } := by
  rcases holds with ⟨first, second, third, fourth, fifth, last, _⟩
  have block := @Program.leads_block _ _ image.program cpu .taskSwitch 7 Routine.restoreRegisters
    [.ret] here rfl
  rw [performAll_restoreRegisters ⟨first, second, third, fourth, fifth, trivial⟩ frame] at block
  have ret := block.trans
    (@Program.leads_of_listed _ _ image.program _ .taskSwitch 13 .ret rfl rfl)
  have back : cpu.memory.load (cpu.registers.esp + 20#32) = returnTo := by
    simp only [BitVec.add_assoc, BitVec.reduceAdd] at last
    exact last
  simp only [Program.execute, Cpu.ret, Cpu.pop, Registers.set, back] at ret
  exact ret

/-- What `task_switch` leaves on the stack of the task that it switches away from, from the
frame pointer that `inner_task_switch` saves. -/
def KernelImage.switchFrame (image : KernelImage Task) (cpu : Cpu) (argument returnTo : Word) :
    List Word :=
  [cpu.registers.esp - 4, image.address .taskSwitch 7, argument, cpu.registers.ebx,
    cpu.registers.edi, cpu.registers.esi, cpu.registers.ebp, returnTo, argument]

theorem taskSwitch_saves (here : cpu.eip = image.address .taskSwitch 0)
    (holds : cpu.memory.Holds cpu.registers.esp [returnTo, argument]) :
    ∃ inner, image.program.Leads cpu inner ∧ inner.eip = image.address .innerTaskSwitch 0 ∧
      inner.registers.esp = cpu.registers.esp - 24 ∧
      inner.registers.ebp = cpu.registers.esp - 4 ∧ inner.cr3 = cpu.cr3 ∧ inner.msr = cpu.msr ∧
      inner.memory.Holds inner.registers.esp
        (image.switchFrame cpu argument returnTo).tail ∧
      ∀ byte, 24 ≤ (byte - (cpu.registers.esp - 24)).toNat →
        inner.memory byte = cpu.memory byte := by
  have block := @Program.leads_block _ _ image.program cpu .taskSwitch 0 Routine.saveRegisters
    ((Routine.code .taskSwitch).drop 6) here rfl
  rw [performAll_saveRegisters holds] at block
  refine ⟨_, block.trans (@Program.leads_of_listed _ _ image.program _ .taskSwitch 6
    (.call .innerTaskSwitch) rfl rfl), rfl, ?_, rfl, rfl, rfl, ?_, ?_⟩
  · have moved : cpu.registers.esp - 20#32 - 4 = cpu.registers.esp - 24 := by
      bv_omega
    exact moved
  · have pushed := holds.pushAll [cpu.registers.ebp, cpu.registers.esi, cpu.registers.edi,
      cpu.registers.ebx, argument] (by simp)
    exact pushed.push (image.address .taskSwitch 7) (by simp)
  · intro byte outside
    have below : ¬InWord (cpu.registers.esp - 20#32 - 4) byte := by
      rw [InWord]
      bv_omega
    apply (ByteMap.store_outside _ below).trans
    apply ByteMap.pushAll_outside _ (by simp)
    simp only [List.length_cons, List.length_nil]
    bv_omega

theorem writeMsr_returns (here : cpu.eip = image.address .writeMsr 0)
    (holds : cpu.memory.Holds cpu.registers.esp [returnTo, argument, value]) :
    image.program.Leads cpu
      { cpu with
        eip := returnTo
        registers :=
          { cpu.registers with
            eax := value
            ecx := argument
            edx := 0
            esp := cpu.registers.esp + 4 }
        msr := Function.update cpu.msr argument (0#32 ++ value)
        memory := cpu.memory.store (cpu.registers.esp - 4) cpu.registers.ebp } := by
  have block := @Program.leads_block _ _ image.program cpu .writeMsr 0 Routine.writeMsrBody
    [.ret] here rfl
  rw [performAll_writeMsrBody holds] at block
  have back := (holds.store_below cpu.registers.ebp (by simp)).1
  apply block.trans
  have ret := @Program.leads_of_listed _ _ image.program
    { cpu with
      eip := image.address .writeMsr 8
      registers := { cpu.registers with eax := value, ecx := argument, edx := 0 }
      msr := Function.update cpu.msr argument (0#32 ++ value)
      memory := cpu.memory.store (cpu.registers.esp - 4) cpu.registers.ebp }
    .writeMsr 8 .ret rfl rfl
  simp only [Program.execute, Cpu.ret, Cpu.pop, Registers.set, back] at ret
  exact ret

theorem setCr3_returns (here : cpu.eip = image.address .setCr3 0)
    (holds : cpu.memory.Holds cpu.registers.esp [returnTo, argument]) :
    image.program.Leads cpu
      { cpu with
        eip := returnTo
        registers := { cpu.registers with eax := argument, esp := cpu.registers.esp + 4 }
        cr3 := argument
        memory := cpu.memory.store (cpu.registers.esp - 4) cpu.registers.ebp } := by
  have block := @Program.leads_block _ _ image.program cpu .setCr3 0 Routine.setCr3Body
    [.ret] here rfl
  rw [performAll_setCr3Body holds] at block
  have back := (holds.store_below cpu.registers.ebp (by simp)).1
  apply block.trans
  have ret := @Program.leads_of_listed _ _ image.program
    { cpu with
      eip := image.address .setCr3 5
      registers := { cpu.registers with eax := argument }
      cr3 := argument
      memory := cpu.memory.store (cpu.registers.esp - 4) cpu.registers.ebp }
    .setCr3 5 .ret rfl rfl
  simp only [Program.execute, Cpu.ret, Cpu.pop, Registers.set, back] at ret
  exact ret

/-- `inner_task_switch` up to the return of `writeMSR`: the kernel stack of the new task is in
the TSS and in the model-specific register. -/
theorem innerTaskSwitch_sets {rest : List Word} (here : cpu.eip = image.address .innerTaskSwitch 0)
    (holds : cpu.memory.Holds cpu.registers.esp (returnTo :: argument :: rest))
    (fits : rest.length ≤ 64)
    (apart : ∀ byte, InWord (image.tss + 4) byte →
      28 + 4 * rest.length ≤ (byte - (cpu.registers.esp - 20)).toNat) :
    ∃ after, image.program.Leads cpu after ∧ after.eip = image.address .innerTaskSwitch 10 ∧
      after.registers.esp = cpu.registers.esp - 12 ∧
      after.registers.ebp = cpu.registers.esp - 4 ∧ after.registers.ebx = argument ∧
      after.cr3 = cpu.cr3 ∧
      after.msr = Function.update cpu.msr 0x175 (0#32 ++ (argument + 4096)) ∧
      after.memory.Holds (cpu.registers.esp - 4)
        (cpu.registers.ebp :: returnTo :: argument :: rest) ∧
      after.memory.load (image.tss + 4) = argument + 4096 ∧
      ∀ byte, 20 ≤ (byte - (cpu.registers.esp - 20)).toNat → ¬InWord (image.tss + 4) byte →
        after.memory byte = cpu.memory byte := by
  have block := @Program.leads_block _ _ image.program cpu .innerTaskSwitch 0 Routine.setStack
    ((Routine.code .innerTaskSwitch).drop 9) here rfl
  rw [performAll_setStack ⟨holds.1, holds.2.1, trivial⟩] at block
  let written := (cpu.memory.store (cpu.registers.esp - 4) cpu.registers.ebp).store (image.tss + 4)
    (argument + 4096)
  let pushed := written.pushAll (cpu.registers.esp - 4) [argument + 4096, 0x175]
  have frame : written.Holds (cpu.registers.esp - 4)
      (cpu.registers.ebp :: returnTo :: argument :: rest) := by
    apply (holds.push cpu.registers.ebp (by simp only [List.length_cons]; omega)).store_apart
    · simp only [List.length_cons]
      omega
    · intro byte inside
      have outside := apart byte inside
      simp only [List.length_cons]
      bv_omega
  have arguments : (pushed.store (cpu.registers.esp - 16)
      (image.address .innerTaskSwitch 10)).Holds (cpu.registers.esp - 16)
      (image.address .innerTaskSwitch 10 :: 0x175 :: (argument + 4096) ::
        cpu.registers.ebp :: returnTo :: argument :: rest) := by
    have first := frame.pushAll [argument + 4096, 0x175] (by
      simp only [List.length_cons, List.length_nil]
      omega)
    have second := first.push (image.address .innerTaskSwitch 10) (by
      simp only [List.reverse_cons, List.reverse_nil, List.length_append, List.length_cons,
        List.length_nil]
      omega)
    have place : cpu.registers.esp - 4 - 4 * BitVec.ofNat 32 2 - 4 = cpu.registers.esp - 16 := by
      bv_omega
    rw [List.length_cons, List.length_singleton, place] at second
    exact second
  let called : Cpu :=
    { cpu with
      eip := image.address .writeMsr 0
      registers :=
        { cpu.registers with
          esp := cpu.registers.esp - 16
          ebp := cpu.registers.esp - 4#32
          ebx := argument
          esi := argument + 4096#32
          edx := image.tss }
      zf := argument + 4096 == 0
      less := argument.toInt + (4096 : Word).toInt < 0
      memory := pushed.store (cpu.registers.esp - 16) (image.address .innerTaskSwitch 10) }
  have call : image.program.Leads cpu called := by
    have calling := block.trans (@Program.leads_of_listed _ _ image.program _ .innerTaskSwitch 9
      (.call .writeMsr) rfl rfl)
    have place : cpu.registers.esp - 12#32 - 4 = cpu.registers.esp - 16 := by
      bv_omega
    simp only [Program.execute, Cpu.call, Cpu.push, Registers.set, place] at calling
    exact calling
  have returns := @writeMsr_returns _ image called _ _ _ rfl
    ⟨arguments.1, arguments.2.1, arguments.2.2.1, trivial⟩
  have outside : ∀ byte, 20 ≤ (byte - (cpu.registers.esp - 20)).toNat →
      (called.memory.store (cpu.registers.esp - 16 - 4) (cpu.registers.esp - 4)) byte =
        written byte := by
    intro byte far
    rw [ByteMap.store_outside _ (by rw [InWord]; bv_omega)]
    apply (ByteMap.store_outside _ (by rw [InWord]; bv_omega)).trans
    apply ByteMap.pushAll_outside _ (by simp)
    simp only [List.length_cons, List.length_nil]
    bv_omega
  refine ⟨_, call.trans returns, rfl, ?_, rfl, rfl, rfl, rfl, ?_, ?_, ?_⟩
  · have place : cpu.registers.esp - 16 + 4 = cpu.registers.esp - 12 := by
      bv_omega
    exact place
  · have kept := (arguments.store_below (cpu.registers.esp - 4) (by
      simp only [List.length_cons]
      omega)).2.2.2
    have place : cpu.registers.esp - 16 + 4 + 4 + 4 = cpu.registers.esp - 4 := by
      bv_omega
    rw [place] at kept
    exact kept
  · have same := @ByteMap.load_congr written
      (called.memory.store (cpu.registers.esp - 16 - 4) (cpu.registers.esp - 4)) (image.tss + 4) (by
        intro byte inside
        have far := apart byte inside
        apply outside
        omega)
    exact same.trans (ByteMap.load_store _ _ _)
  · intro byte far elsewhere
    apply (outside byte far).trans
    apply (ByteMap.store_outside _ elsewhere).trans
    apply ByteMap.store_outside
    rw [InWord]
    bv_omega

/-- Up to `etiqueta` the frame pointer is saved, and the directory is changed unless it
is the same. -/
theorem innerTaskSwitch_saves (here : cpu.eip = image.address .innerTaskSwitch 10)
    (frame : cpu.registers.esp = cpu.registers.ebp - 8) :
    ∃ after, image.program.Leads cpu after ∧
      after.eip = image.address .innerTaskSwitch Routine.etiqueta ∧
      after.registers.ebx = cpu.registers.ebx ∧ after.msr = cpu.msr ∧
      (let saved := cpu.memory.store ((cpu.registers.ebp &&& 0xFFF000) + 16) cpu.registers.ebp
      after.cr3 = (if saved.load ((cpu.registers.ebp &&& 0xFFF000) + 4) =
          saved.load (cpu.registers.ebx + 4) then cpu.cr3
        else saved.load (cpu.registers.ebx + 4)) ∧
      ∀ byte, 12 ≤ (byte - (cpu.registers.ebp - 12)).toNat →
        after.memory byte = saved byte) := by
  rcases @performAll_saveFrame _ image cpu with ⟨less, performed⟩
  have block := @Program.leads_block _ _ image.program cpu .innerTaskSwitch 10 Routine.saveFrame
    ((Routine.code .innerTaskSwitch).drop 16) here rfl
  rw [performed] at block
  have back : cpu.registers.ebp - 8 + 8 = cpu.registers.ebp := BitVec.sub_add_cancel _ _
  simp only [frame, back] at block
  generalize cpu.registers.ebp &&& 0xFFF000 = page at *
  generalize stored : cpu.memory.store (page + 16) cpu.registers.ebp = saved at *
  have branch := block.trans (@Program.leads_of_listed _ _ image.program _ .innerTaskSwitch 16
    (.je Routine.etiqueta) rfl rfl)
  by_cases same : saved.load (page + 4) = saved.load (cpu.registers.ebx + 4)
  · simp only [Program.execute, same, beq_self_eq_true, if_true] at branch
    refine ⟨_, branch, rfl, rfl, rfl, ?_, fun _ _ => rfl⟩
    rw [if_pos same]
  · have different : (saved.load (page + 4) == saved.load (cpu.registers.ebx + 4)) = false :=
      beq_eq_false_iff_ne.mpr same
    simp only [Program.execute, different, Bool.false_eq_true, if_false] at branch
    let pushed := saved.store (cpu.registers.ebp - 4) (saved.load (cpu.registers.ebx + 4))
    have push := branch.trans (@Program.leads_of_listed _ _ image.program _ .innerTaskSwitch 17
      (.operation (.push (.memory 4 .ebx))) rfl rfl)
    have call := push.trans (@Program.leads_of_listed _ _ image.program _ .innerTaskSwitch 18
      (.call .setCr3) rfl rfl)
    have stack : (pushed.store (cpu.registers.ebp - 4 - 4)
        (image.address .innerTaskSwitch 19)).Holds (cpu.registers.ebp - 4 - 4)
        [image.address .innerTaskSwitch 19, saved.load (cpu.registers.ebx + 4)] := by
      have empty : saved.Holds cpu.registers.ebp [] := trivial
      exact (empty.push (saved.load (cpu.registers.ebx + 4)) (by simp)).push
        (image.address .innerTaskSwitch 19) (by simp)
    have returned := call.trans (setCr3_returns rfl stack)
    refine ⟨_, returned.trans (@Program.leads_of_listed _ _ image.program _ .innerTaskSwitch 19
      (.operation (.add 4 .esp)) rfl rfl), rfl, rfl, rfl, ?_, ?_⟩
    · rw [if_neg same]
      rfl
    · intro byte far
      have argument : ¬InWord (cpu.registers.ebp - 4) byte := by
        rw [InWord]
        bv_omega
      have address : ¬InWord (cpu.registers.ebp - 4 - 4) byte := by
        rw [InWord]
        bv_omega
      have frame : ¬InWord (cpu.registers.ebp - 4 - 4 - 4) byte := by
        rw [InWord]
        bv_omega
      apply (ByteMap.store_outside _ frame).trans
      apply (ByteMap.store_outside _ address).trans
      exact ByteMap.store_outside _ argument

theorem innerTaskSwitch_changes
    (here : cpu.eip = image.address .innerTaskSwitch Routine.etiqueta) :
    let kernelEsp := cpu.memory.load (cpu.registers.ebx + 16)
    image.program.Leads cpu
      { cpu with
        eip := cpu.memory.load (kernelEsp + 4)
        registers :=
          { cpu.registers with
            esp := kernelEsp + 4 + 4
            ebp := cpu.memory.load kernelEsp } } := by
  have block := @Program.leads_block _ _ image.program cpu .innerTaskSwitch Routine.etiqueta
    Routine.changeStack [.ret] here rfl
  rw [performAll_changeStack] at block
  exact block.trans (@Program.leads_of_listed _ _ image.program _ .innerTaskSwitch 22 .ret rfl rfl)

/-! ## The pages of the tasks -/

namespace KernelImage

theorem base_toNat (image : KernelImage Task) (task : Task) :
    (image.base task).toNat = (image.page task).toNat * 4096 := by
  have bound := (image.page task).isLt
  rw [base, BitVec.toNat_shiftLeft, BitVec.toNat_setWidth, Nat.shiftLeft_eq]
  omega

theorem and_page {task : Task} {address : Word}
    (inside : (address - image.base task).toNat < 4096) :
    address &&& 0xFFF000 = image.base task := by
  have base := image.base_toNat task
  have bound := (image.page task).isLt
  have place : address.toNat = (image.page task).toNat * 4096 +
      (address - image.base task).toNat := by
    bv_omega
  have mask : address &&& (0xFFF000 : Word) =
      ((address >>> 12).setWidth 12).setWidth 32 <<< 12 := by
    apply BitVec.eq_of_getLsbD_eq
    intro bit inside
    interval_cases bit <;> simp
  apply BitVec.eq_of_toNat_eq
  rw [mask, base, BitVec.toNat_shiftLeft, BitVec.toNat_setWidth, BitVec.toNat_setWidth,
    BitVec.toNat_ushiftRight, Nat.shiftLeft_eq, Nat.shiftRight_eq_div_pow]
  omega

theorem tss_outside {byte : Word} (inside : InWord (image.tss + 4) byte) (task : Task) :
    4096 ≤ (byte - image.base task).toNat := by
  have base := image.base_toNat task
  have bound := (image.page task).isLt
  have fits := image.tss_inside
  have apart := image.tss_apart task
  rw [InWord] at inside
  bv_omega

theorem eq_of_inside {task other : Task} {byte : Word}
    (inside : (byte - image.base task).toNat < 4096)
    (insideOther : (byte - image.base other).toNat < 4096) : task = other := by
  apply image.page_injective
  have base := image.base_toNat task
  have baseOther := image.base_toNat other
  have bound := (image.page task).isLt
  have boundOther := (image.page other).isLt
  apply BitVec.eq_of_toNat_eq
  bv_omega

end KernelImage

/-! ## The whole call -/

/-- `old` calls `task_switch` for `new`, with room on its stack. -/
structure KernelImage.Switches (image : KernelImage Task) (old new : Task) (returnTo : Word)
    (cpu : Cpu) : Prop where
  eip : cpu.eip = image.address .taskSwitch 0
  stack : cpu.memory.Holds cpu.registers.esp [returnTo, image.base new]
  room : 64 ≤ (cpu.registers.esp - image.base old).toNat
  inside : (cpu.registers.esp - image.base old).toNat ≤ 4088

/-- The call has reached the return on the stack of `new`. -/
structure KernelImage.Switched (image : KernelImage Task) (old new : Task) (returnTo : Word)
    (before after : Cpu) : Prop where
  frame : after.memory.Holds (before.registers.esp - 28)
    (image.switchFrame before (image.base new) returnTo)
  savedEsp : image.kernelEsp after.memory old = before.registers.esp - 28
  eip : after.eip = after.memory.load (image.kernelEsp after.memory new + 4)
  ebp : after.registers.ebp = after.memory.load (image.kernelEsp after.memory new)
  esp : after.registers.esp = image.kernelEsp after.memory new + 8
  tss : after.memory.load (image.tss + 4) = image.base new + 4096
  msr : after.msr = Function.update before.msr 0x175 (0#32 ++ (image.base new + 4096))
  cr3 : after.cr3 = if image.dirPages before.memory old = image.dirPages before.memory new
    then before.cr3 else image.dirPages before.memory new
  kept : ∀ byte, 44 ≤ (byte - (before.registers.esp - 44)).toNat → ¬InWord (image.tss + 4) byte →
    ¬InWord (image.base old + 16) byte → after.memory byte = before.memory byte

section Call

variable {old new : Task}

theorem KernelImage.Switches.outside_stack (switches : image.Switches old new returnTo cpu)
    {task : Task} {byte : Word} (inside : (byte - image.base task).toNat < 20) :
    44 ≤ (byte - (cpu.registers.esp - 44)).toNat := by
  have room := switches.room
  have top := switches.inside
  by_contra within
  have page : (byte - image.base old).toNat < 4096 := by
    bv_omega
  have same : task = old := image.eq_of_inside (by omega) page
  rw [same] at inside
  bv_omega

theorem KernelImage.dirPages_apart (image : KernelImage Task) {task other : Task} {byte : Word}
    (inside : InWord (image.base task + 4) byte) : ¬InWord (image.base other + 16) byte := by
  rw [InWord] at inside ⊢
  intro within
  have same := @KernelImage.eq_of_inside _ image task other byte (by bv_omega) (by bv_omega)
  rw [same] at inside
  bv_omega

theorem outside_parts {esp byte : Word} (far : 44 ≤ (byte - (esp - 44)).toNat) :
    24 ≤ (byte - (esp - 24)).toNat ∧ 20 ≤ (byte - (esp - 24 - 20)).toNat ∧
      12 ≤ (byte - (esp - 28 - 12)).toNat := by
  refine ⟨?_, ?_, ?_⟩ <;> bv_omega

theorem near_of_inWord {base byte : Word} (inside : InWord (base + 4) byte) :
    (byte - base).toNat < 20 := by
  rw [InWord] at inside
  bv_omega

theorem KernelImage.Switches.frame_apart (switches : image.Switches old new returnTo cpu) :
    (∀ byte, InWord (image.base old + 16) byte →
      36 ≤ (byte - (cpu.registers.esp - 28)).toNat) ∧
    ∀ byte, (byte - (cpu.registers.esp - 28)).toNat < 36 →
      12 ≤ (byte - (cpu.registers.esp - 28 - 12)).toNat := by
  have room := switches.room
  have top := switches.inside
  constructor
  · intro byte inside
    rw [InWord] at inside
    bv_omega
  · intro byte inside
    bv_omega

theorem KernelImage.Switches.savedEsp_apart (switches : image.Switches old new returnTo cpu)
    {byte : Word} (inside : InWord (image.base old + 16) byte) :
    12 ≤ (byte - (cpu.registers.esp - 28 - 12)).toNat := by
  have room := switches.room
  have top := switches.inside
  rw [InWord] at inside
  bv_omega

theorem KernelImage.Switches.tss_apart (switches : image.Switches old new returnTo cpu)
    {byte : Word} (inside : InWord (image.tss + 4) byte) :
    12 ≤ (byte - (cpu.registers.esp - 28 - 12)).toNat ∧ ¬InWord (image.base old + 16) byte := by
  have room := switches.room
  have top := switches.inside
  have outside := image.tss_outside inside old
  clear inside
  rw [InWord]
  constructor <;> bv_omega

theorem taskSwitch_leads (switches : image.Switches old new returnTo cpu) :
    ∃ after, image.program.Leads cpu after ∧ image.Switched old new returnTo cpu after := by
  have room := switches.room
  have top := switches.inside
  rcases taskSwitch_saves switches.eip switches.stack with
    ⟨inner, saving, innerEip, innerEsp, innerEbp, innerCr3, innerMsr, innerHolds, innerKept⟩
  rcases innerTaskSwitch_sets innerEip innerHolds (by simp) (by
      intro byte inside
      have outside := image.tss_outside inside old
      simp only [List.length_cons, List.length_nil, innerEsp]
      bv_omega) with
    ⟨set, setting, setEip, setEsp, setEbp, setEbx, setCr3, setMsr, setHolds, setTss, setKept⟩
  rcases innerTaskSwitch_saves setEip (by rw [setEsp, setEbp]; bv_omega) with
    ⟨saved, changing, savedEip, savedEbx, savedMsr, savedCr3, savedKept⟩
  have pointer : set.registers.ebp = cpu.registers.esp - 28 := by
    rw [setEbp, innerEsp]
    bv_omega
  have page : set.registers.ebp &&& 0xFFF000 = image.base old := by
    apply image.and_page
    rw [pointer]
    bv_omega
  rw [page, pointer, setEbx] at savedCr3
  rw [page, pointer] at savedKept
  rw [innerEsp] at setHolds setKept
  have untouched : ∀ byte, 44 ≤ (byte - (cpu.registers.esp - 44)).toNat →
      ¬InWord (image.tss + 4) byte → set.memory byte = cpu.memory byte := by
    intro byte far elsewhere
    rcases outside_parts far with ⟨first, second, _⟩
    exact (setKept byte second elsewhere).trans (innerKept byte first)
  have dirPages (task : Task) : (set.memory.store (image.base old + 16)
      (cpu.registers.esp - 28)).load (image.base task + 4) = image.dirPages cpu.memory task := by
    apply ByteMap.load_congr
    intro byte inside
    apply (ByteMap.store_outside _ (image.dirPages_apart inside)).trans
    have near := near_of_inWord inside
    apply untouched byte (switches.outside_stack near)
    intro within
    have outside := image.tss_outside within task
    omega
  rcases switches.frame_apart with ⟨frameApart, within⟩
  have place : cpu.registers.esp - 24 - 4 = cpu.registers.esp - 28 := by
    rw [BitVec.sub_sub]
    rfl
  rw [place, innerEbp] at setHolds
  have change := innerTaskSwitch_changes savedEip
  rw [savedEbx, setEbx] at change
  refine ⟨_, saving.trans (setting.trans (changing.trans change)), ?_⟩
  exact
    { frame := by
        have holds := setHolds.store_apart (cpu.registers.esp - 28) (by simp) frameApart
        apply holds.congr (by simp)
        intro byte inside
        exact savedKept byte (within byte inside)
      savedEsp := by
        apply Eq.trans _ (ByteMap.load_store set.memory (image.base old + 16) _)
        apply ByteMap.load_congr
        intro byte inside
        exact savedKept byte (switches.savedEsp_apart inside)
      eip := rfl
      ebp := rfl
      esp := by
        have place : image.kernelEsp saved.memory new + 4 + 4 =
            image.kernelEsp saved.memory new + 8 := by
          rw [BitVec.add_assoc]
          rfl
        exact place
      tss := by
        apply Eq.trans _ setTss
        apply ByteMap.load_congr
        intro byte inside
        rcases switches.tss_apart inside with ⟨far, apart⟩
        exact (savedKept byte far).trans (ByteMap.store_outside _ apart)
      msr := by
        have same : saved.msr =
            Function.update cpu.msr 0x175 (0#32 ++ (image.base new + 4096)) := by
          rw [savedMsr, setMsr, innerMsr]
        exact same
      cr3 := by
        rw [dirPages, dirPages, setCr3, innerCr3] at savedCr3
        exact savedCr3
      kept := by
        intro byte far elsewhere apart
        rcases outside_parts far with ⟨_, _, last⟩
        apply (savedKept byte last).trans
        apply (ByteMap.store_outside _ apart).trans
        exact untouched byte far elsewhere }

theorem KernelImage.Switched.dirPages {after : Cpu}
    (switched : image.Switched old new returnTo cpu after)
    (switches : image.Switches old new returnTo cpu) (task : Task) :
    image.dirPages after.memory task = image.dirPages cpu.memory task := by
  apply ByteMap.load_congr
  intro byte inside
  have near := near_of_inWord inside
  apply switched.kept byte (switches.outside_stack near) _ (image.dirPages_apart inside)
  intro within
  have outside := image.tss_outside within task
  omega

theorem KernelImage.Switched.kept_page {after : Cpu} {task : Task} {byte : Word}
    (switched : image.Switched old new returnTo cpu after)
    (switches : image.Switches old new returnTo cpu) (different : task ≠ old)
    (inside : (byte - image.base task).toNat < 4096) : after.memory byte = cpu.memory byte := by
  have outside : 4096 ≤ (byte - image.base old).toNat := by
    by_contra within
    exact different (image.eq_of_inside inside (by omega))
  have room := switches.room
  have top := switches.inside
  apply switched.kept byte
  · clear inside
    bv_omega
  · intro within
    have elsewhere := image.tss_outside within task
    omega
  · intro within
    rw [InWord] at within
    clear inside
    bv_omega

end Call

end Zeos
