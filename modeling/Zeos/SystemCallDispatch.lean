import Zeos.SystemCallEntry

/-! # System-call dispatch

What user mode finds after a system call, for whatever number it has put into EAX. The
table ends at `maxSyscall`, and the comparison lets `maxSyscall` itself through.
-/

namespace Zeos

open Foundation Foundation.Machine

/-- The top of the kernel stack that SYSENTER changes to. -/
def kernelStack (processor : Processor) : Word := (processor.msr sysenterEsp).setWidth 32

namespace EntryImage

/-- A task in user mode calls the system. -/
structure Sysenter (image : EntryImage) (before : Processor) : Prop where
  entry : (before.msr sysenterEip).setWidth 32 = image.address 0
  codeMsr : before.msr sysenterCs = kernelCs.setWidth 64
  cs : before.selectors .cs = userCs.setWidth 16
  ss : before.selectors .ss = userDs.setWidth 16
  table : image.TableAt before.memory
  apart : image.TableApart (kernelStack before)

/-- The word at 4(%ebp) stays as it is when the first four words are pushed. -/
def Undisturbed (image : EntryImage) (before : Processor) : Prop :=
  let pushed := [userDs, before.registers.ebp, (image.saved before.sysenter).eflags, userCs]
  (before.memory.pushAll (kernelStack before) pushed).load (before.registers.ebp + 4) =
    before.memory.load (before.registers.ebp + 4)

def Handled (image : EntryImage) (before final : Processor) : Prop :=
  (∃ function, sysCallTable[before.registers.eax.toNat]? = some function ∧
    final.calls = before.calls ++ [⟨image.handler function, final.registers.eax⟩]) ∨
  (sysCallTable.length ≤ before.registers.eax.toNat ∧ final.calls = before.calls ∧
    final.registers.eax = -38)

/-- What the caller finds when it is back in user mode. -/
structure Dispatches (image : EntryImage) (before final : Processor) : Prop where
  user : final.user = true
  handled : image.Handled before final
  eip : final.eip = before.memory.load (before.registers.ebp + 4)
  esp : final.registers.esp = before.registers.ebp
  ebx : final.registers.ebx = before.registers.ebx
  esi : final.registers.esi = before.registers.esi
  edi : final.registers.edi = before.registers.edi
  ebp : final.registers.ebp = before.registers.ebp
  selectors : final.selectors = before.selectors

variable {image : EntryImage} {before final : Processor}

theorem returnAddress_sysenter (image : EntryImage) (before : Processor) :
    image.returnAddress before.sysenter = (before.memory.pushAll (kernelStack before)
      [userDs, before.registers.ebp, (image.saved before.sysenter).eflags, userCs]).load
        (before.registers.ebp + 4) := by
  simp only [EntryImage.returnAddress, SystemProgram.performAll, SystemCallHandler.pushContext,
    List.foldl_cons, List.foldl_nil, SystemProgram.perform, SystemOperation.perform,
    Operation.perform, Cpu.push, Cpu.read, Registers.set, Registers.get, EntryImage.saved,
    List.take, ByteMap.pushAll, Processor.sysenter, kernelStack]
  rfl

/-- The return address lies outside of the top of the kernel stack, as it does for a caller
whose stack is its own. -/
theorem undisturbed_of_outside (outside : ∀ byte, InWord (before.registers.ebp + 4) byte →
    16 ≤ (byte - (kernelStack before - 16)).toNat) : image.Undisturbed before := by
  apply ByteMap.load_congr
  intro byte inside
  exact ByteMap.pushAll_outside _ (by simp) (outside byte inside)

theorem Sysenter.compares (sysenter : image.Sysenter before)
    (enter : image.Conforms (kernelStack before) image.enterSystem) :
    ∃ compared, image.program.Leads before.sysenter compared ∧
      image.Framed (kernelStack before) (image.saved before.sysenter).words
        (if before.registers.eax.toNat ≤ maxSyscall then 26
          else SystemCallHandler.sysenterErr) compared ∧
      compared.registers.eax = before.registers.eax ∧ image.TableAt compared.memory ∧
      compared.calls = before.calls := by
  rcases @enters image (kernelStack before) before.sysenter sysenter.entry rfl sysenter.codeMsr rfl
    with ⟨entered, entering, framed, calls, memory⟩
  have table : image.TableAt entered.memory := by
    apply sysenter.table.congr
    intro byte inside
    have apart := sysenter.apart byte inside
    apply memory
    bv_omega
  let returned := image.program.execute entered 20 (.call .enterSystem)
  have call : image.program.Leads entered returned :=
    SystemProgram.leads_of_listed framed.user framed.eip rfl
  have inFrame : image.Framed (kernelStack before)
      (before.registers.eax :: (image.saved before.sysenter).words) 21 returned :=
    framed.call enter (Or.inr rfl) 21 entered.calls
  have kept : image.TableAt returned.memory := framed.call_table enter rfl sysenter.apart table
  have pop := SystemProgram.leads_of_listed inFrame.user inFrame.eip
    (show image.program.code[21]? = some (.operation (.plain (.pop .eax))) from rfl)
  rcases inFrame.pops.compares with ⟨compared, comparing, framed, registers, memory, sameCalls⟩
  have number : (image.program.execute returned 21
      (.operation (.plain (.pop .eax)))).registers.eax = before.registers.eax := inFrame.holds.1
  rw [number] at framed
  refine ⟨compared, entering.trans (call.trans (pop.trans comparing)), framed, ?_, ?_, ?_⟩
  · rw [registers, number]
  · rw [memory]
    exact kept
  · exact sameCalls.trans calls

theorem execute_callTable {compared : Processor} {function : SystemFunction} {index : Nat}
    (table : image.TableAt compared.memory)
    (listed : sysCallTable[compared.registers.eax.toNat]? = some function) :
    image.program.execute compared index (.callTable .sysCallTable .eax) =
      let returned := image.run (image.handler function)
        (compared.entering (image.address (index + 1)) (image.handler function))
      { returned with
        calls := compared.calls ++ [⟨image.handler function, returned.registers.eax⟩] } := by
  have found : (sysCallTable.map image.handler)[compared.registers.eax.toNat]? =
      some (image.handler function) := by
    rw [List.getElem?_map, listed]
    rfl
  have target := table.load found
  rw [BitVec.ofNat_toNat, BitVec.setWidth_eq] at target
  have called : image.program.execute compared index (.callTable .sysCallTable .eax) =
      image.program.callTable compared (image.address (index + 1)) .sysCallTable .eax := rfl
  have place : image.program.resolve .sysCallTable + 4 * compared.registers.get .eax =
      image.table + 4 * compared.registers.eax := rfl
  rw [called, SystemProgram.callTable, place, target]
  rfl

theorem Sysenter.answers (sysenter : image.Sysenter before)
    (enter : image.Conforms (kernelStack before) image.enterSystem)
    (exits : image.Conforms (kernelStack before) image.exitSystem)
    (handler : ∀ function, sysCallTable[before.registers.eax.toNat]? = some function →
      image.Conforms (kernelStack before) (image.handler function))
    (inside : before.registers.eax.toNat ≠ maxSyscall) :
    ∃ final, image.program.Leads before.sysenter final ∧ image.Handled before final ∧
      (image.saved before.sysenter).Resumes final.registers.eax final := by
  rcases sysenter.compares enter with ⟨compared, comparing, framed, number, table, calls⟩
  by_cases listed : before.registers.eax.toNat < maxSyscall
  · rw [if_pos (by omega)] at framed
    rcases List.getElem?_eq_some_iff.mpr ⟨listed, rfl⟩ with found
    let called := image.program.execute compared 26 (.callTable .sysCallTable .eax)
    have call : image.program.Leads compared called :=
      SystemProgram.leads_of_listed framed.user framed.eip rfl
    have equal : called = _ := execute_callTable table (by rw [number]; exact found)
    have inFrame : image.Framed (kernelStack before) (image.saved before.sysenter).words 27
        called := by
      rw [equal]
      exact framed.call (handler _ found) (Or.inl rfl) 27 _
    rcases inFrame.finishes exits with ⟨final, leads, resumes, same⟩
    refine ⟨final, comparing.trans (call.trans leads), ?_, ?_⟩
    · left
      refine ⟨_, found, same.trans ?_⟩
      rw [resumes.eax, equal, calls]
    · rw [resumes.eax]
      exact resumes
  · rw [if_neg (by omega)] at framed
    let refused := image.program.execute compared SystemCallHandler.sysenterErr
      (.operation (.plain (.mov (.immediate (-38)) .eax)))
    have refuse : image.program.Leads compared refused :=
      SystemProgram.leads_of_listed framed.user framed.eip rfl
    have inFrame : image.Framed (kernelStack before) (image.saved before.sysenter).words
        SystemCallHandler.sysenterFin refused :=
      { eip := rfl
        esp := framed.esp
        holds := framed.holds
        codeMsr := framed.codeMsr
        user := framed.user }
    rcases inFrame.leaves exits with ⟨final, leads, resumes, same⟩
    have result : refused.registers.eax = -38 := rfl
    rw [result] at resumes
    refine ⟨final, comparing.trans (refuse.trans leads), ?_, ?_⟩
    · right
      refine ⟨by rw [maxSyscall] at listed; omega, same.trans calls, resumes.eax⟩
    · rw [resumes.eax]
      exact resumes

/-- The comparison lets the number behind the last entry through: whatever lies behind the
table is called. -/
theorem Sysenter.calls_beyond (sysenter : image.Sysenter before)
    (enter : image.Conforms (kernelStack before) image.enterSystem)
    (beyond : before.registers.eax.toNat = maxSyscall) :
    ∃ called, image.program.Leads before.sysenter called ∧
      before.calls.length < called.calls.length := by
  rcases sysenter.compares enter with ⟨compared, comparing, framed, number, table, calls⟩
  rw [if_pos (by omega)] at framed
  have call := SystemProgram.leads_of_listed framed.user framed.eip
    (show image.program.code[26]? = some (.callTable .sysCallTable .eax) from rfl)
  refine ⟨_, comparing.trans call, ?_⟩
  have recorded : (image.program.execute compared 26 (.callTable .sysCallTable .eax)).calls =
      compared.calls ++ [_] := rfl
  rw [recorded, calls, List.length_append]
  exact Nat.lt_succ_self _

theorem Sysenter.not_dispatches (sysenter : image.Sysenter before)
    (enter : image.Conforms (kernelStack before) image.enterSystem)
    (beyond : before.registers.eax.toNat = maxSyscall) :
    ¬∃ final, image.program.Leads before.sysenter final ∧ image.Dispatches before final := by
  rintro ⟨final, leads, dispatches⟩
  rcases sysenter.calls_beyond enter beyond with ⟨called, calling, more⟩
  have still := (calling.through leads dispatches.user).calls.length_le
  cases dispatches.handled with
  | inl handled =>
      rcases handled with ⟨function, listed, _⟩
      rw [beyond] at listed
      cases listed
  | inr refused =>
      rw [refused.2.1] at still
      omega

theorem Sysenter.selectors (sysenter : image.Sysenter before) {result : Word}
    (resumes : (image.saved before.sysenter).Resumes result final) :
    final.selectors = before.selectors := by
  funext segment
  cases segment with
  | cs => exact resumes.cs.trans sysenter.cs.symm
  | ss => exact resumes.ss.trans sysenter.ss.symm
  | ds => exact resumes.ds.trans (BitVec.setWidth_setWidth_of_le _ (by decide))
  | es => exact resumes.es.trans (BitVec.setWidth_setWidth_of_le _ (by decide))
  | fs => exact resumes.fs.trans (BitVec.setWidth_setWidth_of_le _ (by decide))
  | gs => exact resumes.gs.trans (BitVec.setWidth_setWidth_of_le _ (by decide))

end EntryImage

section Sample

/-- A kernel whose functions only return their place in it. -/
def sampleEntry : EntryImage where
  table := 0x300000
  enterSystem := 0x400100
  exitSystem := 0x400200
  handler function := 0x400001 + BitVec.ofNat 32 function.ctorIdx
  run function entry := { entry with toCpu := entry.toCpu.ret.write .eax (function - 0x400000) }
  flags := fun _ => 0x202
  flags_eip := fun _ _ => rfl
  address index := 0x100000 + BitVec.ofNat 32 index
  locate address :=
    if (address - 0x100000).toNat < SystemCallHandler.code.length then
      some (address - 0x100000).toNat
    else none
  locate_address := by
    intro index inside
    have small : index < 46 := inside
    have place : (0x100000 + BitVec.ofNat 32 index - 0x100000).toNat = index := by
      bv_omega
    rw [place, if_pos inside]

/-- A task that calls the system with a number in EAX. -/
def sampleCaller (number : Word) : Processor where
  registers :=
    { eax := number, ecx := 0, edx := 0, ebx := 1, esp := 0x110000, ebp := 0x110000, esi := 2,
      edi := 3 }
  eip := 0x101000
  zf := false
  less := false
  cr3 := 0
  msr register :=
    if register = sysenterCs then kernelCs.setWidth 64
    else if register = sysenterEsp then 0x200000
    else 0x100000
  memory := ByteMap.pushAll (fun _ => 0) (0x300000 + 144)
    (sysCallTable.map sampleEntry.handler).reverse
  selectors
    | .cs => userCs.setWidth 16
    | _ => userDs.setWidth 16
  interrupts := true
  user := true
  calls := []

theorem sampleEntry_conforms (top function : Word) : sampleEntry.Conforms top function :=
  fun _ _ _ =>
    { eip := rfl
      esp := rfl
      frames := fun _ _ => rfl
      constants := fun _ _ => rfl
      codeMsr := rfl
      user := rfl }

theorem sampleCaller_sysenter (number : Word) :
    sampleEntry.Sysenter (sampleCaller number) where
  entry := rfl
  codeMsr := rfl
  cs := rfl
  ss := rfl
  table := by
    have holds := @ByteMap.Holds.pushAll (fun _ => 0) (0x300000 + 144) [] trivial
      (sysCallTable.map sampleEntry.handler).reverse (by simp [sysCallTable])
    rw [List.append_nil, List.reverse_reverse] at holds
    exact holds
  apart := by
    intro byte inside
    have within : (byte - 0x300000).toNat < 144 := inside
    have stack : kernelStack (sampleCaller number) = 0x200000 := rfl
    rw [stack]
    bv_omega

end Sample

end Zeos
