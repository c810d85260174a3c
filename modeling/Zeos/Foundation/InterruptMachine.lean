import Zeos.Foundation.SystemMachine

/-! # Interrupts

A processor with its flags in one word, an interrupt-descriptor table and a task-state
segment: how it takes an interrupt, from user mode on another stack, and what IRET makes of
the frame that it then has pushed. That IRET also looks at the data segments when it returns
to user mode is left out.
-/

namespace Foundation.Machine

/-! ## Gates -/

@[ext] structure Gate where
  lowOffset : BitVec 16
  segmentSelector : BitVec 16
  flags : BitVec 16
  highOffset : BitVec 16
deriving DecidableEq, Repr

namespace Gate

variable (gate : Gate)

def offset : Word := gate.highOffset ++ gate.lowOffset

def present : Bool := gate.flags.getLsbD 15

def privilege : BitVec 2 := gate.flags.extractLsb' 13 2

def isInterrupt : Bool := gate.flags.extractLsb' 8 5 == 0x0e#5

def words : List Word :=
  [gate.segmentSelector ++ gate.lowOffset, gate.highOffset ++ gate.flags]

def ofWords (low high : Word) : Gate where
  lowOffset := low.extractLsb' 0 16
  segmentSelector := low.extractLsb' 16 16
  flags := high.extractLsb' 0 16
  highOffset := high.extractLsb' 16 16

theorem extract_append (high low : BitVec 16) :
    (high ++ low).extractLsb' 0 16 = low ∧ (high ++ low).extractLsb' 16 16 = high := by
  constructor
  · ext index inside
    rw [BitVec.getElem_extractLsb', BitVec.getLsbD_append, Nat.zero_add, if_pos inside,
      BitVec.getLsbD_eq_getElem]
  · ext index inside
    rw [BitVec.getElem_extractLsb', BitVec.getLsbD_append, if_neg (by omega),
      Nat.add_sub_cancel_left, BitVec.getLsbD_eq_getElem]

theorem ofWords_words :
    ofWords (gate.segmentSelector ++ gate.lowOffset) (gate.highOffset ++ gate.flags) = gate := by
  ext : 1
  · exact (extract_append _ _).1
  · exact (extract_append _ _).2
  · exact (extract_append _ _).1
  · exact (extract_append _ _).2

end Gate

/-! ## The processor -/

def clearedFlags : Word := 0x34300

/-- A processor with the base addresses of the descriptor table and of the task-state segment,
and what has been sent to the ports. -/
@[ext] structure InterruptCpu extends Processor where
  eflags : Word
  idtr : Word
  tr : Word
  sent : List (BitVec 8 × BitVec 8)

namespace InterruptCpu

variable (cpu : InterruptCpu)

def setFlags (eflags : Word) : InterruptCpu :=
  { cpu with
    eflags := eflags
    zf := eflags.getLsbD 6
    less := eflags.getLsbD 7 ^^ eflags.getLsbD 11
    interrupts := eflags.getLsbD 9 }

/-- The flags and the privilege are those that the word and the selector say. -/
structure Coherent : Prop where
  flags : cpu.setFlags cpu.eflags = cpu
  privilege : cpu.user = (cpu.selectors .cs &&& 3 == 3)

def push (value : Word) : InterruptCpu := { cpu with toCpu := cpu.toCpu.push value }

def pop : InterruptCpu × Word :=
  ({ cpu with toCpu := cpu.toCpu.pop.1 }, cpu.toCpu.pop.2)

def gateAt (vector : BitVec 8) : Gate :=
  let entry := cpu.idtr + 8 * vector.setWidth 32
  Gate.ofWords (cpu.memory.load entry) (cpu.memory.load (entry + 4))

def systemStack : Word := cpu.memory.load (cpu.tr + 4)

def changeStack : InterruptCpu :=
  if cpu.user then
    let changed : InterruptCpu :=
      { cpu with
        registers := cpu.registers.set .esp cpu.systemStack
        selectors := Function.update cpu.selectors .ss
          ((cpu.memory.load (cpu.tr + 8)).setWidth 16) }
    (changed.push ((cpu.selectors .ss).setWidth 32)).push cpu.registers.esp
  else cpu

def enterGate (gate : Gate) : InterruptCpu :=
  let stacked := ((cpu.changeStack.push cpu.eflags).push
    ((cpu.selectors .cs).setWidth 32)).push cpu.eip
  { stacked.setFlags (cpu.eflags &&& ~~~clearedFlags) with
    eip := gate.offset
    selectors := Function.update stacked.selectors .cs gate.segmentSelector
    user := false }

def interrupt (vector : BitVec 8) : Option InterruptCpu :=
  let gate := cpu.gateAt vector
  if cpu.interrupts && gate.present && gate.isInterrupt then some (cpu.enterGate gate) else none

/-- INT, which a program can use when the gate allows it. -/
def softwareInterrupt (vector : BitVec 8) : Option InterruptCpu :=
  let gate := cpu.gateAt vector
  if gate.present && gate.isInterrupt && (!cpu.user || gate.privilege == 3) then
    some (cpu.enterGate gate)
  else none

def iret : InterruptCpu :=
  let (cpu, eip) := cpu.pop
  let (cpu, cs) := cpu.pop
  let (cpu, eflags) := cpu.pop
  let returned : InterruptCpu :=
    { cpu.setFlags eflags with
      eip := eip
      selectors := Function.update cpu.selectors .cs (cs.setWidth 16) }
  if cs.setWidth 16 &&& 3 == 3 then
    let (_, esp) := cpu.pop
    let (_, ss) := cpu.pop.1.pop
    { returned with
      registers := returned.registers.set .esp esp
      selectors := Function.update returned.selectors .ss (ss.setWidth 16)
      user := true }
  else returned

def moveToAl (value : BitVec 8) : InterruptCpu :=
  { cpu with registers :=
      cpu.registers.set .eax (cpu.registers.eax.extractLsb' 8 24 ++ value : BitVec 32) }

def outAl (port : BitVec 8) : InterruptCpu :=
  { cpu with sent := cpu.sent ++ [(port, cpu.registers.eax.setWidth 8)] }

def performAll {Label : Type} (resolve : Label → Word)
    (operations : List (SystemOperation Label)) : InterruptCpu :=
  { cpu with toProcessor :=
      operations.foldl (SystemOperation.perform resolve fun _ => cpu.eflags) cpu.toProcessor }

def entering (returnTo callee : Word) : InterruptCpu :=
  { cpu with toProcessor := cpu.toProcessor.entering returnTo callee }

theorem entering_stack (returnTo callee : Word) :
    (cpu.entering returnTo callee).memory =
        cpu.memory.store (cpu.registers.esp - 4) returnTo ∧
      (cpu.entering returnTo callee).registers.esp = cpu.registers.esp - 4 :=
  ⟨rfl, rfl⟩

theorem interrupt_taken {vector : BitVec 8} (enabled : cpu.interrupts = true)
    (present : (cpu.gateAt vector).present = true)
    (isInterrupt : (cpu.gateAt vector).isInterrupt = true) :
    cpu.interrupt vector = some (cpu.enterGate (cpu.gateAt vector)) := by
  have taken : (cpu.interrupts && (cpu.gateAt vector).present &&
      (cpu.gateAt vector).isInterrupt) = true := by
    rw [enabled, present, isInterrupt]
    rfl
  exact if_pos taken

theorem softwareInterrupt_refused {vector : BitVec 8} (user : cpu.user = true)
    (closed : (cpu.gateAt vector).privilege ≠ 3) : cpu.softwareInterrupt vector = none := by
  have refused : (!cpu.user || (cpu.gateAt vector).privilege == 3) = false := by
    rw [user, beq_eq_false_iff_ne.mpr closed]
    rfl
  have outside : ¬((cpu.gateAt vector).present && (cpu.gateAt vector).isInterrupt &&
      (!cpu.user || (cpu.gateAt vector).privilege == 3)) = true := by
    rw [refused, Bool.and_false]
    exact Bool.false_ne_true
  exact if_neg outside

/-! ## The frame of an interrupt -/

/-- Where the frame ends: on the stack of the system, from user mode, and else on the one
that is used already. -/
def frameTop : Word := if cpu.user then cpu.systemStack else cpu.registers.esp

def frame : List Word :=
  [cpu.eip, (cpu.selectors .cs).setWidth 32, cpu.eflags] ++
    if cpu.user then [cpu.registers.esp, (cpu.selectors .ss).setWidth 32] else []

theorem frame_length : cpu.user = false ∧ cpu.frame.length = 3 ∨
    cpu.user = true ∧ cpu.frame.length = 5 := by
  unfold frame
  cases cpu.user with
  | false => exact .inl ⟨rfl, rfl⟩
  | true => exact .inr ⟨rfl, rfl⟩

/-- A processor that has been interrupted through a gate: its frame is stacked, and what is
not in the frame is as it was. -/
structure Entered (cpu : InterruptCpu) (gate : Gate) (entered : InterruptCpu) : Prop where
  registers : entered.registers =
    cpu.registers.set .esp (cpu.frameTop - 4 * BitVec.ofNat 32 cpu.frame.length)
  memory : entered.memory = cpu.memory.pushAll cpu.frameTop cpu.frame.reverse
  eip : entered.eip = gate.offset
  cs : entered.selectors .cs = gate.segmentSelector
  selectors : ∀ segment, segment ≠ .cs → segment ≠ .ss →
    entered.selectors segment = cpu.selectors segment
  ss : cpu.user = false → entered.selectors .ss = cpu.selectors .ss
  user : entered.user = false
  interrupts : entered.interrupts = false
  sent : entered.sent = cpu.sent

theorem clearedFlags_interrupts (eflags : Word) :
    (eflags &&& ~~~clearedFlags).getLsbD 9 = false := by
  have cleared : (~~~clearedFlags : Word).getLsbD 9 = false := by decide
  rw [BitVec.getLsbD_and, cleared, Bool.and_false]

theorem changeStack_frame :
    cpu.changeStack.registers = cpu.registers.set .esp (cpu.frameTop -
        if cpu.user then 8 else 0) ∧
      cpu.changeStack.memory = cpu.memory.pushAll cpu.frameTop
        (if cpu.user then [(cpu.selectors .ss).setWidth 32, cpu.registers.esp] else []) ∧
      (∀ segment, segment ≠ .ss → cpu.changeStack.selectors segment = cpu.selectors segment) ∧
      (cpu.user = false → cpu.changeStack.selectors .ss = cpu.selectors .ss) ∧
      cpu.changeStack.sent = cpu.sent := by
  unfold changeStack frameTop
  cases cpu.user with
  | false =>
      refine ⟨?_, rfl, fun _ _ => rfl, fun _ => rfl, rfl⟩
      have place : cpu.registers.esp - 0 = cpu.registers.esp := BitVec.sub_zero _
      exact (congrArg (fun esp => cpu.registers.set .esp esp) place).symm
  | true =>
      refine ⟨?_, rfl, fun segment notSs => Function.update_of_ne notSs _ _, ?_, rfl⟩
      · have place : cpu.systemStack - 4 - 4 = cpu.systemStack - 8 := by bv_omega
        exact congrArg (fun esp => cpu.registers.set .esp esp) place
      · intro kernel
        cases kernel

theorem enterGate_selectors (gate : Gate) : (cpu.enterGate gate).selectors =
    Function.update cpu.changeStack.selectors .cs gate.segmentSelector :=
  rfl

theorem enterGate_stack (gate : Gate) :
    (cpu.enterGate gate).registers =
        cpu.changeStack.registers.set .esp (cpu.changeStack.registers.esp - 4 - 4 - 4) ∧
      (cpu.enterGate gate).memory = cpu.changeStack.memory.pushAll cpu.changeStack.registers.esp
        [cpu.eflags, (cpu.selectors .cs).setWidth 32, cpu.eip] :=
  ⟨rfl, rfl⟩

theorem enterGate_entered (gate : Gate) : Entered cpu gate (cpu.enterGate gate) := by
  rcases cpu.changeStack_frame with ⟨registers, memory, selectors, ss, sent⟩
  rcases cpu.enterGate_stack gate with ⟨pushed, stored⟩
  have stack : cpu.changeStack.registers.esp = cpu.frameTop - if cpu.user then 8 else 0 :=
    congrArg Registers.esp registers
  refine ⟨?_, ?_, rfl, ?_, ?_, ?_, rfl, clearedFlags_interrupts _, sent⟩
  · rw [pushed, stack, registers]
    have place : cpu.frameTop - (if cpu.user then 8 else 0) - 4 - 4 - 4 =
        cpu.frameTop - 4 * BitVec.ofNat 32 cpu.frame.length := by
      unfold frame
      cases cpu.user with
      | false =>
          change cpu.frameTop - 0 - 4 - 4 - 4 = cpu.frameTop - 4 * BitVec.ofNat 32 3
          bv_omega
      | true =>
          change cpu.frameTop - 8 - 4 - 4 - 4 = cpu.frameTop - 4 * BitVec.ofNat 32 5
          bv_omega
    exact congrArg (fun esp => cpu.registers.set .esp esp) place
  · rw [stored, memory, stack]
    unfold frame
    cases cpu.user with
    | false =>
        have place : cpu.frameTop - 0 = cpu.frameTop := BitVec.sub_zero _
        exact congrArg (fun esp => cpu.memory.pushAll esp _) place
    | true =>
        have place : cpu.frameTop - 8 = cpu.frameTop - 4 - 4 := by bv_omega
        exact congrArg (fun esp => ((cpu.memory.pushAll cpu.frameTop _).pushAll esp _)) place
  · rw [enterGate_selectors, Function.update_self]
  · intro segment notCs notSs
    rw [enterGate_selectors, Function.update_of_ne notCs]
    exact selectors segment notSs
  · intro kernel
    rw [enterGate_selectors, Function.update_of_ne Segment.noConfusion]
    exact ss kernel

theorem Entered.holds {gate : Gate} {entered : InterruptCpu} (here : Entered cpu gate entered) :
    entered.memory.Holds entered.registers.esp cpu.frame := by
  have short : cpu.frame.length ≤ 5 := by
    rcases cpu.frame_length with ⟨-, length⟩ | ⟨-, length⟩ <;> omega
  have pushed := @ByteMap.Holds.pushAll cpu.memory cpu.frameTop [] trivial cpu.frame.reverse
    (by rw [List.length_reverse, List.length_nil]; omega)
  rw [List.append_nil, List.reverse_reverse, List.length_reverse, ← here.memory] at pushed
  rw [here.registers]
  exact pushed

structure Resumed (cpu now : InterruptCpu) (final : InterruptCpu) : Prop where
  eip : final.eip = cpu.eip
  eflags : final.eflags = cpu.eflags
  registers : final.registers = now.registers.set .esp cpu.registers.esp
  cs : final.selectors .cs = cpu.selectors .cs
  ss : final.selectors .ss = cpu.selectors .ss
  selectors : ∀ segment, segment ≠ .cs → segment ≠ .ss →
    final.selectors segment = now.selectors segment
  user : final.user = cpu.user
  flags : final.zf = cpu.zf ∧ final.less = cpu.less ∧ final.interrupts = cpu.interrupts
  sent : final.sent = now.sent

theorem setWidth_selector (selector : BitVec 16) :
    (selector.setWidth 32).setWidth 16 = selector := by
  rw [BitVec.setWidth_setWidth_of_le _ (by decide), BitVec.setWidth_eq]

theorem iret_kernel {now : InterruptCpu} {eip eflags : Word} {cs : BitVec 16}
    (holds : now.memory.Holds now.registers.esp [eip, cs.setWidth 32, eflags])
    (inner : (cs &&& 3 == 3) = false) :
    now.iret = { now.setFlags eflags with
      registers := now.registers.set .esp (now.registers.esp + 12)
      eip := eip
      selectors := Function.update now.selectors .cs cs } := by
  simp only [ByteMap.Holds, BitVec.add_assoc, BitVec.reduceAdd, and_true] at holds
  rcases holds with ⟨first, second, third⟩
  have three : now.registers.esp + 4 + 4 + 4 = now.registers.esp + 12 := by bv_omega
  have loadedCs : now.memory.load (now.registers.esp + 4) = cs.setWidth 32 := second
  have loadedFlags : now.memory.load (now.registers.esp + 4 + 4) = eflags := by
    rw [BitVec.add_assoc]
    exact third
  simp only [iret, pop, Cpu.pop, Registers.set, first, loadedCs, loadedFlags, setWidth_selector,
    three]
  rw [inner, if_neg Bool.false_ne_true]
  rfl

theorem iret_user {now : InterruptCpu} {eip eflags esp : Word} {cs ss : BitVec 16}
    (holds : now.memory.Holds now.registers.esp
      [eip, cs.setWidth 32, eflags, esp, ss.setWidth 32])
    (outer : (cs &&& 3 == 3) = true) :
    now.iret = { now.setFlags eflags with
      registers := now.registers.set .esp esp
      eip := eip
      selectors := Function.update (Function.update now.selectors .cs cs) .ss ss
      user := true } := by
  rcases holds with ⟨first, second, third, fourth, fifth, -⟩
  simp only [iret, pop, Cpu.pop, Registers.set, first, second, third, fourth, fifth,
    setWidth_selector]
  rw [outer, if_pos rfl]
  rfl

theorem iret_resumed {now : InterruptCpu} (coherent : cpu.Coherent)
    (holds : now.memory.Holds now.registers.esp cpu.frame)
    (place : now.registers.esp = cpu.frameTop - 4 * BitVec.ofNat 32 cpu.frame.length)
    (kernel : now.user = false) (ss : cpu.user = false → now.selectors .ss = cpu.selectors .ss) :
    Resumed cpu now now.iret := by
  have privilege := coherent.privilege
  have flags := coherent.flags
  have zf : cpu.eflags.getLsbD 6 = cpu.zf := congrArg (fun cpu : InterruptCpu => cpu.zf) flags
  have less : (cpu.eflags.getLsbD 7 ^^ cpu.eflags.getLsbD 11) = cpu.less :=
    congrArg (fun cpu : InterruptCpu => cpu.less) flags
  have interrupts : cpu.eflags.getLsbD 9 = cpu.interrupts :=
    congrArg (fun cpu : InterruptCpu => cpu.interrupts) flags
  unfold frame at holds place
  unfold frameTop at place
  cases mode : cpu.user with
  | false =>
      rw [mode] at holds privilege place
      rw [iret_kernel holds privilege.symm]
      have back : now.registers.esp + 12 = cpu.registers.esp := by
        rw [place]
        change cpu.registers.esp - 4 * BitVec.ofNat 32 3 + 12 = _
        bv_omega
      refine ⟨rfl, rfl, ?_, ?_, ?_, ?_, kernel.trans mode.symm, ⟨zf, less, interrupts⟩, rfl⟩
      · exact congrArg (fun esp => now.registers.set .esp esp) back
      · change Function.update now.selectors .cs (cpu.selectors .cs) .cs = _
        exact Function.update_self _ _ _
      · change Function.update now.selectors .cs (cpu.selectors .cs) .ss = _
        rw [Function.update_of_ne Segment.noConfusion]
        exact ss mode
      · exact fun segment notCs _ => Function.update_of_ne notCs _ _
  | true =>
      rw [mode] at holds privilege
      rw [iret_user holds privilege.symm]
      refine ⟨rfl, rfl, rfl, ?_, ?_, ?_, mode.symm, ⟨zf, less, interrupts⟩, rfl⟩
      · change Function.update (Function.update now.selectors .cs (cpu.selectors .cs)) .ss
          (cpu.selectors .ss) .cs = _
        rw [Function.update_of_ne Segment.noConfusion, Function.update_self]
      · change Function.update (Function.update now.selectors .cs (cpu.selectors .cs)) .ss
          (cpu.selectors .ss) .ss = _
        exact Function.update_self _ _ _
      · exact fun segment notCs notSs => (Function.update_of_ne notSs _ _).trans
          (Function.update_of_ne notCs _ _)

end InterruptCpu

end Foundation.Machine
