import Zeos.Foundation.InterruptMachine
import Zeos.SystemCallEntry

/-! # The interrupt handlers

The table that `setIdt` sets up, and `keyboard_handler` and `clk_handler` as the assembler has
them. What the routines in C do until they return is given, other tasks' turns included.
-/

namespace Zeos

open Foundation Foundation.Machine

/-! ## The table -/

def lowWord (address : Word) : BitVec 16 := (address &&& 0xFFFF).setWidth 16
def highWord (address : Word) : BitVec 16 := ((address >>> 16) &&& 0xFFFF).setWidth 16

/-- `idt`, by vector. -/
abbrev Idt := Nat → Gate

namespace Idt

def setInterruptHandler (idt : Idt) (vector : Nat) (handler maxAccessibleFromPL : Word) : Idt :=
  let flags := (maxAccessibleFromPL <<< 13).setWidth 16
  let flags := flags ||| 0x8E00
  Function.update idt vector
    { lowOffset := lowWord handler
      segmentSelector := kernelCs.setWidth 16
      flags := flags
      highOffset := highWord handler }

/-- A trap handler, which has been made an interrupt handler. -/
def setTrapHandler (idt : Idt) (vector : Nat) (handler maxAccessibleFromPL : Word) : Idt :=
  let flags := (maxAccessibleFromPL <<< 13).setWidth 16
  let flags := flags ||| 0x8E00
  Function.update idt vector
    { lowOffset := lowWord handler
      segmentSelector := kernelCs.setWidth 16
      flags := flags
      highOffset := highWord handler }

end Idt

/-- The two devices. -/
inductive Irq
  | clk | keyboard
deriving DecidableEq, Repr

def Irq.vector : Irq → BitVec 8
  | .clk => 32
  | .keyboard => 33

/-- Where the handlers and the routines lie, and what the routines do. -/
structure HandlerImage where
  handler : Irq → Word
  routine : Irq → Word
  returnTo : Irq → Word
  run : Word → InterruptCpu → InterruptCpu

/-- The table that `set_handlers` has filled, with the two handlers. -/
def HandlerImage.setIdt (image : HandlerImage) (idt : Idt) : Idt :=
  (idt.setInterruptHandler 33 (image.handler .keyboard) 0).setInterruptHandler 32
    (image.handler .clk) 0

/-! ## The handlers -/

/-- `SAVE_ALL`, `RESTORE_ALL` and `EOI`. -/
def saveAll (cpu : InterruptCpu) : InterruptCpu :=
  cpu.performAll (fun _ => 0) SystemCallHandler.saveAll

def restoreAll (cpu : InterruptCpu) : InterruptCpu :=
  cpu.performAll (fun _ => 0) SystemCallHandler.restoreAll

def eoi (cpu : InterruptCpu) : InterruptCpu := (cpu.moveToAl 0x20).outAl 0x20

namespace HandlerImage

variable (image : HandlerImage)

def begun (irq : Irq) (cpu : InterruptCpu) : InterruptCpu :=
  (eoi (saveAll cpu)).entering (image.returnTo irq) (image.routine irq)

def interruptHandler (irq : Irq) (cpu : InterruptCpu) : InterruptCpu :=
  (restoreAll (image.run (image.routine irq) (image.begun irq cpu))).iret

def keyboardHandler (cpu : InterruptCpu) : InterruptCpu := image.interruptHandler .keyboard cpu
def clkHandler (cpu : InterruptCpu) : InterruptCpu := image.interruptHandler .clk cpu

end HandlerImage

/-! ## Gates -/

section Gates

theorem lowWord_eq (address : Word) : lowWord address = address.extractLsb' 0 16 := by
  apply BitVec.eq_of_toNat_eq
  have mask : (0xFFFF : Word).toNat = 2 ^ 16 - 1 := rfl
  rw [lowWord, BitVec.toNat_setWidth, BitVec.toNat_and, mask, Nat.and_two_pow_sub_one_eq_mod,
    BitVec.extractLsb'_toNat, Nat.mod_mod]
  rfl

theorem highWord_eq (address : Word) : highWord address = address.extractLsb' 16 16 := by
  apply BitVec.eq_of_toNat_eq
  have mask : (0xFFFF : Word).toNat = 2 ^ 16 - 1 := rfl
  rw [highWord, BitVec.toNat_setWidth, BitVec.toNat_and, mask, Nat.and_two_pow_sub_one_eq_mod,
    BitVec.extractLsb'_toNat, Nat.mod_mod]
  rfl

theorem offset_eq (address : Word) :
    (highWord address ++ lowWord address : BitVec 32) = address := by
  rw [lowWord_eq, highWord_eq]
  exact BitVec.extractLsb'_append_extractLsb'

theorem Idt.setTrapHandler_eq (idt : Idt) (vector : Nat) (handler maxAccessibleFromPL : Word) :
    idt.setTrapHandler vector handler maxAccessibleFromPL =
      idt.setInterruptHandler vector handler maxAccessibleFromPL :=
  rfl

theorem gateFlags {level : Word} (atMost : level.toNat ≤ 3) :
    ((level <<< 13).setWidth 16 ||| 0x8E00 : BitVec 16).getLsbD 15 = true ∧
      ((level <<< 13).setWidth 16 ||| 0x8E00 : BitVec 16).extractLsb' 8 5 = 0x0e#5 ∧
      ((level <<< 13).setWidth 16 ||| 0x8E00 : BitVec 16).extractLsb' 13 2 = level.setWidth 2 := by
  have known : level = 0 ∨ level = 1 ∨ level = 2 ∨ level = 3 := by bv_omega
  rcases known with same | same | same | same
  all_goals
    rw [same]
    decide

structure LeadsTo (gate : Gate) (handler level : Word) : Prop where
  offset : gate.offset = handler
  selector : gate.segmentSelector = kernelCs.setWidth 16
  present : gate.present = true
  interrupt : gate.isInterrupt = true
  privilege : gate.privilege = level.setWidth 2

theorem Idt.setInterruptHandler_leads (idt : Idt) (vector : Nat) (handler : Word) {level : Word}
    (atMost : level.toNat ≤ 3) :
    LeadsTo (idt.setInterruptHandler vector handler level vector) handler level := by
  have flags := gateFlags atMost
  unfold setInterruptHandler
  rw [Function.update_self]
  exact
    { offset := offset_eq handler
      selector := rfl
      present := flags.1
      interrupt := beq_iff_eq.mpr flags.2.1
      privilege := flags.2.2 }

theorem Idt.setInterruptHandler_other (idt : Idt) {vector other : Nat} (handler level : Word)
    (different : other ≠ vector) :
    idt.setInterruptHandler vector handler level other = idt other :=
  Function.update_of_ne different _ _

theorem HandlerImage.setIdt_leads (image : HandlerImage) (idt : Idt) (irq : Irq) :
    LeadsTo (image.setIdt idt irq.vector.toNat) (image.handler irq) 0 := by
  unfold HandlerImage.setIdt
  cases irq with
  | clk => exact Idt.setInterruptHandler_leads _ 32 _ (by decide)
  | keyboard =>
      change LeadsTo (Idt.setInterruptHandler _ 32 _ _ 33) _ _
      rw [Idt.setInterruptHandler_other _ _ _ (by decide)]
      exact Idt.setInterruptHandler_leads _ 33 _ (by decide)

/-- The gate of a vector lies in memory, where IDTR says. -/
def Listed (idt : Idt) (cpu : InterruptCpu) (vector : BitVec 8) : Prop :=
  cpu.memory.Holds (cpu.idtr + 8 * vector.setWidth 32) (idt vector.toNat).words

theorem Listed.gateAt {idt : Idt} {cpu : InterruptCpu} {vector : BitVec 8}
    (listed : Listed idt cpu vector) : cpu.gateAt vector = idt vector.toNat := by
  rcases listed with ⟨low, high, -⟩
  change Gate.ofWords (cpu.memory.load (cpu.idtr + 8 * vector.setWidth 32))
    (cpu.memory.load (cpu.idtr + 8 * vector.setWidth 32 + 4)) = _
  rw [low, high]
  exact Gate.ofWords_words _

end Gates

/-! ## Saving and restoring -/

section Saving

variable {cpu : InterruptCpu}

def savedWords (cpu : InterruptCpu) : List Word :=
  [cpu.registers.ebx, cpu.registers.ecx, cpu.registers.edx, cpu.registers.esi,
    cpu.registers.edi, cpu.registers.ebp, cpu.registers.eax, (cpu.selectors .ds).setWidth 32,
    (cpu.selectors .es).setWidth 32, (cpu.selectors .fs).setWidth 32,
    (cpu.selectors .gs).setWidth 32]

theorem saveAll_stack (cpu : InterruptCpu) :
    (saveAll cpu).memory = cpu.memory.pushAll cpu.registers.esp (savedWords cpu).reverse ∧
      (saveAll cpu).registers.esp = cpu.registers.esp - 44 := by
  simp only [saveAll, InterruptCpu.performAll, SystemCallHandler.saveAll, List.foldl_cons,
    List.foldl_nil, SystemOperation.perform, Operation.perform, Cpu.push, Cpu.write, Cpu.read,
    Registers.set, Registers.get, savedWords, List.reverse_cons, List.reverse_nil,
    List.nil_append, List.cons_append, ByteMap.pushAll]
  refine ⟨trivial, ?_⟩
  bv_omega

theorem saveAll_mode (cpu : InterruptCpu) :
    (saveAll cpu).user = cpu.user ∧ (saveAll cpu).interrupts = cpu.interrupts ∧
      (saveAll cpu).sent = cpu.sent ∧ (saveAll cpu).selectors = Function.update (Function.update
        cpu.selectors .ds (kernelDs.setWidth 16)) .es (kernelDs.setWidth 16) := by
  simp only [saveAll, InterruptCpu.performAll, SystemCallHandler.saveAll, List.foldl_cons,
    List.foldl_nil, SystemOperation.perform, Operation.perform, Cpu.push, Cpu.write, Cpu.read,
    Registers.set, Registers.get, and_self]

theorem eoi_sent (cpu : InterruptCpu) : (eoi cpu).sent = cpu.sent ++ [(0x20, 0x20)] := by
  have low : (cpu.registers.eax.extractLsb' 8 24 ++ (0x20 : BitVec 8) : BitVec 32).setWidth 8 =
      0x20 := by
    rw [BitVec.setWidth_append, dif_pos (Nat.le_refl 8)]
    rfl
  exact congrArg (fun al => cpu.sent ++ [((0x20 : BitVec 8), al)]) low

theorem eoi_stack (cpu : InterruptCpu) :
    (eoi cpu).memory = cpu.memory ∧ (eoi cpu).registers.esp = cpu.registers.esp :=
  ⟨rfl, rfl⟩

theorem eoi_entering (cpu : InterruptCpu) (returnTo callee : Word) :
    ((eoi cpu).entering returnTo callee).user = cpu.user ∧
      ((eoi cpu).entering returnTo callee).interrupts = cpu.interrupts ∧
      ((eoi cpu).entering returnTo callee).selectors = cpu.selectors ∧
      ((eoi cpu).entering returnTo callee).sent = (eoi cpu).sent :=
  ⟨rfl, rfl, rfl, rfl⟩

theorem restoreAll_eq {now : InterruptCpu} {rest : List Word}
    (holds : now.memory.Holds now.registers.esp (savedWords cpu ++ rest)) :
    restoreAll now = { now with
      registers := cpu.registers.set .esp (now.registers.esp + 44)
      selectors := Function.update (Function.update (Function.update (Function.update
        now.selectors .ds (cpu.selectors .ds)) .es (cpu.selectors .es))
        .fs (cpu.selectors .fs)) .gs (cpu.selectors .gs) } := by
  simp only [savedWords, List.cons_append, List.nil_append, ByteMap.Holds, BitVec.add_assoc,
    BitVec.reduceAdd] at holds
  simp only [restoreAll, InterruptCpu.performAll, SystemCallHandler.restoreAll, List.foldl_cons,
    List.foldl_nil, SystemOperation.perform, Operation.perform, Cpu.pop, Cpu.write,
    Registers.set, BitVec.add_assoc, BitVec.reduceAdd, holds, InterruptCpu.setWidth_selector]
  rfl

/-- A processor that has taken the saved words from its stack. -/
structure Restored (cpu now restored : InterruptCpu) (rest : List Word) : Prop where
  registers : restored.registers = cpu.registers.set .esp (now.registers.esp + 44)
  holds : restored.memory.Holds (now.registers.esp + 44) rest
  user : restored.user = now.user
  ss : restored.selectors .ss = now.selectors .ss
  selectors : ∀ segment, segment ≠ .cs → segment ≠ .ss →
    restored.selectors segment = cpu.selectors segment

theorem restoreAll_restored {now : InterruptCpu} {rest : List Word}
    (holds : now.memory.Holds now.registers.esp (savedWords cpu ++ rest)) :
    Restored cpu now (restoreAll now) rest := by
  have equal := restoreAll_eq holds
  have selectors : (restoreAll now).selectors = Function.update (Function.update
      (Function.update (Function.update now.selectors .ds (cpu.selectors .ds)) .es
        (cpu.selectors .es)) .fs (cpu.selectors .fs)) .gs (cpu.selectors .gs) :=
    congrArg (fun restored : InterruptCpu => restored.selectors) equal
  have place : now.registers.esp + 44 = now.registers.esp + 4 + 4 + 4 + 4 + 4 + 4 + 4 + 4 + 4 + 4 +
      4 := by
    bv_omega
  refine ⟨?_, ?_, ?_, ?_, ?_⟩
  · exact congrArg (fun restored : InterruptCpu => restored.registers) equal
  · have memory : (restoreAll now).memory = now.memory := by rw [equal]
    rw [memory, place]
    exact holds.2.2.2.2.2.2.2.2.2.2.2
  · rw [equal]
  · rw [selectors, Function.update_of_ne Segment.noConfusion,
      Function.update_of_ne Segment.noConfusion, Function.update_of_ne Segment.noConfusion,
      Function.update_of_ne Segment.noConfusion]
  · intro segment notCs notSs
    rw [selectors]
    cases segment with
    | cs => exact absurd rfl notCs
    | ss => exact absurd rfl notSs
    | ds =>
        rw [Function.update_of_ne Segment.noConfusion, Function.update_of_ne Segment.noConfusion,
          Function.update_of_ne Segment.noConfusion, Function.update_self]
    | es =>
        rw [Function.update_of_ne Segment.noConfusion, Function.update_of_ne Segment.noConfusion,
          Function.update_self]
    | fs => rw [Function.update_of_ne Segment.noConfusion, Function.update_self]
    | gs => rw [Function.update_self]

end Saving

/-! ## A whole interrupt -/

/-- The routine returns on the stack that ends at `top`, and leaves the stack segment
alone. -/
def HandlerImage.Conforms (image : HandlerImage) (irq : Irq) (top : Word) : Prop :=
  ∀ entry : InterruptCpu, entry.user = false →
    entry.registers.esp = top - 60 ∨ entry.registers.esp = top - 68 →
    Returns top (fun _ => False) entry.toProcessor
        (image.run (image.routine irq) entry).toProcessor ∧
      (image.run (image.routine irq) entry).selectors .ss = entry.selectors .ss

/-- The routine begins in the kernel with its segments, with interrupts off, and when the
controller has been told once that the interrupt is handled. -/
structure RoutineBegins (image : HandlerImage) (irq : Irq) (before begun : InterruptCpu) :
    Prop where
  eip : begun.eip = image.routine irq
  esp : begun.registers.esp = before.frameTop - 4 * BitVec.ofNat 32 (before.frame.length + 12)
  user : begun.user = false
  interrupts : begun.interrupts = false
  cs : begun.selectors .cs = kernelCs.setWidth 16
  ds : begun.selectors .ds = kernelDs.setWidth 16
  es : begun.selectors .es = kernelDs.setWidth 16
  sent : begun.sent = before.sent ++ [(0x20, 0x20)]

/-- The program that was interrupted cannot tell. -/
structure Unnoticed (before final : InterruptCpu) : Prop where
  registers : final.registers = before.registers
  eip : final.eip = before.eip
  eflags : final.eflags = before.eflags
  flags : final.zf = before.zf ∧ final.less = before.less
  interrupts : final.interrupts = before.interrupts
  selectors : final.selectors = before.selectors
  user : final.user = before.user

section Interrupt

variable {image : HandlerImage} {irq : Irq} {before entered : InterruptCpu} {gate : Gate}

theorem begun_stack (irq : Irq) (entered : InterruptCpu) :
    (image.begun irq entered).registers.esp = entered.registers.esp - 44 - 4 ∧
      (image.begun irq entered).memory =
        (entered.memory.pushAll entered.registers.esp (savedWords entered).reverse).store
          (entered.registers.esp - 44 - 4) (image.returnTo irq) := by
  rcases saveAll_stack entered with ⟨memory, esp⟩
  rcases eoi_stack (saveAll entered) with ⟨sameMemory, sameEsp⟩
  rcases (eoi (saveAll entered)).entering_stack (image.returnTo irq) (image.routine irq) with
    ⟨pushed, place⟩
  rw [HandlerImage.begun, pushed, place, sameMemory, sameEsp, memory, esp]
  exact ⟨rfl, rfl⟩

theorem begins_of_entered (here : InterruptCpu.Entered before gate entered)
    (leads : LeadsTo gate (image.handler irq) 0) :
    RoutineBegins image irq before (image.begun irq entered) := by
  rcases saveAll_mode entered with ⟨user, interrupts, sent, selectors⟩
  rcases eoi_entering (saveAll entered) (image.returnTo irq) (image.routine irq) with
    ⟨sameUser, sameInterrupts, sameSelectors, told⟩
  have esp : entered.registers.esp = before.frameTop - 4 * BitVec.ofNat 32 before.frame.length :=
    congrArg Registers.esp here.registers
  have stack := (@begun_stack image irq entered).1
  unfold HandlerImage.begun at stack ⊢
  refine ⟨rfl, ?_, ?_, ?_, ?_, ?_, ?_, ?_⟩
  · rw [stack, esp]
    rcases before.frame_length with ⟨-, length⟩ | ⟨-, length⟩
    · rw [length]
      bv_omega
    · rw [length]
      bv_omega
  · rw [sameUser, user, here.user]
  · rw [sameInterrupts, interrupts, here.interrupts]
  · rw [sameSelectors, selectors, Function.update_of_ne Segment.noConfusion,
      Function.update_of_ne Segment.noConfusion, here.cs, leads.selector]
  · rw [sameSelectors, selectors, Function.update_of_ne Segment.noConfusion, Function.update_self]
  · rw [sameSelectors, selectors, Function.update_self]
  · rw [told, eoi_sent, sent, here.sent]

theorem begun_holds (irq : Irq) (here : InterruptCpu.Entered before gate entered) :
    (image.begun irq entered).memory.Holds ((image.begun irq entered).registers.esp + 4)
      (savedWords entered ++ before.frame) := by
  rcases @begun_stack image irq entered with ⟨esp, memory⟩
  have length : before.frame.length = 3 ∨ before.frame.length = 5 := by
    rcases before.frame_length with ⟨-, length⟩ | ⟨-, length⟩
    · exact .inl length
    · exact .inr length
  have saved : (savedWords entered).length = 11 := rfl
  have pushed := here.holds.pushAll (savedWords entered).reverse (by
    rw [List.length_reverse, saved]
    omega)
  rw [List.reverse_reverse, List.length_reverse, saved] at pushed
  have place : entered.registers.esp - 4 * BitVec.ofNat 32 11 = entered.registers.esp - 44 := rfl
  rw [place] at pushed
  have called := pushed.push (image.returnTo irq) (by
    rw [List.length_append, saved]
    omega)
  rw [← memory] at called
  rw [esp]
  exact called.2

theorem unnoticed_of_entered (coherent : before.Coherent)
    (here : InterruptCpu.Entered before gate entered)
    (leads : LeadsTo gate (image.handler irq) 0)
    (conforms : image.Conforms irq before.frameTop) :
    Unnoticed before (image.interruptHandler irq entered) := by
  have begins := begins_of_entered here leads
  have stacked := @begun_holds image _ _ _ irq here
  have length := before.frame_length
  have deep : (image.begun irq entered).registers.esp + 4 =
      before.frameTop - 4 * BitVec.ofNat 32 (before.frame.length + 11) := by
    rw [begins.esp]
    rcases length with ⟨-, length⟩ | ⟨-, length⟩
    · rw [length]
      bv_omega
    · rw [length]
      bv_omega
  rcases conforms (image.begun irq entered) begins.user (by
    rw [begins.esp]
    rcases length with ⟨-, length⟩ | ⟨-, length⟩
    · left
      rw [length]
      bv_omega
    · right
      rw [length]
      bv_omega) with ⟨returns, stackSegment⟩
  have held := returns.holds stacked (by
    have saved : (savedWords entered).length = 11 := rfl
    rw [deep, List.length_append, saved]
    rcases length with ⟨-, length⟩ | ⟨-, length⟩
    · rw [length]
      bv_omega
    · rw [length]
      bv_omega)
  generalize returned : image.run (image.routine irq) (image.begun irq entered) = now at *
  have restored := restoreAll_restored held
  have top : (restoreAll now).registers.esp =
      before.frameTop - 4 * BitVec.ofNat 32 before.frame.length := by
    have esp : (restoreAll now).registers.esp = now.registers.esp + 44 :=
      congrArg Registers.esp restored.registers
    rw [esp, returns.esp, deep]
    rcases length with ⟨-, length⟩ | ⟨-, length⟩
    · rw [length]
      bv_omega
    · rw [length]
      bv_omega
  have framed : (restoreAll now).memory.Holds (restoreAll now).registers.esp before.frame := by
    have esp : (restoreAll now).registers.esp = now.registers.esp + 44 :=
      congrArg Registers.esp restored.registers
    rw [esp]
    exact restored.holds
  have resumed := before.iret_resumed coherent framed top
    (restored.user.trans (returns.user.trans begins.user)) (by
      intro kernel
      rw [restored.ss, stackSegment]
      exact here.ss kernel)
  have final : image.interruptHandler irq entered = (restoreAll now).iret := by
    rw [HandlerImage.interruptHandler, returned]
  rw [final]
  refine ⟨?_, resumed.eip, resumed.eflags, ⟨resumed.flags.1, resumed.flags.2.1⟩,
    resumed.flags.2.2, ?_, resumed.user⟩
  · rw [resumed.registers, restored.registers, here.registers]
    rfl
  · funext segment
    by_cases isCs : segment = .cs
    · rw [isCs]
      exact resumed.cs
    · by_cases isSs : segment = .ss
      · rw [isSs]
        exact resumed.ss
      · rw [resumed.selectors segment isCs isSs, restored.selectors segment isCs isSs,
          here.selectors segment isCs isSs]

end Interrupt

/-- An interrupt of the clock or the keyboard comes to its handler, whatever program it
interrupts, and is over without a trace in the registers, the flags and the segments; from
user mode a program cannot raise it itself. -/
theorem interruptsTransparent (image : HandlerImage) (irq : Irq) {idt : Idt}
    {before : InterruptCpu} (coherent : before.Coherent) (enabled : before.interrupts = true)
    (listed : Listed (image.setIdt idt) before irq.vector)
    (conforms : image.Conforms irq before.frameTop) :
    (∃ entered, before.interrupt irq.vector = some entered ∧ entered.eip = image.handler irq ∧
      RoutineBegins image irq before (image.begun irq entered) ∧
      Unnoticed before (image.interruptHandler irq entered)) ∧
    (before.user = true → before.softwareInterrupt irq.vector = none) := by
  have leads := image.setIdt_leads idt irq
  have gate := listed.gateAt
  constructor
  · have entered := before.enterGate_entered (image.setIdt idt irq.vector.toNat)
    have taken := @InterruptCpu.interrupt_taken before irq.vector enabled
      (by rw [gate]; exact leads.present) (by rw [gate]; exact leads.interrupt)
    rw [gate] at taken
    exact ⟨_, taken, entered.eip.trans leads.offset, begins_of_entered entered leads,
      unnoticed_of_entered coherent entered leads conforms⟩
  · intro user
    apply before.softwareInterrupt_refused user
    rw [gate, leads.privilege]
    decide

/-- Routines that return at once. -/
def sampleHandlers : HandlerImage where
  handler
    | .clk => 0x102000
    | .keyboard => 0x102100
  routine
    | .clk => 0x103000
    | .keyboard => 0x103100
  returnTo
    | .clk => 0x102020
    | .keyboard => 0x102120
  run _ entry := { entry with toCpu := entry.toCpu.ret }

/-- A task in user mode, with the gate of the clock and its kernel stack in memory. -/
def sampleTask : InterruptCpu where
  registers := ⟨1, 2, 3, 4, 0x11C000, 6, 7, 8⟩
  eip := 0x100010
  zf := false
  less := false
  cr3 := 0
  msr _ := 0
  memory := (ByteMap.pushAll (fun _ => 0) 0x200108
    (sampleHandlers.setIdt (fun _ => ⟨0, 0, 0, 0⟩) 32).words.reverse).store 0x300004 0x20000
  selectors
    | .cs => userCs.setWidth 16
    | _ => userDs.setWidth 16
  interrupts := true
  user := true
  calls := []
  eflags := 0x202
  idtr := 0x200000
  tr := 0x300000
  sent := []

theorem interruptsTransparent_clock : ∃ entered,
    sampleTask.interrupt 32 = some entered ∧
      Unnoticed sampleTask (sampleHandlers.clkHandler entered) := by
  have listed : Listed (sampleHandlers.setIdt fun _ => ⟨0, 0, 0, 0⟩) sampleTask 32 := by
    have gate := @ByteMap.Holds.pushAll (fun _ => 0) 0x200108 [] trivial
      (sampleHandlers.setIdt (fun _ => ⟨0, 0, 0, 0⟩) 32).words.reverse (by simp [Gate.words])
    rw [List.append_nil, List.reverse_reverse] at gate
    apply gate.store_apart
    · simp [Gate.words]
    · intro byte inside
      have near : (byte - 0x300004).toNat < 4 := inside
      change 4 * 2 ≤ (byte - (0x200108 - 4 * BitVec.ofNat 32 2)).toNat
      bv_omega
  have conforms : sampleHandlers.Conforms .clk sampleTask.frameTop := fun entry _ _ =>
    ⟨⟨rfl, rfl, fun _ _ => rfl, fun _ _ => rfl, rfl, rfl⟩, rfl⟩
  rcases (interruptsTransparent sampleHandlers .clk ⟨rfl, rfl⟩ rfl listed conforms).1 with
    ⟨entered, taken, -, -, unnoticed⟩
  exact ⟨entered, taken, unnoticed⟩

end Zeos
