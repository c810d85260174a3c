import Zeos.Foundation.Machine
import Zeos.Foundation.WordStack

/-! # Entering and leaving the system

The machine with its segment selectors and its privilege level, and one routine that runs
in kernel mode between SYSENTER and SYSEXIT. The functions that this routine calls are
given by what they do until they return. The calls through a table are recorded.
-/

namespace Foundation.Machine

inductive Segment
  | cs | ss | ds | es | fs | gs
deriving DecidableEq, Repr

structure TableCall where
  target : Word
  result : Word
deriving DecidableEq, Repr

@[ext] structure Processor extends Cpu where
  selectors : Segment → BitVec 16
  interrupts : Bool
  user : Bool
  calls : List TableCall

def sysenterCs : Word := 0x174
def sysenterEsp : Word := 0x175
def sysenterEip : Word := 0x176

namespace Processor

def sysenter (processor : Processor) : Processor :=
  let cs := (processor.msr sysenterCs).setWidth 16 &&& 0xFFFC
  { processor with
    registers := processor.registers.set .esp ((processor.msr sysenterEsp).setWidth 32)
    eip := (processor.msr sysenterEip).setWidth 32
    selectors := Function.update (Function.update processor.selectors .cs cs) .ss (cs + 8)
    interrupts := false
    user := false }

def sysexit (processor : Processor) : Processor :=
  let cs := (processor.msr sysenterCs).setWidth 16
  { processor with
    registers := processor.registers.set .esp processor.registers.ecx
    eip := processor.registers.edx
    selectors :=
      Function.update (Function.update processor.selectors .cs ((cs + 16) ||| 3)) .ss
        ((cs + 24) ||| 3)
    user := true }

def entering (processor : Processor) (returnTo callee : Word) : Processor :=
  { processor with toCpu := processor.toCpu.call returnTo callee }

end Processor

inductive SystemOperation (Label : Type)
  | plain (operation : Operation Label)
  | pushSegment (segment : Segment)
  | popSegment (segment : Segment)
  | movToSegment (source : Register) (segment : Segment)
  | pushFlags
  | sti
deriving DecidableEq, Repr

def SystemOperation.perform {Label : Type} (resolve : Label → Word) (flags : Processor → Word)
    (processor : Processor) : SystemOperation Label → Processor
  | .plain operation =>
      { processor with toCpu := operation.perform resolve processor.toCpu }
  | .pushSegment segment =>
      { processor with toCpu := processor.toCpu.push ((processor.selectors segment).setWidth 32) }
  | .popSegment segment =>
      let (cpu, value) := processor.toCpu.pop
      { processor with
        toCpu := cpu
        selectors := Function.update processor.selectors segment (value.setWidth 16) }
  | .movToSegment source segment =>
      { processor with
        selectors := Function.update processor.selectors segment
          ((processor.registers.get source).setWidth 16) }
  | .pushFlags => { processor with toCpu := processor.toCpu.push (flags processor) }
  | .sti => { processor with interrupts := true }

inductive SystemInstruction (Callee Label : Type)
  | operation (operation : SystemOperation Label)
  | call (callee : Callee)
  | callTable (table : Label) (index : Register)
  | jl (index : Nat)
  | jg (index : Nat)
  | jmp (index : Nat)
  | sysexit

/-- `run` leads from where a function begins to where it has returned. -/
structure SystemProgram (Callee Label : Type) where
  code : List (SystemInstruction Callee Label)
  resolve : Label → Word
  callee : Callee → Word
  run : Word → Processor → Processor
  flags : Processor → Word
  flags_eip : ∀ (processor : Processor) (eip : Word),
    flags { processor with eip := eip } = flags processor
  address : Nat → Word
  locate : Word → Option Nat
  locate_address : ∀ index, index < code.length → locate (address index) = some index

namespace SystemProgram

variable {Callee Label : Type} (program : SystemProgram Callee Label)

def perform (processor : Processor) (operation : SystemOperation Label) : Processor :=
  operation.perform program.resolve program.flags processor

def performAll (operations : List (SystemOperation Label)) (processor : Processor) : Processor :=
  operations.foldl program.perform processor

def callTable (processor : Processor) (returnTo : Word) (table : Label) (index : Register) :
    Processor :=
  let target := processor.memory.load
    (program.resolve table + 4 * processor.registers.get index)
  let returned := program.run target (processor.entering returnTo target)
  { returned with calls := processor.calls ++ [⟨target, returned.registers.eax⟩] }

def execute (processor : Processor) (index : Nat) : SystemInstruction Callee Label → Processor
  | .operation operation =>
      { program.perform processor operation with eip := program.address (index + 1) }
  | .call callee =>
      { program.run (program.callee callee)
          (processor.entering (program.address (index + 1)) (program.callee callee)) with
        calls := processor.calls }
  | .callTable table register =>
      program.callTable processor (program.address (index + 1)) table register
  | .jl target =>
      { processor with eip := program.address (if processor.less then target else index + 1) }
  | .jg target =>
      { processor with
        eip := program.address (if !processor.zf && !processor.less then target else index + 1) }
  | .jmp target => { processor with eip := program.address target }
  | .sysexit => processor.sysexit

def step (processor : Processor) : Option Processor :=
  if processor.user then none
  else do
    let index ← program.locate processor.eip
    let instruction ← program.code[index]?
    return program.execute processor index instruction

def Leads : Processor → Processor → Prop :=
  Relation.ReflTransGen fun before after => program.step before = some after

variable {program} {before middle after other : Processor} {index : Nat}

theorem Leads.refl (processor : Processor) : program.Leads processor processor :=
  Relation.ReflTransGen.refl

theorem Leads.trans (first : program.Leads before middle) (second : program.Leads middle after) :
    program.Leads before after :=
  Relation.ReflTransGen.trans first second

theorem step_user (user : before.user = true) : program.step before = none :=
  if_pos user

/-- The machine is deterministic, so that a run to user mode goes through every state that
its start leads to. -/
theorem Leads.through (leads : program.Leads before middle) (whole : program.Leads before after)
    (user : after.user = true) : program.Leads middle after := by
  have deterministic : Relator.RightUnique fun before after => program.step before = some after :=
    fun _ _ _ first second => Option.some.inj (first.symm.trans second)
  cases Relation.ReflTransGen.total_of_right_unique deterministic leads whole with
  | inl continued => exact continued
  | inr beyond =>
      cases Relation.ReflTransGen.cases_head beyond with
      | inl same =>
          rw [same]
          exact Leads.refl middle
      | inr steps =>
          rcases steps with ⟨next, taken, _⟩
          rw [step_user user] at taken
          cases taken

theorem Leads.unique (leads : program.Leads before after) (user : after.user = true)
    (again : program.Leads before other) (userAgain : other.user = true) : after = other := by
  cases Relation.ReflTransGen.cases_head (leads.through again userAgain) with
  | inl same => exact same
  | inr steps =>
      rcases steps with ⟨next, taken, _⟩
      rw [step_user user] at taken
      cases taken

theorem step_of_listed {instruction : SystemInstruction Callee Label}
    (kernel : before.user = false) (here : before.eip = program.address index)
    (listed : program.code[index]? = some instruction) :
    program.step before = some (program.execute before index instruction) := by
  have inside : index < program.code.length := by
    rcases List.getElem?_eq_some_iff.mp listed with ⟨inside, _⟩
    exact inside
  rw [step, kernel, here, program.locate_address index inside]
  simp [listed]

theorem leads_of_listed {instruction : SystemInstruction Callee Label}
    (kernel : before.user = false) (here : before.eip = program.address index)
    (listed : program.code[index]? = some instruction) :
    program.Leads before (program.execute before index instruction) :=
  Relation.ReflTransGen.single (step_of_listed kernel here listed)

/-! ## Blocks -/

theorem perform_eip (operation : SystemOperation Label) (processor : Processor) (eip : Word) :
    program.perform { processor with eip := eip } operation =
      { program.perform processor operation with eip := eip } := by
  cases operation with
  | plain operation =>
      have performed := operation.perform_eip program.resolve processor.toCpu eip
      exact congrArg (fun cpu => { processor with toCpu := cpu }) performed
  | pushFlags =>
      simp only [perform, SystemOperation.perform, program.flags_eip]
      rfl
  | _ => rfl

theorem performAll_eip (operations : List (SystemOperation Label)) (processor : Processor)
    (eip : Word) : program.performAll operations { processor with eip := eip } =
      { program.performAll operations processor with eip := eip } := by
  induction operations generalizing processor with
  | nil => rfl
  | cons operation operations induction =>
      simp only [performAll, List.foldl_cons] at induction ⊢
      rw [perform_eip, induction]

theorem perform_user (processor : Processor) (operation : SystemOperation Label) :
    (program.perform processor operation).user = processor.user := by
  cases operation <;> rfl

theorem perform_calls (processor : Processor) (operation : SystemOperation Label) :
    (program.perform processor operation).calls = processor.calls := by
  cases operation <;> rfl

theorem performAll_user (operations : List (SystemOperation Label)) (processor : Processor) :
    (program.performAll operations processor).user = processor.user := by
  induction operations generalizing processor with
  | nil => rfl
  | cons operation operations induction =>
      exact (induction (program.perform processor operation)).trans
        (perform_user processor operation)

theorem performAll_calls (operations : List (SystemOperation Label)) (processor : Processor) :
    (program.performAll operations processor).calls = processor.calls := by
  induction operations generalizing processor with
  | nil => rfl
  | cons operation operations induction =>
      exact (induction (program.perform processor operation)).trans
        (perform_calls processor operation)

theorem leads_block {operations : List (SystemOperation Label)}
    {rest : List (SystemInstruction Callee Label)} (kernel : before.user = false)
    (here : before.eip = program.address index)
    (listed : program.code.drop index = operations.map .operation ++ rest) :
    program.Leads before { program.performAll operations before with
      eip := program.address (index + operations.length) } := by
  induction operations generalizing before index with
  | nil =>
      rw [performAll, List.foldl_nil, List.length_nil, Nat.add_zero, ← here]
      exact Leads.refl before
  | cons operation operations induction =>
      have first : program.code[index]? = some (.operation operation) := by
        have head := congrArg List.head? listed
        rwa [List.head?_drop] at head
      have remaining : program.code.drop (index + 1) = operations.map .operation ++ rest := by
        have tail := congrArg List.tail listed
        rwa [List.tail_drop] at tail
      apply (leads_of_listed kernel here first).trans
      have continued := @induction
        { program.perform before operation with eip := program.address (index + 1) } (index + 1)
        ((perform_user before operation).trans kernel) rfl remaining
      rw [performAll_eip, Nat.add_right_comm] at continued
      exact continued

theorem step_calls (stepped : program.step before = some after) : before.calls <+: after.calls := by
  rw [step] at stepped
  split at stepped
  · cases stepped
  · rcases Option.bind_eq_some_iff.mp stepped with ⟨index, located, rest⟩
    rcases Option.bind_eq_some_iff.mp rest with ⟨instruction, listed, executed⟩
    cases executed
    cases instruction with
    | operation operation =>
        have same := @perform_calls Callee Label program before operation
        exact ⟨[], by rw [List.append_nil]; exact same.symm⟩
    | callTable table register => exact List.prefix_append _ _
    | _ => exact List.prefix_rfl

theorem Leads.calls (leads : program.Leads before after) : before.calls <+: after.calls := by
  induction leads with
  | refl => exact List.prefix_rfl
  | tail leads stepped induction => exact induction.trans (step_calls stepped)

end SystemProgram

/-! ## The calling convention -/

/-- What a caller relies on from a function that begins in the state `entry`: that it
returns in the mode it was called in, and that the frames above its own up to `top` and
the bytes `constant` are as they were. -/
structure Returns (top : Word) (constant : Word → Prop) (entry final : Processor) : Prop where
  eip : final.eip = entry.memory.load entry.registers.esp
  esp : final.registers.esp = entry.registers.esp + 4
  frames : ∀ byte, (byte - (entry.registers.esp + 4)).toNat <
    (top - (entry.registers.esp + 4)).toNat → final.memory byte = entry.memory byte
  constants : ∀ byte, constant byte → final.memory byte = entry.memory byte
  codeMsr : final.msr sysenterCs = entry.msr sysenterCs
  user : final.user = entry.user

theorem Returns.holds {top : Word} {constant : Word → Prop} {entry final : Processor}
    {stacked : List Word} (returns : Returns top constant entry final)
    (holds : entry.memory.Holds (entry.registers.esp + 4) stacked)
    (inside : 4 * stacked.length ≤ (top - (entry.registers.esp + 4)).toNat) :
    final.memory.Holds final.registers.esp stacked := by
  rw [returns.esp]
  have bound := (top - (entry.registers.esp + 4)).isLt
  apply holds.congr (by omega)
  intro byte within
  exact returns.frames byte (by omega)

end Foundation.Machine
