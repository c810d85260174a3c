import Zeos.Foundation.WordMemory

/-! # A 32-bit machine with a stack

Straight-line operations on registers and memory, calls and returns over a stack
that grows downwards, and programs given routine by routine. Where the
instructions of a routine lie is left to a placement, so that a return goes to
whatever address it finds on the stack. What the supervisor does on a system call is
a parameter of the program.
-/

namespace Foundation.Machine

inductive Register
  | eax | ecx | edx | ebx | esp | ebp | esi | edi
deriving DecidableEq, Repr

@[ext] structure Registers where
  eax : Word
  ecx : Word
  edx : Word
  ebx : Word
  esp : Word
  ebp : Word
  esi : Word
  edi : Word
deriving DecidableEq, Repr

namespace Registers

def get (registers : Registers) : Register → Word
  | .eax => registers.eax
  | .ecx => registers.ecx
  | .edx => registers.edx
  | .ebx => registers.ebx
  | .esp => registers.esp
  | .ebp => registers.ebp
  | .esi => registers.esi
  | .edi => registers.edi

def set (registers : Registers) (target : Register) (value : Word) : Registers :=
  match target with
  | .eax => { registers with eax := value }
  | .ecx => { registers with ecx := value }
  | .edx => { registers with edx := value }
  | .ebx => { registers with ebx := value }
  | .esp => { registers with esp := value }
  | .ebp => { registers with ebp := value }
  | .esi => { registers with esi := value }
  | .edi => { registers with edi := value }

end Registers

/-- Of the flags, `zf` is kept, and `less`, the comparison of `sf` with `of`. -/
@[ext] structure Cpu where
  registers : Registers
  eip : Word
  zf : Bool
  less : Bool
  cr3 : Word
  msr : Word → BitVec 64
  memory : ByteMap

inductive Operand
  | register (source : Register)
  | immediate (value : Word)
  | memory (displacement : Word) (base : Register)
deriving DecidableEq, Repr

inductive Operation (Label : Type)
  | push (source : Operand)
  | pop (target : Register)
  | mov (source : Operand) (target : Register)
  | movToMemory (source : Register) (displacement : Word) (base : Register)
  | movToCr3 (source : Register)
  | lea (label : Label) (target : Register)
  | add (value : Word) (target : Register)
  | and (value : Word) (target : Register)
  | inc (target : Register)
  | not (target : Register)
  | cmp (source : Operand) (target : Register)
  | wrmsr
deriving DecidableEq, Repr

namespace Cpu

def read (cpu : Cpu) : Operand → Word
  | .register source => cpu.registers.get source
  | .immediate value => value
  | .memory displacement base => cpu.memory.load (cpu.registers.get base + displacement)

def write (cpu : Cpu) (target : Register) (value : Word) : Cpu :=
  { cpu with registers := cpu.registers.set target value }

def push (cpu : Cpu) (value : Word) : Cpu :=
  let esp := cpu.registers.esp - 4
  { cpu with
    registers := cpu.registers.set .esp esp
    memory := cpu.memory.store esp value }

def pop (cpu : Cpu) : Cpu × Word :=
  ({ cpu with registers := cpu.registers.set .esp (cpu.registers.esp + 4) },
    cpu.memory.load cpu.registers.esp)

def call (cpu : Cpu) (returnTo callee : Word) : Cpu :=
  { cpu.push returnTo with eip := callee }

def ret (cpu : Cpu) : Cpu :=
  let (cpu, returnTo) := cpu.pop
  { cpu with eip := returnTo }

end Cpu

def Operation.perform {Label : Type} (resolve : Label → Word) (cpu : Cpu) : Operation Label → Cpu
  | .push source => cpu.push (cpu.read source)
  | .pop target =>
      let (cpu, value) := cpu.pop
      cpu.write target value
  | .mov source target => cpu.write target (cpu.read source)
  | .movToMemory source displacement base =>
      { cpu with memory :=
          cpu.memory.store (cpu.registers.get base + displacement) (cpu.registers.get source) }
  | .movToCr3 source => { cpu with cr3 := cpu.registers.get source }
  | .lea label target => cpu.write target (resolve label)
  | .add value target =>
      let before := cpu.registers.get target
      { cpu.write target (before + value) with
        zf := before + value == 0
        less := before.toInt + value.toInt < 0 }
  | .and value target =>
      let result := cpu.registers.get target &&& value
      { cpu.write target result with
        zf := result == 0
        less := result.slt 0 }
  | .inc target =>
      let before := cpu.registers.get target
      { cpu.write target (before + 1) with
        zf := before + 1 == 0
        less := before.toInt + 1 < 0 }
  | .not target => cpu.write target (~~~cpu.registers.get target)
  | .cmp source target =>
      { cpu with
        zf := cpu.registers.get target == cpu.read source
        less := (cpu.registers.get target).slt (cpu.read source) }
  | .wrmsr =>
      { cpu with
        msr := Function.update cpu.msr cpu.registers.ecx
          (cpu.registers.edx ++ cpu.registers.eax) }

section Operations

variable {Label : Type} (resolve : Label → Word)

def performAll (operations : List (Operation Label)) (cpu : Cpu) : Cpu :=
  operations.foldl (Operation.perform resolve) cpu

theorem Operation.perform_eip (operation : Operation Label) (cpu : Cpu) (eip : Word) :
    operation.perform resolve { cpu with eip := eip } =
      { operation.perform resolve cpu with eip := eip } := by
  cases operation with
  | push source => cases source <;> rfl
  | mov source target => cases source <;> rfl
  | cmp source target => cases source <;> rfl
  | _ => rfl

theorem performAll_eip (operations : List (Operation Label)) (cpu : Cpu) (eip : Word) :
    performAll resolve operations { cpu with eip := eip } =
      { performAll resolve operations cpu with eip := eip } := by
  induction operations generalizing cpu with
  | nil => rfl
  | cons operation operations induction =>
      simp only [performAll, List.foldl_cons] at induction ⊢
      rw [operation.perform_eip, induction]

end Operations

/-! ## Programs -/

inductive Instruction (Routine Label : Type)
  | operation (operation : Operation Label)
  | call (callee : Routine)
  | je (index : Nat)
  | jge (index : Nat)
  | jmp (index : Nat)
  | sysenter
  | ret

structure Program (Routine Label : Type) where
  code : Routine → List (Instruction Routine Label)
  resolve : Label → Word
  supervisor : Cpu → Cpu
  address : Routine → Nat → Word
  locate : Word → Option (Routine × Nat)
  locate_address : ∀ routine index, index < (code routine).length →
    locate (address routine index) = some (routine, index)

namespace Program

variable {Routine Label : Type} (program : Program Routine Label)

def execute (cpu : Cpu) (routine : Routine) (index : Nat) : Instruction Routine Label → Cpu
  | .operation operation =>
      { operation.perform program.resolve cpu with eip := program.address routine (index + 1) }
  | .call callee => cpu.call (program.address routine (index + 1)) (program.address callee 0)
  | .je target =>
      { cpu with eip := program.address routine (if cpu.zf then target else index + 1) }
  | .jge target =>
      { cpu with eip := program.address routine (if cpu.less then index + 1 else target) }
  | .jmp target => { cpu with eip := program.address routine target }
  | .sysenter => program.supervisor cpu
  | .ret => cpu.ret

def step (cpu : Cpu) : Option Cpu := do
  let (routine, index) ← program.locate cpu.eip
  let instruction ← (program.code routine)[index]?
  return program.execute cpu routine index instruction

def Outside (address : Word) : Prop := program.locate address = none

def Leads : Cpu → Cpu → Prop :=
  Relation.ReflTransGen fun before after => program.step before = some after

/-- Control leaves the program in the state `after`. -/
def Completes (before after : Cpu) : Prop :=
  program.Leads before after ∧ program.Outside after.eip

variable {program} {before middle after other : Cpu} {routine : Routine} {index : Nat}

theorem Leads.refl (cpu : Cpu) : program.Leads cpu cpu := Relation.ReflTransGen.refl

theorem Leads.trans (first : program.Leads before middle) (second : program.Leads middle after) :
    program.Leads before after :=
  Relation.ReflTransGen.trans first second

theorem step_outside (outside : program.Outside before.eip) : program.step before = none := by
  rw [step, outside]
  rfl

theorem Completes.unique (completes : program.Completes before after)
    (again : program.Completes before other) : after = other := by
  rcases completes with ⟨leads, outside⟩
  rcases again with ⟨leadsAgain, outsideAgain⟩
  have stuck {start final : Cpu} (left : program.Outside start.eip)
      (continued : program.Leads start final) : start = final := by
    cases Relation.ReflTransGen.cases_head continued with
    | inl same => exact same
    | inr steps =>
        rcases steps with ⟨next, taken, _⟩
        rw [step_outside left] at taken
        cases taken
  have deterministic : Relator.RightUnique fun before after => program.step before = some after :=
    fun _ _ _ first second => Option.some.inj (first.symm.trans second)
  cases Relation.ReflTransGen.total_of_right_unique deterministic leads leadsAgain with
  | inl continued => exact stuck outside continued
  | inr continued => exact (stuck outsideAgain continued).symm

theorem Leads.completes (leads : program.Leads before middle)
    (completes : program.Completes middle after) : program.Completes before after :=
  ⟨leads.trans completes.1, completes.2⟩

theorem step_of_listed {instruction : Instruction Routine Label}
    (here : before.eip = program.address routine index)
    (listed : (program.code routine)[index]? = some instruction) :
    program.step before = some (program.execute before routine index instruction) := by
  have inside : index < (program.code routine).length := by
    rcases List.getElem?_eq_some_iff.mp listed with ⟨inside, _⟩
    exact inside
  rw [step, here, program.locate_address routine index inside]
  simp [listed]

theorem leads_of_listed {instruction : Instruction Routine Label}
    (here : before.eip = program.address routine index)
    (listed : (program.code routine)[index]? = some instruction) :
    program.Leads before (program.execute before routine index instruction) :=
  Relation.ReflTransGen.single (step_of_listed here listed)

theorem leads_block {operations : List (Operation Label)} {rest : List (Instruction Routine Label)}
    (here : before.eip = program.address routine index)
    (listed : (program.code routine).drop index = operations.map .operation ++ rest) :
    program.Leads before { performAll program.resolve operations before with
      eip := program.address routine (index + operations.length) } := by
  induction operations generalizing before index with
  | nil =>
      rw [performAll, List.foldl_nil, List.length_nil, Nat.add_zero, ← here]
      exact Leads.refl before
  | cons operation operations induction =>
      have first : (program.code routine)[index]? = some (.operation operation) := by
        have head := congrArg List.head? listed
        rwa [List.head?_drop] at head
      have remaining : (program.code routine).drop (index + 1) =
          operations.map .operation ++ rest := by
        have tail := congrArg List.tail listed
        rwa [List.tail_drop] at tail
      apply (leads_of_listed here first).trans
      have continued := @induction
        { operation.perform program.resolve before with
          eip := program.address routine (index + 1) } (index + 1)
        rfl remaining
      rw [performAll_eip, Nat.add_right_comm] at continued
      exact continued

end Program

end Foundation.Machine
