import Zeos.Foundation.Machine

/-! # Sketches of a routine

A routine that keeps what it saves on its stack is followed without its inputs: a
sketch says for each register and each word pushed which value it holds, in terms of
the state at the entry of the routine and of what the supervisor answers. Along a
path through the routine, sketches are computed, and they describe the machine.
-/

namespace Foundation.Machine

inductive Symbol (Label : Type)
  | word (value : Word)
  | label (name : Label)
  | entry (register : Register)
  | stack (offset : Int)
  | argument (index : Nat)
  | answer (register : Register)
  | complement (symbol : Symbol Label)
  | successor (symbol : Symbol Label)
deriving DecidableEq

structure Sketch (Label : Type) where
  registers : Register → Symbol Label
  stack : List (Symbol Label)
  stored : Option (Symbol Label)
  compared : Option (Symbol Label)

/-- How deep the stack of the routine may get, and how many words of the caller it
may read, the return address included. -/
structure Layout where
  depth : Nat
  arguments : Nat
  small : depth + arguments < 1048576

namespace Sketch

variable {Label : Type}

def start : Sketch Label := ⟨.entry, [], none, none⟩

def top (sketch : Sketch Label) : Int := -(4 * sketch.stack.length)

def get (sketch : Sketch Label) : Register → Symbol Label
  | .esp => .stack sketch.top
  | register => sketch.registers register

def load (layout : Layout) (sketch : Sketch Label) (offset : Int) : Option (Symbol Label) :=
  if offset % 4 = 0 then
    if offset < 0 then sketch.stack[(-offset / 4 - 1).toNat]?
    else if offset < 4 * layout.arguments then some (.argument (offset / 4).toNat)
    else none
  else none

def read (layout : Layout) (sketch : Sketch Label) : Operand → Option (Symbol Label)
  | .register source => some (sketch.get source)
  | .immediate value => some (.word value)
  | .memory displacement base =>
      match sketch.get base with
      | .stack offset => sketch.load layout (offset + displacement.toInt)
      | _ => none

def set (sketch : Sketch Label) (target : Register) (symbol : Symbol Label) :
    Option (Sketch Label) :=
  if target = .esp then none
  else some { sketch with registers := Function.update sketch.registers target symbol }

def moveTop (sketch : Sketch Label) : Symbol Label → Option (Sketch Label)
  | .stack offset =>
      if offset % 4 = 0 ∧ offset ≤ 0 ∧ sketch.top ≤ offset then
        some { sketch with stack := sketch.stack.take (-offset / 4).toNat }
      else none
  | _ => none

def push (layout : Layout) (sketch : Sketch Label) (symbol : Symbol Label) :
    Option (Sketch Label) :=
  if sketch.stack.length < layout.depth then
    some { sketch with stack := sketch.stack ++ [symbol] }
  else none

variable [DecidableEq Label] (layout : Layout) (written : Label)

def transfer (sketch : Sketch Label) : Operation Label → Option (Sketch Label)
  | .push source => (sketch.read layout source).bind (sketch.push layout)
  | .pop target => do
      let symbol ← sketch.stack.getLast?
      let sketch ← sketch.moveTop (.stack (sketch.top + 4))
      sketch.set target symbol
  | .mov source .esp => (sketch.read layout source).bind sketch.moveTop
  | .mov source target => (sketch.read layout source).bind (sketch.set target)
  | .movToMemory source displacement base =>
      if sketch.get base = .label written ∧ displacement = 0 then
        some { sketch with stored := some (sketch.get source) }
      else none
  | .lea label target => sketch.set target (.label label)
  | .add value .esp =>
      (sketch.moveTop (.stack (sketch.top + value.toInt))).map ({ · with compared := none })
  | .inc target =>
      (sketch.set target (.successor (sketch.get target))).map ({ · with compared := none })
  | .not target => sketch.set target (.complement (sketch.get target))
  | .cmp source target =>
      if source = .immediate 0 then some { sketch with compared := some (sketch.get target) }
      else none
  | _ => none

/-- The supervisor is entered with the stack pointer in `ebp`, and leaves its answer in
the registers that it does not keep. -/
def answered (sketch : Sketch Label) : Option (Sketch Label) := do
  let sketch ← sketch.moveTop (sketch.get .ebp)
  return { sketch with
    registers := fun
      | .eax => .answer .eax
      | .ecx => .answer .ecx
      | .edx => .answer .edx
      | register => sketch.registers register
    compared := none }

end Sketch

/-- The sign of what the supervisor leaves in `eax`. -/
inductive Sign
  | negative | zero | positive
deriving DecidableEq

def signOf (value : Word) : Sign :=
  if value.slt 0 then .negative else if value = 0 then .zero else .positive

section Follow

variable {Routine Label : Type} [DecidableEq Label] (layout : Layout) (written : Label)
  (position : Label → Option Nat) (sign : Sign) (code : List (Instruction Routine Label))

/-- The sketch at the end of the routine. Jumps depend on the sign of the answer, which
is all that they may compare. -/
def follow : Nat → Nat → Sketch Label → Option (Sketch Label)
  | 0, _, _ => none
  | rounds + 1, index, sketch =>
      match code[index]? with
      | some (.operation operation) =>
          (sketch.transfer layout written operation).bind (follow rounds (index + 1))
      | some (.je target) =>
          if sketch.compared = some (.answer .eax) then
            follow rounds (if sign = .zero then target else index + 1) sketch
          else none
      | some (.jge target) =>
          if sketch.compared = some (.answer .eax) then
            follow rounds (if sign = .negative then index + 1 else target) sketch
          else none
      | some (.jmp target) => follow rounds target sketch
      | some .sysenter =>
          match (sketch.read layout (.memory 4 .ebp)) with
          | some (.label label) => do
              let index ← position label
              let sketch ← sketch.answered
              follow rounds index sketch
          | _ => none
      | some .ret => if sketch.stack = [] then some sketch else none
      | _ => none

end Follow

/-! ## What a sketch says about the machine -/

/-- The symbols have values once the entry, the answer and the addresses are known. -/
structure Setting (Label : Type) where
  resolve : Label → Word
  written : Label
  entry : Cpu
  answer : Registers

namespace Setting

variable {Label : Type} (setting : Setting Label)

def place (offset : Int) : Word := setting.entry.registers.esp + BitVec.ofInt 32 offset

def global : Word := setting.resolve setting.written

variable (layout : Layout)

def bottom : Word := setting.place (-(4 * layout.depth))

def InFrame (byte : Word) : Prop := (byte - setting.bottom layout).toNat < 4 * layout.depth

/-- The global variable lies neither in the stack of the routine nor in the words of the
caller that it reads. -/
structure Clear : Prop where
  above : 4 * (layout.depth + layout.arguments) ≤ (setting.global - setting.bottom layout).toNat
  below : (setting.global - setting.bottom layout).toNat + 4 ≤ 4294967296

instance : Decidable (setting.Clear layout) :=
  decidable_of_iff (_ ∧ _) ⟨fun both => ⟨both.1, both.2⟩, fun clear => ⟨clear.above, clear.below⟩⟩

theorem place_add (offset : Int) (displacement : Word) :
    setting.place offset + displacement = setting.place (offset + displacement.toInt) := by
  rw [place, place, BitVec.ofInt_add, BitVec.ofInt_toInt, BitVec.add_assoc]

theorem distance (byte : Word) (left right : Int) :
    ((byte - setting.place right).toNat : Int) =
      ((byte - setting.place left).toNat + (left - right)) % 4294967296 := by
  have between : byte - setting.place right =
      byte - setting.place left + BitVec.ofInt 32 (left - right) := by
    have apart : BitVec.ofInt 32 left = BitVec.ofInt 32 (left - right) + BitVec.ofInt 32 right := by
      rw [← BitVec.ofInt_add, Int.sub_add_cancel]
    rw [place, place, apart]
    generalize BitVec.ofInt 32 (left - right) = first
    generalize BitVec.ofInt 32 right = second
    bv_omega
  rw [between, BitVec.toNat_add, BitVec.toNat_ofInt]
  omega

theorem distance_self (left right : Int) :
    ((setting.place left - setting.place right).toNat : Int) = (left - right) % 4294967296 := by
  have whole := setting.distance (setting.place left) left right
  rwa [BitVec.sub_self, BitVec.toNat_zero, Int.natCast_zero, Int.zero_add] at whole

variable {setting layout} {offset : Int}

theorem inFrame_of_inWord (inside : -(4 * layout.depth) ≤ offset) (below : offset ≤ -4)
    {byte : Word} (member : InWord (setting.place offset) byte) : setting.InFrame layout byte := by
  have far := setting.distance byte offset (-(4 * layout.depth))
  have small := layout.small
  rw [InWord] at member
  rw [InFrame, bottom]
  omega

theorem not_inFrame (outside : 0 ≤ offset) (shown : offset < 4 * layout.arguments)
    (aligned : offset % 4 = 0) {byte : Word} (member : InWord (setting.place offset) byte) :
    ¬setting.InFrame layout byte := by
  have far := setting.distance byte offset (-(4 * layout.depth))
  have small := layout.small
  rw [InWord] at member
  rw [InFrame, bottom]
  omega

theorem Clear.apart (clear : setting.Clear layout) (inside : -(4 * layout.depth) ≤ offset)
    (shown : offset < 4 * layout.arguments) (aligned : offset % 4 = 0) :
    Apart (setting.place offset) setting.global := by
  have far := setting.distance setting.global offset (-(4 * layout.depth))
  have small := layout.small
  rcases clear with ⟨above, below⟩
  rw [bottom] at above below
  have back : ((setting.place offset - setting.global).toNat : Int) =
      (-((setting.global - setting.place offset).toNat : Int)) % 4294967296 := by
    bv_omega
  constructor
  · omega
  · omega

theorem apart_places {left right : Int} (leftAligned : left % 4 = 0) (rightAligned : right % 4 = 0)
    (different : left ≠ right) (near : left - right < 2147483648 ∧ right - left < 2147483648) :
    Apart (setting.place left) (setting.place right) := by
  have forward := setting.distance_self right left
  have backward := setting.distance_self left right
  constructor
  · omega
  · omega

end Setting

variable {Label : Type}

def Symbol.value (setting : Setting Label) : Symbol Label → Word
  | .word value => value
  | .label name => setting.resolve name
  | .entry register => setting.entry.registers.get register
  | .stack offset => setting.place offset
  | .argument index => setting.entry.memory.load (setting.place (4 * index))
  | .answer register => setting.answer.get register
  | .complement symbol => ~~~symbol.value setting
  | .successor symbol => symbol.value setting + 1

/-- The registers, the stack, the global variable and the flags are as the sketch has
them, and the rest of the memory is as it was at the entry. -/
structure Describes (layout : Layout) (setting : Setting Label) (sketch : Sketch Label)
    (cpu : Cpu) : Prop where
  registers : ∀ register, cpu.registers.get register = (sketch.get register).value setting
  stack : ∀ (index : Nat) (symbol : Symbol Label), sketch.stack[index]? = some symbol →
    cpu.memory.load (setting.place (-(4 * (index + 1)))) = symbol.value setting
  deep : sketch.stack.length ≤ layout.depth
  stored : ∀ symbol, sketch.stored = some symbol →
    cpu.memory.load setting.global = symbol.value setting
  rest : ∀ byte, ¬InWord setting.global byte → ¬setting.InFrame layout byte →
    cpu.memory byte = setting.entry.memory byte
  compared : ∀ symbol, sketch.compared = some symbol →
    cpu.zf = (symbol.value setting == 0) ∧ cpu.less = (symbol.value setting).slt 0

@[simp] theorem Registers.get_set (registers : Registers) (target register : Register)
    (value : Word) : (registers.set target value).get register =
      if register = target then value else registers.get register := by
  cases target <;> cases register <;> rfl

namespace Sketch

variable {sketch changed : Sketch Label} {target : Register} {symbol : Symbol Label}

theorem get_of_set (done : sketch.set target symbol = some changed) (register : Register) :
    changed.get register = if register = target then symbol else sketch.get register := by
  unfold set at done
  split at done
  · cases done
  · rename_i notTop
    cases done
    cases register with
    | esp => exact (if_neg (Ne.symm notTop)).symm
    | _ => exact Function.update_apply ..

theorem moveTop_eq (moved : sketch.moveTop symbol = some changed) :
    ∃ offset, symbol = .stack offset ∧ offset % 4 = 0 ∧ offset ≤ 0 ∧ sketch.top ≤ offset ∧
      changed = { sketch with stack := sketch.stack.take (-offset / 4).toNat } ∧
      changed.top = offset := by
  cases symbol with
  | stack offset =>
      by_cases bounds : offset % 4 = 0 ∧ offset ≤ 0 ∧ sketch.top ≤ offset
      · cases (if_pos bounds).symm.trans moved
        refine ⟨offset, rfl, bounds.1, bounds.2.1, bounds.2.2, rfl, ?_⟩
        rcases bounds with ⟨aligned, below, above⟩
        unfold top at above ⊢
        rw [List.length_take]
        omega
      · cases (if_neg bounds).symm.trans moved
  | _ => cases moved

end Sketch

namespace Describes

variable {layout : Layout} {setting : Setting Label} {sketch changed : Sketch Label} {cpu : Cpu}
  {target : Register} {symbol : Symbol Label}

theorem top (describes : Describes layout setting sketch cpu) :
    cpu.registers.esp = setting.place sketch.top :=
  describes.registers .esp

theorem argument (describes : Describes layout setting sketch cpu) (clear : setting.Clear layout)
    {index : Nat} (shown : index < layout.arguments) :
    cpu.memory.load (setting.place (4 * index)) =
      setting.entry.memory.load (setting.place (4 * index)) := by
  have inside : -(4 * (layout.depth : Int)) ≤ 4 * (index : Int) := by omega
  have below : 4 * (index : Int) < 4 * layout.arguments := by omega
  have aligned : 4 * (index : Int) % 4 = 0 := by omega
  have apart := clear.apart inside below aligned
  apply ByteMap.load_congr
  intro byte member
  apply describes.rest
  · intro inGlobal
    exact apart.not_inWord inGlobal member
  · exact Setting.not_inFrame (by omega) below aligned member

theorem load (describes : Describes layout setting sketch cpu) (clear : setting.Clear layout)
    {offset : Int} (found : sketch.load layout offset = some symbol) :
    cpu.memory.load (setting.place offset) = symbol.value setting := by
  unfold Sketch.load at found
  split at found
  · rename_i aligned
    split at found
    · have pushed := describes.stack _ _ found
      have same : -(4 * (((-offset / 4 - 1).toNat : Int) + 1)) = offset := by omega
      rwa [same] at pushed
    · split at found
      · cases found
        have same : 4 * ((offset / 4).toNat : Int) = offset := by omega
        have shown : (offset / 4).toNat < layout.arguments := by omega
        have argument := describes.argument clear shown
        simp only [same] at argument
        simpa only [Symbol.value, same] using argument
      · cases found
  · cases found

theorem read (describes : Describes layout setting sketch cpu) (clear : setting.Clear layout)
    {operand : Operand} (found : sketch.read layout operand = some symbol) :
    cpu.read operand = symbol.value setting := by
  cases operand with
  | register source =>
      cases found
      exact describes.registers source
  | immediate value =>
      cases found
      rfl
  | memory displacement base =>
      unfold Sketch.read at found
      dsimp only at found
      split at found
      · rename_i offset place
        have here := describes.registers base
        rw [place] at here
        have value := describes.load clear found
        rw [Cpu.read, here, Symbol.value, Setting.place_add]
        exact value
      · cases found

theorem setFlags (describes : Describes layout setting sketch cpu) (zf less : Bool) :
    Describes layout setting { sketch with compared := none }
      { cpu with zf := zf, less := less } where
  registers register := by
    have here := describes.registers register
    cases register <;> exact here
  stack := describes.stack
  deep := describes.deep
  stored := describes.stored
  rest := describes.rest
  compared _ none := by cases none

theorem setEip (describes : Describes layout setting sketch cpu) (eip : Word) :
    Describes layout setting sketch { cpu with eip := eip } :=
  ⟨describes.registers, describes.stack, describes.deep, describes.stored, describes.rest,
    describes.compared⟩

theorem set (describes : Describes layout setting sketch cpu)
    (done : sketch.set target symbol = some changed) :
    Describes layout setting changed (cpu.write target (symbol.value setting)) where
  registers register := by
    rw [Sketch.get_of_set done, Cpu.write, Registers.get_set]
    split
    · rfl
    · exact describes.registers register
  stack := by
    unfold Sketch.set at done
    split at done <;> cases done
    exact describes.stack
  deep := by
    unfold Sketch.set at done
    split at done <;> cases done
    exact describes.deep
  stored := by
    unfold Sketch.set at done
    split at done <;> cases done
    exact describes.stored
  rest := describes.rest
  compared := by
    unfold Sketch.set at done
    split at done <;> cases done
    exact describes.compared

theorem moveTop (describes : Describes layout setting sketch cpu)
    (moved : sketch.moveTop symbol = some changed) :
    Describes layout setting changed (cpu.write .esp (symbol.value setting)) := by
  rcases Sketch.moveTop_eq moved with ⟨offset, same, -, -, -, taken, top⟩
  subst same
  have kept : ∀ register, register ≠ .esp → changed.get register = sketch.get register := by
    intro register other
    rw [taken]
    cases register with
    | esp => exact absurd rfl other
    | _ => rfl
  refine ⟨fun register => ?_, fun index pushed found => ?_, ?_, ?_, describes.rest, ?_⟩
  · rw [Cpu.write, Registers.get_set]
    split
    · rename_i isTop
      subst isTop
      exact congrArg (Symbol.value setting) (congrArg Symbol.stack top.symm)
    · rename_i other
      rw [kept register other]
      exact describes.registers register
  · rw [taken] at found
    apply describes.stack index pushed
    dsimp only at found
    rw [List.getElem?_take] at found
    split at found
    · exact found
    · cases found
  · have shorter : changed.stack.length ≤ sketch.stack.length := by
      rw [taken]
      exact List.length_take_le' _ _
    exact Nat.le_trans shorter describes.deep
  · rw [taken]
    exact describes.stored
  · rw [taken]
    exact describes.compared

theorem push (describes : Describes layout setting sketch cpu) (clear : setting.Clear layout)
    (pushed : sketch.push layout symbol = some changed) :
    Describes layout setting changed (cpu.push (symbol.value setting)) := by
  unfold Sketch.push at pushed
  split at pushed
  rotate_left
  · cases pushed
  rename_i room
  cases pushed
  let offset : Int := -(4 * ((sketch.stack.length : Int) + 1))
  have place : cpu.registers.esp - 4 = setting.place offset := by
    have below := setting.place_add sketch.top (-4)
    rw [describes.top, BitVec.sub_eq_add_neg]
    exact below.trans (congrArg setting.place (by
      change -(4 * (sketch.stack.length : Int)) + -4 = -(4 * ((sketch.stack.length : Int) + 1))
      omega))
  have written : (cpu.push (symbol.value setting)).memory =
      cpu.memory.store (setting.place offset) (symbol.value setting) := by
    rw [← place]
    rfl
  have inside : -(4 * (layout.depth : Int)) ≤ offset := by
    change -(4 * (layout.depth : Int)) ≤ -(4 * ((sketch.stack.length : Int) + 1))
    omega
  have below : offset ≤ -4 := by
    change -(4 * ((sketch.stack.length : Int) + 1)) ≤ -4
    omega
  have aligned : offset % 4 = 0 := by
    change -(4 * ((sketch.stack.length : Int) + 1)) % 4 = 0
    omega
  have apart : Apart (setting.place offset) setting.global :=
    clear.apart inside (by omega) aligned
  refine ⟨fun register => ?_, fun index other found => ?_, ?_, fun other found => ?_,
    fun byte outside free => ?_, describes.compared⟩
  · change ((cpu.registers.set .esp (cpu.registers.esp - 4)).get register) = _
    rw [Registers.get_set, place]
    split
    · rename_i isTop
      subst isTop
      change _ = setting.place (-(4 * ((sketch.stack ++ [symbol]).length : Int)))
      rw [List.length_append, List.length_singleton]
      rfl
    · rename_i notTop
      rw [describes.registers register]
      cases register with
      | esp => exact absurd rfl notTop
      | _ => rfl
  · rw [written]
    dsimp only at found
    by_cases last : index = sketch.stack.length
    · subst last
      rw [List.getElem?_concat_length] at found
      cases found
      exact ByteMap.load_store _ _ _
    · have earlier : index < sketch.stack.length := by
        have bound := (List.getElem?_eq_some_iff.mp found).1
        rw [List.length_append, List.length_singleton] at bound
        omega
      rw [List.getElem?_append_left earlier] at found
      have small := layout.small
      have deep := describes.deep
      rw [ByteMap.load_store_apart]
      · exact describes.stack index other found
      · apply Setting.apart_places aligned (by omega)
        · change -(4 * ((sketch.stack.length : Int) + 1)) ≠ _
          omega
        · change -(4 * ((sketch.stack.length : Int) + 1)) - _ < _ ∧
            _ - -(4 * ((sketch.stack.length : Int) + 1)) < _
          omega
  · rw [List.length_append, List.length_singleton]
    omega
  · rw [written, ByteMap.load_store_apart _ apart]
    exact describes.stored other found
  · rw [written, ByteMap.store_outside]
    · exact describes.rest byte outside free
    · exact fun member => free (Setting.inFrame_of_inWord inside below member)

theorem pop (describes : Describes layout setting sketch cpu)
    (newest : sketch.stack.getLast? = some symbol) : cpu.pop.2 = symbol.value setting := by
  rw [List.getLast?_eq_getElem?] at newest
  have found := describes.stack _ symbol newest
  have some : 0 < sketch.stack.length := by
    have bound := (List.getElem?_eq_some_iff.mp newest).1
    omega
  have here : -(4 * (((sketch.stack.length - 1 : Nat) : Int) + 1)) = sketch.top := by
    unfold Sketch.top
    omega
  rw [here, ← describes.top] at found
  exact found

theorem store (describes : Describes layout setting sketch cpu) (clear : setting.Clear layout)
    (symbol : Symbol Label) :
    Describes layout setting { sketch with stored := some symbol }
      { cpu with memory := cpu.memory.store setting.global (symbol.value setting) } where
  registers register := by
    have here := describes.registers register
    cases register <;> exact here
  stack index pushed found := by
    have bound := (List.getElem?_eq_some_iff.mp found).1
    have deep := describes.deep
    dsimp only at bound
    have apart : Apart (setting.place (-(4 * ((index : Int) + 1)))) setting.global :=
      clear.apart (by omega) (by omega) (by omega)
    change (cpu.memory.store setting.global (symbol.value setting)).load _ = _
    rw [ByteMap.load_store_apart _ apart.symm]
    exact describes.stack index pushed found
  deep := describes.deep
  stored _ found := by
    cases found
    exact ByteMap.load_store _ _ _
  rest byte outside free := by
    change cpu.memory.store setting.global (symbol.value setting) byte = _
    rw [ByteMap.store_outside _ outside]
    exact describes.rest byte outside free
  compared := describes.compared

variable [DecidableEq Label]

theorem transfer (describes : Describes layout setting sketch cpu) (clear : setting.Clear layout)
    {operation : Operation Label}
    (done : sketch.transfer layout setting.written operation = some changed) :
    Describes layout setting changed (operation.perform setting.resolve cpu) := by
  cases operation with
  | push source =>
      rcases Option.bind_eq_some_iff.mp done with ⟨symbol, found, pushed⟩
      change Describes layout setting changed (cpu.push (cpu.read source))
      rw [describes.read clear found]
      exact describes.push clear pushed
  | pop target =>
      rcases Option.bind_eq_some_iff.mp done with ⟨symbol, newest, rest⟩
      rcases Option.bind_eq_some_iff.mp rest with ⟨shorter, moved, set⟩
      have above : cpu.registers.esp + 4 = setting.place (sketch.top + 4) := by
        rw [describes.top]
        exact setting.place_add sketch.top 4
      change Describes layout setting changed
        ((cpu.write .esp (cpu.registers.esp + 4)).write target cpu.pop.2)
      rw [describes.pop newest, above]
      exact (describes.moveTop moved).set set
  | mov source target =>
      change Describes layout setting changed (cpu.write target (cpu.read source))
      cases target with
      | esp =>
          rcases Option.bind_eq_some_iff.mp done with ⟨symbol, found, moved⟩
          rw [describes.read clear found]
          exact describes.moveTop moved
      | _ =>
          rcases Option.bind_eq_some_iff.mp done with ⟨symbol, found, set⟩
          rw [describes.read clear found]
          exact describes.set set
  | movToMemory source displacement base =>
      by_cases isGlobal : sketch.get base = .label setting.written ∧ displacement = 0
      · cases (if_pos isGlobal).symm.trans done
        rcases isGlobal with ⟨here, none⟩
        have address : cpu.registers.get base + displacement = setting.global := by
          rw [describes.registers base, here, none]
          exact BitVec.add_zero _
        have stored := describes.store clear (sketch.get source)
        rw [← address, ← describes.registers source] at stored
        exact stored
      · cases (if_neg isGlobal).symm.trans done
  | lea name target => exact describes.set done
  | add value target =>
      cases target with
      | esp =>
          rcases Option.map_eq_some_iff.mp done with ⟨shorter, moved, same⟩
          subst same
          have lower := describes.moveTop moved
          have place : cpu.registers.esp + value = setting.place (sketch.top + value.toInt) := by
            rw [describes.top]
            exact setting.place_add sketch.top value
          rw [Symbol.value, ← place] at lower
          exact lower.setFlags _ _
      | _ => cases done
  | inc target =>
      rcases Option.map_eq_some_iff.mp done with ⟨larger, set, same⟩
      subst same
      have next := describes.set set
      rw [Symbol.value, ← describes.registers target] at next
      exact next.setFlags _ _
  | not target =>
      have inverted := describes.set done
      rw [Symbol.value, ← describes.registers target] at inverted
      exact inverted
  | cmp source target =>
      by_cases zero : source = .immediate 0
      rotate_left
      · cases (if_neg zero).symm.trans done
      cases (if_pos zero).symm.trans done
      subst zero
      refine ⟨?_, describes.stack, describes.deep, describes.stored, describes.rest, ?_⟩
      · intro register
        have here := describes.registers register
        cases register <;> exact here
      · intro symbol same
        cases same
        rw [← describes.registers target]
        exact ⟨rfl, rfl⟩
  | movToCr3 | and | wrmsr => cases done

end Describes

/-! ## Whole routines -/

/-- The supervisor that leaves `answer` in the registers that it does not keep, takes the
stack pointer from `ebp`, and returns to the address in the word above. -/
def answering (answer : Registers) (cpu : Cpu) : Cpu :=
  { cpu with
    registers := { cpu.registers with
      eax := answer.eax
      ecx := answer.ecx
      edx := answer.edx
      esp := cpu.registers.ebp }
    eip := cpu.memory.load (cpu.registers.ebp + 4) }

theorem signOf_negative {value : Word} : signOf value = .negative ↔ value.slt 0 = true := by
  unfold signOf
  split
  · rename_i negative
    exact iff_of_true rfl negative
  · rename_i notNegative
    split
    · exact iff_of_false Sign.noConfusion notNegative
    · exact iff_of_false Sign.noConfusion notNegative

theorem signOf_zero {value : Word} : signOf value = .zero ↔ value = 0 := by
  unfold signOf
  split
  · rename_i negative
    refine iff_of_false Sign.noConfusion fun zero => ?_
    subst zero
    exact absurd negative (by decide)
  · split
    · rename_i zero
      exact iff_of_true rfl zero
    · rename_i notZero
      exact iff_of_false Sign.noConfusion notZero

section Routines

variable [DecidableEq Label] {Routine : Type} {program : Program Routine Label} {routine : Routine}
  {layout : Layout} {setting : Setting Label} {sketch changed final : Sketch Label} {cpu : Cpu}
  {position : Label → Option Nat}

omit [DecidableEq Label] in
theorem describes_start (layout : Layout) (setting : Setting Label) :
    Describes layout setting .start setting.entry where
  registers register := by
    cases register with
    | esp => exact (BitVec.add_zero _).symm
    | _ => rfl
  stack _ _ found := by cases found
  deep := Nat.zero_le _
  stored _ none := by cases none
  rest _ _ _ := rfl
  compared _ none := by cases none

omit [DecidableEq Label] in
theorem Describes.answered (describes : Describes layout setting sketch cpu)
    (clear : setting.Clear layout) {name : Label}
    (back : sketch.read layout (.memory 4 .ebp) = some (.label name))
    (answered : sketch.answered = some changed) :
    Describes layout setting changed (answering setting.answer cpu) ∧
      (answering setting.answer cpu).eip = setting.resolve name := by
  rcases Option.bind_eq_some_iff.mp answered with ⟨lower, moved, same⟩
  cases same
  have moved := describes.moveTop moved
  have base := describes.registers .ebp
  refine ⟨⟨fun register => ?_, moved.stack, moved.deep, moved.stored, moved.rest, ?_⟩, ?_⟩
  · have here := moved.registers register
    cases register with
    | eax | ecx | edx => rfl
    | esp =>
        rw [← base] at here
        exact here
    | _ => exact here
  · exact fun _ none => by cases none
  · exact describes.read clear back

/-- Where every address that the routine pushes lies in the routine, the machine goes where the
sketch goes. -/
theorem follow_leads (resolve : program.resolve = setting.resolve)
    (supervisor : program.supervisor = answering setting.answer) (clear : setting.Clear layout)
    (places : ∀ name index, position name = some index →
      setting.resolve name = program.address routine index)
    {rounds index : Nat} (describes : Describes layout setting sketch cpu)
    (here : cpu.eip = program.address routine index)
    (followed : follow layout setting.written position (signOf setting.answer.eax)
      (program.code routine) rounds index sketch = some final) :
    ∃ last finish, program.Leads cpu last ∧ last.eip = program.address routine finish ∧
      (program.code routine)[finish]? = some .ret ∧ final.stack = [] ∧
      Describes layout setting final last := by
  induction rounds generalizing index sketch cpu with
  | zero => cases followed
  | succ rounds induction =>
      unfold follow at followed
      split at followed
      · rename_i operation listed
        rcases Option.bind_eq_some_iff.mp followed with ⟨next, transferred, rest⟩
        have leads := Program.leads_of_listed here listed
        have described := (describes.transfer clear transferred).setEip
          (program.address routine (index + 1))
        rw [← resolve] at described
        rcases induction described rfl rest with ⟨last, finish, later, facts⟩
        exact ⟨last, finish, leads.trans later, facts⟩
      · rename_i target listed
        split at followed
        · rename_i compared
          have leads := Program.leads_of_listed here listed
          have flags := (describes.compared _ compared).1
          have next : (program.execute cpu routine index (.je target)).eip =
              program.address routine
                (if signOf setting.answer.eax = .zero then target else index + 1) := by
            change program.address routine (if cpu.zf then target else index + 1) = _
            rw [flags]
            simp only [signOf_zero, beq_iff_eq]
            rfl
          rcases induction (describes.setEip _) next followed with ⟨last, finish, later, facts⟩
          exact ⟨last, finish, leads.trans later, facts⟩
        · cases followed
      · rename_i target listed
        split at followed
        · rename_i compared
          have leads := Program.leads_of_listed here listed
          have flags := (describes.compared _ compared).2
          have next : (program.execute cpu routine index (.jge target)).eip =
              program.address routine
                (if signOf setting.answer.eax = .negative then index + 1 else target) := by
            change program.address routine (if cpu.less then index + 1 else target) = _
            rw [flags]
            simp only [signOf_negative]
            rfl
          rcases induction (describes.setEip _) next followed with ⟨last, finish, later, facts⟩
          exact ⟨last, finish, leads.trans later, facts⟩
        · cases followed
      · rename_i target listed
        have leads := Program.leads_of_listed here listed
        rcases induction (describes.setEip _) rfl followed with ⟨last, finish, later, facts⟩
        exact ⟨last, finish, leads.trans later, facts⟩
      · rename_i listed
        split at followed
        · rename_i name back
          rcases Option.bind_eq_some_iff.mp followed with ⟨next, placed, rest⟩
          rcases Option.bind_eq_some_iff.mp rest with ⟨answered, taken, continued⟩
          have leads := Program.leads_of_listed here listed
          rcases describes.answered clear back taken with ⟨described, eip⟩
          rw [places name next placed, ← supervisor] at eip
          rw [← supervisor] at described
          rcases induction described eip continued with ⟨last, finish, later, facts⟩
          exact ⟨last, finish, leads.trans later, facts⟩
        · cases followed
      · rename_i listed
        split at followed
        · rename_i empty
          cases followed
          exact ⟨cpu, index, .refl cpu, here, listed, empty, describes⟩
        · cases followed
      · cases followed

structure Leaves (layout : Layout) (setting : Setting Label) (sketch : Sketch Label) (last : Cpu) :
    Prop where
  registers : ∀ register, register ≠ .esp →
    last.registers.get register = (sketch.registers register).value setting
  esp : last.registers.esp = setting.entry.registers.esp + 4
  eip : last.eip = setting.entry.memory.load setting.entry.registers.esp
  stored : ∀ symbol, sketch.stored = some symbol →
    last.memory.load setting.global = symbol.value setting
  rest : ∀ byte, ¬InWord setting.global byte → ¬setting.InFrame layout byte →
    last.memory byte = setting.entry.memory byte

theorem follow_completes (resolve : program.resolve = setting.resolve)
    (supervisor : program.supervisor = answering setting.answer) (clear : setting.Clear layout)
    (places : ∀ name index, position name = some index →
      setting.resolve name = program.address routine index)
    (shown : 0 < layout.arguments) {rounds : Nat}
    (here : setting.entry.eip = program.address routine 0)
    (outside : program.Outside (setting.entry.memory.load setting.entry.registers.esp))
    (followed : follow layout setting.written position (signOf setting.answer.eax)
      (program.code routine) rounds 0 .start = some final) :
    ∃ last, program.Completes setting.entry last ∧ Leaves layout setting final last := by
  rcases follow_leads resolve supervisor clear places (describes_start layout setting) here followed
    with ⟨before, finish, leads, eip, listed, empty, describes⟩
  have bottom : setting.place 0 = setting.entry.registers.esp := BitVec.add_zero _
  have top : before.registers.esp = setting.entry.registers.esp := by
    rw [describes.top, Sketch.top, empty]
    exact bottom
  have back : before.memory.load before.registers.esp =
      setting.entry.memory.load setting.entry.registers.esp := by
    have argument := describes.argument clear shown
    rw [top, ← bottom]
    exact argument
  have returns := leads.trans (Program.leads_of_listed eip listed)
  refine ⟨before.ret, ⟨returns, ?_⟩, ⟨fun register other => ?_, ?_, back, describes.stored,
    describes.rest⟩⟩
  · change program.Outside (before.memory.load before.registers.esp)
    rw [back]
    exact outside
  · have kept := describes.registers register
    cases register with
    | esp => exact absurd rfl other
    | _ => exact kept
  · change before.registers.esp + 4 = _
    rw [top]

end Routines

end Foundation.Machine
