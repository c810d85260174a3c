import Zeos.Foundation.StackSketch

/-! # System-call wrappers

`entry_wrapper.S`: what a user program calls to enter the kernel, as the assembler has
it. The kernel is seen from the outside: it leaves any values in three registers, and
goes on at the address and with the stack that it finds through `ebp`.
-/

namespace Zeos

open Foundation Foundation.Machine

inductive Wrapper
  | write | gettime | getpid | fork | exit | getStats | clone | semInit | semWait | semSignal
  | semDestroy | read | sbrk
deriving DecidableEq, Repr

/-- The variable, and the labels behind the `sysenter` of each wrapper. -/
inductive WrapperLabel
  | errno
  | ret (wrapper : Wrapper)
deriving DecidableEq, Repr

abbrev WrapperCode := List (Instruction Wrapper WrapperLabel)

namespace Wrapper

/-! ## The code -/

def operations (list : List (Operation WrapperLabel)) : WrapperCode := list.map .operation

def enter : WrapperCode := operations [.push (.register .ebp), .mov (.register .esp) .ebp]

def leave : WrapperCode :=
  operations [.mov (.register .ebp) .esp, .pop .ebp] ++ [.ret]

def saves (registers : List Register) : WrapperCode :=
  operations (registers.map fun register => .push (.register register))

def restores (registers : List Register) : WrapperCode := operations (registers.map .pop)

/-- Entering the kernel with the return address and a dynamic link on the stack, and what each
wrapper pops when it is back. -/
def callKernel (wrapper : Wrapper) (number : Word) : WrapperCode :=
  operations
    [.lea (.ret wrapper) .eax,
      .push (.register .eax),
      .push (.register .ebp),
      .mov (.register .esp) .ebp,
      .mov (.immediate number) .eax] ++
  .sysenter ::
  operations
    [.pop .ebp,
      .add 4 .esp,
      .pop .edx,
      .pop .ecx]

def setErrno : WrapperCode :=
  operations
    [.lea .errno .ebx,
      .movToMemory .eax 0 .ebx,
      .mov (.immediate (-1)) .eax]

def negateErrno : WrapperCode := operations [.not .eax, .inc .eax] ++ setErrno

/-- A jump over the error path, on the comparison of the result with zero. -/
def checked (jump : Nat → Instruction Wrapper WrapperLabel) (body error : WrapperCode) :
    WrapperCode :=
  body ++ .operation (.cmp (.immediate 0) .eax) :: jump (body.length + 2 + error.length) :: error

/-- `sys_write_wrapper` and `sys_read_wrapper` return the third argument when there is no
error. -/
def transferWrapper (wrapper : Wrapper) (number : Word) : WrapperCode :=
  let body := enter ++ saves [.ebx, .ecx, .edx] ++
    operations
      [.mov (.memory 8 .ebp) .ebx,
        .mov (.memory 12 .ebp) .ecx,
        .mov (.memory 16 .ebp) .edx] ++
    saves [.ecx, .edx] ++ callKernel wrapper number
  checked .je body (setErrno ++ [.jmp (body.length + 2 + setErrno.length + 2)]) ++
    operations [.mov (.memory 16 .ebp) .eax] ++ restores [.edx, .ecx, .ebx] ++ leave

/-- `sys_gettime_wrapper`, `sys_getpid_wrapper` and `sys_exit_wrapper` have no argument and no
error. -/
def plainWrapper (wrapper : Wrapper) (number : Word) : WrapperCode :=
  enter ++ saves [.ecx, .edx] ++ callKernel wrapper number ++ leave

def forkWrapper : WrapperCode :=
  checked .jge (enter ++ saves [.ecx, .edx] ++ callKernel .fork 2) negateErrno ++ leave

/-- `sys_get_stats_wrapper` and `sys_sem_init_wrapper`: two arguments. -/
def pairWrapper (wrapper : Wrapper) (number : Word) (error : WrapperCode) : WrapperCode :=
  checked .je
    (enter ++ saves [.ebx, .ecx] ++
      operations [.mov (.memory 8 .ebp) .ebx, .mov (.memory 12 .ebp) .ecx] ++
      saves [.ecx, .edx] ++ callKernel wrapper number) error ++
    restores [.ecx, .ebx] ++ leave

def cloneWrapper : WrapperCode :=
  checked .jge
    (enter ++ saves [.ecx, .edx] ++ saves [.ebx, .ecx] ++
      operations [.mov (.memory 8 .ebp) .ebx, .mov (.memory 12 .ebp) .ecx] ++
      callKernel .clone 19) negateErrno ++
    restores [.ecx, .ebx] ++ leave

/-- `sys_sem_wait_wrapper`, `sys_sem_signal_wrapper` and `sys_sem_destroy_wrapper`. -/
def semWrapper (wrapper : Wrapper) (number : Word) : WrapperCode :=
  checked .je
    (enter ++ saves [.ebx] ++ operations [.mov (.memory 8 .ebp) .ebx] ++
      saves [.ecx, .edx] ++ callKernel wrapper number) negateErrno ++
    restores [.ebx] ++ leave

def sbrkWrapper : WrapperCode :=
  checked .jge
    (enter ++ saves [.ecx, .edx] ++ saves [.ebx] ++ operations [.mov (.memory 8 .ebp) .ebx] ++
      callKernel .sbrk 13) negateErrno ++
    restores [.ecx] ++ leave

def code : Wrapper → WrapperCode
  | .write => transferWrapper .write 4
  | .gettime => plainWrapper .gettime 10
  | .getpid => plainWrapper .getpid 20
  | .fork => forkWrapper
  | .exit => plainWrapper .exit 1
  | .getStats => pairWrapper .getStats 35 setErrno
  | .clone => cloneWrapper
  | .semInit => pairWrapper .semInit 21 negateErrno
  | .semWait => semWrapper .semWait 22
  | .semSignal => semWrapper .semSignal 23
  | .semDestroy => semWrapper .semDestroy 24
  | .read => transferWrapper .read 3
  | .sbrk => sbrkWrapper

def resumption (wrapper : Wrapper) : Nat :=
  (wrapper.code.findIdx fun | .sysenter => true | _ => false) + 1

def position (wrapper : Wrapper) (name : WrapperLabel) : Option Nat :=
  if name = .ret wrapper then some wrapper.resumption else none

/-! ## Paths -/

/-- No wrapper pushes more than eight words, or reads more than three arguments. -/
def layout : Layout := ⟨8, 4, by decide⟩

def path (wrapper : Wrapper) (sign : Sign) : Option (Sketch WrapperLabel) :=
  follow layout .errno wrapper.position sign wrapper.code 64 0 .start

def leftInEbx : Wrapper → Sign → Symbol WrapperLabel
  | .fork, .negative => .label .errno
  | .clone, _ => .entry .ecx
  | .sbrk, .negative => .label .errno
  | .sbrk, _ => .argument 1
  | _, _ => .entry .ebx

def reports : Wrapper → Bool
  | .fork | .clone | .semInit | .semWait | .semSignal | .semDestroy | .sbrk => true
  | _ => false

/-- The results of the kernel that signal success: for the semaphore calls, only zero. -/
def succeeds : Wrapper → Sign → Bool
  | .fork, sign | .clone, sign | .sbrk, sign => sign ≠ .negative
  | _, sign => sign = .zero

structure Path (wrapper : Wrapper) (sign : Sign) (final : Sketch WrapperLabel) : Prop where
  ebx : final.registers .ebx = wrapper.leftInEbx sign
  esi : final.registers .esi = .entry .esi
  edi : final.registers .edi = .entry .edi
  ebp : final.registers .ebp = .entry .ebp
  succeeds : wrapper.reports = true → wrapper.succeeds sign = true →
    final.registers .eax = .answer .eax
  fails : wrapper.reports = true → sign = .negative → final.registers .eax = .word (-1) ∧
    final.stored = some (.successor (.complement (.answer .eax)))

instance (wrapper : Wrapper) (sign : Sign) (final : Sketch WrapperLabel) :
    Decidable (Path wrapper sign final) :=
  decidable_of_iff (final.registers .ebx = wrapper.leftInEbx sign ∧
      final.registers .esi = .entry .esi ∧ final.registers .edi = .entry .edi ∧
      final.registers .ebp = .entry .ebp ∧
      (wrapper.reports = true → wrapper.succeeds sign = true →
        final.registers .eax = .answer .eax) ∧
      (wrapper.reports = true → sign = .negative → final.registers .eax = .word (-1) ∧
        final.stored = some (.successor (.complement (.answer .eax)))))
    ⟨fun ⟨ebx, esi, edi, ebp, succeeds, fails⟩ => ⟨ebx, esi, edi, ebp, succeeds, fails⟩,
      fun path => ⟨path.ebx, path.esi, path.edi, path.ebp, path.succeeds, path.fails⟩⟩

theorem path_found (wrapper : Wrapper) (sign : Sign) :
    ∃ final, wrapper.path sign = some final ∧ Path wrapper sign final := by
  have computed : (wrapper.path sign).any fun final => decide (Path wrapper sign final) := by
    cases wrapper <;> cases sign <;> decide +kernel
  rcases Option.any_eq_true_iff_get .. |>.mp computed with ⟨found, right⟩
  exact ⟨_, (Option.some_get found).symm, of_decide_eq_true right⟩

end Wrapper

/-- Where the wrappers and `errno` lie in a user program. -/
structure UserImage where
  errno : Word
  address : Wrapper → Nat → Word
  locate : Word → Option (Wrapper × Nat)
  locate_address : ∀ wrapper index, index < wrapper.code.length →
    locate (address wrapper index) = some (wrapper, index)

namespace UserImage

variable (image : UserImage) (answer : Registers) (before : Cpu)

def resolve : WrapperLabel → Word
  | .errno => image.errno
  | .ret wrapper => image.address wrapper wrapper.resumption

/-- The kernel answers with the values in three registers of `answer`. -/
def program : Program Wrapper WrapperLabel where
  code := Wrapper.code
  resolve := image.resolve
  supervisor := answering answer
  address := image.address
  locate := image.locate
  locate_address := image.locate_address

def setting : Setting WrapperLabel := ⟨image.resolve, .errno, before, answer⟩

/-- A wrapper is called from outside of the wrappers, and its stack and its arguments are
apart from `errno`. -/
structure Called (wrapper : Wrapper) : Prop where
  eip : before.eip = image.address wrapper 0
  caller : (image.program answer).Outside (before.memory.load before.registers.esp)
  clear : (image.setting answer before).Clear Wrapper.layout

/-- The byte belongs to `errno`, or to the 32 bytes below the stack pointer. -/
def Scratch (byte : Word) : Prop :=
  InWord image.errno byte ∨ (byte - (before.registers.esp - 32)).toNat < 32

end UserImage

/-- The calling convention: the registers of the caller and its stack are as they were, and the
return address is popped. The results of the kernel are passed on. -/
structure Conforms (image : UserImage) (wrapper : Wrapper) (answer : Registers)
    (before after : Cpu) : Prop where
  ebx : after.registers.ebx = before.registers.ebx
  esi : after.registers.esi = before.registers.esi
  edi : after.registers.edi = before.registers.edi
  ebp : after.registers.ebp = before.registers.ebp
  esp : after.registers.esp = before.registers.esp + 4
  memory : ∀ byte, ¬image.Scratch before byte → after.memory byte = before.memory byte
  succeeds : wrapper.reports = true → wrapper.succeeds (signOf answer.eax) = true →
    after.registers.eax = answer.eax
  fails : wrapper.reports = true → answer.eax.toInt < 0 → after.registers.eax = -1 ∧
    (after.memory.load image.errno).toNat = answer.eax.toInt.natAbs

/-- What makes the wrappers that do not restore `ebx` leave the right value in it. -/
def Wrapper.Spares (image : UserImage) (before : Cpu) (value : Word) : Wrapper → Prop
  | .fork => 0 ≤ value.toInt ∨ before.registers.ebx = image.errno
  | .clone => before.registers.ebx = before.registers.ecx
  | .sbrk => if 0 ≤ value.toInt then
      before.registers.ebx = before.memory.load (before.registers.esp + 4)
    else before.registers.ebx = image.errno
  | _ => True

section Calls

variable {image : UserImage} {wrapper : Wrapper} {answer : Registers} {before after : Cpu}

theorem signOf_eq_negative {value : Word} : signOf value = .negative ↔ value.toInt < 0 := by
  rw [signOf_negative, BitVec.slt_iff_toInt_lt]
  rfl

theorem negated_toNat {value : Word} (negative : value.toInt < 0) :
    (~~~value + 1).toNat = value.toInt.natAbs := by
  have opposite : ~~~value + 1 = -value := (BitVec.neg_eq_not_add value).symm
  rw [opposite]
  rw [BitVec.toInt_eq_toNat_cond] at negative ⊢
  bv_omega

theorem wrapper_returns (called : image.Called answer before wrapper) :
    ∃ final after, Wrapper.Path wrapper (signOf answer.eax) final ∧
      (image.program answer).Completes before after ∧
      Leaves Wrapper.layout (image.setting answer before) final after := by
  rcases wrapper.path_found (signOf answer.eax) with ⟨final, found, path⟩
  have places : ∀ name index, wrapper.position name = some index →
      image.resolve name = image.address wrapper index := by
    intro name index placed
    unfold Wrapper.position at placed
    split at placed
    · rename_i here
      cases placed
      rw [here]
      rfl
    · cases placed
  have completes := @follow_completes _ _ _ (image.program answer) wrapper Wrapper.layout
    (image.setting answer before) final wrapper.position rfl rfl called.clear places (by decide) 64
    called.eip called.caller found
  rcases completes with ⟨after, completes, leaves⟩
  exact ⟨final, after, path, completes, leaves⟩

theorem scratch_of_inFrame {byte : Word}
    (inFrame : (image.setting answer before).InFrame Wrapper.layout byte) :
    image.Scratch before byte := by
  have below : BitVec.ofInt 32 (-(4 * ((8 : Nat) : Int))) = -32#32 := by decide
  have bottom : (image.setting answer before).bottom Wrapper.layout =
      before.registers.esp - 32 := by
    rw [BitVec.sub_eq_add_neg]
    exact congrArg (before.registers.esp + ·) below
  rw [Setting.InFrame, bottom] at inFrame
  exact .inr inFrame

theorem spares_iff (image : UserImage) (wrapper : Wrapper) (answer : Registers) (before : Cpu) :
    (wrapper.leftInEbx (signOf answer.eax)).value (image.setting answer before) =
        before.registers.ebx ↔ wrapper.Spares image before answer.eax := by
  have negative := @signOf_eq_negative answer.eax
  cases sign : signOf answer.eax with
  | negative =>
      have below := negative.mp sign
      have notAbove : ¬0 ≤ answer.eax.toInt := Int.not_le.mpr below
      cases wrapper <;> simp [Wrapper.leftInEbx, Wrapper.Spares, Symbol.value, UserImage.setting,
        UserImage.resolve, Registers.get, notAbove, eq_comm]
  | zero | positive =>
      have above : 0 ≤ answer.eax.toInt := by
        by_contra below
        rw [negative.mpr (Int.not_le.mp below)] at sign
        cases sign
      cases wrapper with
      | sbrk =>
          rw [Wrapper.Spares, if_pos above]
          exact eq_comm
      | _ => simp [Wrapper.leftInEbx, Wrapper.Spares, Symbol.value, UserImage.setting,
          Registers.get, above, eq_comm]

end Calls

/-! ## A user program -/

namespace Wrapper

def all : List Wrapper :=
  [.write, .gettime, .getpid, .fork, .exit, .getStats, .clone, .semInit, .semWait, .semSignal,
    .semDestroy, .read, .sbrk]

def sampleAddress (wrapper : Wrapper) (index : Nat) : Word :=
  BitVec.ofNat 32 (1048576 + 64 * all.idxOf wrapper + index)

def sampleLocate (address : Word) : Option (Wrapper × Nat) :=
  if 1048576 ≤ address.toNat then
    all[(address.toNat - 1048576) / 64]?.map fun wrapper =>
      (wrapper, (address.toNat - 1048576) % 64)
  else none

theorem sampleLocate_address (wrapper : Wrapper) (index : Nat)
    (inside : index < wrapper.code.length) :
    sampleLocate (sampleAddress wrapper index) = some (wrapper, index) := by
  have short : ∀ wrapper, wrapper.code.length ≤ 64 ∧ all.idxOf wrapper < 13 ∧
      all[all.idxOf wrapper]? = some wrapper := by
    intro wrapper
    cases wrapper <;> decide
  rcases short wrapper with ⟨length, position, listed⟩
  have address : (sampleAddress wrapper index).toNat =
      1048576 + 64 * all.idxOf wrapper + index := by
    rw [sampleAddress, BitVec.toNat_ofNat]
    omega
  have quotient : (1048576 + 64 * all.idxOf wrapper + index - 1048576) / 64 =
      all.idxOf wrapper := by
    omega
  have remainder : (1048576 + 64 * all.idxOf wrapper + index - 1048576) % 64 = index := by
    omega
  rw [sampleLocate, address, if_pos (by omega), quotient, remainder, listed]
  rfl

end Wrapper

def UserImage.sample : UserImage where
  errno := 1081344
  address := Wrapper.sampleAddress
  locate := Wrapper.sampleLocate
  locate_address := Wrapper.sampleLocate_address

/-- A call of the wrapper, with all registers but the stack pointer zero. -/
def callOf (wrapper : Wrapper) : Cpu where
  registers := ⟨0, 0, 0, 0, 1146880, 0, 0, 0⟩
  eip := Wrapper.sampleAddress wrapper 0
  zf := false
  less := false
  cr3 := 0
  msr _ := 0
  memory := ByteMap.store (fun _ => 0) 1146880 1052672

/-- The kernel answers with the value. -/
def answerOf (value : Word) : Registers := ⟨value, 0, 0, 0, 0, 0, 0, 0⟩

theorem called_sample (wrapper : Wrapper) (value : Word) :
    UserImage.sample.Called (answerOf value) (callOf wrapper) wrapper where
  eip := rfl
  caller := by
    have back : (callOf wrapper).memory.load (callOf wrapper).registers.esp = 1052672 :=
      ByteMap.load_store _ _ _
    have located : (UserImage.sample.program (answerOf value)).locate = Wrapper.sampleLocate := rfl
    rw [Program.Outside, back, located]
    decide +kernel
  clear := by
    constructor
    · change 4 * (8 + 4) ≤
        (1081344 - (1146880 + BitVec.ofInt 32 (-(4 * ((8 : Nat) : Int)))) : Word).toNat
      decide
    · change (1081344 - (1146880 + BitVec.ofInt 32 (-(4 * ((8 : Nat) : Int)))) : Word).toNat + 4 ≤
        4294967296
      decide

/-- A wrapper conforms to the calling convention, whatever the kernel answers, unless it is one of
the three that do not restore `ebx`: `sys_fork_wrapper` when it reports an error,
`sys_clone_wrapper` and `sys_sbrk_wrapper`, which then need the right value there by chance. -/
theorem wrappersConform (image : UserImage) (wrapper : Wrapper) (answer : Registers)
    {before after : Cpu} (called : image.Called answer before wrapper)
    (returns : (image.program answer).Completes before after) :
    Conforms image wrapper answer before after ↔ wrapper.Spares image before answer.eax := by
  rcases wrapper_returns called with ⟨final, last, path, completes, leaves⟩
  have same := returns.unique completes
  subst same
  have register : ∀ {register symbol}, register ≠ .esp → final.registers register = symbol →
      after.registers.get register = symbol.value (image.setting answer before) := by
    intro register symbol other holds
    rw [← holds]
    exact leaves.registers register other
  have ebx : after.registers.ebx = _ := register Register.noConfusion path.ebx
  rw [← spares_iff image wrapper answer before, ← ebx]
  constructor
  · exact Conforms.ebx
  · intro kept
    refine ⟨kept, register Register.noConfusion path.esi, register Register.noConfusion path.edi,
      register Register.noConfusion path.ebp, leaves.esp, fun byte outside => ?_,
      fun reports succeeds => ?_, fun reports negative => ?_⟩
    · exact leaves.rest byte (fun inErrno => outside (.inl inErrno))
        fun inFrame => outside (scratch_of_inFrame inFrame)
    · exact register Register.noConfusion (path.succeeds reports succeeds)
    · rcases path.fails reports (signOf_eq_negative.mpr negative) with ⟨result, stored⟩
      refine ⟨register Register.noConfusion result, ?_⟩
      have errno : after.memory.load image.errno = ~~~answer.eax + 1 := leaves.stored _ stored
      rw [errno]
      exact negated_toNat negative

theorem wrappersConform_semWait :
    ∃ after, (UserImage.sample.program (answerOf 0)).Completes (callOf .semWait) after ∧
      Conforms UserImage.sample .semWait (answerOf 0) (callOf .semWait) after := by
  have called := called_sample .semWait 0
  rcases wrapper_returns called with ⟨-, after, -, completes, -⟩
  exact ⟨after, completes,
    (wrappersConform UserImage.sample .semWait (answerOf 0) called completes).mpr trivial⟩

/-- A call of `fork` that fails leaves the address of `errno` in `ebx`. -/
theorem wrappers_forkFails :
    ∃ after, (UserImage.sample.program (answerOf (-11))).Completes (callOf .fork) after ∧
      (callOf .fork).registers.ebx = 0 ∧ after.registers.ebx = UserImage.sample.errno ∧
      ¬Conforms UserImage.sample .fork (answerOf (-11)) (callOf .fork) after := by
  rcases wrapper_returns (called_sample .fork (-11)) with ⟨final, after, path, completes, leaves⟩
  have left : after.registers.ebx = UserImage.sample.errno := by
    have register := leaves.registers .ebx Register.noConfusion
    rw [path.ebx] at register
    exact register
  refine ⟨after, completes, rfl, left, fun conforms => ?_⟩
  have kept := conforms.ebx
  rw [left] at kept
  exact absurd kept (by decide)

end Zeos
