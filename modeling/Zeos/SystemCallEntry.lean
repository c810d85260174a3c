import Zeos.Foundation.SystemMachine

/-! # Entry to system mode

`system_call_handler` with its table, as the assembler has them. Memory is the linear
memory that the handler's segments reach: the page directory of the caller stays in
place from SYSENTER on.
-/

namespace Zeos

open Foundation Foundation.Machine

inductive SystemFunction
  | sysNiSyscall | sysExit | sysFork | sysRead | sysWrite | sysGettime | sysSbrk | sysClone
  | sysGetpid | sysSemInit | sysSemWait | sysSemSignal | sysSemDestroy | sysGetStats
deriving DecidableEq, Repr

def sysCallTable : List SystemFunction :=
  [.sysNiSyscall, .sysExit, .sysFork, .sysRead, .sysWrite, .sysNiSyscall, .sysNiSyscall,
    .sysNiSyscall, .sysNiSyscall, .sysNiSyscall, .sysGettime, .sysNiSyscall, .sysNiSyscall,
    .sysSbrk, .sysNiSyscall, .sysNiSyscall, .sysNiSyscall, .sysNiSyscall, .sysNiSyscall,
    .sysClone, .sysGetpid, .sysSemInit, .sysSemWait, .sysSemSignal, .sysSemDestroy,
    .sysNiSyscall, .sysNiSyscall, .sysNiSyscall, .sysNiSyscall, .sysNiSyscall, .sysNiSyscall,
    .sysNiSyscall, .sysNiSyscall, .sysNiSyscall, .sysNiSyscall, .sysGetStats]

/-- `MAX_SYSCALL`, the size of the table in words. -/
def maxSyscall : Nat := sysCallTable.length

def kernelCs : Word := 0x10
def kernelDs : Word := 0x18
def userCs : Word := 0x23
def userDs : Word := 0x2B

inductive EntryCallee
  | enterSystem | exitSystem
deriving DecidableEq, Repr

inductive EntryLabel
  | sysCallTable
deriving DecidableEq, Repr

namespace SystemCallHandler

def pushContext : List (SystemOperation EntryLabel) :=
  [.plain (.push (.immediate userDs)),
    .plain (.push (.register .ebp)),
    .pushFlags,
    .plain (.push (.immediate userCs))]

def pushAddress : List (SystemOperation EntryLabel) :=
  [.plain (.push (.memory 4 .ebp))]

def saveAll : List (SystemOperation EntryLabel) :=
  [.pushSegment .gs,
    .pushSegment .fs,
    .pushSegment .es,
    .pushSegment .ds,
    .plain (.push (.register .eax)),
    .plain (.push (.register .ebp)),
    .plain (.push (.register .edi)),
    .plain (.push (.register .esi)),
    .plain (.push (.register .edx)),
    .plain (.push (.register .ecx)),
    .plain (.push (.register .ebx)),
    .plain (.mov (.immediate kernelDs) .edx),
    .movToSegment .edx .ds,
    .movToSegment .edx .es]

def restoreAll : List (SystemOperation EntryLabel) :=
  [.plain (.pop .ebx),
    .plain (.pop .ecx),
    .plain (.pop .edx),
    .plain (.pop .esi),
    .plain (.pop .edi),
    .plain (.pop .ebp),
    .plain (.pop .eax),
    .popSegment .ds,
    .popSegment .es,
    .popSegment .fs,
    .popSegment .gs]

/-- After `RESTORE_ALL`, what SYSEXIT needs. -/
def prepareExit : List (SystemOperation EntryLabel) :=
  [.plain (.mov (.memory 0 .esp) .edx),
    .plain (.mov (.memory 12 .esp) .ecx),
    .sti]

/-- The handler up to `call enter_system`. -/
def save : List (SystemOperation EntryLabel) :=
  pushContext ++ pushAddress ++ saveAll ++ [.plain (.push (.register .eax))]

def restore : List (SystemOperation EntryLabel) := restoreAll ++ prepareExit

/-- The positions of `sysenter_err` and `sysenter_fin`. -/
def sysenterErr : Nat := 28
def sysenterFin : Nat := 29

def code : List (SystemInstruction EntryCallee EntryLabel) :=
  save.map .operation ++
    .call .enterSystem ::
    .operation (.plain (.pop .eax)) ::
    .operation (.plain (.cmp (.immediate 0) .eax)) ::
    .jl sysenterErr ::
    .operation (.plain (.cmp (.immediate (BitVec.ofNat 32 maxSyscall)) .eax)) ::
    .jg sysenterErr ::
    .callTable .sysCallTable .eax ::
    .jmp sysenterFin ::
    .operation (.plain (.mov (.immediate (-38)) .eax)) ::
    .operation (.plain (.movToMemory .eax 0x18 .esp)) ::
    .call .exitSystem ::
    restore.map .operation ++ [.sysexit]

end SystemCallHandler

/-- Where the handler and the functions it calls lie, and what these do. -/
structure EntryImage where
  table : Word
  enterSystem : Word
  exitSystem : Word
  handler : SystemFunction → Word
  run : Word → Processor → Processor
  flags : Processor → Word
  flags_eip : ∀ (processor : Processor) (eip : Word),
    flags { processor with eip := eip } = flags processor
  address : Nat → Word
  locate : Word → Option Nat
  locate_address : ∀ index, index < SystemCallHandler.code.length →
    locate (address index) = some index

namespace EntryImage

variable (image : EntryImage)

def program : SystemProgram EntryCallee EntryLabel where
  code := SystemCallHandler.code
  resolve := fun | .sysCallTable => image.table
  callee := fun | .enterSystem => image.enterSystem | .exitSystem => image.exitSystem
  run := image.run
  flags := image.flags
  flags_eip := image.flags_eip
  address := image.address
  locate := image.locate
  locate_address := image.locate_address

def InTable (byte : Word) : Prop := (byte - image.table).toNat < 4 * sysCallTable.length

def TableAt (memory : ByteMap) : Prop :=
  memory.Holds image.table (sysCallTable.map image.handler)

/-- The function returns when the handler calls it on the stack that ends at `top`. -/
def Conforms (top function : Word) : Prop := ∀ entry : Processor, entry.user = false →
  entry.registers.esp = top - 68 ∨ entry.registers.esp = top - 72 →
  Returns top image.InTable entry (image.run function entry)

end EntryImage

/-- The stack layout in a system call, from the top of the stack on. -/
structure SavedContext where
  ebx : Word
  ecx : Word
  edx : Word
  esi : Word
  edi : Word
  ebp : Word
  eax : Word
  ds : Word
  es : Word
  fs : Word
  gs : Word
  eip : Word
  cs : Word
  eflags : Word
  oldesp : Word
  oldss : Word
deriving DecidableEq, Repr

namespace SavedContext

def words (context : SavedContext) : List Word :=
  [context.ebx, context.ecx, context.edx, context.esi, context.edi, context.ebp, context.eax,
    context.ds, context.es, context.fs, context.gs, context.eip, context.cs, context.eflags,
    context.oldesp, context.oldss]

/-- The user mode that the context describes, with the result of the call. -/
structure Resumes (context : SavedContext) (result : Word) (final : Processor) : Prop where
  user : final.user = true
  interrupts : final.interrupts = true
  eip : final.eip = context.eip
  esp : final.registers.esp = context.oldesp
  eax : final.registers.eax = result
  ebx : final.registers.ebx = context.ebx
  esi : final.registers.esi = context.esi
  edi : final.registers.edi = context.edi
  ebp : final.registers.ebp = context.ebp
  cs : final.selectors .cs = userCs.setWidth 16
  ss : final.selectors .ss = userDs.setWidth 16
  ds : final.selectors .ds = context.ds.setWidth 16
  es : final.selectors .es = context.es.setWidth 16
  fs : final.selectors .fs = context.fs.setWidth 16
  gs : final.selectors .gs = context.gs.setWidth 16

end SavedContext

/-- What RESTORE_ALL pops, and what SYSEXIT then takes from the rest of the context. -/
def SavedContext.restored (context : SavedContext) (processor : Processor) : Processor :=
  { processor with
    registers :=
      { eax := context.eax
        ecx := context.oldesp
        edx := context.eip
        ebx := context.ebx
        esp := processor.registers.esp + 44#32
        ebp := context.ebp
        esi := context.esi
        edi := context.edi }
    selectors :=
      Function.update (Function.update (Function.update (Function.update processor.selectors
        .ds (context.ds.setWidth 16)) .es (context.es.setWidth 16))
        .fs (context.fs.setWidth 16)) .gs (context.gs.setWidth 16)
    interrupts := true }

@[simp] theorem SavedContext.length_words (context : SavedContext) :
    context.words.length = 16 := rfl

/-- The handler at a position, with these words on the stack that ends at `top`. -/
structure EntryImage.Framed (image : EntryImage) (top : Word) (stacked : List Word)
    (index : Nat) (processor : Processor) : Prop where
  eip : processor.eip = image.address index
  esp : processor.registers.esp = top - 4 * BitVec.ofNat 32 stacked.length
  holds : processor.memory.Holds processor.registers.esp stacked
  codeMsr : processor.msr sysenterCs = kernelCs.setWidth 64
  user : processor.user = false

section Leaving

variable {image : EntryImage} {top : Word} {context : SavedContext} {processor : Processor}

theorem performAll_restore
    (holds : processor.memory.Holds processor.registers.esp context.words) :
    image.program.performAll SystemCallHandler.restore processor = context.restored processor := by
  simp only [SavedContext.words, ByteMap.Holds, BitVec.add_assoc, BitVec.reduceAdd] at holds
  simp only [SystemProgram.performAll, SystemCallHandler.restore, SystemCallHandler.restoreAll,
    SystemCallHandler.prepareExit, List.cons_append, List.nil_append, List.foldl_cons,
    List.foldl_nil, SystemProgram.perform, SystemOperation.perform, Operation.perform, Cpu.pop,
    Cpu.write, Cpu.read, Registers.set, Registers.get, BitVec.add_assoc, BitVec.reduceAdd, holds,
    SavedContext.restored]

theorem sysexit_cs (codeMsr : processor.msr sysenterCs = kernelCs.setWidth 64) :
    processor.sysexit.selectors .cs = userCs.setWidth 16 := by
  simp only [Processor.sysexit, codeMsr]
  rfl

theorem sysexit_ss (codeMsr : processor.msr sysenterCs = kernelCs.setWidth 64) :
    processor.sysexit.selectors .ss = userDs.setWidth 16 := by
  simp only [Processor.sysexit, codeMsr]
  rfl

/-- A function that begins with an address of the handler on the stack goes there, and the
words above are the handler's again. -/
theorem EntryImage.Conforms.framed {stacked : List Word} {callee : Word} {begin : Processor}
    {index : Nat} (conforms : image.Conforms top callee)
    (size : stacked.length = 16 ∨ stacked.length = 17)
    (esp : begin.registers.esp = top - 4 * BitVec.ofNat 32 stacked.length - 4)
    (holds : begin.memory.Holds begin.registers.esp (image.address index :: stacked))
    (codeMsr : begin.msr sysenterCs = kernelCs.setWidth 64) (kernel : begin.user = false) :
    image.Framed top stacked index (image.run callee begin) := by
  have returns := conforms begin kernel (by
    rw [esp]
    cases size with
    | inl size =>
        left
        rw [size]
        bv_omega
    | inr size =>
        right
        rw [size]
        bv_omega)
  have popped : begin.registers.esp + 4 = top - 4 * BitVec.ofNat 32 stacked.length := by
    rw [esp]
    exact BitVec.sub_add_cancel _ _
  exact
    { eip := returns.eip.trans holds.1
      esp := returns.esp.trans popped
      holds := returns.holds holds.2 (by rw [popped]; bv_omega)
      codeMsr := returns.codeMsr.trans codeMsr
      user := returns.user.trans kernel }

theorem EntryImage.Framed.entering {stacked : List Word} {position : Nat}
    (framed : image.Framed top stacked position processor)
    (size : stacked.length = 16 ∨ stacked.length = 17) (index : Nat) (callee : Word) :
    (processor.entering (image.address index) callee).memory.Holds
      (processor.registers.esp - 4) (image.address index :: stacked) :=
  framed.holds.push (image.address index) (by omega)

theorem EntryImage.Framed.call {stacked : List Word} {position : Nat} {callee : Word}
    (framed : image.Framed top stacked position processor) (conforms : image.Conforms top callee)
    (size : stacked.length = 16 ∨ stacked.length = 17) (index : Nat) (calls : List TableCall) :
    image.Framed top stacked index
      { image.run callee (processor.entering (image.address index) callee) with
        calls := calls } := by
  have returned := @EntryImage.Conforms.framed _ _ _ _ (processor.entering (image.address index)
    callee) index conforms size (congrArg (fun esp => esp - 4) framed.esp)
    (framed.entering size index callee) framed.codeMsr framed.user
  exact
    { eip := returned.eip
      esp := returned.esp
      holds := returned.holds
      codeMsr := returned.codeMsr
      user := returned.user }

theorem EntryImage.Framed.moved {stacked : List Word} {position index : Nat} {after : Processor}
    (framed : image.Framed top stacked position processor) (eip : after.eip = image.address index)
    (registers : after.registers = processor.registers)
    (memory : after.memory = processor.memory) (msr : after.msr = processor.msr)
    (user : after.user = processor.user) : image.Framed top stacked index after where
  eip := eip
  esp := by rw [registers, framed.esp]
  holds := by
    rw [registers, memory]
    exact framed.holds
  codeMsr := by rw [msr, framed.codeMsr]
  user := user.trans framed.user

theorem EntryImage.Framed.restores
    (framed : image.Framed top context.words (SystemCallHandler.sysenterFin + 2) processor) :
    ∃ final, image.program.Leads processor final ∧ context.Resumes context.eax final ∧
      final.calls = processor.calls := by
  have block := @SystemProgram.leads_block _ _ image.program processor
    (SystemCallHandler.sysenterFin + 2) SystemCallHandler.restore [.sysexit]
    framed.user framed.eip rfl
  rw [performAll_restore framed.holds] at block
  have last := @SystemProgram.leads_of_listed _ _ image.program
    { context.restored processor with eip := image.program.address 45 } 45 .sysexit
    framed.user rfl rfl
  refine ⟨_, block.trans last, ?_, rfl⟩
  exact
    { user := rfl
      interrupts := rfl
      eip := rfl
      esp := rfl
      eax := rfl
      ebx := rfl
      esi := rfl
      edi := rfl
      ebp := rfl
      cs := sysexit_cs framed.codeMsr
      ss := sysexit_ss framed.codeMsr
      ds := rfl
      es := rfl
      fs := rfl
      gs := rfl }

theorem EntryImage.Framed.leaves
    (framed : image.Framed top context.words SystemCallHandler.sysenterFin processor)
    (exits : image.Conforms top image.exitSystem) :
    ∃ final, image.program.Leads processor final ∧
      context.Resumes processor.registers.eax final ∧ final.calls = processor.calls := by
  let result := processor.registers.eax
  let filled : SavedContext := { context with eax := result }
  let stored := image.program.execute processor SystemCallHandler.sysenterFin
    (.operation (.plain (.movToMemory .eax 0x18 .esp)))
  have store : image.program.Leads processor stored :=
    SystemProgram.leads_of_listed framed.user framed.eip rfl
  have inFrame : image.Framed top filled.words (SystemCallHandler.sysenterFin + 1) stored :=
    { eip := rfl
      esp := framed.esp
      holds := framed.holds.set result 6 (by simp) (by simp)
      codeMsr := framed.codeMsr
      user := framed.user }
  have call := @SystemProgram.leads_of_listed _ _ image.program stored _ (.call .exitSystem)
    inFrame.user inFrame.eip rfl
  have returned := inFrame.call exits (Or.inl rfl) (SystemCallHandler.sysenterFin + 2)
    stored.calls
  rcases returned.restores with ⟨final, leads, resumes, calls⟩
  refine ⟨final, store.trans (call.trans leads), ?_, calls⟩
  exact { resumes with }

theorem EntryImage.Framed.finishes (framed : image.Framed top context.words 27 processor)
    (exits : image.Conforms top image.exitSystem) :
    ∃ final, image.program.Leads processor final ∧
      context.Resumes processor.registers.eax final ∧ final.calls = processor.calls := by
  have jump := @SystemProgram.leads_of_listed _ _ image.program processor 27
    (.jmp SystemCallHandler.sysenterFin) framed.user framed.eip rfl
  have inFrame : image.Framed top context.words SystemCallHandler.sysenterFin
      (image.program.execute processor 27 (.jmp SystemCallHandler.sysenterFin)) :=
    framed.moved rfl rfl rfl rfl rfl
  rcases inFrame.leaves exits with ⟨final, leads, resumes, calls⟩
  exact ⟨final, jump.trans leads, resumes, calls⟩

end Leaving

/-! ## Entering -/

/-- The word at 4(%ebp) when the handler has pushed the rest of the context above it. -/
def EntryImage.returnAddress (image : EntryImage) (processor : Processor) : Word :=
  (image.program.performAll SystemCallHandler.pushContext processor).memory.load
    (processor.registers.ebp + 4)

/-- What the handler saves of the state in which it begins. -/
def EntryImage.saved (image : EntryImage) (processor : Processor) : SavedContext where
  ebx := processor.registers.ebx
  ecx := processor.registers.ecx
  edx := processor.registers.edx
  esi := processor.registers.esi
  edi := processor.registers.edi
  ebp := processor.registers.ebp
  eax := processor.registers.eax
  ds := (processor.selectors .ds).setWidth 32
  es := (processor.selectors .es).setWidth 32
  fs := (processor.selectors .fs).setWidth 32
  gs := (processor.selectors .gs).setWidth 32
  eip := image.returnAddress processor
  cs := userCs
  eflags :=
    image.flags (image.program.performAll (SystemCallHandler.pushContext.take 2) processor)
  oldesp := processor.registers.ebp
  oldss := userDs

/-- The table lies apart from the bytes that the handler itself pushes. -/
def EntryImage.TableApart (image : EntryImage) (top : Word) : Prop :=
  ∀ byte, image.InTable byte → 72 ≤ (byte - (top - 72)).toNat

section Entering

variable {image : EntryImage} {top : Word} {context : SavedContext} {processor : Processor}

theorem performAll_save (processor : Processor) :
    (image.program.performAll SystemCallHandler.save processor).memory =
        processor.memory.pushAll processor.registers.esp
          (processor.registers.eax :: (image.saved processor).words).reverse ∧
      (image.program.performAll SystemCallHandler.save processor).registers.esp =
        processor.registers.esp - 68 ∧
      (image.program.performAll SystemCallHandler.save processor).msr = processor.msr := by
  simp only [SystemProgram.performAll, SystemCallHandler.save, SystemCallHandler.saveAll,
    SystemCallHandler.pushAddress, SystemCallHandler.pushContext, List.cons_append,
    List.nil_append, List.foldl_cons, List.foldl_nil, SystemProgram.perform,
    SystemOperation.perform, Operation.perform, Cpu.push, Cpu.write, Cpu.read, Registers.set,
    Registers.get, EntryImage.saved, EntryImage.returnAddress, SavedContext.words,
    List.reverse_cons, List.reverse_nil, ByteMap.pushAll, List.take]
  refine ⟨rfl, ?_, trivial⟩
  bv_omega

theorem enters (here : processor.eip = image.address 0) (esp : processor.registers.esp = top)
    (codeMsr : processor.msr sysenterCs = kernelCs.setWidth 64)
    (kernel : processor.user = false) :
    ∃ entered, image.program.Leads processor entered ∧
      image.Framed top (processor.registers.eax :: (image.saved processor).words) 20 entered ∧
      entered.calls = processor.calls ∧
      ∀ byte, 68 ≤ (byte - (top - 68)).toNat → entered.memory byte = processor.memory byte := by
  have block := @SystemProgram.leads_block _ _ image.program processor 0 SystemCallHandler.save
    (SystemCallHandler.code.drop SystemCallHandler.save.length) kernel here rfl
  rcases @performAll_save image processor with ⟨memory, saved, msr⟩
  have user := @SystemProgram.performAll_user _ _ image.program SystemCallHandler.save processor
  have calls := @SystemProgram.performAll_calls _ _ image.program SystemCallHandler.save processor
  generalize image.program.performAll SystemCallHandler.save processor = after at *
  subst esp
  refine ⟨_, block, ?_, calls, ?_⟩
  · have pushed := @ByteMap.Holds.pushAll processor.memory processor.registers.esp [] trivial
      (processor.registers.eax :: (image.saved processor).words).reverse (by simp)
    rw [List.append_nil, List.reverse_reverse, List.length_reverse, ← memory] at pushed
    have place : after.registers.esp = processor.registers.esp - 4 * BitVec.ofNat 32
        (processor.registers.eax :: (image.saved processor).words).length := saved
    rw [← place] at pushed
    exact
      { eip := rfl
        esp := place
        holds := pushed
        codeMsr := (congrFun msr _).trans codeMsr
        user := user.trans kernel }
  · intro byte outside
    have same := @ByteMap.pushAll_outside processor.memory processor.registers.esp
      (processor.registers.eax :: (image.saved processor).words).reverse byte (by simp)
      (by simpa using outside)
    exact (congrFun memory byte).trans same

theorem EntryImage.TableAt.congr {memory other : ByteMap} (table : image.TableAt memory)
    (agree : ∀ byte, image.InTable byte → other byte = memory byte) : image.TableAt other := by
  apply ByteMap.Holds.congr table (by simp [sysCallTable])
  intro byte inside
  apply agree
  rw [List.length_map] at inside
  exact inside

theorem EntryImage.Framed.call_table {stacked : List Word} {position index : Nat} {callee : Word}
    (framed : image.Framed top stacked position processor) (conforms : image.Conforms top callee)
    (size : stacked.length = 17) (apart : image.TableApart top)
    (table : image.TableAt processor.memory) :
    image.TableAt
      (image.run callee (processor.entering (image.address index) callee)).memory := by
  have esp := framed.esp
  rw [size] at esp
  have returns := conforms (processor.entering (image.address index) callee) framed.user (by
    right
    have pushed : (processor.entering (image.address index) callee).registers.esp =
        processor.registers.esp - 4 := rfl
    rw [pushed, esp]
    bv_omega)
  apply table.congr
  intro byte inside
  have outside := apart byte inside
  apply (returns.constants byte inside).trans
  apply ByteMap.store_outside
  rw [InWord, esp]
  bv_omega

theorem within_limit (value : Word) :
    (value.slt 0 = false ∧ (value = BitVec.ofNat 32 maxSyscall ∨
      value.slt (BitVec.ofNat 32 maxSyscall) = true)) ↔ value.toNat ≤ maxSyscall := by
  have limit : maxSyscall = 36 := rfl
  rw [limit]
  simp only [BitVec.slt_eq_decide, BitVec.toInt_eq_toNat_cond, decide_eq_false_iff_not,
    decide_eq_true_eq, ← BitVec.toNat_inj, BitVec.toNat_ofNat, BitVec.ofNat_eq_ofNat]
  omega

theorem EntryImage.Framed.pops {number : Word}
    (framed : image.Framed top (number :: context.words) 21 processor) :
    image.Framed top context.words 22
      (image.program.execute processor 21 (.operation (.plain (.pop .eax)))) where
  eip := rfl
  esp := by
    have moved : (image.program.execute processor 21
        (.operation (.plain (.pop .eax)))).registers.esp = processor.registers.esp + 4 := rfl
    rw [moved, framed.esp, List.length_cons, SavedContext.length_words]
    bv_omega
  holds := framed.holds.2
  codeMsr := framed.codeMsr
  user := framed.user

theorem EntryImage.Framed.compares
    (framed : image.Framed top context.words 22 processor) :
    ∃ compared, image.program.Leads processor compared ∧
      image.Framed top context.words
        (if processor.registers.eax.toNat ≤ maxSyscall then 26
          else SystemCallHandler.sysenterErr) compared ∧
      compared.registers = processor.registers ∧ compared.memory = processor.memory ∧
      compared.calls = processor.calls := by
  let number := processor.registers.eax
  let signed := image.program.execute processor 22
    (.operation (.plain (.cmp (.immediate 0) .eax)))
  let nonnegative := image.program.execute signed 23 (.jl SystemCallHandler.sysenterErr)
  have start : image.program.Leads processor nonnegative :=
    (SystemProgram.leads_of_listed framed.user framed.eip rfl).trans
      (@SystemProgram.leads_of_listed _ _ image.program signed 23 _ framed.user rfl rfl)
  have branch : nonnegative.eip = image.address
      (if number.slt 0 = true then SystemCallHandler.sysenterErr else 24) := rfl
  have range := within_limit number
  cases sign : number.slt 0 with
  | true =>
      refine ⟨nonnegative, start, ?_, rfl, rfl, rfl⟩
      rw [sign] at range
      rw [if_neg (by simpa using range)]
      rw [sign, if_pos rfl] at branch
      exact framed.moved branch rfl rfl rfl rfl
  | false =>
      let limited := image.program.execute nonnegative 24
        (.operation (.plain (.cmp (.immediate (BitVec.ofNat 32 maxSyscall)) .eax)))
      let compared := image.program.execute limited 25 (.jg SystemCallHandler.sysenterErr)
      rw [sign, if_neg (by decide)] at branch
      have rest : image.program.Leads nonnegative compared :=
        (@SystemProgram.leads_of_listed _ _ image.program nonnegative 24 _ framed.user branch
          rfl).trans
          (@SystemProgram.leads_of_listed _ _ image.program limited 25 _ framed.user rfl rfl)
      refine ⟨compared, start.trans rest, ?_, rfl, rfl, rfl⟩
      refine framed.moved ?_ rfl rfl rfl rfl
      have eip : compared.eip = image.address
          (if !(number == BitVec.ofNat 32 maxSyscall) &&
              !(number.slt (BitVec.ofNat 32 maxSyscall)) then SystemCallHandler.sysenterErr
            else 26) := rfl
      rw [eip]
      congr 1
      rw [sign] at range
      simp only [true_and] at range
      grind

end Entering

end Zeos
