import Zeos.UserAccess
import Zeos.HeapGrowth

/-! # What `sys_write` reveals

The characters that `sys_write` sends, also those before a page fault, and for which
calls they depend on user memory only.
-/

namespace Zeos

open Foundation Kernel

namespace Mm

variable {mm other : Mm} {pt pt' : DirSlot}

/-! ## User memory -/

/-- A page of the code, the data or the heap. The pages of the kernel lie below them, and
after a `sys_fork` they have the user bit as well. -/
def UserPage (mm : Mm) (pt : DirSlot) (page : Nat) : Prop :=
  pagLogInitCode ≤ page ∧ mm.Mapped pt page

def byteAt (mm : Mm) (pt : DirSlot) (address : Nat) : UInt8 :=
  mm.ram (mm.frameOf pt (address / pageSize)) (address % pageSize)

/-- Two states of the memory with the same pages, whose user pages hold the same bytes. -/
structure SameUser (mm other : Mm) (pt pt' : DirSlot) : Prop where
  table : other.pagusrTable pt' = mm.pagusrTable pt
  bytes : ∀ address, mm.UserPage pt (address / pageSize) →
    other.byteAt pt' address = mm.byteAt pt address

/-- The byte lies in a frame of a user page. -/
def OfUser (mm : Mm) (pt : DirSlot) (address : Nat) : Prop :=
  ∃ page, mm.UserPage pt page ∧ mm.frameOf pt page = mm.frameOf pt (address / pageSize)

theorem SameUser.mapped (same : mm.SameUser other pt pt') (page : Nat) :
    other.Mapped pt' page ↔ mm.Mapped pt page := by
  unfold Mapped
  rw [same.table]

theorem SameUser.frameOf_eq (same : mm.SameUser other pt pt') (page : Nat) :
    other.frameOf pt' page = mm.frameOf pt page := by
  rw [frameOf, frameOf, same.table]

theorem SameUser.byteAt_eq (same : mm.SameUser other pt pt') {address : Nat}
    (user : mm.OfUser pt address) : other.byteAt pt' address = mm.byteAt pt address := by
  rcases user with ⟨page, user, frame⟩
  have bytes : pageSize = 4096 := rfl
  have index : (page * pageSize + address % pageSize) / pageSize = page := by
    rw [bytes]
    omega
  have offset : (page * pageSize + address % pageSize) % pageSize = address % pageSize := by
    rw [bytes]
    omega
  have equal := same.bytes (page * pageSize + address % pageSize) (by rwa [index])
  unfold byteAt at equal ⊢
  rw [index, offset, same.frameOf_eq, frame] at equal
  rw [same.frameOf_eq, equal]

theorem loadByte_mapped {address : Nat} (mapped : mm.Mapped pt (address / pageSize)) :
    mm.loadByte pt address = .ok (mm.byteAt pt address) := by
  unfold Mapped at mapped
  rw [loadByte, translate, if_pos mapped]
  rfl

theorem loadByte_unmapped {address : Nat} (unmapped : ¬mm.Mapped pt (address / pageSize)) :
    mm.loadByte pt address = .error (.pageFault address) := by
  unfold Mapped at unmapped
  rw [loadByte, translate, if_neg unmapped]
  rfl

/-! ## Loading a chunk -/

theorem loadBytes_mapped {count : Nat} {address : Int}
    (mapped : ∀ k < count, mm.Mapped pt (toUnsigned (address + k) / pageSize)) :
    mm.loadBytes pt count (toUnsigned address) =
      .ok ((List.range count).map fun k => mm.byteAt pt (toUnsigned (address + (k : Nat)))) :=
  loadBytes_eq_ok fun k below => loadByte_mapped (mapped k below)

theorem loadBytes_unmapped {count k : Nat} {address : Int} (below : k < count)
    (unmapped : ¬mm.Mapped pt (toUnsigned (address + k) / pageSize)) :
    ∃ fault, mm.loadBytes pt count (toUnsigned address) = .error fault := by
  cases loaded : mm.loadBytes pt count (toUnsigned address) with
  | error fault => exact ⟨fault, rfl⟩
  | ok bytes =>
      rcases loadBytes_loads loaded k below with ⟨byte, here⟩
      rw [loadByte_unmapped unmapped] at here
      cases here

theorem SameUser.loadBytes_ok (same : mm.SameUser other pt pt') {count : Nat} {address : Int}
    (mapped : ∀ k < count, mm.Mapped pt (toUnsigned (address + k) / pageSize))
    (user : ∀ k < count, mm.OfUser pt (toUnsigned (address + k))) :
    ∃ chunk : List UInt8, mm.loadBytes pt count (toUnsigned address) = .ok chunk ∧
      other.loadBytes pt' count (toUnsigned address) = .ok chunk := by
  refine ⟨_, loadBytes_mapped mapped, ?_⟩
  apply loadBytes_eq_ok
  intro k below
  rw [loadByte_mapped ((same.mapped _).mpr (mapped k below)), same.byteAt_eq (user k below)]

end Mm

/-! ## What the console gets -/

/-- The characters that the loop of `sys_write` sends from its current `i` on, and whether
it ends. -/
def writeSends (mm : Mm) (pt : DirSlot) (buffer : Nat) (size i : Int) : List UInt8 × Bool :=
  if i < size then
    let currSize := if size - i < sizeBlock then size - i else sizeBlock
    match mm.loadBytes pt currSize.toNat (toUnsigned (buffer + i)) with
    | .error _ => ([], false)
    | .ok chunk =>
        if i + sizeBlock < 2147483648 then
          let rest := writeSends mm pt buffer size (i + sizeBlock)
          (chunk ++ rest.1, rest.2)
        else (chunk, false)
  else ([], true)
termination_by (size - i).toNat
decreasing_by
  unfold sizeBlock
  omega

namespace Kernel

/-- The characters that a call of `sys_write` sends, and its result when it returns. -/
def writeSends (kernel : PointerKernel) (fd : Int) (buffer : Nat) (size : Int) :
    List UInt8 × Option Int :=
  if checkFd fd true < 0 then ([], some (-checkFd fd true))
  else if buffer = 0 then ([], some efault)
  else if size < 0 then ([], some einval)
  else
    let sent := Zeos.writeSends kernel.core.mm kernel.currentTask.dirPagesBaseAddr buffer size 0
    (sent.1, if sent.2 then some 0 else none)

end Kernel

section Sending

variable {mm other : Mm} {pt pt' : DirSlot} {buffer : Nat} {size : Int}

theorem writeLoop_eq_ok {i : Int} {printed : List UInt8} :
    writeLoop mm pt buffer size i = .ok printed ↔
      writeSends mm pt buffer size i = (printed, true) := by
  generalize measure : (size - i).toNat = rounds
  induction rounds using Nat.strongRecOn generalizing i printed with
  | ind rounds induction =>
      rw [writeLoop, writeSends]
      by_cases more : i < size
      · rw [if_pos more, if_pos more]
        dsimp only
        generalize mm.loadBytes pt (if size - i < sizeBlock then size - i else sizeBlock).toNat
          (toUnsigned (buffer + i)) = loaded
        cases loaded with
        | error fault => simp [bind, Except.bind]
        | ok chunk =>
            rw [ok_bind]
            dsimp only
            by_cases fits : i + sizeBlock < 2147483648
            · rw [if_pos fits, if_pos fits]
              have later := @induction (size - (i + sizeBlock)).toNat
                (by unfold sizeBlock; omega) (i + sizeBlock)
              constructor
              · intro finished
                rcases bind_eq_ok.mp finished with ⟨rest, looped, joined⟩
                cases joined
                have sent := (later rfl).mp looped
                rw [sent]
              · intro sent
                generalize again : writeSends mm pt buffer size (i + sizeBlock) = rest at sent
                rcases rest with ⟨characters, ends⟩
                cases sent
                rw [(later rfl).mpr again]
                rfl
            · rw [if_neg fits, if_neg fits]
              simp
      · rw [if_neg more, if_neg more]
        simp [pure, Except.pure]

theorem sysWrite_eq_ok {kernel : PointerKernel} {fd : Int} {printed : List UInt8} {result : Int} :
    kernel.sysWrite fd buffer size = .ok (printed, result) ↔
      kernel.writeSends fd buffer size = (printed, some result) := by
  rw [sysWrite, Kernel.writeSends]
  split
  · simp
  · split
    · simp
    · split
      · simp
      · rw [bind_eq_ok]
        generalize sent : writeSends kernel.core.mm kernel.currentTask.dirPagesBaseAddr buffer
          size 0 = rest
        rcases rest with ⟨characters, ends⟩
        cases ends with
        | false =>
            constructor
            · rintro ⟨list, looped, -⟩
              rw [writeLoop_eq_ok, sent] at looped
              cases looped
            · intro same
              cases same
        | true =>
            constructor
            · rintro ⟨list, looped, same⟩
              rw [writeLoop_eq_ok, sent] at looped
              cases looped
              cases same
              rfl
            · intro same
              cases same
              exact ⟨characters, writeLoop_eq_ok.mpr sent, rfl⟩

/-- The `k`th byte of the block is sent: all bytes up to the end of its chunk can be
loaded. -/
def Mm.Reached (mm : Mm) (pt : DirSlot) (buffer : Nat) (size : Int) (k : Nat) : Prop :=
  (k : Int) < size ∧ ∀ j : Nat, (j : Int) < size → j / 4 ≤ k / 4 →
    mm.Mapped pt (toUnsigned (buffer + j) / pageSize)

/-- The length of the chunk at `4 * n`. -/
def chunkLength (size : Int) (n : Nat) : Nat :=
  (if size - (4 * n : Nat) < sizeBlock then size - (4 * n : Nat) else sizeBlock).toNat

theorem lt_chunkLength {n k : Nat} (more : ((4 * n : Nat) : Int) < size) :
    k < chunkLength size n ↔ ((4 * n + k : Nat) : Int) < size ∧ k < 4 := by
  unfold chunkLength sizeBlock
  omega

theorem chunk_next (n : Nat) : ((4 * n : Nat) : Int) + sizeBlock = (4 * (n + 1) : Nat) := by
  unfold sizeBlock
  omega

theorem chunk_address (buffer n k : Nat) :
    ((buffer : Int) + (4 * n : Nat)) + (k : Nat) = buffer + (4 * n + k : Nat) := by
  omega

theorem writeSends_error {n : Nat} {fault : Fault} (more : ((4 * n : Nat) : Int) < size)
    (failed : mm.loadBytes pt (chunkLength size n) (toUnsigned (buffer + (4 * n : Nat))) =
      .error fault) : writeSends mm pt buffer size (4 * n : Nat) = ([], false) := by
  unfold chunkLength at failed
  rw [writeSends, if_pos more]
  dsimp only
  rw [failed]

theorem writeSends_ok {n : Nat} {chunk : List UInt8} (more : ((4 * n : Nat) : Int) < size)
    (loaded : mm.loadBytes pt (chunkLength size n) (toUnsigned (buffer + (4 * n : Nat))) =
      .ok chunk) :
    writeSends mm pt buffer size (4 * n : Nat) =
      if ((4 * (n + 1) : Nat) : Int) < 2147483648 then
        (chunk ++ (writeSends mm pt buffer size (4 * (n + 1) : Nat)).1,
          (writeSends mm pt buffer size (4 * (n + 1) : Nat)).2)
      else (chunk, false) := by
  unfold chunkLength at loaded
  rw [writeSends, if_pos more]
  dsimp only
  rw [loaded]
  dsimp only
  rw [chunk_next]

theorem writeSends_same (same : mm.SameUser other pt pt')
    (user : ∀ k, mm.Reached pt buffer size k → mm.OfUser pt (toUnsigned (buffer + k)))
    (n : Nat) (before : ∀ j : Nat, (j : Int) < size → j < 4 * n →
      mm.Mapped pt (toUnsigned (buffer + j) / pageSize)) :
    writeSends other pt' buffer size (4 * n : Nat) =
      writeSends mm pt buffer size (4 * n : Nat) := by
  generalize measure : (size - (4 * n : Nat)).toNat = rounds
  induction rounds using Nat.strongRecOn generalizing n with
  | ind rounds induction =>
      by_cases more : ((4 * n : Nat) : Int) < size
      · have within := fun k => @lt_chunkLength size n k more
        by_cases mapped : ∀ k < chunkLength size n,
            mm.Mapped pt (toUnsigned (buffer + (4 * n + k : Nat)) / pageSize)
        · have inside : ∀ j : Nat, (j : Int) < size → j < 4 * (n + 1) →
              mm.Mapped pt (toUnsigned (buffer + j) / pageSize) := by
            intro j inside below
            by_cases old : j < 4 * n
            · exact before j inside old
            · have here := mapped (j - 4 * n) ((within _).mpr (by omega))
              rwa [Nat.add_sub_cancel' (by omega)] at here
          have reached : ∀ k < chunkLength size n, mm.Reached pt buffer size (4 * n + k) := by
            intro k below
            have short := (within k).mp below
            exact ⟨short.1, fun j inSize earlier => inside j inSize (by omega)⟩
          have chunk := same.loadBytes_ok
            (fun k below => by rw [chunk_address]; exact mapped k below)
            (fun k below => by rw [chunk_address]; exact user _ (reached k below))
          rcases chunk with ⟨bytes, loaded, loaded'⟩
          have later := induction (size - (4 * (n + 1) : Nat)).toNat (by omega) (n + 1) inside rfl
          rw [writeSends_ok more loaded, writeSends_ok more loaded', later]
        · -- the round ends both loops
          rw [not_forall] at mapped
          rcases mapped with ⟨k, absent⟩
          rw [not_forall] at absent
          rcases absent with ⟨below, absent⟩
          rw [← chunk_address] at absent
          rcases Mm.loadBytes_unmapped below absent with ⟨fault, failed⟩
          rcases Mm.loadBytes_unmapped below (mt (same.mapped _).mp absent) with ⟨fault', failed'⟩
          rw [writeSends_error more failed, writeSends_error more failed']
      · rw [writeSends, if_neg more, writeSends, if_neg more]

theorem writeSends_byte {k : Nat} (reached : mm.Reached pt buffer size k) (small : k < 2147483640)
    (n : Nat) (before : 4 * n ≤ k) :
    (writeSends mm pt buffer size (4 * n : Nat)).1[k - 4 * n]? =
      some (mm.byteAt pt (toUnsigned (buffer + k))) := by
  generalize measure : k - 4 * n = rounds
  induction rounds using Nat.strongRecOn generalizing n with
  | ind rounds induction =>
      have inside := reached.1
      have more : ((4 * n : Nat) : Int) < size := by omega
      have within := fun k => @lt_chunkLength size n k more
      have loaded := @Mm.loadBytes_mapped mm pt (chunkLength size n) (buffer + (4 * n : Nat))
        fun j below => by
          rw [chunk_address]
          have bounds := (within j).mp below
          exact reached.2 _ bounds.1 (by omega)
      simp only [chunk_address] at loaded
      rw [writeSends_ok more loaded]
      by_cases here : k < 4 * (n + 1)
      · have covered : rounds < chunkLength size n := (within rounds).mpr (by omega)
        have place : 4 * n + rounds = k := by omega
        have byte : ((List.range (chunkLength size n)).map fun k =>
            mm.byteAt pt (toUnsigned (buffer + (4 * n + k : Nat))))[rounds]? =
            some (mm.byteAt pt (toUnsigned (buffer + k))) := by
          rw [List.getElem?_map, List.getElem?_range covered, ← place]
          rfl
        split
        · rw [List.getElem?_append_left (by simpa using covered), byte]
        · exact byte
      · have whole : chunkLength size n = 4 := by
          have last := (within 3).mpr (by omega)
          have most := (within 4).not
          omega
        have rest := induction (k - 4 * (n + 1)) (by omega) (n + 1) (by omega) rfl
        rw [if_pos (by omega), List.getElem?_append_right (by simp; omega), ← rest]
        congr 1
        rw [List.length_map, List.length_range]
        omega

end Sending

/-! ## Two states with the same user memory -/

namespace Mm

variable {mm : Mm} {pt : DirSlot} {address : Nat}

/-- The memory with another byte where `address` leads to. -/
def withByte (mm : Mm) (pt : DirSlot) (address : Nat) (byte : UInt8) : Mm :=
  let frame := mm.frameOf pt (address / pageSize)
  { mm with
    ram := Function.update mm.ram frame
      (Function.update (mm.ram frame) (address % pageSize) byte) }

theorem withByte_byteAt (byte : UInt8) :
    (mm.withByte pt address byte).byteAt pt address = byte := by
  unfold byteAt withByte frameOf
  dsimp only
  rw [Function.update_self, Function.update_self]

theorem withByte_sameUser (byte : UInt8) (outside : ¬mm.OfUser pt address) :
    mm.SameUser (mm.withByte pt address byte) pt pt := by
  refine ⟨rfl, ?_⟩
  intro place user
  have apart : mm.frameOf pt (place / pageSize) ≠ mm.frameOf pt (address / pageSize) :=
    fun frame => outside ⟨place / pageSize, user, frame⟩
  unfold byteAt withByte
  exact congrFun (Function.update_of_ne apart ..) _

end Mm

/-! ## The system call -/

namespace Kernel

/-- Two states whose callers have the same user memory. -/
def SameUser (kernel other : PointerKernel) : Prop :=
  kernel.core.mm.SameUser other.core.mm kernel.currentTask.dirPagesBaseAddr
    other.currentTask.dirPagesBaseAddr

def withByte (kernel : PointerKernel) (address : Nat) (byte : UInt8) : PointerKernel :=
  kernel.withMm (kernel.core.mm.withByte kernel.currentTask.dirPagesBaseAddr address byte)

end Kernel

section Calls

variable {kernel other : PointerKernel} {fd : Int} {buffer : Nat} {size : Int} {k : Nat}

theorem Mm.Reached.small {mm : Mm} {pt : DirSlot} (reached : mm.Reached pt buffer size k) :
    k < 4194304 := by
  rcases reached with ⟨inside, mapped⟩
  by_contra large
  have pages : totalPages = 1024 := rfl
  have bytes : pageSize = 4096 := rfl
  have first := (mapped 0 (by omega) (by omega)).1
  have beyond := (mapped (4194304 - toUnsigned buffer) (by omega) (by omega)).1
  rw [pages, bytes] at first beyond
  unfold toUnsigned at first beyond
  omega

theorem writeSends_accepted (accepted : ¬checkFd fd true < 0) (buffered : buffer ≠ 0)
    (nonneg : ¬size < 0) :
    kernel.writeSends fd buffer size =
      let sent := Zeos.writeSends kernel.core.mm kernel.currentTask.dirPagesBaseAddr buffer size 0
      (sent.1, if sent.2 then some 0 else none) := by
  rw [Kernel.writeSends, if_neg accepted, if_neg buffered, if_neg nonneg]

theorem writeSends_reveals (accepted : ¬checkFd fd true < 0) (buffered : buffer ≠ 0)
    (nonneg : ¬size < 0)
    (reached : kernel.core.mm.Reached kernel.currentTask.dirPagesBaseAddr buffer size k)
    (byte : UInt8) :
    ((kernel.withByte (toUnsigned (buffer + k)) byte).writeSends fd buffer size).1[k]? =
      some byte := by
  rw [writeSends_accepted accepted buffered nonneg]
  have small := reached.small
  have sent := @writeSends_byte (kernel.core.mm.withByte kernel.currentTask.dirPagesBaseAddr
    (toUnsigned (buffer + k)) byte) kernel.currentTask.dirPagesBaseAddr buffer size k reached
    (by omega) 0 (Nat.zero_le k)
  rwa [Mm.withByte_byteAt] at sent

/-- A call of `sys_write` depends on nothing but user memory exactly if it is refused or
sends nothing else. -/
theorem writeRevealsNothing :
    (∀ other : PointerKernel, kernel.SameUser other →
      other.writeSends fd buffer size = kernel.writeSends fd buffer size) ↔
    checkFd fd true < 0 ∨ buffer = 0 ∨ size < 0 ∨
      ∀ k, kernel.core.mm.Reached kernel.currentTask.dirPagesBaseAddr buffer size k →
        kernel.core.mm.OfUser kernel.currentTask.dirPagesBaseAddr (toUnsigned (buffer + k)) := by
  constructor
  · intro same
    by_contra bad
    simp only [not_or, not_forall] at bad
    rcases bad with ⟨accepted, buffered, nonneg, k, reached, outside⟩
    have sends := fun byte => @writeSends_reveals kernel fd buffer size k accepted buffered nonneg
      reached byte
    have zero := same (kernel.withByte (toUnsigned (buffer + k)) 0)
      (Mm.withByte_sameUser 0 outside)
    have one := same (kernel.withByte (toUnsigned (buffer + k)) 1)
      (Mm.withByte_sameUser 1 outside)
    have bytes := (sends 0).symm.trans ((congrArg (·.1[k]?) (zero.trans one.symm)).trans (sends 1))
    exact absurd bytes (by decide)
  · rintro (refused | null | negative | user) other agrees
    · rw [Kernel.writeSends, Kernel.writeSends, if_pos refused, if_pos refused]
    · simp only [Kernel.writeSends, null, if_true]
    · simp only [Kernel.writeSends, negative, if_true]
    · have sent := writeSends_same agrees user 0 fun j _ below => by cases below
      change Zeos.writeSends other.core.mm other.currentTask.dirPagesBaseAddr buffer size 0 =
        Zeos.writeSends kernel.core.mm kernel.currentTask.dirPagesBaseAddr buffer size 0 at sent
      rw [Kernel.writeSends, Kernel.writeSends, sent]

end Calls

def Mm.withKernelByte (byte : UInt8) : Mm :=
  { sampleHeap with
    pagusrTable := fun pt page =>
      if page = 16 then ⟨true, true, false, 16⟩ else sampleHeap.pagusrTable pt page
    ram := fun frame _ => if frame = 16 then byte else 0 }

theorem Mm.withKernelByte_sameUser (byte other : UInt8) (pt : DirSlot) :
    (withKernelByte byte).SameUser (withKernelByte other) pt pt := by
  refine ⟨rfl, ?_⟩
  intro address user
  have apart : (withKernelByte byte).frameOf pt (address / pageSize) ≠ 16 := by
    unfold UserPage Mapped frameOf withKernelByte sampleHeap at *
    dsimp only at *
    split_ifs at user ⊢ <;> simp_all [userEntry, PageTableEntry.zero, pagLogInitCode]
  exact (if_neg apart).trans (if_neg apart).symm

theorem Mm.withKernelByte_sends (byte : UInt8) (pt : DirSlot) :
    Zeos.writeSends (withKernelByte byte) pt 65536 1 0 = ([byte], true) := by
  have loaded : (withKernelByte byte).loadBytes pt 1 65536 = .ok [byte] := rfl
  have ended : Zeos.writeSends (withKernelByte byte) pt 65536 1 (0 + sizeBlock) = ([], true) := by
    rw [Zeos.writeSends, if_neg (by decide)]
  have length : (if (1 : Int) - 0 < sizeBlock then 1 - 0 else sizeBlock).toNat = 1 := by decide
  have address : toUnsigned ((65536 : Nat) + 0) = 65536 := by decide
  rw [Zeos.writeSends, if_pos (by decide)]
  dsimp only
  rw [length, address, loaded]
  dsimp only
  rw [ended]
  rfl

/-- A byte of the kernel is sent to the console. -/
theorem write_sendsKernelByte :
    ¬∀ (kernel other : PointerKernel) (fd : Int) (buffer : Nat) (size : Int),
      kernel.SameUser other →
        other.writeSends fd buffer size = kernel.writeSends fd buffer size := by
  intro always
  have same := always (withSampleHeap.withMm (.withKernelByte 1))
    (withSampleHeap.withMm (.withKernelByte 2)) 1 65536 1 (Mm.withKernelByte_sameUser 1 2 _)
  have sends : ∀ byte, (withSampleHeap.withMm (.withKernelByte byte)).writeSends 1 65536 1 =
      ([byte], some 0) := by
    intro byte
    rw [writeSends_accepted (by decide) (by decide) (by decide)]
    change (let sent := Zeos.writeSends (.withKernelByte byte) _ 65536 1 0
      (sent.1, if sent.2 then some 0 else none)) = _
    rw [Mm.withKernelByte_sends]
    rfl
  rw [sends, sends] at same
  exact absurd same (by decide)

end Zeos
