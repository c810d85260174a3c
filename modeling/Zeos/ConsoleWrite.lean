import Zeos.BlockCopy
import Zeos.Sys

/-! # The chunks of `sys_write`

`sys_write` with the buffer that it copies each chunk to. A read of memory that is not
there and a store behind the end of that buffer are failures, so a call that succeeds has
made none.
-/

namespace Zeos

open Foundation Kernel

namespace Console

inductive WriteFault
  | notReadable (address : Nat)
  | bufferOverflow (offset : Nat)
  | signedOverflow
deriving DecidableEq

abbrev Readable := BitVec 32 → Option UInt8

/-- `buffer_kernel`, by offset. -/
abbrev KernelBuffer := Nat → UInt8

/-- Loads come from the caller, stores go to `buffer_kernel`. -/
def fromUser (memory : Readable) : ByteMemory KernelBuffer WriteFault where
  load _ address :=
    match memory (BitVec.ofNat 32 address) with
    | some byte => .ok byte
    | none => .error (.notReadable address)
  store bufferKernel offset byte :=
    if offset < sizeBlock then .ok (Function.update bufferKernel offset byte)
    else .error (.bufferOverflow offset)

/-- The characters that `sys_write_console` prints, and its result. -/
def sysWriteConsole (buffer : KernelBuffer) (size : Int) : List UInt8 × Int :=
  ((List.range size.toNat).map buffer, size)

/-- The loop of `sys_write`. `buffer_kernel` is the same place on the stack in each round, and
`curr_size` changes only when less than a block remains. -/
def writeLoop (memory : Readable) (buffer : BitVec 32) (size i currSize : Int)
    (bufferKernel : KernelBuffer) : Except WriteFault (List UInt8 × Int) := do
  if i < size then
    let currSize := if size - i < sizeBlock then size - i else currSize
    let bufferKernel ← (fromUser memory).copy (toUnsigned (buffer.toNat + i)) 0 currSize.toNat
      bufferKernel
    let (printed, retWconsole) := sysWriteConsole bufferKernel currSize
    if retWconsole < 0 then
      return (printed, retWconsole)
    else if i + sizeBlock < 2147483648 then
      let (rest, result) ← writeLoop memory buffer size (i + sizeBlock) currSize bufferKernel
      return (printed ++ rest, result)
    else .error .signedOverflow
  else return ([], 0)
termination_by (size - i).toNat
decreasing_by
  unfold sizeBlock
  omega

/-- The error results are positive numbers. -/
def sysWrite (memory : Readable) (bufferKernel : KernelBuffer) (fd : Int) (buffer : BitVec 32)
    (size : Int) : Except WriteFault (List UInt8 × Int) :=
  if checkFd fd true < 0 then .ok ([], -checkFd fd true)
  else if buffer = 0 then .ok ([], efault)
  else if size < 0 then .ok ([], einval)
  else writeLoop memory buffer size 0 sizeBlock bufferKernel

/-! ## One chunk -/

section Chunk

variable {memory : Readable}

theorem chunk_arrives {address size : Nat} {value : Nat → UInt8} (bufferKernel : KernelBuffer)
    (short : size ≤ 4)
    (readable : ∀ k < size, memory (BitVec.ofNat 32 (address + k)) = some (value k)) :
    (fromUser memory).copy address 0 size bufferKernel =
      .ok fun offset => if offset < size then value offset else bufferKernel offset := by
  have pending : ByteMemory.Pending (fromUser memory) address size
      (fun done offset => if offset < done then value offset else bufferKernel offset) value := by
    intro done index before inside
    simp only [fromUser, readable index inside]
  have advances : ByteMemory.Advances (fromUser memory) 0 size
      (fun done offset => if offset < done then value offset else bufferKernel offset) value := by
    intro done inside
    have room : ((0 + done : Nat) : Int) < sizeBlock := by
      unfold sizeBlock
      omega
    simp only [fromUser, if_pos room]
    congr 1
    funext offset
    by_cases here : offset = 0 + done
    · subst here
      rw [Function.update_self, if_pos (by omega), Nat.zero_add]
    · rw [Function.update_of_ne here]
      exact if_congr (by omega) rfl rfl
  have copied := ByteMemory.copy_eq pending.loads advances
  simpa using copied

end Chunk

/-! ## All chunks -/

/-- The caller's memory, of which only the block can be read. -/
def onlyBlock (memory : FlatMemory) (buffer : BitVec 32) (size : Int) : Readable := fun address =>
  if (address - buffer).toNat < size then some (memory address) else none

/-- The bytes of the block from `i` on. -/
def blockFrom (memory : FlatMemory) (buffer : BitVec 32) (i count : Nat) : List UInt8 :=
  (List.range count).map fun k => memory (place buffer (i + k))

section Loop

variable {memory : FlatMemory} {buffer : BitVec 32} {size : Int}

theorem onlyBlock_inside {offset : Nat} (inside : offset < size) (int : size < 2147483648) :
    onlyBlock memory buffer size (place buffer offset) = some (memory (place buffer offset)) := by
  have distance : (place buffer offset - buffer).toNat = offset := by
    unfold place
    bv_omega
  rw [onlyBlock, distance, if_pos inside]

theorem blockFrom_append (i first second : Nat) :
    blockFrom memory buffer i first ++ blockFrom memory buffer (i + first) second =
      blockFrom memory buffer i (first + second) := by
  rw [blockFrom, blockFrom, blockFrom, List.range_add, List.map_append, List.map_map]
  congr 2
  funext k
  rw [Function.comp_apply, Nat.add_assoc]

theorem round_prints {i : Nat} {count : Nat} (bufferKernel : KernelBuffer) (short : count ≤ 4)
    (inside : (i + count : Nat) ≤ size) (int : size < 2147483648) :
    ∃ filled, (fromUser (onlyBlock memory buffer size)).copy (toUnsigned (buffer.toNat + i)) 0 count
        bufferKernel = .ok filled ∧
      (List.range count).map filled = blockFrom memory buffer i count := by
  have readable : ∀ k < count, onlyBlock memory buffer size
      (BitVec.ofNat 32 (toUnsigned (buffer.toNat + i) + k)) =
        some (memory (place buffer (i + k))) := by
    intro k below
    have same : BitVec.ofNat 32 (toUnsigned (buffer.toNat + i) + k) = place buffer (i + k) := by
      apply BitVec.eq_of_toNat_eq
      rw [BitVec.toNat_ofNat, BitVec.toNat_ofNat, toUnsigned]
      omega
    rw [same]
    exact onlyBlock_inside (by omega) int
  refine ⟨_, chunk_arrives bufferKernel short readable, ?_⟩
  apply List.map_congr_left
  intro k member
  exact if_pos (List.mem_range.mp member)

theorem writeLoop_done {i currSize : Int} (bufferKernel : KernelBuffer) (done : size ≤ i) :
    writeLoop (onlyBlock memory buffer size) buffer size i currSize bufferKernel = .ok ([], 0) := by
  rw [writeLoop, if_neg (by omega)]
  rfl

theorem writeLoop_round {i count : Nat} (bufferKernel : KernelBuffer) (before : i < size)
    (int : size < 2147483648) (next : i + 4 < 2147483648)
    (counted : (count : Int) = if size - i < sizeBlock then size - i else sizeBlock) :
    ∃ filled, writeLoop (onlyBlock memory buffer size) buffer size i sizeBlock bufferKernel =
      (writeLoop (onlyBlock memory buffer size) buffer size (i + 4 : Nat) count filled).map
        fun rest => (blockFrom memory buffer i count ++ rest.1, rest.2) := by
  have block : sizeBlock = 4 := rfl
  have short : count ≤ 4 ∧ ((i + count : Nat) : Int) ≤ size := by
    rw [block] at counted
    split at counted <;> omega
  rcases @round_prints memory buffer size i count bufferKernel short.1 short.2 int with
    ⟨filled, copied, printed⟩
  refine ⟨filled, ?_⟩
  have positive : ¬(count : Int) < 0 := by omega
  have room : (i : Int) + sizeBlock < 2147483648 := by
    rw [block]
    omega
  rw [writeLoop, if_pos before]
  dsimp only
  rw [← counted, Int.toNat_natCast, copied, ok_bind, sysWriteConsole]
  dsimp only
  rw [if_neg positive, if_pos room, Int.toNat_natCast, printed, block]
  have step : (i : Int) + 4 = (i + 4 : Nat) := rfl
  rw [step]
  cases writeLoop (onlyBlock memory buffer size) buffer size (i + 4 : Nat) count filled <;> rfl

theorem writeLoop_prints {i : Nat} (bufferKernel : KernelBuffer)
    (aligned : i % 4 = 0) (inside : i ≤ size) (fits : size ≤ 2147483644) :
    writeLoop (onlyBlock memory buffer size) buffer size i sizeBlock bufferKernel =
      .ok (blockFrom memory buffer i (size.toNat - i), 0) := by
  have block : sizeBlock = 4 := rfl
  generalize remaining : size.toNat - i = rest
  induction rest using Nat.strongRecOn generalizing i bufferKernel with
  | ind rest induction =>
      by_cases finished : size ≤ i
      · rw [writeLoop_done bufferKernel finished, show rest = 0 by omega]
        rfl
      by_cases last : size - i < 4
      · -- the shorter chunk at the end
        rcases @writeLoop_round memory buffer size i rest bufferKernel (by omega) (by omega)
          (by omega) (by rw [block, if_pos last]; omega) with ⟨filled, round⟩
        rw [round, writeLoop_done filled (by omega)]
        simp only [Except.map, List.append_nil]
      · rcases @writeLoop_round memory buffer size i 4 bufferKernel (by omega) (by omega)
          (by omega) (by rw [block, if_neg last]; rfl) with ⟨filled, round⟩
        have later : writeLoop (onlyBlock memory buffer size) buffer size (i + 4 : Nat) sizeBlock
            filled = .ok (blockFrom memory buffer (i + 4) (rest - 4), 0) :=
          induction (rest - 4) (by omega) filled (by omega) (by omega) (by omega)
        rw [round, show ((4 : Nat) : Int) = sizeBlock from rfl, later]
        simp only [Except.map]
        rw [blockFrom_append, show 4 + (rest - 4) = rest by omega]

theorem writeLoop_overflows {i : Nat} (bufferKernel : KernelBuffer)
    (aligned : i % 4 = 0) (inside : i < size) (int : size < 2147483648)
    (large : 2147483644 < size) :
    writeLoop (onlyBlock memory buffer size) buffer size i sizeBlock bufferKernel =
      .error .signedOverflow := by
  have block : sizeBlock = 4 := rfl
  generalize remaining : size.toNat - i = rest
  induction rest using Nat.strongRecOn generalizing i bufferKernel with
  | ind rest induction =>
      by_cases last : size - i < 4
      · -- the chunk is printed, and then `i` would become 2^31
        rcases @round_prints memory buffer size i rest bufferKernel (by omega) (by omega) int with
          ⟨filled, copied, -⟩
        have counted : size - i = (rest : Int) := by omega
        have positive : ¬(rest : Int) < 0 := by omega
        have full : ¬(i : Int) + sizeBlock < 2147483648 := by
          rw [block]
          omega
        have short : (rest : Int) < sizeBlock := by
          rw [block]
          omega
        rw [writeLoop, if_pos inside]
        dsimp only
        rw [counted, if_pos short, Int.toNat_natCast, copied, ok_bind, sysWriteConsole]
        dsimp only
        rw [if_neg positive, if_neg full]
      · rcases @writeLoop_round memory buffer size i 4 bufferKernel (by omega) (by omega)
          (by omega) (by rw [block, if_neg last]; rfl) with ⟨filled, round⟩
        have later : writeLoop (onlyBlock memory buffer size) buffer size (i + 4 : Nat) sizeBlock
            filled = .error .signedOverflow :=
          induction (rest - 4) (by omega) filled (by omega) (by omega) (by omega)
        rw [round, show ((4 : Nat) : Int) = sizeBlock from rfl, later]
        rfl

end Loop

/-- The call returns 0 after it has printed the block, each byte once and in order, having read
nothing else, whatever was in `buffer_kernel` before. -/
def WritesPlainly (memory : FlatMemory) (buffer : BitVec 32) (size : Int) : Prop :=
  ∀ bufferKernel, sysWrite (onlyBlock memory buffer size) bufferKernel 1 buffer size =
    .ok ((List.range size.toNat).map fun k => memory (place buffer k), 0)

theorem sysWrite_eq {memory : Readable} {buffer : BitVec 32} {size : Int}
    (bufferKernel : KernelBuffer) (notNull : buffer ≠ 0) (admitted : 0 ≤ size) :
    sysWrite memory bufferKernel 1 buffer size =
      writeLoop memory buffer size (0 : Nat) sizeBlock bufferKernel := by
  rw [sysWrite, if_neg (by decide), if_neg notNull, if_neg (by omega)]
  rfl

/-! ## The same call in the kernel

The kernel's `sys_write` reads the caller's memory through a page table and keeps no
`buffer_kernel`. -/

section Kernel

variable {mm : Mm} {pt : DirSlot}

def seenThrough (mm : Mm) (pt : DirSlot) : Readable := fun address =>
  (mm.loadByte pt address.toNat).toOption

theorem copyBytes_loads {memory : Readable} {address offset size : Nat}
    {bufferKernel filled : KernelBuffer}
    (copied : (fromUser memory).copyBytes address offset size bufferKernel = .ok filled) :
    ∀ k < size, ∃ byte, memory (BitVec.ofNat 32 (address + k)) = some byte := by
  induction size generalizing address offset bufferKernel with
  | zero =>
      intro k below
      omega
  | succ size induction =>
      rcases bind_eq_ok.mp copied with ⟨middle, first, later⟩
      rcases bind_eq_ok.mp first with ⟨byte, loaded, -⟩
      intro k below
      cases k with
      | zero =>
          cases present : memory (BitVec.ofNat 32 address) with
          | none => simp [fromUser, present] at loaded
          | some value => exact ⟨value, rfl⟩
      | succ k =>
          rcases induction later k (by omega) with ⟨value, present⟩
          rw [show address + 1 + k = address + (k + 1) by omega] at present
          exact ⟨value, present⟩

theorem chunk_iff {count : Nat} {address : Int} (short : count ≤ 4) (bufferKernel : KernelBuffer)
    {chunk : List UInt8} :
    mm.loadBytes pt count (toUnsigned address) = .ok chunk ↔
      ∃ filled, (fromUser (seenThrough mm pt)).copy (toUnsigned address) 0 count bufferKernel =
        .ok filled ∧ (List.range count).map filled = chunk := by
  have atByte (k : Nat) :
      (BitVec.ofNat 32 (toUnsigned address + k)).toNat = toUnsigned (address + k) := by
    rw [BitVec.toNat_ofNat]
    unfold toUnsigned
    omega
  -- both sides need that every byte of the chunk loads
  have arrives (loads : ∀ k < count, ∃ byte, mm.loadByte pt (toUnsigned (address + k)) = .ok byte) :
      ∃ value filled, mm.loadBytes pt count (toUnsigned address) =
          .ok ((List.range count).map value) ∧
        (fromUser (seenThrough mm pt)).copy (toUnsigned address) 0 count bufferKernel =
          .ok filled ∧ (List.range count).map filled = (List.range count).map value := by
    choose! value readable using loads
    refine ⟨value, _, Mm.loadBytes_eq_ok readable,
      @chunk_arrives _ _ _ value bufferKernel short fun k below => ?_, ?_⟩
    · rw [seenThrough, atByte, readable k below]
      rfl
    · apply List.map_congr_left
      intro k member
      exact if_pos (List.mem_range.mp member)
  constructor
  · intro loaded
    rcases arrives (Mm.loadBytes_loads loaded) with ⟨value, filled, again, copied, same⟩
    rw [loaded] at again
    cases again
    exact ⟨filled, copied, same⟩
  · rintro ⟨filled, copied, printed⟩
    have bytes := copied
    rw [ByteMemory.copy, if_neg (by omega)] at bytes
    have loads : ∀ k < count, ∃ byte, mm.loadByte pt (toUnsigned (address + k)) = .ok byte := by
      intro k below
      rcases copyBytes_loads bytes k below with ⟨byte, present⟩
      rw [seenThrough, atByte] at present
      cases loaded : mm.loadByte pt (toUnsigned (address + k)) with
      | ok value => exact ⟨value, rfl⟩
      | error fault =>
          rw [loaded] at present
          cases present
    rcases arrives loads with ⟨value, other, loaded, again, same⟩
    rw [copied] at again
    cases again
    rw [loaded, ← same, printed]

theorem writeLoop_iff {buffer : BitVec 32} {size i currSize : Int} (bufferKernel : KernelBuffer)
    (block : sizeBlock ≤ size - i → currSize = sizeBlock) {outcome : List UInt8 × Int} :
    (Kernel.writeLoop mm pt buffer.toNat size i = .ok outcome.1 ∧ outcome.2 = 0) ↔
      writeLoop (seenThrough mm pt) buffer size i currSize bufferKernel = .ok outcome := by
  have four : sizeBlock = 4 := rfl
  generalize remaining : (size - i).toNat = rest
  induction rest using Nat.strongRecOn generalizing i currSize bufferKernel outcome with
  | ind rest induction =>
      rw [Kernel.writeLoop, writeLoop]
      by_cases before : i < size
      · rw [if_pos before, if_pos before]
        have same : (if size - i < sizeBlock then size - i else currSize) =
            if size - i < sizeBlock then size - i else sizeBlock := by
          split
          · rfl
          · exact block (by omega)
        dsimp only
        rw [same]
        generalize cut : (if size - i < sizeBlock then size - i else sizeBlock) = curr
        have bounds : 0 < curr ∧ curr ≤ 4 ∧ (sizeBlock ≤ size - (i + sizeBlock) → curr = 4) := by
          rw [four] at cut ⊢
          split at cut <;> omega
        have positive : ¬curr < 0 := by omega
        have chunk (bytes : List UInt8) :=
          @chunk_iff mm pt curr.toNat (buffer.toNat + i) (by omega) bufferKernel bytes
        cases loaded : mm.loadBytes pt curr.toNat (toUnsigned (buffer.toNat + i)) with
        | error fault =>
            -- then the copy fails as well
            cases copied : (fromUser (seenThrough mm pt)).copy (toUnsigned (buffer.toNat + i)) 0
                curr.toNat bufferKernel with
            | error fault => simp
            | ok filled =>
                have again := (chunk _).mpr ⟨filled, copied, rfl⟩
                rw [loaded] at again
                cases again
        | ok bytes =>
            rcases (chunk bytes).mp loaded with ⟨filled, copied, shown⟩
            rw [copied]
            simp only [ok_bind, sysWriteConsole, if_neg positive, shown]
            by_cases room : i + sizeBlock < 2147483648
            · have later (rest : List UInt8 × Int) := @induction (size - (i + sizeBlock)).toNat
                (by omega) (i + sizeBlock) curr filled bounds.2.2 rest rfl
              rw [if_pos room, if_pos room, bind_eq_ok, bind_eq_ok]
              constructor
              · rintro ⟨⟨rest, tail, joined⟩, result⟩
                refine ⟨(rest, 0), (later (rest, 0)).mp ⟨tail, rfl⟩, ?_⟩
                exact congrArg Except.ok (Prod.ext (Except.ok.inj joined) result.symm)
              · rintro ⟨rest, tail, joined⟩
                cases joined
                rcases (later rest).mpr tail with ⟨printed, result⟩
                exact ⟨⟨rest.1, printed, rfl⟩, result⟩
            · rw [if_neg room, if_neg room]
              simp
      · rw [if_neg before, if_neg before]
        constructor
        · rintro ⟨printed, result⟩
          exact congrArg Except.ok (Prod.ext (Except.ok.inj printed) result.symm)
        · intro finished
          cases finished
          exact ⟨rfl, rfl⟩

theorem sysWrite_iff (kernel : PointerKernel) (bufferKernel : KernelBuffer) (fd : Int)
    (buffer : BitVec 32) (size : Int) (outcome : List UInt8 × Int) :
    kernel.sysWrite fd buffer.toNat size = .ok outcome ↔
      sysWrite (seenThrough kernel.core.mm kernel.currentTask.dirPagesBaseAddr) bufferKernel fd
        buffer size = .ok outcome := by
  have null : buffer.toNat = 0 ↔ buffer = 0 := by
    rw [← BitVec.toNat_inj]
    rfl
  have loop := @writeLoop_iff kernel.core.mm kernel.currentTask.dirPagesBaseAddr buffer size 0
    sizeBlock bufferKernel (fun _ => rfl) outcome
  rw [Kernel.sysWrite, sysWrite, ite_congr (propext null) (fun _ => rfl) (fun _ => rfl)]
  split
  · simp only [Except.ok.injEq]
  split
  · simp only [Except.ok.injEq]
  split
  · simp only [Except.ok.injEq]
  rw [← loop, bind_eq_ok]
  constructor
  · rintro ⟨printed, finished, joined⟩
    cases joined
    exact ⟨finished, rfl⟩
  · rintro ⟨finished, result⟩
    exact ⟨outcome.1, finished, congrArg Except.ok (Prod.ext rfl result.symm)⟩

end Kernel

end Console

open Console

/-- `sys_write` prints the block exactly when the index of its loop cannot overflow. -/
theorem writesChunks {buffer : BitVec 32} {size : Int} (memory : FlatMemory)
    (notNull : buffer ≠ 0) (admitted : 0 ≤ size) (int : size ≤ 2147483647) :
    WritesPlainly memory buffer size ↔ size ≤ 2147483644 := by
  constructor
  · intro plainly
    have printed := plainly fun _ => 0
    by_contra large
    rw [sysWrite_eq _ notNull admitted, writeLoop_overflows _ rfl (by omega) (by omega) (by omega)]
      at printed
    cases printed
  · intro fits bufferKernel
    rw [sysWrite_eq _ notNull admitted, writeLoop_prints _ rfl admitted fits, blockFrom]
    simp only [Nat.sub_zero, Nat.zero_add]

/-- Two chunks, the second one shorter. -/
theorem writesChunks_six : WritesPlainly .sample 0x108000 6 :=
  (writesChunks .sample (by decide) (by decide) (by decide)).mpr (by decide)

/-- The largest `int` is admitted, but not printed. -/
theorem writesChunks_largest : ¬WritesPlainly .sample 0x108000 2147483647 := by
  intro plainly
  have printed := plainly fun _ => 0
  rw [sysWrite_eq _ (by decide) (by decide),
    writeLoop_overflows _ rfl (by decide) (by decide) (by decide)] at printed
  cases printed

end Zeos
