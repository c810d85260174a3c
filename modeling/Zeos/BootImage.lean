import Zeos.BootMemory
import Zeos.BuildImage
import Zeos.ForkPages
import Zeos.Secrecy

/-! # From the image to user memory

The boot sector loads the image, and at the end of its start-up the kernel reads the
two sizes where the image begins and moves the user program, through the page table of
the first process.
-/

namespace Zeos

open Foundation

def kernelStart : Nat := 0x10000
def phUserStart : Nat := 0x100000

/-- `syssize`, which the boot sector has at offset 500: how much it loads, in
paragraphs. -/
def syssize (image : List UInt8) : Nat := ofBytes ((image.drop 500).take 2)

/-- `*p` for a pointer to `unsigned int`. -/
def Mm.loadWord (mm : Mm) (pt : DirSlot) (address : Nat) : Except Fault Nat := do
  let bytes ← mm.loadBytes pt 4 address
  return ofBytes bytes

namespace Machine

variable (machine : Machine)

def physical (address : Nat) : UInt8 := machine.ram (address / pageSize) (address % pageSize)

/-- The page table that the first process runs with. -/
def bootTable : DirSlot :=
  ((machine.bootCore 0 1).task (machine.bootCore 0 1).current).dirPagesBaseAddr

def pSysSize : Except Fault Nat :=
  (machine.bootCore 0 1).mm.loadWord machine.bootTable kernelStart

def pUsrSize : Except Fault Nat :=
  (machine.bootCore 0 1).mm.loadWord machine.bootTable (kernelStart + 4)

/-- The `copy_data` at the end of `main`. -/
def moveUser : Except Fault Mm := do
  let sysSize ← machine.pSysSize
  let usrSize ← machine.pUsrSize
  (machine.bootCore 0 1).mm.copyData machine.bootTable
    (toUnsigned (kernelStart + sysSize : Nat)) phUserStart (toSigned usrSize)

/-- The loader has loaded what `syssize` says, and start-up, which writes to the
kernel's own data only, has left the header and what follows the system as they were.
The pages that start-up protects are among the kernel's own too. -/
structure Loaded (image : List UInt8) (sysSize : Nat) : Prop where
  bytes : ∀ j < 16 * syssize image, j < 12 ∨ sysSize ≤ j → ∀ byte, image[512 + j]? = some byte →
    machine.physical (kernelStart + j) = byte
  unprotected : ∀ j, j < 12 ∨ sysSize ≤ j →
    (kernelStart + j) / pageSize ≠ machine.protectedTasks ∧
      (kernelStart + j) / pageSize ≠ machine.protectedTasks + 11

end Machine

/-- The image reaches the kernel: the sizes are those of the two files, all is loaded,
and the user program arrives where it starts. -/
structure Survives (system user image : List UInt8) : Prop where
  covers : system.length + user.length ≤ 16 * syssize image
  sizes : ∀ machine : Machine, machine.Loaded image system.length →
    machine.pSysSize = .ok system.length ∧ machine.pUsrSize = .ok user.length
  moved : ∀ machine : Machine, machine.Loaded image system.length →
    ∃ after, machine.moveUser = .ok after ∧
      after.loadBytes machine.bootTable user.length phUserStart = .ok user

/-- Both files together fill 65535 paragraphs at most and the user program its pages. Where
it is read above `PH_USER_START`, the byte is still in the first page there, or what has been
moved there before is the same. -/
structure ImageFits (sysSize : Nat) (user : List UInt8) : Prop where
  paragraphs : sysSize + user.length ≤ 1048560
  pages : user.length ≤ (numPagCode + numPagData) * pageSize
  above : ∀ k above, k < user.length → kernelStart + sysSize + k = phUserStart + above →
    if above < ByteMemory.arrived user.length k then user[k]? = user[above]? else above < pageSize

/-! ## The page table after start-up -/

section Mapping

variable (machine : Machine)

theorem imageBounds : kernelStart = 65536 ∧ phUserStart = 1048576 ∧
    (numPagCode + numPagData) * pageSize = 114688 := by
  decide

theorem bootTable_eq : machine.bootTable = 2 := (bootCore_slots machine 1).1

theorem boot_kernelPage {page : Nat} (notFirst : page ≠ 0) (below : page < numPagKernel)
    (unprotected : page ≠ machine.protectedTasks ∧ page ≠ machine.protectedTasks + 11) :
    (machine.bootCore 0 1).mm.Mapped machine.bootTable page ∧
      (machine.bootCore 0 1).mm.frameOf machine.bootTable page = page := by
  have sizes := memoryMap
  have entry : (machine.bootCore 0 1).mm.pagusrTable machine.bootTable page =
      ⟨true, true, false, BitVec.ofNat 20 page⟩ := by
    rw [bootTable_eq, boot_table, if_pos rfl, Machine.firstTable, if_neg (by omega),
      if_neg (by omega), Machine.initialEntry, if_neg (by omega), if_neg (by omega)]
  refine ⟨⟨by omega, by rw [entry]⟩, ?_⟩
  rw [Mm.frameOf, entry, BitVec.toNat_ofNat]
  omega

theorem boot_userPage {page : Nat} (within : page < numPagCode + numPagData) :
    (machine.bootCore 0 1).mm.Mapped machine.bootTable (pagLogInitCode + page) ∧
      (machine.bootCore 0 1).mm.frameOf machine.bootTable (pagLogInitCode + page) =
        numPagKernel + 2 * page := by
  have sizes := memoryMap
  have entry : ∃ rw, (machine.bootCore 0 1).mm.pagusrTable machine.bootTable
      (pagLogInitCode + page) = Mm.bootEntry rw (numPagKernel + 2 * page) := by
    rw [bootTable_eq, boot_table, if_pos rfl, Machine.firstTable]
    by_cases data : numPagCode ≤ page
    · rw [if_pos (by omega)]
      exact ⟨true, congrArg (Mm.bootEntry true) (by omega)⟩
    · rw [if_neg (by omega), if_pos (by omega)]
      exact ⟨false, congrArg (Mm.bootEntry false) (by omega)⟩
  rcases entry with ⟨rw, entry⟩
  refine ⟨⟨by omega, by rw [entry]; rfl⟩, ?_⟩
  rw [Mm.frameOf, entry, Mm.bootEntry, BitVec.toNat_ofNat]
  omega

end Mapping

/-! ## The move -/

namespace Mm

/-- Memory in which the first `done` bytes of the user program are those of `value`. -/
def withUser (mm : Mm) (value : Nat → UInt8) (done : Nat) : Mm :=
  { mm with
    ram := fun frame offset =>
      if numPagKernel ≤ frame ∧ frame % 2 = 0 ∧ offset < pageSize ∧
          (frame - numPagKernel) / 2 * pageSize + offset < done then
        value ((frame - numPagKernel) / 2 * pageSize + offset)
      else mm.ram frame offset }

variable {mm : Mm} {pt : DirSlot} {value : Nat → UInt8} {done : Nat}

@[simp] theorem withUser_zero : mm.withUser value 0 = mm := by
  simp [withUser]

theorem withUser_kernel {frame offset : Nat} (below : frame < numPagKernel) :
    (mm.withUser value done).ram frame offset = mm.ram frame offset :=
  if_neg fun user => absurd user.1 (Nat.not_le.mpr below)

theorem withUser_user (index : Nat) :
    (mm.withUser value done).ram (numPagKernel + 2 * (index / pageSize)) (index % pageSize) =
      if index < done then value index
      else mm.ram (numPagKernel + 2 * (index / pageSize)) (index % pageSize) := by
  have first : numPagKernel = 256 := rfl
  have here : (numPagKernel + 2 * (index / pageSize) - numPagKernel) / 2 * pageSize +
      index % pageSize = index := by
    unfold pageSize
    omega
  unfold withUser
  dsimp only
  rw [here]
  refine if_congr ?_ rfl rfl
  unfold pageSize
  omega

theorem withUser_succ :
    (mm.withUser value (done + 1)).ram =
      Function.update (mm.withUser value done).ram (numPagKernel + 2 * (done / pageSize))
        (Function.update ((mm.withUser value done).ram (numPagKernel + 2 * (done / pageSize)))
          (done % pageSize) (value done)) := by
  have first : numPagKernel = 256 := rfl
  funext frame offset
  by_cases sameFrame : frame = numPagKernel + 2 * (done / pageSize)
  · subst sameFrame
    rw [Function.update_self]
    by_cases here : offset = done % pageSize
    · subst here
      rw [Function.update_self, withUser_user, if_pos (Nat.lt_succ_self done)]
    · rw [Function.update_of_ne here]
      refine if_congr ?_ rfl rfl
      unfold pageSize at here ⊢
      omega
  · rw [Function.update_of_ne sameFrame]
    refine if_congr ?_ rfl rfl
    unfold pageSize at sameFrame ⊢
    omega

def UserMapped (mm : Mm) (pt : DirSlot) (page : Nat) : Prop :=
  mm.Mapped pt (pagLogInitCode + page) ∧
    mm.frameOf pt (pagLogInitCode + page) = numPagKernel + 2 * page

theorem user_address (index : Nat) :
    phUserStart + index = (pagLogInitCode + index / pageSize) * pageSize + index % pageSize := by
  have sizes := memoryMap
  have bounds := imageBounds
  unfold pageSize
  omega

theorem translate_user {index : Nat} (user : mm.UserMapped pt (index / pageSize)) :
    mm.translate pt (phUserStart + index) =
      .ok (numPagKernel + 2 * (index / pageSize), index % pageSize) := by
  have offset : index % pageSize < pageSize := Nat.mod_lt _ (by decide)
  rw [user_address, translate_page user.1 offset, user.2]

theorem withUser_translate (address : Nat) :
    (mm.withUser value done).translate pt address = mm.translate pt address := rfl

theorem loadByte_withUser {index : Nat} (user : mm.UserMapped pt (index / pageSize)) :
    (mm.withUser value done).loadByte pt (phUserStart + index) =
      .ok (if index < done then value index
        else mm.ram (numPagKernel + 2 * (index / pageSize)) (index % pageSize)) := by
  rw [loadByte, withUser_translate, translate_user user]
  exact congrArg Except.ok (withUser_user index)

theorem storeByte_withUser (user : mm.UserMapped pt (done / pageSize)) :
    (mm.withUser value done).storeByte pt (phUserStart + done) (value done) =
      .ok (mm.withUser value (done + 1)) := by
  have page : (phUserStart + done) / pageSize = pagLogInitCode + done / pageSize := by
    have sizes := memoryMap
    have bounds := imageBounds
    unfold pageSize
    omega
  have user' : numPagKernel ≤ pagLogInitCode + done / pageSize := Nat.le_add_right _ _
  rw [storeByte, withUser_translate, translate_user user, ok_bind, page,
    if_neg (Nat.not_lt.mpr user')]
  apply congrArg Except.ok
  change Mm.mk _ _ _ _ _ = Mm.mk _ _ _ _ _
  rw [Mm.mk.injEq]
  exact ⟨rfl, rfl, rfl, rfl, withUser_succ.symm⟩

theorem loadByte_itself {address : Nat} (mapped : mm.Mapped pt (address / pageSize))
    (itself : mm.frameOf pt (address / pageSize) = address / pageSize)
    (below : address / pageSize < numPagKernel) :
    (mm.withUser value done).loadByte pt address =
      .ok (mm.ram (address / pageSize) (address % pageSize)) := by
  have position : address / pageSize * pageSize + address % pageSize = address :=
    Nat.div_add_mod' address pageSize
  have offset : address % pageSize < pageSize := Nat.mod_lt _ (by decide)
  have place := translate_page mapped offset
  rw [position, itself] at place
  rw [loadByte, withUser_translate, place]
  exact congrArg Except.ok (withUser_kernel below)

end Mm

namespace Machine

/-- The byte that arrives at position `k` of the user program when the system has
`sysSize` bytes and the user program `total`. -/
def arrival (machine : Machine) (sysSize total k : Nat) : UInt8 :=
  if kernelStart + sysSize + k < phUserStart then machine.physical (kernelStart + sysSize + k)
  else
    let above := kernelStart + sysSize + k - phUserStart
    if above < ByteMemory.arrived total k then machine.arrival sysSize total above
    else machine.ram (numPagKernel + 2 * (above / pageSize)) (above % pageSize)
termination_by k
decreasing_by
  have before := ByteMemory.arrived_le total k
  omega

variable {machine : Machine} {sysSize total : Nat} {value : Nat → UInt8} {done : Nat}

theorem arrival_below {k : Nat} (below : kernelStart + sysSize + k < phUserStart) :
    machine.arrival sysSize total k = machine.physical (kernelStart + sysSize + k) := by
  rw [arrival, if_pos below]

theorem arrival_above {k above : Nat}
    (position : kernelStart + sysSize + k = phUserStart + above) :
    machine.arrival sysSize total k =
      if above < ByteMemory.arrived total k then machine.arrival sysSize total above
      else machine.ram (numPagKernel + 2 * (above / pageSize)) (above % pageSize) := by
  rw [arrival, if_neg (by omega), position, Nat.add_sub_cancel_left]

theorem bootCore_ram : (machine.bootCore 0 1).mm.ram = machine.ram := by
  rw [bootCore_memory]

theorem user_page {index : Nat} (inside : index < (numPagCode + numPagData) * pageSize) :
    (machine.bootCore 0 1).mm.UserMapped machine.bootTable (index / pageSize) :=
  boot_userPage machine (Nat.div_lt_of_lt_mul (by rwa [Nat.mul_comm]))

theorem loadByte_kernel {address : Nat} (above : pageSize ≤ address) (below : address < phUserStart)
    (unprotected : address / pageSize ≠ machine.protectedTasks ∧
      address / pageSize ≠ machine.protectedTasks + 11) :
    ((machine.bootCore 0 1).mm.withUser value done).loadByte machine.bootTable address =
      .ok (machine.physical address) := by
  have sizes := memoryMap
  have bounds := imageBounds
  have page : address / pageSize ≠ 0 ∧ address / pageSize < numPagKernel := by
    unfold pageSize at above ⊢
    omega
  rcases boot_kernelPage machine page.1 page.2 unprotected with ⟨mapped, frame⟩
  rw [Mm.loadByte_itself mapped frame page.2, bootCore_ram, physical]

theorem copyData_moves {image : List UInt8} (loaded : machine.Loaded image sysSize)
    (paragraphs : sysSize + total ≤ 1048560)
    (pages : total ≤ (numPagCode + numPagData) * pageSize) :
    (machine.bootCore 0 1).mm.copyData machine.bootTable (kernelStart + sysSize) phUserStart total =
      .ok ((machine.bootCore 0 1).mm.withUser (machine.arrival sysSize total) total) := by
  have bounds := imageBounds
  have sizes := memoryMap
  have loads : ByteMemory.Loads (Mm.through machine.bootTable) (kernelStart + sysSize) total
      ((machine.bootCore 0 1).mm.withUser (machine.arrival sysSize total))
      (machine.arrival sysSize total) := by
    intro k below
    change Mm.loadByte _ _ _ = _
    by_cases low : kernelStart + sysSize + k < phUserStart
    · rw [arrival_below low, Nat.add_assoc] at *
      exact loadByte_kernel (by omega) low (loaded.unprotected _ (.inr (Nat.le_add_right _ _)))
    · rcases Nat.exists_eq_add_of_le (Nat.not_lt.mp low) with ⟨above, position⟩
      rw [arrival_above position, position]
      rw [Mm.loadByte_withUser (user_page (by omega)), bootCore_ram]
  have advances : ByteMemory.Advances (Mm.through machine.bootTable) phUserStart total
      ((machine.bootCore 0 1).mm.withUser (machine.arrival sysSize total))
      (machine.arrival sysSize total) :=
    fun done inside => Mm.storeByte_withUser (user_page (by omega))
  have copied := ByteMemory.copy_eq loads advances
  rw [Mm.withUser_zero] at copied
  rw [Mm.copyData, Int.toNat_natCast]
  exact copied

theorem loadBytes_moved (pages : total ≤ (numPagCode + numPagData) * pageSize) :
    ((machine.bootCore 0 1).mm.withUser value total).loadBytes machine.bootTable total
      phUserStart = .ok ((List.range total).map value) := by
  have bounds := imageBounds
  have sizes := memoryMap
  have address : toUnsigned (phUserStart : Int) = phUserStart := toUnsigned_of_lt (by omega)
  rw [← address]
  apply Mm.loadBytes_eq_ok
  intro k below
  have here : toUnsigned ((phUserStart : Int) + k) = phUserStart + k :=
    toUnsigned_of_lt (by omega : phUserStart + k < 4294967296)
  rw [here, Mm.loadByte_withUser (user_page (by omega)), if_pos below]

/-! ## What the loader brings -/

/-- A machine with the image in memory, and `byte` at the address `place`. -/
def holding (image : List UInt8) (place : Nat) (byte : UInt8) : Machine where
  protectedTasks := 1
  protectedTasks_pos := by decide
  protectedTasks_lt := by decide
  clock := id
  ram frame offset :=
    if frame * pageSize + offset = place then byte
    else (image[512 + (frame * pageSize + offset - kernelStart)]?).getD 0

theorem holding_physical (image : List UInt8) (place address : Nat) (byte : UInt8) :
    (holding image place byte).physical address =
      if address = place then byte else (image[512 + (address - kernelStart)]?).getD 0 := by
  have position : address / pageSize * pageSize + address % pageSize = address :=
    Nat.div_add_mod' address pageSize
  unfold physical holding
  dsimp only
  rw [position]

theorem holding_loaded {image : List UInt8} {place : Nat} (byte : UInt8)
    (behind : image.length ≤ 512 + (place - kernelStart)) (sysSize : Nat) :
    (holding image place byte).Loaded image sysSize where
  bytes j _ _ here present := by
    have within : 512 + j < image.length := (List.getElem?_eq_some_iff.mp present).1
    rw [holding_physical, if_neg (by omega), Nat.add_sub_cancel_left, present]
    rfl
  unprotected j _ := by
    have bounds := imageBounds
    have page : 16 ≤ (kernelStart + j) / pageSize := by
      unfold pageSize
      omega
    change _ ≠ 1 ∧ _ ≠ 1 + 11
    omega

end Machine

section Survival

variable {system user image : List UInt8} {machine : Machine}

theorem syssize_lt (image : List UInt8) : syssize image < 65536 := by
  have bound := ofBytes_lt ((image.drop 500).take 2)
  have short : ((image.drop 500).take 2).length ≤ 2 := by
    rw [List.length_take]
    omega
  have larger : 256 ^ ((image.drop 500).take 2).length ≤ 256 ^ 2 :=
    Nat.pow_le_pow_right (by decide) short
  unfold syssize
  omega

variable (headed : Build.Headed system user image)

include headed

theorem syssize_eq (paragraphs : system.length + user.length ≤ 1048560) :
    syssize image = (system.length + user.length + 15) / 16 := by
  have field := part_eq (fun k below => headed.imSize k (by rwa [lowBytes_length] at below))
  rw [lowBytes_length] at field
  rw [syssize, field, ofBytes_lowBytes]
  omega

theorem loaded_user (loaded : machine.Loaded image system.length)
    (paragraphs : system.length + user.length ≤ 1048560) (room : 12 ≤ system.length) {k : Nat}
    (below : k < user.length) :
    user[k]? = some (machine.physical (kernelStart + system.length + k)) := by
  have size := syssize_eq headed paragraphs
  have part : image[512 + (system.length + k)]? = user[k]? := by
    rw [headed.parts _ (by omega), List.getElem?_append_right (Nat.le_add_right _ _),
      Nat.add_sub_cancel_left]
  rw [List.getElem?_eq_getElem below] at part ⊢
  rw [Nat.add_assoc, loaded.bytes _ (by omega) (.inr (Nat.le_add_right _ _)) _ part]

theorem loadWord_header (loaded : machine.Loaded image system.length)
    (paragraphs : system.length + user.length ≤ 1048560) (room : 12 ≤ system.length)
    {offset size : Nat} (inside : offset ≤ 8) (small : size < 16777216)
    (field : ∀ k < 4, image[512 + offset + k]? = (Build.sizeField size)[k]?) :
    (machine.bootCore 0 1).mm.loadWord machine.bootTable (kernelStart + offset) = .ok size := by
  have bounds := imageBounds
  have syssize' := syssize_eq headed paragraphs
  have address : toUnsigned ((kernelStart + offset : Nat) : Int) = kernelStart + offset :=
    toUnsigned_of_lt (by omega)
  have readable : ∀ k : Nat, k < 4 → (machine.bootCore 0 1).mm.loadByte machine.bootTable
      (toUnsigned (((kernelStart + offset : Nat) : Int) + k)) =
        .ok ((Build.sizeField size)[k]?.getD 0) := by
    intro k below
    have here : toUnsigned (((kernelStart + offset : Nat) : Int) + k) =
        kernelStart + (offset + k) :=
      (toUnsigned_of_lt (by omega : kernelStart + offset + k < 4294967296)).trans
        (Nat.add_assoc _ _ _)
    have present : image[512 + (offset + k)]? =
        some ((Build.sizeField size)[k]?.getD 0) := by
      rw [← Nat.add_assoc, field k below]
      have within : k < (Build.sizeField size).length := by rwa [Build.sizeField_length]
      rw [List.getElem?_eq_getElem within]
      rfl
    have loads := @Machine.loadByte_kernel machine (fun _ => 0) 0 (kernelStart + (offset + k))
      (by unfold pageSize; omega) (by omega) (loaded.unprotected _ (.inl (by omega)))
    rw [Mm.withUser_zero, loaded.bytes _ (by omega) (.inl (by omega)) _ present] at loads
    rw [here, loads]
  have bytes := Mm.loadBytes_eq_ok readable
  rw [address] at bytes
  have whole := map_range_eq (Build.sizeField size)
  rw [Build.sizeField_length] at whole
  rw [Mm.loadWord, bytes, whole]
  exact congrArg Except.ok (Build.ofBytes_sizeField small)

theorem sizes_of_loaded (loaded : machine.Loaded image system.length)
    (paragraphs : system.length + user.length ≤ 1048560) (room : 12 ≤ system.length) :
    machine.pSysSize = .ok system.length ∧ machine.pUsrSize = .ok user.length := by
  have sysSize := @loadWord_header system user image machine headed loaded paragraphs room 0
    system.length (Nat.zero_le 8) (by omega) headed.sysSize
  have usrSize := @loadWord_header system user image machine headed loaded paragraphs room 4
    user.length (by decide) (by omega) headed.usrSize
  rw [Nat.add_zero] at sysSize
  rw [Machine.pSysSize, Machine.pUsrSize, sysSize, usrSize]
  exact ⟨rfl, rfl⟩

theorem moveUser_eq (loaded : machine.Loaded image system.length)
    (paragraphs : system.length + user.length ≤ 1048560) (room : 12 ≤ system.length)
    (pages : user.length ≤ (numPagCode + numPagData) * pageSize) :
    machine.moveUser = .ok ((machine.bootCore 0 1).mm.withUser
      (machine.arrival system.length user.length) user.length) := by
  have bounds := imageBounds
  rcases sizes_of_loaded headed loaded paragraphs room with ⟨sysSize, usrSize⟩
  have source : toUnsigned ((kernelStart + system.length : Nat) : Int) =
      kernelStart + system.length := toUnsigned_of_lt (by omega)
  have size : toSigned user.length = user.length := by
    rw [toSigned, if_pos (by omega), Nat.mod_eq_of_lt (by omega)]
  rw [Machine.moveUser, sysSize, ok_bind, usrSize, ok_bind, source, size]
  exact Machine.copyData_moves loaded paragraphs pages

theorem moved_iff (loaded : machine.Loaded image system.length)
    (paragraphs : system.length + user.length ≤ 1048560) (room : 12 ≤ system.length)
    (pages : user.length ≤ (numPagCode + numPagData) * pageSize) :
    (∃ after, machine.moveUser = .ok after ∧
        after.loadBytes machine.bootTable user.length phUserStart = .ok user) ↔
      ∀ k < user.length, user[k]? = some (machine.arrival system.length user.length k) := by
  have moved := moveUser_eq headed loaded paragraphs room pages
  have contents := @Machine.loadBytes_moved machine user.length
    (machine.arrival system.length user.length) pages
  constructor
  · rintro ⟨after, moved', loads⟩ k below
    have same := Except.ok.inj (moved'.symm.trans moved)
    rw [same, contents] at loads
    have arrives := congrArg (fun bytes : List UInt8 => bytes[k]?) (Except.ok.inj loads)
    simpa [below] using arrives.symm
  · intro arrives
    refine ⟨_, moved, contents.trans (congrArg Except.ok ?_)⟩
    apply List.ext_getElem?
    intro k
    by_cases below : k < user.length
    · rw [arrives k below]
      simp [below]
    · simp [below]

theorem arrives_of_fits (fits : ImageFits system.length user) (room : 12 ≤ system.length)
    (loaded : machine.Loaded image system.length) :
    ∀ k < user.length, user[k]? = some (machine.arrival system.length user.length k) := by
  have bounds := imageBounds
  have sizes := memoryMap
  intro k
  induction k using Nat.strongRecOn with
  | ind k induction =>
      intro below
      have here := loaded_user headed loaded fits.paragraphs room below
      by_cases low : kernelStart + system.length + k < phUserStart
      · rw [Machine.arrival_below low]
        exact here
      · rcases Nat.exists_eq_add_of_le (Nat.not_lt.mp low) with ⟨above, position⟩
        have readable := fits.above k above below position
        rw [Machine.arrival_above position]
        by_cases overwritten : above < ByteMemory.arrived user.length k
        · have before : above < k := Nat.lt_of_lt_of_le overwritten (ByteMemory.arrived_le _ _)
          rw [if_pos overwritten] at readable ⊢
          rw [readable]
          exact induction above before (Nat.lt_trans before below)
        · rw [if_neg overwritten] at readable ⊢
          rw [here, position, Machine.physical]
          congr 2
          · unfold pageSize at readable ⊢
            omega
          · unfold pageSize at readable ⊢
            omega

theorem above_of_survives (survives : Survives system user image)
    (paragraphs : system.length + user.length ≤ 1048560) (room : 12 ≤ system.length)
    (pages : user.length ≤ (numPagCode + numPagData) * pageSize) {k above : Nat}
    (below : k < user.length) (position : kernelStart + system.length + k = phUserStart + above)
    (notYet : ByteMemory.arrived user.length k ≤ above) : above < pageSize := by
  have bounds := imageBounds
  have sizes := memoryMap
  by_contra far
  -- the last byte that is loaded together with its neighbours in the same way
  rcases (show ∃ distance, k + distance < user.length ∧
      user.length ≤ k + distance + pageSize ∧
      ByteMemory.arrived user.length (k + distance) ≤ above + distance by
    unfold ByteMemory.arrived at notYet ⊢
    unfold pageSize
    by_cases together : k < 4 * ((user.length - 1) / 4)
    · refine ⟨4 * ((user.length - 1) / 4 - 1) + k % 4 - k, by omega, by omega, ?_⟩
      rw [if_pos together] at notYet
      rw [if_pos (by omega)]
      omega
    · refine ⟨0, by omega, by omega, ?_⟩
      rw [if_neg together] at notYet
      rwa [Nat.add_zero, if_neg together]) with ⟨distance, below', last, notYet'⟩
  generalize isPlace : (numPagKernel + 2 * ((above + distance) / pageSize)) * pageSize +
    (above + distance) % pageSize = place
  let byte : UInt8 := if user[k + distance]? = some 0 then 1 else 0
  have behind : image.length ≤ 512 + (place - kernelStart) := by
    rw [headed.length, ← isPlace]
    unfold pageSize at far last ⊢
    omega
  have loaded := Machine.holding_loaded byte behind system.length
  have arrives := (moved_iff headed loaded paragraphs room pages).mp (survives.moved _ loaded)
    (k + distance) below'
  rw [@Machine.arrival_above _ _ _ _ (above + distance) (by omega),
    if_neg (Nat.not_lt.mpr notYet')] at arrives
  have held : (Machine.holding image place byte).ram
      (numPagKernel + 2 * ((above + distance) / pageSize)) ((above + distance) % pageSize) =
        byte := if_pos isPlace
  rw [held] at arrives
  by_cases zero : user[k + distance]? = some 0
  · rw [zero] at arrives
    simp [byte, zero] at arrives
  · have isZero : byte = 0 := if_neg zero
    rw [isZero] at arrives
    exact zero arrives

omit headed in
theorem moveUser_tables {after : Mm} (moved : machine.moveUser = .ok after) :
    after.pagusrTable = (machine.bootCore 0 1).mm.pagusrTable := by
  unfold Machine.moveUser at moved
  rcases bind_eq_ok.mp moved with ⟨sysSize, -, later⟩
  rcases bind_eq_ok.mp later with ⟨usrSize, -, copied⟩
  have keeps : ∀ state address byte next,
      state.pagusrTable = (machine.bootCore 0 1).mm.pagusrTable →
      (Mm.through machine.bootTable).store state address byte = .ok next →
      next.pagusrTable = (machine.bootCore 0 1).mm.pagusrTable :=
    fun state address byte next kept stored => (Mm.storeByte_pagusrTable stored).trans kept
  exact ByteMemory.copy_keeps keeps rfl copied

omit headed in
theorem pages_of_survives (survives : Survives system user image) :
    user.length ≤ (numPagCode + numPagData) * pageSize := by
  have bounds := imageBounds
  have sizes := memoryMap
  by_contra more
  have loaded := @Machine.holding_loaded image (kernelStart + image.length) 0 (by omega)
    system.length
  rcases survives.moved _ loaded with ⟨after, moved, loads⟩
  have address : toUnsigned (phUserStart : Int) = phUserStart := toUnsigned_of_lt (by omega)
  rw [← address] at loads
  -- the first byte behind the data pages
  rcases Mm.loadBytes_loads loads 114688 (by omega) with ⟨byte, here⟩
  have unmapped : ¬after.Mapped (Machine.bootTable (.holding image (kernelStart + image.length) 0))
      (toUnsigned ((phUserStart : Int) + (114688 : Nat)) / pageSize) := by
    rintro ⟨-, present⟩
    have page : toUnsigned ((phUserStart : Int) + (114688 : Nat)) / pageSize = pagLogInitHeap := by
      rw [bounds.2.1]
      decide
    rw [moveUser_tables moved, page, boot_unmapped _ _ (Nat.le_refl _)] at present
    cases present
  rw [Mm.loadByte_unmapped unmapped] at here
  cases here

end Survival

/-- A boot sector with the header of `ld86`. -/
def bootsectSample : List UInt8 :=
  [0x01, 0x03, 0x10, 0x04, 0x20, 0x00, 0x00, 0x00] ++ List.replicate 24 0 ++
    List.replicate 510 0 ++ [0x55, 0xaa]

theorem main_sample (system user : List UInt8) :
    ∃ image, Build.main bootsectSample system user = some image := by
  have opened : Build.minixOpen bootsectSample =
      some (List.replicate 510 0 ++ [0x55, 0xaa]) := by decide +kernel
  have copiedSystem := Build.copyFile_eq (Nat.mod_le system.length 4294967296)
  have copiedUser := Build.copyFile_eq (Nat.mod_le user.length 4294967296)
  unfold Build.main Build.stSize
  rw [opened]
  simp only [Option.bind_eq_bind, Option.bind_some]
  rw [if_neg (by decide +kernel), if_neg (by decide +kernel), copiedSystem, copiedUser]
  exact ⟨_, rfl⟩

end Zeos
