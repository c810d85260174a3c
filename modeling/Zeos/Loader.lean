import Zeos.BootImage
import Zeos.Foundation.StepLoop

/-! # The boot sector's loader

`read_it` and `read_track` of `bootsect.S`: track by track, the image is read from the
diskette to the addresses from `0x10000` on. The BIOS is given by what it documents of its
diskette service; the messages on the screen are left out.
-/

namespace Zeos

open Foundation StateTransition

/-! ## The diskette -/

namespace Diskette

/-- Sectors of a track, heads and cylinders of a diskette of 1.44 MB. -/
def secPista : Nat := 18
def heads : Nat := 2
def cylinders : Nat := 80

def sectorSize : Nat := 512

/-- The registers at `int 0x13` with function 2. -/
structure Request where
  al : BitVec 8
  ch : BitVec 8
  cl : BitVec 8
  dh : BitVec 8
  dl : BitVec 8
  es : BitVec 16
  bx : BitVec 16

namespace Request

variable (request : Request)

def cylinder : Nat := request.ch.toNat + 256 * (request.cl.toNat / 64)

def sector : Nat := request.cl.toNat % 64

def buffer : Nat := 16 * request.es.toNat + request.bx.toNat

def size : Nat := sectorSize * request.al.toNat

def block : Nat :=
  (request.cylinder * heads + request.dh.toNat) * secPista + (request.sector - 1)

/-- The sectors are on one track of the first drive, and the buffer is in one segment of
64 KB that the transfer can address. -/
structure Valid : Prop where
  some : 0 < request.al.toNat
  first : 0 < request.sector
  track : request.sector + request.al.toNat ≤ secPista + 1
  head : request.dh.toNat < heads
  cylinder : request.cylinder < cylinders
  drive : request.dl = 0
  segment : request.buffer / 65536 = (request.buffer + request.size - 1) / 65536

def Covers (address : Nat) : Prop :=
  request.buffer ≤ address ∧ address < request.buffer + request.size

instance coversDecidable (address : Nat) : Decidable (request.Covers address) :=
  inferInstanceAs (Decidable (_ ∧ _))

end Request

/-- A diskette service that reads what it is validly asked for. -/
structure Bios (disk : Nat → UInt8) where
  int13 : Request → (Nat → UInt8) → Nat → UInt8
  reads : ∀ request memory, request.Valid → ∀ address, int13 request memory address =
    if request.Covers address then
      disk (sectorSize * request.block + (address - request.buffer))
    else memory address

def Bios.plain (disk : Nat → UInt8) : Bios disk where
  int13 request memory address :=
    if request.Covers address then disk (sectorSize * request.block + (address - request.buffer))
    else memory address
  reads _ _ _ _ := rfl

end Diskette

open Diskette

/-! ## The routine -/

/-- The registers and variables that live from one pass of `rp_read` to the next, and the
requests made so far. -/
structure Loader where
  es : BitVec 16
  bx : BitVec 16
  sread : BitVec 16
  head : BitVec 16
  track : BitVec 16
  memory : Nat → UInt8
  requests : List Request

namespace Loader

def sysseg : BitVec 16 := 0x1000
def setupSects : BitVec 8 := 0
def sectors : BitVec 16 := BitVec.ofNat 16 secPista

section Routine

variable {disk : Nat → UInt8} (bios : Bios disk)

/-- The registers as `read_track` sets them up for the BIOS: AL sectors of the current
track. -/
def request (loader : Loader) (ax : BitVec 16) : Request :=
  let dx := loader.track
  let cx := loader.sread + 1
  let ch := dx.setWidth 8
  let dl := loader.head.setWidth 8
  let dx := (dl ++ dl : BitVec 16) &&& 0x0100
  { al := ax.setWidth 8
    ch := ch
    cl := cx.setWidth 8
    dh := (dx >>> 8).setWidth 8
    dl := dx.setWidth 8
    es := loader.es
    bx := loader.bx }

/-- `read_track`, which keeps all registers. -/
def readTrack (loader : Loader) (ax : BitVec 16) : Loader :=
  { loader with
    memory := bios.int13 (loader.request ax) loader.memory
    requests := loader.requests ++ [loader.request ax] }

/-- Up to `ok2_read`: how many sectors are left on the track and in the segment. -/
def portion (loader : Loader) : BitVec 16 :=
  let ax := sectors - loader.sread
  let cx := ax <<< 9
  let carry := 65536 ≤ cx.toNat + loader.bx.toNat
  if ¬carry ∨ cx + loader.bx = 0 then ax else (0 - loader.bx) >>> 9

/-- From the return of `read_track` to `ok3_read`. -/
def countSectors (loader : Loader) (ax : BitVec 16) : Loader :=
  let ax := ax + loader.sread
  if ax ≠ sectors then { loader with sread := ax }
  else
    let ax := 1 - loader.head
    if ax ≠ 0 then { loader with head := ax, sread := 0 }
    else { loader with head := ax, sread := 0, track := loader.track + 1 }

def advance (loader : Loader) (cx : BitVec 16) : Loader :=
  let cx := cx <<< 9
  if loader.bx.toNat + cx.toNat < 65536 then { loader with bx := loader.bx + cx }
  else { loader with es := loader.es + 0x1000, bx := 0 }

def ok1Read (loader : Loader) : Loader :=
  let ax := loader.portion
  ((loader.readTrack bios ax).countSectors ax).advance ax

/-- A pass from `rp_read`, and nothing at `ret`. -/
def rpRead (syssize : BitVec 16) (loader : Loader) : Option Loader :=
  if loader.es - sysseg ≤ syssize then some (loader.ok1Read bios) else none

/-- `read_it`: the first sector, which is the boot sector's own, counts as read. -/
def beginning (es : BitVec 16) (memory : Nat → UInt8) : Loader where
  es := es
  bx := 0
  sread := (setupSects + 1).setWidth 16
  head := 0
  track := 0
  memory := memory
  requests := []

/-- Where the segment is no multiple of 64 KB the routine stays at `die`. -/
noncomputable def readIt (syssize es : BitVec 16) (memory : Nat → UInt8) : Part Loader :=
  if es &&& 0x0fff ≠ 0 then Part.none else eval (rpRead bios syssize) (beginning es memory)

end Routine

/-! ## One pass -/

/-- How many sectors are read when `n` have been: what is left of the track, whose first
sector may be the boot sector, or what fits into the segment. -/
def share (n : Nat) : Nat := min (secPista - (n + 1) % secPista) (128 - n % 128)

/-- The place of the loader when it has read `n` sectors. -/
structure At (loader : Loader) (n : Nat) : Prop where
  es : loader.es.toNat = 4096 * (n / 128 + 1)
  bx : loader.bx.toNat = sectorSize * (n % 128)
  sread : loader.sread.toNat = (n + 1) % secPista
  head : loader.head.toNat = (n + 1) / secPista % heads
  track : loader.track.toNat = (n + 1) / secPista / heads

theorem share_pos (n : Nat) : 0 < share n := by
  unfold share secPista
  omega

section Pass

variable {loader : Loader} {n : Nat}

theorem toNat_shift {count : BitVec 16} (small : count.toNat < 128) :
    (count <<< 9).toNat = sectorSize * count.toNat := by
  rw [BitVec.toNat_shiftLeft, Nat.shiftLeft_eq, Nat.mul_comm, Nat.mod_eq_of_lt]
  · rfl
  · omega

theorem At.portion (place : loader.At n) : loader.portion.toNat = share n := by
  have sread := place.sread
  have bx := place.bx
  have left : (sectors - loader.sread).toNat = secPista - (n + 1) % secPista := by
    have all : sectors.toNat = secPista := rfl
    have below : (n + 1) % secPista < secPista := Nat.mod_lt _ (by decide)
    rw [BitVec.toNat_sub_of_le (by rw [BitVec.le_def]; omega), all, sread]
  have few : (sectors - loader.sread).toNat < 128 := by
    unfold secPista at left
    omega
  have size := toNat_shift few
  unfold Loader.portion
  dsimp only
  unfold share
  split
  · rename_i fits
    rw [left] at size ⊢
    have within : sectorSize * (secPista - (n + 1) % secPista) + sectorSize * (n % 128) ≤
        65536 := by
      rcases fits with whole | exactly
      · omega
      · have sum := congrArg BitVec.toNat exactly
        rw [BitVec.toNat_add, size, bx] at sum
        change _ = 0 at sum
        unfold sectorSize secPista at *
        omega
    unfold sectorSize at within
    omega
  · rename_i crosses
    rw [not_or, not_not] at crosses
    rcases crosses with ⟨carry, -⟩
    rw [size, left, bx] at carry
    have rest : (0 - loader.bx).toNat = sectorSize * (128 - n % 128) := by
      rw [BitVec.toNat_sub, bx]
      change (65536 - _ + 0) % 65536 = _
      unfold sectorSize secPista at *
      omega
    rw [BitVec.toNat_ushiftRight, Nat.shiftRight_eq_div_pow, rest]
    unfold sectorSize secPista at *
    omega

theorem At.countSectors (place : loader.At n) {ax : BitVec 16} (count : ax.toNat = share n)
    (near : n < 65536) :
    (loader.countSectors ax).sread.toNat = (n + share n + 1) % secPista ∧
      (loader.countSectors ax).head.toNat = (n + share n + 1) / secPista % heads ∧
      (loader.countSectors ax).track.toNat = (n + share n + 1) / secPista / heads := by
  have sread := place.sread
  have head := place.head
  have track := place.track
  have most : share n ≤ secPista - (n + 1) % secPista := Nat.min_le_left _ _
  have sum : (ax + loader.sread).toNat = share n + (n + 1) % secPista := by
    rw [BitVec.toNat_add, count, sread, Nat.mod_eq_of_lt]
    unfold secPista at *
    omega
  have full : ax + loader.sread = sectors ↔ share n + (n + 1) % secPista = secPista := by
    rw [← sum, ← BitVec.toNat_inj]
    rfl
  unfold Loader.countSectors
  dsimp only
  unfold secPista heads at *
  by_cases more : ax + loader.sread = sectors
  · have whole := full.mp more
    rw [if_neg (not_not.mpr more)]
    have other : (1 - loader.head).toNat = 1 - loader.head.toNat := by
      rw [BitVec.toNat_sub]
      change (65536 - _ + 1) % 65536 = _
      omega
    by_cases second : 1 - loader.head = 0
    · rw [if_neg (not_not.mpr second)]
      have one : 1 - loader.head.toNat = 0 := by
        rw [← other, second]
        rfl
      have next : (loader.track + 1).toNat = loader.track.toNat + 1 := by
        rw [BitVec.toNat_add]
        change (_ + 1) % 65536 = _
        omega
      refine ⟨?_, ?_, ?_⟩
      · change 0 = _
        omega
      · change (1 - loader.head).toNat = _
        omega
      · change (loader.track + 1).toNat = _
        omega
    · rw [if_pos second]
      have first : 1 - loader.head.toNat ≠ 0 := by
        rw [← other]
        intro zero
        exact second (BitVec.eq_of_toNat_eq zero)
      refine ⟨?_, ?_, ?_⟩
      · change 0 = _
        omega
      · change (1 - loader.head).toNat = _
        omega
      · change loader.track.toNat = _
        omega
  · have partly : share n + (n + 1) % 18 ≠ 18 := fun whole => more (full.mpr whole)
    rw [if_pos more]
    refine ⟨?_, ?_, ?_⟩
    · change (ax + loader.sread).toNat = _
      omega
    · change loader.head.toNat = _
      omega
    · change loader.track.toNat = _
      omega

theorem countSectors_frame (loader : Loader) (ax : BitVec 16) :
    (loader.countSectors ax).es = loader.es ∧ (loader.countSectors ax).bx = loader.bx ∧
      (loader.countSectors ax).memory = loader.memory ∧
      (loader.countSectors ax).requests = loader.requests := by
  unfold Loader.countSectors
  dsimp only
  split
  · exact ⟨rfl, rfl, rfl, rfl⟩
  · split <;> exact ⟨rfl, rfl, rfl, rfl⟩

theorem advance_frame (loader : Loader) (cx : BitVec 16) :
    (loader.advance cx).sread = loader.sread ∧ (loader.advance cx).head = loader.head ∧
      (loader.advance cx).track = loader.track ∧ (loader.advance cx).memory = loader.memory ∧
      (loader.advance cx).requests = loader.requests := by
  unfold Loader.advance
  dsimp only
  split <;> exact ⟨rfl, rfl, rfl, rfl, rfl⟩

theorem advance_buffer {cx : BitVec 16} (count : cx.toNat = share n) (near : n ≤ 1024)
    (es : loader.es.toNat = 4096 * (n / 128 + 1)) (bx : loader.bx.toNat = sectorSize * (n % 128)) :
    (loader.advance cx).es.toNat = 4096 * ((n + share n) / 128 + 1) ∧
      (loader.advance cx).bx.toNat = sectorSize * ((n + share n) % 128) := by
  have most : share n ≤ 128 - n % 128 := Nat.min_le_right _ _
  have few : share n ≤ secPista - (n + 1) % secPista := Nat.min_le_left _ _
  have size : (cx <<< 9).toNat = sectorSize * share n := by
    rw [toNat_shift (by rw [count]; unfold secPista at few; omega), count]
  unfold Loader.advance
  dsimp only
  rw [size, bx]
  unfold sectorSize secPista at *
  split
  · rename_i within
    refine ⟨?_, ?_⟩
    · change loader.es.toNat = _
      omega
    · change (loader.bx + cx <<< 9).toNat = _
      rw [BitVec.toNat_add, size, bx]
      omega
  · rename_i full
    refine ⟨?_, ?_⟩
    · change (loader.es + 0x1000).toNat = _
      rw [BitVec.toNat_add, es]
      change (_ + 4096) % 65536 = _
      omega
    · change 0 = _
      omega

theorem request_head {ax : BitVec 16} (head : loader.head.toNat < heads) :
    (loader.request ax).dh.toNat = loader.head.toNat ∧ (loader.request ax).dl = 0 := by
  have known : loader.head = 0 ∨ loader.head = 1 := by
    unfold heads at head
    rcases Nat.lt_succ_iff_lt_or_eq.mp head with none | one
    · left
      exact BitVec.eq_of_toNat_eq (Nat.lt_one_iff.mp none)
    · right
      exact BitVec.eq_of_toNat_eq one
  unfold request
  rcases known with same | same
  · rw [same]
    exact ⟨rfl, rfl⟩
  · rw [same]
    exact ⟨rfl, rfl⟩

theorem At.request (place : loader.At n) {ax : BitVec 16} (count : ax.toNat = share n)
    (near : n ≤ 1024) :
    (loader.request ax).Valid ∧ (loader.request ax).buffer = kernelStart + sectorSize * n ∧
      (loader.request ax).size = sectorSize * share n ∧ (loader.request ax).block = n + 1 := by
  have bounds := imageBounds
  have positive := share_pos n
  have most : share n ≤ 128 - n % 128 := Nat.min_le_right _ _
  have few : share n ≤ secPista - (n + 1) % secPista := Nat.min_le_left _ _
  have es := place.es
  have bx := place.bx
  have sread := place.sread
  have head := place.head
  have track := place.track
  rcases @request_head loader ax (by rw [head]; exact Nat.mod_lt _ (by decide)) with ⟨dh, dl⟩
  unfold secPista heads sectorSize at *
  have al : (loader.request ax).al.toNat = share n := by
    change (ax.setWidth 8).toNat = _
    rw [BitVec.toNat_setWidth, count]
    omega
  have ch : (loader.request ax).ch.toNat = (n + 1) / 18 / 2 := by
    change (loader.track.setWidth 8).toNat = _
    rw [BitVec.toNat_setWidth, track]
    omega
  have cl : (loader.request ax).cl.toNat = (n + 1) % 18 + 1 := by
    change ((loader.sread + 1).setWidth 8).toNat = _
    rw [BitVec.toNat_setWidth, BitVec.toNat_add, sread]
    change (_ + 1) % 65536 % 256 = _
    omega
  have sector : (loader.request ax).sector = (n + 1) % 18 + 1 := by
    rw [Request.sector, cl]
    omega
  have cylinder : (loader.request ax).cylinder = (n + 1) / 18 / 2 := by
    rw [Request.cylinder, ch, cl]
    omega
  have buffer : (loader.request ax).buffer = kernelStart + 512 * n := by
    change 16 * loader.es.toNat + loader.bx.toNat = _
    omega
  have size : (loader.request ax).size = 512 * share n := by
    rw [Request.size, al]
    rfl
  refine ⟨?_, buffer, size, ?_⟩
  · exact
      { some := by omega
        first := by omega
        track := by
          unfold secPista
          omega
        head := by
          unfold heads
          omega
        cylinder := by
          unfold cylinders
          omega
        drive := dl
        segment := by omega }
  · unfold Request.block secPista heads
    omega

/-- Everything that has been read is in its place, and by valid requests. -/
structure Brought (disk initial : Nat → UInt8) (loader : Loader) (n : Nat) : Prop
    extends At loader n where
  memory : ∀ address, loader.memory address =
    if kernelStart ≤ address ∧ address < kernelStart + sectorSize * n then
      disk (sectorSize + (address - kernelStart))
    else initial address
  requests : ∀ request ∈ loader.requests, request.Valid ∧ kernelStart ≤ request.buffer ∧
    request.buffer + request.size ≤ kernelStart + sectorSize * n

theorem Brought.beginning (disk initial : Nat → UInt8) :
    Brought disk initial (Loader.beginning sysseg initial) 0 where
  es := rfl
  bx := rfl
  sread := rfl
  head := rfl
  track := rfl
  memory address := by rw [if_neg (by omega)]; rfl
  requests request member := by
    cases member

variable {disk initial : Nat → UInt8}

theorem Brought.ok1Read (brought : Brought disk initial loader n) (bios : Bios disk)
    (near : n ≤ 1024) : Brought disk initial (loader.ok1Read bios) (n + share n) := by
  have count := brought.portion
  rcases brought.request count near with ⟨valid, buffer, size, block⟩
  have place : At (loader.readTrack bios loader.portion) n :=
    ⟨brought.es, brought.bx, brought.sread, brought.head, brought.track⟩
  rcases place.countSectors count (by omega) with ⟨sread, head, track⟩
  rcases countSectors_frame (loader.readTrack bios loader.portion) loader.portion with
    ⟨sameEs, sameBx, counted, sameRequests⟩
  rcases @advance_buffer ((loader.readTrack bios loader.portion).countSectors loader.portion) n
    loader.portion count near (by rw [sameEs]; exact brought.es)
    (by rw [sameBx]; exact brought.bx) with ⟨es, bx⟩
  rcases advance_frame ((loader.readTrack bios loader.portion).countSectors loader.portion)
    loader.portion with ⟨sameSread, sameHead, sameTrack, sameMemory, requests⟩
  have memory : (loader.ok1Read bios).memory =
      bios.int13 (loader.request loader.portion) loader.memory := sameMemory.trans counted
  have made : (loader.ok1Read bios).requests =
      loader.requests ++ [loader.request loader.portion] := requests.trans sameRequests
  refine ⟨⟨es, bx, ?_, ?_, ?_⟩, ?_, ?_⟩
  · exact (congrArg BitVec.toNat sameSread).trans sread
  · exact (congrArg BitVec.toNat sameHead).trans head
  · exact (congrArg BitVec.toNat sameTrack).trans track
  · intro address
    have range : (loader.request loader.portion).Covers address ↔
        kernelStart + sectorSize * n ≤ address ∧
          address < kernelStart + sectorSize * n + sectorSize * share n := by
      rw [← size, ← buffer]
      exact Iff.rfl
    rw [memory, bios.reads _ _ valid, brought.memory, buffer, block]
    unfold sectorSize at *
    by_cases inside : (loader.request loader.portion).Covers address
    · rw [if_pos inside]
      have within := range.mp inside
      rw [if_pos (by omega)]
      exact congrArg disk (by omega)
    · rw [if_neg inside]
      rw [range] at inside
      by_cases earlier : kernelStart ≤ address ∧ address < kernelStart + 512 * n
      · rw [if_pos earlier, if_pos (by omega)]
      · rw [if_neg earlier, if_neg (by omega)]
  · intro request member
    rw [made, List.mem_append, List.mem_singleton] at member
    rcases member with earlier | same
    · rcases brought.requests request earlier with ⟨validEarlier, above, below⟩
      refine ⟨validEarlier, above, ?_⟩
      unfold sectorSize at *
      omega
    · rw [same, buffer, size]
      refine ⟨valid, Nat.le_add_right _ _, ?_⟩
      unfold sectorSize
      omega

theorem At.goesOn (place : loader.At n) (near : n ≤ 1024) (syssize : BitVec 16) :
    loader.es - sysseg ≤ syssize ↔ 4096 * (n / 128) ≤ syssize.toNat := by
  have es := place.es
  have start : sysseg.toNat = 4096 := rfl
  have distance : (loader.es - sysseg).toNat = 4096 * (n / 128) := by
    rw [BitVec.toNat_sub_of_le (by rw [BitVec.le_def, start, es]; omega), start, es]
    omega
  rw [BitVec.le_def, distance]

end Pass

/-! ## The whole routine -/

/-- Where the boot sector has moved itself, with its variables. -/
def initseg : Nat := 0x9000
def bootSector : Nat := 16 * initseg

theorem loaderBounds : bootSector = 589824 ∧ kernelStart = 65536 ∧ sectorSize = 512 := by
  decide

/-- `read_it` returns with as many whole segments in memory as `syssize` begins, has changed
nothing else, and has asked for nothing that the diskette cannot give or that would lie over
the boot sector. -/
structure Loads {disk : Nat → UInt8} (bios : Bios disk) (syssize : BitVec 16)
    (initial : Nat → UInt8) (final : Loader) : Prop where
  returns : final ∈ readIt bios syssize sysseg initial
  memory : ∀ address, final.memory address =
    if kernelStart ≤ address ∧ address < kernelStart + 65536 * (syssize.toNat / 4096 + 1) then
      disk (sectorSize + (address - kernelStart))
    else initial address
  requests : ∀ request ∈ final.requests, request.Valid ∧
    request.buffer + request.size ≤ bootSector

section Whole

variable {disk : Nat → UInt8} (bios : Bios disk) (syssize : BitVec 16) (initial : Nat → UInt8)

theorem readIt_eq : readIt bios syssize sysseg initial =
    eval (rpRead bios syssize) (beginning sysseg initial) :=
  if_neg (by decide)

/-- The invariant of the loop, in a loader of which nothing more than `limit` is read. -/
def Underway (disk initial : Nat → UInt8) (limit : Nat) (loader : Loader) : Prop :=
  ∃ n ≤ limit, Brought disk initial loader n

theorem share_le {n segments : Nat} (below : n < 128 * segments) :
    n + share n ≤ 128 * segments := by
  have most : share n ≤ 128 - n % 128 := Nat.min_le_right _ _
  omega

/-- What is left to read, from the segment and the offset. -/
def remaining (loader : Loader) : Nat :=
  65536 * 10 - (16 * loader.es.toNat + loader.bx.toNat)

theorem At.remaining {loader : Loader} {n : Nat} (place : loader.At n) :
    loader.remaining = 65536 * 10 - (65536 + 512 * n) := by
  have es := place.es
  have bx := place.bx
  unfold sectorSize at bx
  unfold Loader.remaining
  omega

variable {bios syssize initial}

theorem rpRead_eq_some {loader after : Loader} : rpRead bios syssize loader = some after ↔
    loader.es - sysseg ≤ syssize ∧ loader.ok1Read bios = after := by
  unfold rpRead
  split
  · rename_i goesOn
    rw [Option.some.injEq]
    exact (and_iff_right goesOn).symm
  · rename_i returns
    constructor
    · intro passed
      cases passed
    · intro both
      exact absurd both.1 returns

theorem Brought.remaining_lt {loader after : Loader} {n : Nat} (near : n ≤ 1024)
    (before : Brought disk initial loader n) (later : Brought disk initial after (n + share n)) :
    after.remaining < loader.remaining := by
  have positive := share_pos n
  rw [before.remaining, later.remaining]
  omega

theorem Underway.pass {segments : Nat} (few : segments ≤ 8) {loader after : Loader}
    (underway : Underway disk initial (128 * segments) loader)
    (enough : ∀ n, 4096 * (n / 128) ≤ syssize.toNat → n ≤ 128 * segments → n < 128 * segments)
    (passed : rpRead bios syssize loader = some after) :
    Underway disk initial (128 * segments) after ∧ after.remaining < loader.remaining := by
  rcases underway with ⟨n, within, brought⟩
  rcases rpRead_eq_some.mp passed with ⟨goesOn, same⟩
  have below := enough n ((brought.goesOn (by omega) syssize).mp goesOn) within
  have later := brought.ok1Read bios (by omega)
  rw [same] at later
  exact ⟨⟨_, share_le below, later⟩, brought.remaining_lt (by omega) later⟩

theorem loads_of_lt (below : syssize.toNat < 0x8000) :
    ∃ final, Loads bios syssize initial final := by
  have begins : Underway disk initial (128 * (syssize.toNat / 4096 + 1))
      (beginning sysseg initial) := ⟨0, Nat.zero_le _, Brought.beginning disk initial⟩
  have keeps : ∀ before after,
      Underway disk initial (128 * (syssize.toNat / 4096 + 1)) before →
      rpRead bios syssize before = some after →
      Underway disk initial (128 * (syssize.toNat / 4096 + 1)) after ∧
        after.remaining < before.remaining := by
    intro before after underway passed
    exact underway.pass (by omega) (fun n goesOn within => by omega) passed
  rcases exists_mem_eval keeps begins with ⟨final, ends, left, n, within, brought⟩
  have whole : n = 128 * (syssize.toNat / 4096 + 1) := by
    have stays : ¬final.es - sysseg ≤ syssize := by
      intro goesOn
      rw [rpRead, if_pos goesOn] at left
      cases left
    rw [brought.goesOn (by omega)] at stays
    omega
  subst whole
  refine ⟨final, ?_, ?_, ?_⟩
  · rw [readIt_eq]
    exact ends
  · intro address
    have size : sectorSize * (128 * (syssize.toNat / 4096 + 1)) =
        65536 * (syssize.toNat / 4096 + 1) := by
      unfold sectorSize
      omega
    rw [brought.memory, size]
  · intro request member
    rcases brought.requests request member with ⟨valid, -, behind⟩
    have bounds := loaderBounds
    rw [bounds.2.2] at behind
    exact ⟨valid, by omega⟩

theorem requests_kept {before final : Loader} {request : Request}
    (reaches : Reaches (rpRead bios syssize) before final) (made : request ∈ before.requests) :
    request ∈ final.requests := by
  refine @invariant_of_reaches _ _ (fun loader => request ∈ loader.requests) _ _ ?_ reaches made
  intro loader after member passed
  rcases rpRead_eq_some.mp passed with ⟨-, same⟩
  have frame := (advance_frame ((loader.readTrack bios loader.portion).countSectors loader.portion)
    loader.portion).2.2.2.2
  have counted := (countSectors_frame (loader.readTrack bios loader.portion) loader.portion).2.2.2
  rw [← same, Loader.ok1Read, frame, counted]
  exact List.mem_append_left _ member

theorem not_loads (above : 0x8000 ≤ syssize.toNat) {final : Loader} :
    ¬Loads bios syssize initial final := by
  intro loads
  have begins : Underway disk initial (128 * 8) (beginning sysseg initial) :=
    ⟨0, Nat.zero_le _, Brought.beginning disk initial⟩
  have goesOn : ∀ before, Underway disk initial (128 * 8) before →
      ¬Brought disk initial before 1024 → ∃ after, rpRead bios syssize before = some after ∧
        Underway disk initial (128 * 8) after ∧ after.remaining < before.remaining := by
    rintro before ⟨n, within, brought⟩ short
    have below : n < 1024 := by
      apply Nat.lt_of_le_of_ne within
      intro same
      rw [same] at brought
      exact short brought
    have passed : rpRead bios syssize before = some (before.ok1Read bios) :=
      rpRead_eq_some.mpr ⟨(brought.goesOn within syssize).mpr (by omega), rfl⟩
    have later := brought.ok1Read bios within
    exact ⟨_, passed, ⟨_, @share_le n 8 below, later⟩, brought.remaining_lt within later⟩
  rcases reaches_goal goesOn begins with ⟨full, reaches, brought, -⟩
  have passed : rpRead bios syssize full = some (full.ok1Read bios) :=
    rpRead_eq_some.mpr ⟨(brought.goesOn (Nat.le_refl _) syssize).mpr (by omega), rfl⟩
  rcases brought.request brought.portion (Nat.le_refl _) with ⟨-, buffer, size, -⟩
  have made : full.request full.portion ∈ (full.ok1Read bios).requests := by
    have frame := (advance_frame ((full.readTrack bios full.portion).countSectors full.portion)
      full.portion).2.2.2.2
    have counted := (countSectors_frame (full.readTrack bios full.portion) full.portion).2.2.2
    rw [Loader.ok1Read, frame, counted]
    exact List.mem_append_right _ (List.mem_singleton_self _)
  have returns := loads.returns
  rw [readIt_eq] at returns
  have last := requests_kept (reaches_final (reaches.tail passed) returns) made
  have apart := (loads.requests _ last).2
  have positive := share_pos 1024
  have bounds := loaderBounds
  rw [buffer, size, bounds.2.2] at apart
  omega

end Whole

end Loader

open Loader

/-- The loader brings everything that `syssize` asks for exactly when that fits below the
boot sector. -/
theorem systemLoaded {disk : Nat → UInt8} (bios : Bios disk) (syssize : BitVec 16)
    (initial : Nat → UInt8) :
    (∃ final, Loads bios syssize initial final) ↔ syssize.toNat < 0x8000 := by
  constructor
  · rintro ⟨final, loads⟩
    by_contra above
    exact not_loads (Nat.not_lt.mp above) loads
  · exact loads_of_lt

theorem systemLoaded_sizes :
    (∃ final, Loads (Bios.plain fun _ => 7) 0x1234 (fun _ => 0) final) ∧
      ¬∃ final, Loads (Bios.plain fun _ => 7) 0x8000 (fun _ => 0) final :=
  ⟨(systemLoaded _ _ _).mpr (by decide), mt (systemLoaded _ _ _).mp (by decide)⟩

/-! ## From the diskette to user memory -/

/-- A machine at the end of start-up, which has written to the kernel's own data only: the
header and what follows the system are as the loader left them, and their pages are not
the protected ones. -/
structure Machine.StartedFrom (machine : Machine) (memory : Nat → UInt8) (sysSize : Nat) :
    Prop where
  kept : ∀ j, j < 12 ∨ sysSize ≤ j →
    machine.physical (kernelStart + j) = memory (kernelStart + j)
  unprotected : ∀ j, j < 12 ∨ sysSize ≤ j →
    (kernelStart + j) / pageSize ≠ machine.protectedTasks ∧
      (kernelStart + j) / pageSize ≠ machine.protectedTasks + 11

section Delivery

variable {bootsect system user image : List UInt8} {disk : Nat → UInt8} {bios : Bios disk}
  {initial : Nat → UInt8} {machine : Machine} {final : Loader}

theorem loaded_of_loads (loads : Loads bios (BitVec.ofNat 16 (syssize image)) initial final)
    (onDisk : ∀ k byte, image[k]? = some byte → disk k = byte) {sysSize : Nat}
    (started : machine.StartedFrom final.memory sysSize) : machine.Loaded image sysSize where
  bytes j below part byte here := by
    have bounds := loaderBounds
    have size : (BitVec.ofNat 16 (syssize image)).toNat = syssize image :=
      Nat.mod_eq_of_lt (syssize_lt image)
    have inside : kernelStart ≤ kernelStart + j ∧
        kernelStart + j < kernelStart + 65536 * (syssize image / 4096 + 1) := by
      omega
    rw [started.kept j part, loads.memory, size, if_pos inside, Nat.add_sub_cancel_left]
    exact onDisk _ _ here
  unprotected := started.unprotected

theorem imageFits_of_small (small : system.length + user.length ≤ 524272)
    (pages : user.length ≤ (numPagCode + numPagData) * pageSize) :
    ImageFits system.length user where
  paragraphs := by omega
  pages := pages
  above k above below position := by
    have bounds := imageBounds
    omega

end Delivery

def Machine.starting (memory : Nat → UInt8) : Machine :=
  { Machine.sample with ram frame offset := memory (frame * pageSize + offset) }

theorem Machine.starting_startedFrom (memory : Nat → UInt8) {sysSize : Nat}
    (large : 65536 ≤ sysSize) : (Machine.starting memory).StartedFrom memory sysSize where
  kept j _ := by
    have position : (kernelStart + j) / pageSize * pageSize + (kernelStart + j) % pageSize =
        kernelStart + j := Nat.div_add_mod' _ _
    change memory (_ * pageSize + _) = _
    rw [position]
  unprotected j part := by
    have bounds := imageBounds
    change _ ≠ 17 ∧ _ ≠ 28
    unfold pageSize
    omega

end Zeos
