import Zeos.Foundation.ByteFile

/-! # Building the image

`build.c`: the boot sector, the system and the user program in one file, with the
sizes patched in. The files are lists of bytes, all reads and writes of the host
succeed, and `none` stands for `die`.
-/

namespace Zeos

open Foundation

namespace Build

def minixHeaderLen : Nat := 32

def lb (header : List UInt8) (k : Nat) : Nat := ofBytes ((header.drop (4 * k)).take 4)

/-- What follows the header of a file in the format of `ld86`. -/
def minixOpen (file : List UInt8) : Option (List UInt8) :=
  let header := file.take minixHeaderLen
  if header.length ≠ minixHeaderLen then none
  else if header.take 8 ≠ [0x01, 0x03, 0x10, 0x04, 0x20, 0x00, 0x00, 0x00] ∨ lb header 5 ≠ 0 then
    none
  else if lb header 3 ≠ 0 then none
  else if lb header 4 ≠ 0 then none
  else if lb header 7 ≠ 0 then none
  else some (file.drop minixHeaderLen)

def bufSize : Nat := 1024

def copyFile (sz : Nat) (file : List UInt8) : Option (List UInt8) :=
  if sz > 0 then
    let l := if sz > bufSize then bufSize else sz
    let buf := file.take l
    if buf.length ≠ l then none
    else (copyFile (sz - l) (file.drop l)).map (buf ++ ·)
  else some []
termination_by sz
decreasing_by
  unfold bufSize
  split <;> omega

def stSize (file : List UInt8) : Nat := file.length % 4294967296

/-- The bytes patched in for a size, of which the highest is always 0. -/
def sizeField (size : Nat) : List UInt8 := lowBytes 3 size ++ [0]

/-- The output of `main`, when it returns 0. -/
def main (bootsect system user : List UInt8) : Option (List UInt8) := do
  let rest ← minixOpen bootsect
  let buf := rest.take bufSize
  if buf.length ≠ 512 then none
  else if buf[510]? ≠ some 0x55 ∨ buf[511]? ≠ some 0xaa then none
  else
    let minorRoot := 0
    let majorRoot := 0
    let buf := (buf.set 508 minorRoot).set 509 majorRoot
    let sysSize := stSize system
    let systemPart ← copyFile sysSize system
    let usrSize := stSize user
    let userPart ← copyFile usrSize user
    let imSize := (sysSize + usrSize + 15) % 4294967296 / 16
    let out := overwrite (buf ++ systemPart ++ userPart) 500 (lowBytes 2 imSize)
    let out := overwrite out 512 (sizeField sysSize)
    let out := overwrite out 516 (sizeField usrSize)
    return overwrite out 520 (sizeField 0x7E1B)

/-! ## What it writes -/

section Output

variable {bootsect system user image : List UInt8}

theorem copyFile_eq {sz : Nat} {file : List UInt8} (enough : sz ≤ file.length) :
    copyFile sz file = some (file.take sz) := by
  induction sz using Nat.strongRecOn generalizing file with
  | ind sz induction =>
      rw [copyFile]
      by_cases more : sz > 0
      · rw [if_pos more]
        dsimp only
        generalize chunk : (if sz > bufSize then bufSize else sz) = l
        have bounds : 0 < l ∧ l ≤ sz := by
          rw [← chunk]
          unfold bufSize
          split <;> omega
        have full : (file.take l).length = l := by
          rw [List.length_take]
          omega
        have later : sz - l ≤ (file.drop l).length := by
          rw [List.length_drop]
          omega
        rw [if_neg (not_not.mpr full), induction (sz - l) (by omega) later, Option.map_some,
          Option.some.injEq, ← List.take_add]
        congr 1
        omega
      · rw [if_neg more, show sz = 0 by omega, List.take_zero]

theorem copyFile_whole {file : List UInt8} (small : file.length < 4294967296) :
    copyFile (stSize file) file = some file ∧ stSize file = file.length := by
  have size : stSize file = file.length := Nat.mod_eq_of_lt small
  refine ⟨?_, size⟩
  rw [copyFile_eq (Nat.le_of_eq size), size, List.take_length]

@[simp] theorem sizeField_length (size : Nat) : (sizeField size).length = 4 := by
  simp [sizeField]

theorem ofBytes_sizeField {size : Nat} (small : size < 16777216) :
    ofBytes (sizeField size) = size := by
  rw [sizeField, ofBytes_append, ofBytes_lowBytes]
  exact (Nat.add_zero _).trans (Nat.mod_eq_of_lt small)

/-- The image with its header, of a system and a user program that are not too big. -/
structure Headed (system user image : List UInt8) : Prop where
  length : image.length = 512 + system.length + user.length
  imSize : ∀ k < 2, image[500 + k]? =
    (lowBytes 2 ((system.length + user.length + 15) / 16))[k]?
  sysSize : ∀ k < 4, image[512 + k]? = (sizeField system.length)[k]?
  usrSize : ∀ k < 4, image[516 + k]? = (sizeField user.length)[k]?
  parts : ∀ k, 12 ≤ k → image[512 + k]? = (system ++ user)[k]?

theorem headed_overwrite {sector : List UInt8} (whole : sector.length = 512)
    (room : 12 ≤ system.length) :
    Headed system user (overwrite (overwrite (overwrite (overwrite (sector ++ system ++ user) 500
      (lowBytes 2 ((system.length + user.length + 15) / 16))) 512 (sizeField system.length)) 516
        (sizeField user.length)) 520 (sizeField 0x7E1B)) := by
  have total : (sector ++ system ++ user).length = 512 + system.length + user.length := by
    rw [List.length_append, List.length_append, whole]
  have first := @overwrite_length (sector ++ system ++ user)
    (lowBytes 2 ((system.length + user.length + 15) / 16)) 500
    (by rw [total, lowBytes_length]; omega)
  generalize overwritten : overwrite (sector ++ system ++ user) 500
    (lowBytes 2 ((system.length + user.length + 15) / 16)) = out at first ⊢
  have second := @overwrite_length out (sizeField system.length) 512
    (by rw [first, total, sizeField_length]; omega)
  generalize overwritten' : overwrite out 512 (sizeField system.length) = out' at second ⊢
  have third := @overwrite_length out' (sizeField user.length) 516
    (by rw [second, first, total, sizeField_length]; omega)
  generalize overwritten'' : overwrite out' 516 (sizeField user.length) = out'' at third ⊢
  have fourth := @overwrite_length out'' (sizeField 0x7E1B) 520
    (by rw [third, second, first, total, sizeField_length]; omega)
  refine ⟨by omega, ?_, ?_, ?_, ?_⟩
  · intro k below
    rw [overwrite_elsewhere (by omega) (by rw [sizeField_length]; omega), ← overwritten'',
      overwrite_elsewhere (by omega) (by rw [sizeField_length]; omega), ← overwritten',
      overwrite_elsewhere (by omega) (by rw [sizeField_length]; omega), ← overwritten,
      overwrite_here (by omega) (by rw [lowBytes_length]; exact below)]
  · intro k below
    rw [overwrite_elsewhere (by omega) (by rw [sizeField_length]; omega), ← overwritten'',
      overwrite_elsewhere (by omega) (by rw [sizeField_length]; omega), ← overwritten',
      overwrite_here (by omega) (by rw [sizeField_length]; exact below)]
  · intro k below
    rw [overwrite_elsewhere (by omega) (by rw [sizeField_length]; omega), ← overwritten'',
      overwrite_here (by omega) (by rw [sizeField_length]; exact below)]
  · intro k behind
    rw [overwrite_elsewhere (by omega) (by rw [sizeField_length]; omega), ← overwritten'',
      overwrite_elsewhere (by omega) (by rw [sizeField_length]; omega), ← overwritten',
      overwrite_elsewhere (by omega) (by rw [sizeField_length]; omega), ← overwritten,
      overwrite_elsewhere (by omega) (by rw [lowBytes_length]; omega), List.append_assoc,
      List.getElem?_append_right (by omega), whole, Nat.add_sub_cancel_left]

theorem headed_of_main (built : main bootsect system user = some image)
    (room : 12 ≤ system.length) (small : system.length + user.length < 4294967280) :
    Headed system user image := by
  unfold main at built
  cases opened : minixOpen bootsect with
  | none =>
      rw [opened] at built
      cases built
  | some rest =>
      rw [opened] at built
      simp only [Option.bind_eq_bind, Option.bind_some] at built
      split at built
      · cases built
      · rename_i whole
        split at built
        · cases built
        · have copiedSystem := @copyFile_whole system (by omega)
          have copiedUser := @copyFile_whole user (by omega)
          have size : (system.length + user.length + 15) % 4294967296 =
              system.length + user.length + 15 := Nat.mod_eq_of_lt (by omega)
          rw [copiedSystem.1, copiedUser.1, copiedSystem.2, copiedUser.2, size] at built
          simp only [Option.bind_some, Option.pure_def, Option.some.injEq] at built
          rw [← built]
          apply headed_overwrite _ room
          rw [List.length_set, List.length_set]
          exact not_not.mp whole

end Output

end Build

end Zeos
