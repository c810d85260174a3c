import Mathlib

/-! # Files of bytes

Numbers as bytes, the lowest first, and writing at a position of a file.
-/

namespace Foundation

/-! ## Little-endian numbers -/

/-- The lowest `count` bytes of a number. -/
def lowBytes : Nat → Nat → List UInt8
  | 0, _ => []
  | count + 1, value => UInt8.ofNat value :: lowBytes count (value / 256)

def ofBytes : List UInt8 → Nat
  | [] => 0
  | byte :: bytes => byte.toNat + 256 * ofBytes bytes

@[simp] theorem lowBytes_length (count value : Nat) : (lowBytes count value).length = count := by
  induction count generalizing value with
  | zero => rfl
  | succ count induction => rw [lowBytes, List.length_cons, induction]

theorem ofBytes_lowBytes (count value : Nat) :
    ofBytes (lowBytes count value) = value % 256 ^ count := by
  induction count generalizing value with
  | zero =>
      rw [pow_zero, Nat.mod_one]
      rfl
  | succ count induction =>
      have lowest : (UInt8.ofNat value).toNat = value % 256 := UInt8.toNat_ofNat'
      rw [lowBytes, ofBytes, induction, lowest, pow_succ', Nat.mod_mul]

theorem ofBytes_append (bytes more : List UInt8) :
    ofBytes (bytes ++ more) = ofBytes bytes + 256 ^ bytes.length * ofBytes more := by
  induction bytes with
  | nil => simp [ofBytes]
  | cons byte bytes induction =>
      rw [List.cons_append, ofBytes, induction, ofBytes, List.length_cons, pow_succ']
      ring

theorem ofBytes_lt (bytes : List UInt8) : ofBytes bytes < 256 ^ bytes.length := by
  induction bytes with
  | nil => exact Nat.one_pos
  | cons byte bytes induction =>
      have small := byte.toNat_lt
      rw [ofBytes, List.length_cons, pow_succ']
      omega

/-! ## Parts of a file -/

theorem part_eq {file bytes : List UInt8} {offset : Nat}
    (here : ∀ k < bytes.length, file[offset + k]? = bytes[k]?) :
    (file.drop offset).take bytes.length = bytes := by
  apply List.ext_getElem?
  intro k
  by_cases within : k < bytes.length
  · rw [List.getElem?_take_of_lt within, List.getElem?_drop, here k within]
  · rw [List.getElem?_eq_none (Nat.not_lt.mp within), List.getElem?_eq_none]
    rw [List.length_take]
    omega

theorem map_range_eq (bytes : List UInt8) :
    (List.range bytes.length).map (fun k => bytes[k]?.getD 0) = bytes := by
  apply List.ext_getElem
  · simp
  · intro k _ within
    simp [within]

/-! ## Writing at a position -/

def overwrite (file : List UInt8) (offset : Nat) (bytes : List UInt8) : List UInt8 :=
  file.take offset ++ List.replicate (offset - file.length) 0 ++ bytes ++
    file.drop (offset + bytes.length)

section Overwrite

variable {file bytes : List UInt8} {offset : Nat}

theorem overwrite_of_le (inside : offset ≤ file.length) :
    overwrite file offset bytes =
      file.take offset ++ (bytes ++ file.drop (offset + bytes.length)) := by
  rw [overwrite, Nat.sub_eq_zero_of_le inside]
  simp

theorem overwrite_length (inside : offset + bytes.length ≤ file.length) :
    (overwrite file offset bytes).length = file.length := by
  rw [overwrite_of_le (by omega)]
  simp only [List.length_append, List.length_take, List.length_drop]
  omega

theorem overwrite_here (inside : offset ≤ file.length) {k : Nat} (within : k < bytes.length) :
    (overwrite file offset bytes)[offset + k]? = bytes[k]? := by
  rw [overwrite_of_le inside, List.getElem?_append_right (by simp), List.length_take,
    Nat.min_eq_left inside, Nat.add_sub_cancel_left, List.getElem?_append_left within]

theorem overwrite_elsewhere (inside : offset ≤ file.length) {k : Nat}
    (outside : k < offset ∨ offset + bytes.length ≤ k) :
    (overwrite file offset bytes)[k]? = file[k]? := by
  have length : (file.take offset).length = offset := by simp [inside]
  rw [overwrite_of_le inside]
  rcases outside with before | behind
  · rw [List.getElem?_append_left (by omega), List.getElem?_take_of_lt before]
  · rw [List.getElem?_append_right (by omega), length, List.getElem?_append_right (by omega),
      List.getElem?_drop]
    congr 1
    omega

end Overwrite

end Foundation
