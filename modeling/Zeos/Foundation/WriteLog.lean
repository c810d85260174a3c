import Mathlib

/-! # Logs of writes

A memory after a list of single writes. What it holds at an address is the latest
write to this address.
-/

namespace Foundation

namespace WriteLog

universe u v

variable {Address : Type u} {Value : Type v} [DecidableEq Address]

def writeAll (writes : List (Address × Value)) (memory : Address → Value) : Address → Value :=
  writes.foldl (fun memory write => Function.update memory write.1 write.2) memory

def latest (address : Address) : List (Address × Value) → Option Value
  | [] => none
  | write :: rest =>
      (latest address rest).or (if write.1 = address then some write.2 else none)

variable {address : Address} {memory : Address → Value} {writes more : List (Address × Value)}

@[simp] theorem writeAll_nil (memory : Address → Value) : writeAll [] memory = memory := rfl

theorem writeAll_append :
    writeAll (writes ++ more) memory = writeAll more (writeAll writes memory) :=
  List.foldl_append

theorem writeAll_apply :
    writeAll writes memory address = (latest address writes).getD (memory address) := by
  induction writes generalizing memory with
  | nil => rfl
  | cons write rest induction =>
      have first : writeAll (write :: rest) memory =
          writeAll rest (Function.update memory write.1 write.2) := rfl
      rw [first, induction, latest]
      cases latest address rest with
      | some value => rfl
      | none =>
          by_cases same : write.1 = address
          · simp [same]
          · have other : address ≠ write.1 := fun equal => same equal.symm
            simp [same, other]

theorem latest_eq_none (elsewhere : ∀ write ∈ writes, write.1 ≠ address) :
    latest address writes = none := by
  induction writes with
  | nil => rfl
  | cons write rest induction =>
      have here : write.1 ≠ address := elsewhere write List.mem_cons_self
      rw [latest, induction fun other member => elsewhere other (List.mem_cons_of_mem _ member),
        if_neg here]
      rfl

theorem writeAll_elsewhere (elsewhere : ∀ write ∈ writes, write.1 ≠ address) :
    writeAll writes memory address = memory address := by
  rw [writeAll_apply, latest_eq_none elsewhere]
  rfl

theorem writeAll_stands {value : Value}
    (stands : ∀ write ∈ more, write.1 ≠ address) :
    writeAll (writes ++ (address, value) :: more) memory address = value := by
  rw [writeAll_append]
  have first : writeAll ((address, value) :: more) (writeAll writes memory) =
      writeAll more (Function.update (writeAll writes memory) address value) := rfl
  rw [first, writeAll_elsewhere stands, Function.update_self]

end WriteLog

end Foundation
