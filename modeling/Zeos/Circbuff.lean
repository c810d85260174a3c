import Zeos.Sched

/-! # The keyboard ring as a queue

The characters in the ring are those that pops would return. Pushing appends to
them and popping removes the first.
-/

namespace Zeos

namespace Circbuff

def oldest : Nat → Circbuff → List UInt8
  | 0, _ => []
  | count + 1, ring => ring.front :: oldest count ring.pop

def contents (ring : Circbuff) : List UInt8 := ring.oldest ring.counter

/-- Both pointers are inside the buffer and `counter` apart. -/
structure WellFormed (ring : Circbuff) : Prop where
  first_lt : ring.first < circbuffSize
  last_eq : ring.last = (ring.first + ring.counter) % circbuffSize
  counter_le : ring.counter ≤ circbuffSize

variable {ring : Circbuff}

theorem empty_iff : ring.empty = true ↔ ring.counter = 0 := by
  simp [empty]

theorem full_iff : ring.full = true ↔ ring.counter = circbuffSize := by
  simp [full]

/-- The characters that the loop of a reader sees: none when there are 256 or more,
which it takes for an empty ring. -/
def visible (ring : Circbuff) : Nat := if ring.counter < 256 then ring.counter else 0

theorem visible_le : ring.visible ≤ ring.counter := by
  unfold visible
  split <;> omega

theorem visible_of_lt (few : ring.counter < 256) : ring.visible = ring.counter := if_pos few

theorem visible_of_le (many : 256 ≤ ring.counter) : ring.visible = 0 :=
  if_neg (Nat.not_lt.mpr many)

theorem emptyWord_eq_zero : ring.emptyWord = 0 ↔ ring.visible ≠ 0 := by
  unfold emptyWord empty visible
  by_cases zero : ring.counter = 0
  · simp [zero]
  · rw [if_neg (by simpa using zero)]
    split <;> omega

@[simp] theorem oldest_length (count : Nat) (ring : Circbuff) :
    (ring.oldest count).length = count := by
  induction count generalizing ring with
  | zero => rfl
  | succ count induction => simp [oldest, induction]

@[simp] theorem contents_length (ring : Circbuff) : ring.contents.length = ring.counter :=
  oldest_length _ _

theorem contents_empty (empty : ring.counter = 0) : ring.contents = [] := by
  apply List.eq_nil_of_length_eq_zero
  rw [contents_length, empty]

theorem pop_eq (notEmpty : ring.counter ≠ 0) :
    ring.pop = { ring with
      first := if ring.first + 1 ≥ circbuffSize then 0 else ring.first + 1
      counter := ring.counter - 1 } := by
  have open' : ring.empty = false := Bool.eq_false_iff.mpr fun empty =>
    notEmpty (empty_iff.mp empty)
  simp [pop, open']

theorem pop_counter (notEmpty : ring.counter ≠ 0) : ring.pop.counter = ring.counter - 1 := by
  rw [pop_eq notEmpty]

theorem contents_pop (notEmpty : ring.counter ≠ 0) :
    ring.contents = ring.front :: ring.pop.contents := by
  unfold contents
  rw [pop_counter notEmpty]
  cases count : ring.counter with
  | zero => exact absurd count notEmpty
  | succ rest => rfl

theorem pop_first (inside : ring.first < circbuffSize) (notEmpty : ring.counter ≠ 0) :
    ring.pop.first = (ring.first + 1) % circbuffSize := by
  rw [pop_eq notEmpty]
  dsimp only
  split
  · rename_i last
    rw [show ring.first + 1 = circbuffSize by omega, Nat.mod_self]
  · rename_i before
    rw [Nat.mod_eq_of_lt (by omega)]

namespace WellFormed

theorem pop (wellFormed : ring.WellFormed) (notEmpty : ring.counter ≠ 0) :
    ring.pop.WellFormed := by
  have size : circbuffSize = 666 := rfl
  have first := pop_first wellFormed.first_lt notEmpty
  have counter := pop_counter notEmpty
  have last : ring.pop.last = ring.last := by
    rw [pop_eq notEmpty]
  have bound := wellFormed.counter_le
  refine ⟨?_, ?_, ?_⟩
  · rw [first]
    exact Nat.mod_lt _ (by omega)
  · rw [last, wellFormed.last_eq, first, counter, Nat.mod_add_mod]
    congr 1
    omega
  · omega

theorem oldest_eq (wellFormed : ring.WellFormed) {count : Nat} (enough : count ≤ ring.counter) :
    ring.oldest count =
      (List.range count).map fun k => ring.keybuffer ((ring.first + k) % circbuffSize) := by
  induction count generalizing ring with
  | zero => rfl
  | succ count induction =>
      have notEmpty : ring.counter ≠ 0 := by omega
      have counter := pop_counter notEmpty
      have buffer : ring.pop.keybuffer = ring.keybuffer := by
        rw [pop_eq notEmpty]
      have later := induction (wellFormed.pop notEmpty) (by omega)
      have front : ring.keybuffer ((ring.first + 0) % circbuffSize) = ring.front := by
        rw [Nat.add_zero, Nat.mod_eq_of_lt wellFormed.first_lt]
        rfl
      rw [oldest, later, List.range_succ_eq_map, List.map_cons, List.map_map, front, buffer,
        pop_first wellFormed.first_lt notEmpty]
      congr 2
      funext k
      rw [Function.comp, Nat.mod_add_mod]
      congr 2
      omega

theorem push (wellFormed : ring.WellFormed) (room : ring.counter ≠ circbuffSize) (k : UInt8) :
    (ring.push k).WellFormed ∧ (ring.push k).contents = ring.contents ++ [k] := by
  have size : circbuffSize = 666 := rfl
  have bound := wellFormed.counter_le
  have inside := wellFormed.first_lt
  have notFull : ring.full = false := Bool.eq_false_iff.mpr fun full => room (full_iff.mp full)
  have lastInside : ring.last < circbuffSize := by
    rw [wellFormed.last_eq]
    exact Nat.mod_lt _ (by omega)
  have pushed : ring.push k =
      { keybuffer := Function.update ring.keybuffer ring.last k
        last := (ring.last + 1) % circbuffSize
        first := ring.first
        counter := ring.counter + 1 } := by
    have next : (if ring.last + 1 ≥ circbuffSize then 0 else ring.last + 1) =
        (ring.last + 1) % circbuffSize := by
      rw [size] at lastInside ⊢
      split <;> omega
    unfold Circbuff.push
    rw [notFull, next]
    rfl
  have still : (ring.push k).WellFormed := by
    rw [pushed]
    refine ⟨inside, ?_, by dsimp only; omega⟩
    dsimp only
    rw [wellFormed.last_eq, Nat.mod_add_mod]
    congr 1
  refine ⟨still, ?_⟩
  have older : ring.contents = _ := wellFormed.oldest_eq (Nat.le_refl ring.counter)
  have newer : (ring.push k).contents = _ := still.oldest_eq (Nat.le_refl _)
  rw [older, newer, pushed]
  dsimp only
  rw [List.range_succ, List.map_append, List.map_singleton, ← wellFormed.last_eq,
    Function.update_self]
  congr 1
  apply List.map_congr_left
  intro index below
  have before : index < ring.counter := List.mem_range.mp below
  apply Function.update_of_ne
  rw [wellFormed.last_eq]
  rw [size] at room bound inside ⊢
  omega

theorem push_counter (wellFormed : ring.WellFormed) (room : ring.counter ≠ circbuffSize)
    (k : UInt8) : (ring.push k).counter = ring.counter + 1 := by
  rw [← contents_length, (wellFormed.push room k).2, List.length_append, contents_length]
  rfl

end WellFormed

def pops : Nat → Circbuff → Circbuff
  | 0, ring => ring
  | count + 1, ring => pops count ring.pop

theorem pops_counter {count : Nat} (enough : count ≤ ring.counter) :
    (ring.pops count).counter = ring.counter - count := by
  induction count generalizing ring with
  | zero => rfl
  | succ count induction =>
      have notEmpty : ring.counter ≠ 0 := by omega
      have counter := pop_counter notEmpty
      rw [pops, induction (by omega)]
      omega

theorem pops_visible {count : Nat} (enough : count ≤ ring.visible) :
    (ring.pops count).visible = ring.visible - count := by
  by_cases few : ring.counter < 256
  · have counter := pops_counter (enough.trans visible_le)
    rw [visible_of_lt few] at enough ⊢
    rw [visible_of_lt (by omega), counter]
  · have none := visible_of_le (Nat.not_lt.mp few)
    have zero : count = 0 := by omega
    rw [zero, pops, none]

theorem few_of_pops {count : Nat} (enough : count ≤ ring.visible)
    (few : (ring.pops count).counter < 256) : ring.counter < 256 := by
  by_contra many
  have none := visible_of_le (Nat.not_lt.mp many)
  have counter := pops_counter (enough.trans visible_le)
  omega

theorem pop_visible (sees : ring.visible ≠ 0) : ring.pop.visible = ring.visible - 1 :=
  pops_visible (Nat.one_le_iff_ne_zero.mpr sees)

theorem contents_pops {count : Nat} (enough : count ≤ ring.counter) :
    ring.contents = ring.oldest count ++ (ring.pops count).contents := by
  induction count generalizing ring with
  | zero => rfl
  | succ count induction =>
      have notEmpty : ring.counter ≠ 0 := by omega
      have counter := pop_counter notEmpty
      rw [contents_pop notEmpty, oldest, pops, List.cons_append, ← induction (by omega)]

theorem WellFormed.pops (wellFormed : ring.WellFormed) {count : Nat}
    (enough : count ≤ ring.counter) : (ring.pops count).WellFormed := by
  induction count generalizing ring with
  | zero => exact wellFormed
  | succ count induction =>
      have notEmpty : ring.counter ≠ 0 := by omega
      have counter := pop_counter notEmpty
      exact induction (wellFormed.pop notEmpty) (by omega)

end Circbuff

end Zeos
