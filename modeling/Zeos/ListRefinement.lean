import Zeos.Foundation.Refines
import Zeos.List

/-! # The pointer routines implement sequences

Each list routine on pointers refines the routine on checked sequences.
-/

namespace Zeos

open Foundation Links

variable {Q T : Type} {links : Links Q T} {elements : Q → List T}

section Reading

variable [DecidableEq Q] [DecidableEq T]

theorem listEmpty_eq (represents : links.Represents elements) (list : Q) :
    listEmpty links list = (elements list).isEmpty := by
  have next := represents.head_next list
  cases contents : elements list with
  | nil => simp [listEmpty, next, contents]
  | cons first rest => simp [listEmpty, next, contents]

omit [DecidableEq Q] [DecidableEq T] in
theorem listFirst_eq (represents : links.Represents elements) {list : Q} {first : T}
    {rest : List T} (contents : elements list = first :: rest) :
    listFirst links list = .ok first := by
  have next := represents.head_next list
  simp [listFirst, next, contents]

end Reading

section Writing

variable [DecidableEq Q] [DecidableEq T]

theorem initListHead_represents (represents : links.Represents elements) {list : Q}
    (empty : elements list = []) : (initListHead links list).Represents elements := by
  have next := represents.head_next list
  have prev := represents.head_prev list
  simp only [empty, List.getLast?_nil] at next prev
  have same : initListHead links list = links := by
    have nodes : (initListHead links list).node = links.node := by
      funext node
      have nextSame : (initListHead links list node).next = (links node).next := by
        by_cases isHead : node = .head list <;> simp [initListHead, isHead, next]
      have prevSame : (initListHead links list node).prev = (links node).prev := by
        by_cases isHead : node = .head list <;> simp [initListHead, isHead, prev]
      exact Link.ext nextSame prevSame
    exact congrArg Links.mk nodes
  rwa [same]

theorem listAdd_represents (represents : links.Represents elements) {new : T}
    (unlinked : ∀ list, new ∉ elements list) (list : Q) :
    ∃ result, listAdd links new list = .ok result ∧
      result.Represents (Function.update elements list (new :: elements list)) := by
  rcases exists_right list (elements list) with ⟨right, after, atRight⟩
  have contents : elements list = [] ++ elements list := rfl
  have atLeft : Node.head list :: List.map .entry ([] : List T) = [] ++ [Node.head list] := rfl
  have joined := represents.joined contents atLeft atRight
  refine ⟨_, by simp only [listAdd, joined.1]; rfl, ?_⟩
  exact represents.spliceIn unlinked contents atLeft atRight

theorem listAddTail_represents (represents : links.Represents elements) {new : T}
    (unlinked : ∀ list, new ∉ elements list) (list : Q) :
    ∃ result, listAddTail links new list = .ok result ∧
      result.Represents (Function.update elements list (elements list ++ [new])) := by
  rcases exists_left list (elements list) with ⟨before, left, atLeft⟩
  have contents : elements list = elements list ++ [] := by simp
  have atRight : List.map .entry ([] : List T) ++ [Node.head list] = Node.head list :: [] := rfl
  have joined := represents.joined contents atLeft atRight
  refine ⟨_, by simp only [listAddTail, joined.2]; rfl, ?_⟩
  exact represents.spliceIn unlinked contents atLeft atRight

theorem erase_eq_update (represents : links.Represents elements) {entry : T} {list : Q}
    {front back : List T} (contents : elements list = front ++ entry :: back) :
    (fun other => (elements other).erase entry) =
      Function.update elements list (front ++ back) := by
  funext other
  by_cases same : other = list
  · subst same
    have nodup := represents.nodup other
    rw [contents] at nodup
    have notFront : entry ∉ front := fun inFront =>
      (List.nodup_cons.mp (List.nodup_middle.mp nodup)).1 (by simp [inFront])
    rw [Function.update_self, contents, List.erase_append_right _ notFront,
      List.erase_cons_head]
  · rw [Function.update_of_ne same]
    exact List.erase_of_not_mem fun elsewhere => same
      (represents.apart elsewhere (by rw [contents]; simp))

theorem listDel_represents (represents : links.Represents elements) {entry : T} {list : Q}
    (member : entry ∈ elements list) :
    ∃ result, listDel links entry = .ok result ∧
      result.Represents fun other => (elements other).erase entry := by
  rcases List.append_of_mem member with ⟨front, back, contents⟩
  rcases exists_left list front with ⟨before, left, atLeft⟩
  rcases exists_right list back with ⟨right, after, atRight⟩
  have entryRight : (entry :: back).map .entry ++ [Node.head list] =
      .entry entry :: (back.map .entry ++ [.head list]) := rfl
  have joinedLeft := represents.joined contents atLeft entryRight
  have shifted : elements list = (front ++ [entry]) ++ back := by simp [contents]
  have entryLeft : Node.head list :: (front ++ [entry]).map .entry =
      (before ++ [left]) ++ [.entry entry] := by simp [← atLeft]
  have joinedRight := represents.joined shifted entryLeft atRight
  refine ⟨_, by simp only [listDel, joinedLeft.2, joinedRight.1]; rfl, ?_⟩
  rw [erase_eq_update represents contents]
  refine represents.spliceOut contents atLeft atRight fun node different => ?_
  have nextSame : ((((links.spliceOut left right).setNext (.entry entry) none).setPrev
      (.entry entry) none) node).next = (links.spliceOut left right node).next := by
    simp [different]
  have prevSame : ((((links.spliceOut left right).setNext (.entry entry) none).setPrev
      (.entry entry) none) node).prev = (links.spliceOut left right node).prev := by
    simp [different]
  exact Link.ext nextSame prevSame

/-! ## The routines on a family of lists -/

/-- What the list routines do where the pointers represent the sequences `elements`: each
acts on one of them as on a sequence, and leaves pointers that represent the others as they
were, in both directions. -/
structure ListsImplemented (links : Links Q T) (elements : Q → List T) : Prop where
  addTail : ∀ new list, (∀ other, new ∉ elements other) →
    ∃ result, listAddTail links new list = .ok result ∧
      result.Represents (Function.update elements list (elements list ++ [new]))
  add : ∀ new list, (∀ other, new ∉ elements other) →
    ∃ result, listAdd links new list = .ok result ∧
      result.Represents (Function.update elements list (new :: elements list))
  del : ∀ entry list front back, elements list = front ++ entry :: back →
    ∃ result, listDel links entry = .ok result ∧
      result.Represents (Function.update elements list (front ++ back)) ∧
      result (.entry entry) = ⟨none, none⟩
  isEmpty : ∀ list, listEmpty links list = true ↔ elements list = []
  first : ∀ list first rest, elements list = first :: rest → listFirst links list = .ok first
  firstEmpty : ∀ list, elements list = [] → (links (.head list)).next = some (.head list)

theorem listDel_entry {entry : T} {result : Links Q T}
    (deleted : listDel links entry = .ok result) :
    result (.entry entry) = ⟨none, none⟩ := by
  unfold listDel at deleted
  split at deleted
  · cases deleted
    exact Link.ext (by simp) (by simp)
  · cases deleted

/-- The pointer routines implement the sequences that the pointers represent. -/
theorem listsImplement (represents : links.Represents elements) :
    ListsImplemented links elements where
  addTail _ list unlinked := listAddTail_represents represents unlinked list
  add _ list unlinked := listAdd_represents represents unlinked list
  del entry list front back contents := by
    have member : entry ∈ elements list := by
      rw [contents]
      simp
    rcases listDel_represents represents member with ⟨result, deleted, after⟩
    rw [erase_eq_update represents contents] at after
    exact ⟨result, deleted, after, listDel_entry deleted⟩
  isEmpty list := by rw [listEmpty_eq represents, List.isEmpty_iff]
  first _ _ _ contents := listFirst_eq represents contents
  firstEmpty list empty := by rw [represents.head_next, empty]

/-- Two entries in one list, and another list that is empty. -/
def twoLists : Links Bool Nat where
  node
    | .head true => ⟨some (.entry 7), some (.entry 3)⟩
    | .head false => ⟨some (.head false), some (.head false)⟩
    | .entry 7 => ⟨some (.entry 3), some (.head true)⟩
    | .entry 3 => ⟨some (.head true), some (.entry 7)⟩
    | .entry _ => ⟨none, none⟩

theorem listsImplement_two :
    ListsImplemented twoLists fun list => if list then [7, 3] else [] :=
  listsImplement ⟨by decide, by decide, fun {left right} => by
    cases left <;> cases right <;> simp⟩

end Writing

end Zeos
