import Zeos.Foundation.LinkedRing

/-! # Intrusive lists

The list routines work on the `list_head` structures that are embedded in task
structures and in queue heads. They come in two versions behind one interface:
the pointer updates of the source, and the plain sequences these stand for. The
second version also refuses every call that would corrupt the pointers, so code
that runs on it without a refusal uses its lists properly.
-/

namespace Zeos

open Foundation

variable {Q T : Type}

/-- What can go wrong in a list routine: the source follows a pointer that is
null or does not lead to a list element, or (checked sequences only) an entry is
linked twice, unlinked while it is in no list, or dropped with its list. -/
inductive ListFault
  | wildPointer
  | misuse
  deriving DecidableEq

/-! ## The pointer routines -/

section Pointers

variable [DecidableEq Q] [DecidableEq T]

def initListHead (links : Links Q T) (list : Q) : Links Q T :=
  (links.setNext (.head list) (some (.head list))).setPrev (.head list) (some (.head list))

/-- `__list_add`, an insertion between two known consecutive nodes, is
`Links.spliceIn`. -/
def listAdd (links : Links Q T) (new : T) (head : Q) : Except ListFault (Links Q T) :=
  match (links (.head head)).next with
  | none => .error .wildPointer
  | some next => .ok (links.spliceIn (.entry new) (.head head) next)

def listAddTail (links : Links Q T) (new : T) (head : Q) : Except ListFault (Links Q T) :=
  match (links (.head head)).prev with
  | none => .error .wildPointer
  | some prev => .ok (links.spliceIn (.entry new) prev (.head head))

/-- `__list_del` is `Links.spliceOut`; the entry's own pointers become null. -/
def listDel (links : Links Q T) (entry : T) : Except ListFault (Links Q T) :=
  match (links (.entry entry)).prev, (links (.entry entry)).next with
  | some prev, some next =>
      .ok (((links.spliceOut prev next).setNext (.entry entry) none).setPrev (.entry entry) none)
  | _, _ => .error .wildPointer

def listEmpty (links : Links Q T) (head : Q) : Bool :=
  (links (.head head)).next = some (.head head)

/-- `list_first` followed by `list_head_to_task_struct`. -/
def listFirst (links : Links Q T) (head : Q) : Except ListFault T :=
  match (links (.head head)).next with
  | some (.entry first) => .ok first
  | _ => .error .wildPointer

end Pointers

/-! ## Checked sequences -/

structure Sequences (Q T : Type) where
  elements : Q → List T

namespace Sequences

def Linked (sequences : Sequences Q T) (entry : T) : Prop :=
  ∃ list, entry ∈ sequences.elements list

instance [Fintype Q] [DecidableEq T] (sequences : Sequences Q T) (entry : T) :
    Decidable (sequences.Linked entry) :=
  inferInstanceAs (Decidable (∃ list, entry ∈ sequences.elements list))

def set [DecidableEq Q] (sequences : Sequences Q T) (list : Q) (contents : List T) :
    Sequences Q T :=
  ⟨Function.update sequences.elements list contents⟩

@[simp] theorem set_elements [DecidableEq Q] (sequences : Sequences Q T)
    (list other : Q) (contents : List T) :
    (sequences.set list contents).elements other =
      if other = list then contents else sequences.elements other := by
  by_cases same : other = list <;> simp [set, same]

def remove [DecidableEq T] (sequences : Sequences Q T) (entry : T) : Sequences Q T :=
  ⟨fun list => (sequences.elements list).erase entry⟩

@[simp] theorem remove_elements [DecidableEq T] (sequences : Sequences Q T)
    (entry : T) (list : Q) :
    (sequences.remove entry).elements list = (sequences.elements list).erase entry := rfl

end Sequences

/-! ## The common interface -/

/-- The list routines over some representation `σ` of a family of lists. -/
class ListOps (σ : Type) (Q T : outParam Type) where
  initHead : σ → Q → Except ListFault σ
  add : σ → T → Q → Except ListFault σ
  addTail : σ → T → Q → Except ListFault σ
  del : σ → T → Except ListFault σ
  isEmpty : σ → Q → Bool
  first : σ → Q → Except ListFault T

section Instances

variable [DecidableEq Q] [DecidableEq T]

instance : ListOps (Links Q T) Q T where
  initHead links list := .ok (initListHead links list)
  add := listAdd
  addTail := listAddTail
  del := listDel
  isEmpty := listEmpty
  first := listFirst

instance [Fintype Q] : ListOps (Sequences Q T) Q T where
  initHead sequences list :=
    if sequences.elements list = [] then .ok sequences else .error .misuse
  add sequences new head :=
    if sequences.Linked new then .error .misuse
    else .ok (sequences.set head (new :: sequences.elements head))
  addTail sequences new head :=
    if sequences.Linked new then .error .misuse
    else .ok (sequences.set head (sequences.elements head ++ [new]))
  del sequences entry :=
    if sequences.Linked entry then .ok (sequences.remove entry) else .error .misuse
  isEmpty sequences head := (sequences.elements head).isEmpty
  first sequences head :=
    match sequences.elements head with
    | [] => .error .misuse
    | first :: _ => .ok first

end Instances

end Zeos
