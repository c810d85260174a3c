import Mathlib

/-! # Circular doubly linked lists with embedded links

A family of rings threaded through nodes that carry their own `next` and `prev`
pointers. Every ring has a head node that belongs to no element; elements are
entry nodes. `Represents` says which sequence of entries each ring holds, and
the splicing lemmas say how the two elementary pointer updates change those
sequences.
-/

namespace Foundation

universe u v

/-- A node of a ring: the head of one of the lists, or the links embedded in
an element. -/
inductive Node (Q : Type u) (T : Type v)
  | head (list : Q)
  | entry (element : T)
  deriving DecidableEq

/-- The two pointers of a node; `none` is the null pointer. -/
@[ext]
structure Link (Q : Type u) (T : Type v) where
  next : Option (Node Q T)
  prev : Option (Node Q T)

structure Links (Q : Type u) (T : Type v) where
  node : Node Q T → Link Q T

variable {Q : Type u} {T : Type v}

instance : CoeFun (Links Q T) fun _ => Node Q T → Link Q T := ⟨Links.node⟩

namespace Links

section Updates

variable [DecidableEq Q] [DecidableEq T]

def setNext (links : Links Q T) (node : Node Q T) (target : Option (Node Q T)) :
    Links Q T :=
  ⟨Function.update links.node node { links node with next := target }⟩

def setPrev (links : Links Q T) (node : Node Q T) (target : Option (Node Q T)) :
    Links Q T :=
  ⟨Function.update links.node node { links node with prev := target }⟩

@[simp] theorem setNext_next (links : Links Q T) (node other : Node Q T)
    (target : Option (Node Q T)) :
    (links.setNext node target other).next =
      if other = node then target else (links other).next := by
  by_cases same : other = node <;> simp [setNext, same]

@[simp] theorem setNext_prev (links : Links Q T) (node other : Node Q T)
    (target : Option (Node Q T)) :
    (links.setNext node target other).prev = (links other).prev := by
  by_cases same : other = node <;> simp [setNext, same]

@[simp] theorem setPrev_prev (links : Links Q T) (node other : Node Q T)
    (target : Option (Node Q T)) :
    (links.setPrev node target other).prev =
      if other = node then target else (links other).prev := by
  by_cases same : other = node <;> simp [setPrev, same]

@[simp] theorem setPrev_next (links : Links Q T) (node other : Node Q T)
    (target : Option (Node Q T)) :
    (links.setPrev node target other).next = (links other).next := by
  by_cases same : other = node <;> simp [setPrev, same]

/-- Link `new` in between two nodes, in the order of the four assignments of
the usual insertion routine. -/
def spliceIn (links : Links Q T) (new prev next : Node Q T) : Links Q T :=
  (((links.setPrev next (some new)).setNext new (some next)).setPrev new
    (some prev)).setNext prev (some new)

def spliceOut (links : Links Q T) (prev next : Node Q T) : Links Q T :=
  (links.setPrev next (some prev)).setNext prev (some next)

end Updates

/-! ## Chains of nodes -/

/-- `left` and `right` are neighbours in both directions. -/
def Joined (links : Links Q T) (left right : Node Q T) : Prop :=
  (links left).next = some right ∧ (links right).prev = some left

instance [DecidableEq Q] [DecidableEq T] (links : Links Q T) (left right : Node Q T) :
    Decidable (links.Joined left right) :=
  inferInstanceAs (Decidable (_ ∧ _))

/-- Consecutive nodes of `nodes` are neighbours. -/
def Chain (links : Links Q T) (nodes : List (Node Q T)) : Prop :=
  nodes.IsChain links.Joined

instance [DecidableEq Q] [DecidableEq T] (links : Links Q T) (nodes : List (Node Q T)) :
    Decidable (links.Chain nodes) :=
  inferInstanceAs (Decidable (nodes.IsChain links.Joined))

/-- A chain only depends on the forward pointers of all but its last node and
on the backward pointers of all but its first. -/
theorem Chain.congr {links other : Links Q T} {nodes : List (Node Q T)}
    (chain : links.Chain nodes)
    (sameNext : ∀ node ∈ nodes.dropLast, (other node).next = (links node).next)
    (samePrev : ∀ node ∈ nodes.tail, (other node).prev = (links node).prev) :
    other.Chain nodes := by
  unfold Chain at chain ⊢
  induction nodes with
  | nil => exact .nil
  | cons first rest induction =>
      cases rest with
      | nil => exact .singleton _
      | cons second rest =>
          rw [List.isChain_cons_cons] at chain ⊢
          refine ⟨⟨?_, ?_⟩, induction chain.2 ?_ ?_⟩
          · rw [sameNext first (by simp)]
            exact chain.1.1
          · rw [samePrev second (by simp)]
            exact chain.1.2
          · intro node member
            exact sameNext node (by simp [List.dropLast_cons_cons, member])
          · intro node member
            exact samePrev node (List.mem_cons_of_mem _ member)

theorem chain_split {links : Links Q T} {before after : List (Node Q T)}
    {left right : Node Q T} :
    links.Chain (before ++ left :: right :: after) ↔
      links.Chain (before ++ [left]) ∧ links.Joined left right ∧
        links.Chain (right :: after) :=
  List.isChain_append_cons_cons

/-! A ring is written with its head at both ends, so its nodes are listed once
each as the ones that point forward (all but the last) and once each as the
ones that point back (all but the first). -/

private theorem forward_nodup {before rest : List (Node Q T)} {left right : Node Q T}
    (nodup : (before ++ left :: right :: rest).dropLast.Nodup) :
    left ∉ before ∧ left ∉ (right :: rest).dropLast := by
  have parts : (before ++ left :: (right :: rest).dropLast).Nodup := by
    simpa [List.dropLast_append_cons] using nodup
  rcases List.nodup_append.mp parts with ⟨-, backNodup, apart⟩
  exact ⟨fun member => apart left member left (by simp) rfl,
    (List.nodup_cons.mp backNodup).1⟩

private theorem backward_nodup {before rest : List (Node Q T)} {left : Node Q T}
    (nodup : (before ++ left :: rest).tail.Nodup) :
    rest.Nodup ∧ ∀ node ∈ rest, node ∉ (before ++ [left]).tail := by
  cases before with
  | nil => exact ⟨nodup, by simp⟩
  | cons first before =>
      have parts : ((before ++ [left]) ++ rest).Nodup := by simpa using nodup
      rcases List.nodup_append.mp parts with ⟨-, restNodup, apart⟩
      exact ⟨restNodup, fun node member front => apart node front node member rfl⟩

theorem Chain.congr_nodes {links other : Links Q T} {nodes : List (Node Q T)}
    (chain : links.Chain nodes) (same : ∀ node ∈ nodes, other node = links node) :
    other.Chain nodes :=
  chain.congr (fun node member => by rw [same node (List.dropLast_subset _ member)])
    (fun node member => by rw [same node (List.mem_of_mem_tail member)])

section Splicing

variable [DecidableEq Q] [DecidableEq T]

/-- Splicing an outside node in between two neighbours of a ring extends the
ring by that node. -/
theorem Chain.spliceIn {links : Links Q T} {before after : List (Node Q T)}
    {new left right : Node Q T}
    (chain : links.Chain (before ++ left :: right :: after))
    (forwardNodup : (before ++ left :: right :: after).dropLast.Nodup)
    (backwardNodup : (before ++ left :: right :: after).tail.Nodup)
    (outside : new ∉ before ++ left :: right :: after) :
    (links.spliceIn new left right).Chain (before ++ left :: new :: right :: after) := by
  rcases chain_split.mp chain with ⟨front, -, back⟩
  rcases forward_nodup forwardNodup with ⟨leftFront, leftBack⟩
  rcases backward_nodup backwardNodup with ⟨restNodup, frontApart⟩
  simp only [List.mem_append, List.mem_cons, not_or] at outside
  rcases outside with ⟨newBefore, newLeft, newRight, newAfter⟩
  refine chain_split.mpr ⟨front.congr ?_ ?_, ?_,
    List.isChain_cons_cons.mpr ⟨?_, back.congr ?_ ?_⟩⟩
  · intro node member
    rw [List.dropLast_concat] at member
    have notLeft : node ≠ left := fun same => leftFront (same ▸ member)
    have notNew : node ≠ new := fun same => newBefore (same ▸ member)
    simp [Links.spliceIn, notLeft, notNew]
  · intro node member
    have notRight : node ≠ right := fun same => frontApart right (by simp) (same ▸ member)
    have notNew : node ≠ new := by
      intro same
      subst same
      have member := List.mem_of_mem_tail member
      simp only [List.mem_append, List.mem_singleton] at member
      exact member.elim newBefore newLeft
    simp [Links.spliceIn, notRight, notNew]
  · constructor <;> simp [Links.spliceIn]
  · constructor
    · simp [Links.spliceIn, newLeft]
    · simp [Links.spliceIn, Ne.symm newRight]
  · intro node member
    have notLeft : node ≠ left := fun same => leftBack (same ▸ member)
    have notNew : node ≠ new := by
      intro same
      subst same
      have member := List.dropLast_subset _ member
      simp only [List.mem_cons] at member
      exact member.elim newRight newAfter
    simp [Links.spliceIn, notLeft, notNew]
  · intro node member
    rw [List.tail_cons] at member
    have notRight : node ≠ right := fun same =>
      (List.nodup_cons.mp restNodup).1 (same ▸ member)
    have notNew : node ≠ new := fun same => newAfter (same ▸ member)
    simp [Links.spliceIn, notRight, notNew]

theorem Chain.spliceOut {links : Links Q T} {before after : List (Node Q T)}
    {left middle right : Node Q T}
    (chain : links.Chain (before ++ left :: middle :: right :: after))
    (forwardNodup : (before ++ left :: middle :: right :: after).dropLast.Nodup)
    (backwardNodup : (before ++ left :: middle :: right :: after).tail.Nodup) :
    (links.spliceOut left right).Chain (before ++ left :: right :: after) := by
  rcases chain_split.mp chain with ⟨front, -, rest⟩
  have back : links.Chain (right :: after) := (List.isChain_cons_cons.mp rest).2
  rcases forward_nodup forwardNodup with ⟨leftFront, leftBack⟩
  rcases backward_nodup backwardNodup with ⟨restNodup, frontApart⟩
  refine chain_split.mpr ⟨front.congr ?_ ?_, ?_, back.congr ?_ ?_⟩
  · intro node member
    rw [List.dropLast_concat] at member
    have notLeft : node ≠ left := fun same => leftFront (same ▸ member)
    simp [Links.spliceOut, notLeft]
  · intro node member
    have notRight : node ≠ right := fun same => frontApart right (by simp) (same ▸ member)
    simp [Links.spliceOut, notRight]
  · constructor <;> simp [Links.spliceOut]
  · intro node member
    have notLeft : node ≠ left := by
      intro same
      subst same
      exact leftBack (by simp [member])
    simp [Links.spliceOut, notLeft]
  · intro node member
    rw [List.tail_cons] at member
    have notRight : node ≠ right := by
      intro same
      subst same
      exact (List.nodup_cons.mp (List.nodup_cons.mp restNodup).2).1 member
    simp [Links.spliceOut, notRight]

end Splicing

/-! ## Families of rings -/

def ringNodes (list : Q) (elements : List T) : List (Node Q T) :=
  .head list :: (elements.map .entry ++ [.head list])

@[simp] theorem ringNodes_dropLast (list : Q) (elements : List T) :
    (ringNodes list elements).dropLast = .head list :: elements.map .entry := by
  rw [ringNodes, ← List.cons_append, List.dropLast_concat]

@[simp] theorem ringNodes_tail (list : Q) (elements : List T) :
    (ringNodes list elements).tail = elements.map .entry ++ [.head list] := rfl

@[simp] theorem mem_ringNodes_entry {list : Q} {elements : List T} {element : T} :
    Node.entry element ∈ ringNodes list elements ↔ element ∈ elements := by
  simp [ringNodes]

@[simp] theorem mem_ringNodes_head {list other : Q} {elements : List T} :
    Node.head other ∈ ringNodes list elements ↔ other = list := by
  simp [ringNodes]

/-- Every head `list` heads a well-formed ring that holds `elements list`, and
no element is in two places. -/
structure Represents (links : Links Q T) (elements : Q → List T) : Prop where
  ring : ∀ list, links.Chain (ringNodes list (elements list))
  nodup : ∀ list, (elements list).Nodup
  apart : ∀ {left right element}, element ∈ elements left → element ∈ elements right →
    left = right

section Representation

variable {links : Links Q T} {elements : Q → List T}

private theorem map_entry_nodup {values : List T} (nodup : values.Nodup) :
    (values.map (.entry : T → Node Q T)).Nodup :=
  nodup.map fun _ _ same => Node.entry.inj same

theorem Represents.forwardNodup (represents : links.Represents elements) (list : Q) :
    (ringNodes list (elements list)).dropLast.Nodup := by
  rw [ringNodes_dropLast]
  exact List.nodup_cons.mpr ⟨by simp, map_entry_nodup (represents.nodup list)⟩

theorem Represents.backwardNodup (represents : links.Represents elements) (list : Q) :
    (ringNodes list (elements list)).tail.Nodup := by
  rw [ringNodes_tail]
  exact (map_entry_nodup (represents.nodup list)).append (List.nodup_singleton _) (by simp)

theorem Represents.head_next (represents : links.Represents elements) (list : Q) :
    (links (.head list)).next =
      some (match elements list with
        | [] => .head list
        | first :: _ => .entry first) := by
  have ring := represents.ring list
  cases contents : elements list with
  | nil =>
      simp only [contents, ringNodes, List.map_nil, List.nil_append] at ring
      exact (List.isChain_cons_cons.mp ring).1.1
  | cons first rest =>
      simp only [contents, ringNodes, List.map_cons, List.cons_append] at ring
      exact (List.isChain_cons_cons.mp ring).1.1

theorem Represents.head_prev (represents : links.Represents elements) (list : Q) :
    (links (.head list)).prev =
      some (match (elements list).getLast? with
        | none => .head list
        | some last => .entry last) := by
  have ring := represents.ring list
  rcases List.eq_nil_or_concat' (elements list) with contents | ⟨front, last, contents⟩
  · simp only [contents, ringNodes, List.map_nil, List.nil_append] at ring
    simpa [contents] using (List.isChain_cons_cons.mp ring).1.2
  · simp only [contents, ringNodes, List.map_append, List.map_cons, List.map_nil,
      List.append_assoc, ← List.cons_append] at ring
    simpa [contents] using (chain_split.mp ring).2.1.2

theorem exists_left (list : Q) (front : List T) :
    ∃ before left, Node.head list :: front.map .entry = before ++ [left] := by
  rcases List.eq_nil_or_concat' (Node.head list :: front.map .entry) with
    empty | ⟨before, left, equal⟩
  · cases empty
  · exact ⟨before, left, equal⟩

theorem exists_right (list : Q) (back : List T) :
    ∃ right after, back.map .entry ++ [Node.head list] = right :: after := by
  cases back with
  | nil => exact ⟨_, [], rfl⟩
  | cons first rest => exact ⟨_, _, rfl⟩

theorem Represents.joined (represents : links.Represents elements) {list : Q}
    {front back : List T} (contents : elements list = front ++ back)
    {left right : Node Q T} {before after : List (Node Q T)}
    (atLeft : .head list :: front.map .entry = before ++ [left])
    (atRight : back.map .entry ++ [.head list] = right :: after) :
    links.Joined left right := by
  have ring := represents.ring list
  rw [ringNodes, contents, List.map_append, List.append_assoc, atRight, ← List.cons_append,
    atLeft, List.append_assoc] at ring
  exact (chain_split.mp ring).2.1

theorem Represents.ringNodes_apart (represents : links.Represents elements)
    {list rest : Q} (different : rest ≠ list) {node : Node Q T}
    (member : node ∈ ringNodes rest (elements rest)) :
    node ∉ ringNodes list (elements list) := by
  cases node with
  | head name =>
      rw [mem_ringNodes_head] at member ⊢
      exact fun equal => different (member.symm.trans equal)
  | entry element =>
      rw [mem_ringNodes_entry] at member ⊢
      exact fun elsewhere => different (represents.apart member elsewhere)

/-! ## Reading a sequence off the pointers -/

/-- Follow the forward pointers through at most `capacity` entries. -/
def walk (links : Links Q T) : Nat → Node Q T → List T
  | 0, _ => []
  | capacity + 1, node =>
      match (links node).next with
      | some (.entry element) => element :: links.walk capacity (.entry element)
      | _ => []

theorem Chain.walk {list : Q} {values : List T} {node : Node Q T} {capacity : Nat}
    (chain : links.Chain (node :: (values.map .entry ++ [.head list])))
    (fits : values.length ≤ capacity) : links.walk capacity node = values := by
  induction values generalizing node capacity with
  | nil =>
      have next := (List.isChain_cons_cons.mp chain).1.1
      cases capacity with
      | zero => rfl
      | succ capacity => simp [Links.walk, next]
  | cons first rest induction =>
      rcases List.isChain_cons_cons.mp chain with ⟨joined, tail⟩
      cases capacity with
      | zero => simp at fits
      | succ capacity =>
          have restWalk := induction tail (by simpa using fits)
          simp [Links.walk, joined.1, restWalk]

theorem Represents.walk (represents : links.Represents elements) {list : Q} {capacity : Nat}
    (fits : (elements list).length ≤ capacity) :
    links.walk capacity (.head list) = elements list :=
  Chain.walk (represents.ring list) fits

theorem ringNodes_between {list : Q} {front back : List T} (middle : List T)
    {left right : Node Q T} {before after : List (Node Q T)}
    (atLeft : .head list :: front.map .entry = before ++ [left])
    (atRight : back.map .entry ++ [.head list] = right :: after) :
    ringNodes list (front ++ (middle ++ back)) =
      before ++ left :: (middle.map .entry ++ right :: after) := by
  rw [ringNodes, List.map_append, List.map_append, List.append_assoc, List.append_assoc, atRight,
    ← List.cons_append, atLeft, List.append_assoc]
  rfl

variable [DecidableEq Q] [DecidableEq T]

theorem spliceIn_untouched (links : Links Q T) {new left right node : Node Q T}
    (notNew : node ≠ new) (notLeft : node ≠ left) (notRight : node ≠ right) :
    links.spliceIn new left right node = links node := by
  simp [Links.spliceIn, setNext, setPrev, notNew, notLeft, notRight]

theorem spliceOut_untouched (links : Links Q T) {left right node : Node Q T}
    (notLeft : node ≠ left) (notRight : node ≠ right) :
    links.spliceOut left right node = links node := by
  simp [Links.spliceOut, setNext, setPrev, notLeft, notRight]

/-- Splicing an unlinked element between neighbours of one ring inserts it at
that place of the ring's sequence and changes no other sequence. -/
theorem Represents.spliceIn (represents : links.Represents elements)
    {list : Q} {element : T} {front back : List T}
    (unlinked : ∀ list, element ∉ elements list) (contents : elements list = front ++ back)
    {left right : Node Q T} {before after : List (Node Q T)}
    (atLeft : .head list :: front.map .entry = before ++ [left])
    (atRight : back.map .entry ++ [.head list] = right :: after) :
    (links.spliceIn (.entry element) left right).Represents
      (Function.update elements list (front ++ element :: back)) := by
  have nodes : ringNodes list (elements list) = before ++ left :: right :: after := by
    rw [contents]
    exact ringNodes_between [] atLeft atRight
  have extended : ringNodes list (front ++ element :: back) =
      before ++ left :: .entry element :: right :: after :=
    ringNodes_between [element] atLeft atRight
  have inside : left ∈ ringNodes list (elements list) ∧
      right ∈ ringNodes list (elements list) := by
    rw [nodes]
    simp
  have outside : ∀ list, Node.entry element ∉ ringNodes list (elements list) := fun list =>
    by simpa using unlinked list
  have freshFront : element ∉ front := fun member => unlinked list (by simp [contents, member])
  have freshBack : element ∉ back := fun member => unlinked list (by simp [contents, member])
  constructor
  · intro rest
    by_cases same : rest = list
    · subst same
      rw [Function.update_self, extended]
      apply Chain.spliceIn
      · rw [← nodes]
        exact represents.ring rest
      · rw [← nodes]
        exact represents.forwardNodup rest
      · rw [← nodes]
        exact represents.backwardNodup rest
      · rw [← nodes]
        exact outside rest
    · rw [Function.update_of_ne same]
      refine (represents.ring rest).congr_nodes fun node member => ?_
      have notInside := represents.ringNodes_apart same member
      exact spliceIn_untouched links (fun equal => outside rest (equal ▸ member))
        (fun equal => notInside (equal ▸ inside.1))
        (fun equal => notInside (equal ▸ inside.2))
  · intro rest
    by_cases same : rest = list
    · subst same
      have nodup := represents.nodup rest
      rw [contents] at nodup
      rw [Function.update_self]
      exact List.nodup_middle.mpr (List.nodup_cons.mpr ⟨by simp [freshFront, freshBack], nodup⟩)
    · rw [Function.update_of_ne same]
      exact represents.nodup rest
  · have origin : ∀ {rest other},
        other ∈ Function.update elements list (front ++ element :: back) rest →
        (other = element ∧ rest = list) ∨ other ∈ elements rest := by
      intro rest other member
      by_cases same : rest = list
      · subst same
        rw [Function.update_self] at member
        rw [contents]
        simp only [List.mem_append, List.mem_cons] at member ⊢
        tauto
      · rw [Function.update_of_ne same] at member
        exact .inr member
    intro first second other inFirst inSecond
    rcases origin inFirst with ⟨isNew, atList⟩ | oldFirst
    · rcases origin inSecond with ⟨-, alsoAtList⟩ | oldSecond
      · exact atList.trans alsoAtList.symm
      · exact absurd (isNew ▸ oldSecond) (unlinked second)
    · rcases origin inSecond with ⟨isNew, -⟩ | oldSecond
      · exact absurd (isNew ▸ oldFirst) (unlinked first)
      · exact represents.apart oldFirst oldSecond

/-- Making the neighbours of an element point at each other takes it out of its
sequence, whatever its own pointers become. -/
theorem Represents.spliceOut (represents : links.Represents elements)
    {list : Q} {element : T} {front back : List T}
    (contents : elements list = front ++ element :: back)
    {left right : Node Q T} {before after : List (Node Q T)}
    (atLeft : .head list :: front.map .entry = before ++ [left])
    (atRight : back.map .entry ++ [.head list] = right :: after)
    {other : Links Q T}
    (spliced : ∀ node, node ≠ .entry element → other node = links.spliceOut left right node) :
    other.Represents (Function.update elements list (front ++ back)) := by
  have nodes : ringNodes list (elements list) =
      before ++ left :: .entry element :: right :: after := by
    rw [contents]
    exact ringNodes_between [element] atLeft atRight
  have shortened : ringNodes list (front ++ back) = before ++ left :: right :: after :=
    ringNodes_between [] atLeft atRight
  have inside : left ∈ ringNodes list (elements list) ∧
      right ∈ ringNodes list (elements list) := by
    rw [nodes]
    simp
  have nodup := represents.nodup list
  rw [contents] at nodup
  have gone : element ∉ front ++ back := (List.nodup_cons.mp (List.nodup_middle.mp nodup)).1
  constructor
  · intro rest
    by_cases same : rest = list
    · subst same
      have chain := Chain.spliceOut (nodes ▸ represents.ring rest)
        (nodes ▸ represents.forwardNodup rest) (nodes ▸ represents.backwardNodup rest)
      rw [← shortened] at chain
      rw [Function.update_self]
      refine chain.congr ?_ ?_ <;> intro node member
      · have member := List.dropLast_subset _ member
        rw [spliced node]
        intro equal
        subst equal
        exact gone (by simpa using member)
      · have member := List.mem_of_mem_tail member
        rw [spliced node]
        intro equal
        subst equal
        exact gone (by simpa using member)
    · rw [Function.update_of_ne same]
      have elsewhere : ∀ node ∈ ringNodes rest (elements rest), other node = links node := by
        intro node member
        have notInside := represents.ringNodes_apart same member
        have notElement : node ≠ .entry element := by
          intro equal
          subst equal
          exact notInside (by rw [nodes]; simp)
        have notLeft : node ≠ left := fun equal => notInside (equal ▸ inside.1)
        have notRight : node ≠ right := fun equal => notInside (equal ▸ inside.2)
        rw [spliced node notElement, spliceOut_untouched links notLeft notRight]
      exact (represents.ring rest).congr_nodes elsewhere
  · intro rest
    by_cases same : rest = list
    · subst same
      rw [Function.update_self]
      exact (List.nodup_cons.mp (List.nodup_middle.mp nodup)).2
    · rw [Function.update_of_ne same]
      exact represents.nodup rest
  · have origin : ∀ {rest node}, node ∈ Function.update elements list (front ++ back) rest →
        node ∈ elements rest := by
      intro rest node member
      by_cases same : rest = list
      · subst same
        rw [Function.update_self] at member
        rw [contents]
        simp only [List.mem_append, List.mem_cons] at member ⊢
        tauto
      · rwa [Function.update_of_ne same] at member
    intro first second node inFirst inSecond
    exact represents.apart (origin inFirst) (origin inSecond)

end Representation

end Links

end Foundation
