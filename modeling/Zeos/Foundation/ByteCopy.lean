import Zeos.Foundation.Refines

/-! # Copying byte by byte and word by word

A block copy that moves four bytes at a time while more than four remain, and
the rest one by one, over any memory that loads and stores bytes and may refuse
to.
-/

namespace Foundation

universe u v

structure ByteMemory (σ : Type u) (ε : Type v) where
  load : σ → Nat → Except ε UInt8
  store : σ → Nat → UInt8 → Except ε σ

namespace ByteMemory

variable {σ : Type} {ε : Type} (memory : ByteMemory σ ε)

def copyByte (source dest : Nat) (state : σ) : Except ε σ := do
  let byte ← memory.load state source
  memory.store state dest byte

def copyWord (source dest : Nat) (state : σ) : Except ε σ := do
  let byte0 ← memory.load state source
  let byte1 ← memory.load state (source + 1)
  let byte2 ← memory.load state (source + 2)
  let byte3 ← memory.load state (source + 3)
  let state ← memory.store state dest byte0
  let state ← memory.store state (dest + 1) byte1
  let state ← memory.store state (dest + 2) byte2
  memory.store state (dest + 3) byte3

def copyBytes : Nat → Nat → Nat → σ → Except ε σ
  | _, _, 0, state => .ok state
  | source, dest, size + 1, state => do
      let state ← memory.copyByte source dest state
      copyBytes (source + 1) (dest + 1) size state

def copy (source dest size : Nat) (state : σ) : Except ε σ :=
  if 4 < size then do
    let state ← memory.copyWord source dest state
    copy (source + 4) (dest + 4) (size - 4) state
  else
    memory.copyBytes source dest size state
termination_by size

/-! ## What a copy does

`stateAt done` is the state in which the first `done` bytes have arrived and
`value index` the byte to be copied at `index`.
-/

/-- How many bytes have arrived when the byte at `index` is loaded. The last bytes,
four at most, are copied one by one. -/
def arrived (total index : Nat) : Nat :=
  if index < 4 * ((total - 1) / 4) then 4 * (index / 4) else index

theorem arrived_le (total index : Nat) : arrived total index ≤ index := by
  unfold arrived
  split <;> omega

section Rule

variable {memory} {source dest total : Nat} {stateAt : Nat → σ} {value : Nat → UInt8}

/-- Every byte is loaded with its value when its turn comes. -/
def Loads (memory : ByteMemory σ ε) (source total : Nat) (stateAt : Nat → σ)
    (value : Nat → UInt8) : Prop :=
  ∀ index, index < total →
    memory.load (stateAt (arrived total index)) (source + index) = .ok (value index)

/-- The bytes that are still to be copied can be loaded with their values. -/
def Pending (memory : ByteMemory σ ε) (source total : Nat) (stateAt : Nat → σ)
    (value : Nat → UInt8) : Prop :=
  ∀ done index, done ≤ index → index < total →
    memory.load (stateAt done) (source + index) = .ok (value index)

def Advances (memory : ByteMemory σ ε) (dest total : Nat) (stateAt : Nat → σ)
    (value : Nat → UInt8) : Prop :=
  ∀ done, done < total →
    memory.store (stateAt done) (dest + done) (value done) = .ok (stateAt (done + 1))

theorem Pending.loads (pending : Pending memory source total stateAt value) :
    Loads memory source total stateAt value :=
  fun index inside => pending _ index (arrived_le total index) inside

theorem copyBytes_eq (loads : Loads memory source total stateAt value)
    (advances : Advances memory dest total stateAt value) (size done : Nat)
    (remaining : done + size = total) (last : 4 * ((total - 1) / 4) ≤ done) :
    memory.copyBytes (source + done) (dest + done) size (stateAt done) =
      .ok (stateAt total) := by
  induction size generalizing done with
  | zero =>
      subst remaining
      rfl
  | succ size induction =>
      have loaded := loads done (by omega)
      have stored := advances done (by omega)
      rw [arrived, if_neg (Nat.not_lt.mpr last)] at loaded
      simp only [copyBytes, copyByte, loaded, stored, ok_bind]
      exact induction (done + 1) (by omega) (by omega)

theorem copyWord_eq (loads : Loads memory source total stateAt value)
    (advances : Advances memory dest total stateAt value) (done : Nat) (whole : done % 4 = 0)
    (inside : done + 4 ≤ 4 * ((total - 1) / 4)) :
    memory.copyWord (source + done) (dest + done) (stateAt done) =
      .ok (stateAt (done + 4)) := by
  have together : ∀ offset, offset < 4 →
      memory.load (stateAt done) (source + (done + offset)) = .ok (value (done + offset)) := by
    intro offset below
    have loaded := loads (done + offset) (by omega)
    have before : arrived total (done + offset) = done := by
      rw [arrived, if_pos (by omega)]
      omega
    rwa [before] at loaded
  have loaded0 := together 0 (by omega)
  have loaded1 := together 1 (by omega)
  have loaded2 := together 2 (by omega)
  have loaded3 := together 3 (by omega)
  have stored0 := advances done (by omega)
  have stored1 := advances (done + 1) (by omega)
  have stored2 := advances (done + 2) (by omega)
  have stored3 := advances (done + 3) (by omega)
  simp only [Nat.add_zero] at loaded0
  simp only [← Nat.add_assoc] at loaded1 loaded2 loaded3 stored1 stored2 stored3
  simp only [copyWord, loaded0, loaded1, loaded2, loaded3, stored0, stored1, stored2, stored3,
    ok_bind]

theorem copy_eq_from (loads : Loads memory source total stateAt value)
    (advances : Advances memory dest total stateAt value) (size done : Nat)
    (remaining : done + size = total) (whole : done % 4 = 0) :
    memory.copy (source + done) (dest + done) size (stateAt done) = .ok (stateAt total) := by
  induction size using Nat.strongRecOn generalizing done with
  | ind size induction =>
      rw [copy]
      by_cases long : 4 < size
      · rw [if_pos long, copyWord_eq loads advances done whole (by omega), ok_bind]
        exact induction (size - 4) (by omega) (done + 4) (by omega) (by omega)
      · rw [if_neg long]
        exact copyBytes_eq loads advances size done remaining (by omega)

theorem copy_eq (loads : Loads memory source total stateAt value)
    (advances : Advances memory dest total stateAt value) :
    memory.copy source dest total (stateAt 0) = .ok (stateAt total) :=
  copy_eq_from loads advances total 0 (Nat.zero_add total) rfl

end Rule

/-! ## What a copy needs and keeps -/

variable {memory}

theorem load_of_copy_ok {source dest size : Nat} {state final : σ} (positive : 0 < size)
    (copied : memory.copy source dest size state = .ok final) :
    ∃ byte, memory.load state source = .ok byte := by
  rw [copy] at copied
  by_cases long : 4 < size
  · rw [if_pos long, copyWord] at copied
    cases loaded : memory.load state source with
    | ok byte => exact ⟨byte, rfl⟩
    | error failure => simp [loaded] at copied
  · rw [if_neg long] at copied
    cases size with
    | zero => omega
    | succ size =>
        rw [copyBytes, copyByte] at copied
        cases loaded : memory.load state source with
        | ok byte => exact ⟨byte, rfl⟩
        | error failure => simp [loaded] at copied

section Keeps

variable {Kept : σ → Prop}

theorem copyBytes_keeps
    (storeKeeps : ∀ state address byte next, Kept state →
      memory.store state address byte = .ok next → Kept next)
    {source dest size : Nat} {state final : σ} (initially : Kept state)
    (copied : memory.copyBytes source dest size state = .ok final) : Kept final := by
  induction size generalizing source dest state with
  | zero =>
      cases copied
      exact initially
  | succ size induction =>
      rw [copyBytes, copyByte, bind_eq_ok] at copied
      rcases copied with ⟨middle, first, rest⟩
      rw [bind_eq_ok] at first
      rcases first with ⟨byte, -, stored⟩
      exact induction (storeKeeps state dest byte middle initially stored) rest

theorem copy_keeps
    (storeKeeps : ∀ state address byte next, Kept state →
      memory.store state address byte = .ok next → Kept next)
    {source dest size : Nat} {state final : σ} (initially : Kept state)
    (copied : memory.copy source dest size state = .ok final) : Kept final := by
  induction size using Nat.strongRecOn generalizing source dest state with
  | ind size induction =>
      rw [copy] at copied
      by_cases long : 4 < size
      · rw [if_pos long, bind_eq_ok] at copied
        rcases copied with ⟨middle, first, rest⟩
        refine induction (size - 4) (by omega) ?_ rest
        simp only [copyWord, bind_eq_ok] at first
        rcases first with ⟨_, -, _, -, _, -, _, -, _, stored0, _, stored1, _, stored2, stored3⟩
        have kept0 := storeKeeps _ _ _ _ initially stored0
        have kept1 := storeKeeps _ _ _ _ kept0 stored1
        have kept2 := storeKeeps _ _ _ _ kept1 stored2
        exact storeKeeps _ _ _ _ kept2 stored3
      · rw [if_neg long] at copied
        exact copyBytes_keeps storeKeeps initially copied

end Keeps

/-! ## How a copy fails -/

section Failures

variable {Allowed : ε → Prop}

theorem copyBytes_failsOnly
    (loads : ∀ state address, FailsOnly Allowed (memory.load state address))
    (stores : ∀ state address byte, FailsOnly Allowed (memory.store state address byte))
    (source dest size : Nat) (state : σ) :
    FailsOnly Allowed (memory.copyBytes source dest size state) := by
  induction size generalizing source dest state with
  | zero => exact .ok trivial
  | succ size induction =>
      rw [copyBytes, copyByte]
      exact ((loads _ _).bind fun _ => stores _ _ _).bind fun _ => induction _ _ _

theorem copy_failsOnly
    (loads : ∀ state address, FailsOnly Allowed (memory.load state address))
    (stores : ∀ state address byte, FailsOnly Allowed (memory.store state address byte))
    (source dest size : Nat) (state : σ) :
    FailsOnly Allowed (memory.copy source dest size state) := by
  induction size using Nat.strongRecOn generalizing source dest state with
  | ind size induction =>
      rw [copy]
      by_cases long : 4 < size
      · rw [if_pos long, copyWord]
        exact ((loads _ _).bind fun _ => (loads _ _).bind fun _ => (loads _ _).bind fun _ =>
          (loads _ _).bind fun _ => (stores _ _ _).bind fun _ => (stores _ _ _).bind fun _ =>
          (stores _ _ _).bind fun _ => stores _ _ _).bind fun _ =>
            induction (size - 4) (by omega) _ _ _
      · rw [if_neg long]
        exact copyBytes_failsOnly loads stores _ _ _ _

end Failures

/-! ## Copies that refine each other -/

section Refinement

variable {τ : Type} {other : ByteMemory τ ε} {Undefined : ε → Prop} {Related : σ → τ → Prop}
  {Reached : Nat → Prop}

/-- Accesses to the addresses that are reached refine those to the other memory. -/
structure Mirrors (memory : ByteMemory σ ε) (other : ByteMemory τ ε) (Undefined : ε → Prop)
    (Related : σ → τ → Prop) (Reached : Nat → Prop) : Prop where
  load : ∀ {state result address}, Related state result → Reached address →
    Refines Undefined Eq (memory.load state address) (other.load result address)
  store : ∀ {state result address} (byte : UInt8), Related state result → Reached address →
    Refines Undefined Related (memory.store state address byte) (other.store result address byte)

variable {state : σ} {result : τ}

theorem Mirrors.loads (mirrors : Mirrors memory other Undefined Related Reached)
    (related : Related state result) {address : Nat} (reached : Reached address)
    {next : UInt8 → Except ε σ} {otherNext : UInt8 → Except ε τ}
    (rest : ∀ byte, Refines Undefined Related (next byte) (otherNext byte)) :
    Refines Undefined Related (memory.load state address >>= next)
      (other.load result address >>= otherNext) := by
  apply (mirrors.load related reached).bind
  intro byte loaded same
  rw [same]
  exact rest loaded

theorem copyByte_refines (mirrors : Mirrors memory other Undefined Related Reached)
    (related : Related state result) {source dest : Nat} (sourceReached : Reached source)
    (destReached : Reached dest) :
    Refines Undefined Related (memory.copyByte source dest state)
      (other.copyByte source dest result) :=
  mirrors.loads related sourceReached fun byte => mirrors.store byte related destReached

theorem copyWord_refines (mirrors : Mirrors memory other Undefined Related Reached)
    (related : Related state result) {source dest : Nat}
    (sourceReached : ∀ offset, offset < 4 → Reached (source + offset))
    (destReached : ∀ offset, offset < 4 → Reached (dest + offset)) :
    Refines Undefined Related (memory.copyWord source dest state)
      (other.copyWord source dest result) := by
  apply mirrors.loads related (sourceReached 0 (by decide))
  intro byte0
  apply mirrors.loads related (sourceReached 1 (by decide))
  intro byte1
  apply mirrors.loads related (sourceReached 2 (by decide))
  intro byte2
  apply mirrors.loads related (sourceReached 3 (by decide))
  intro byte3
  apply (mirrors.store byte0 related (destReached 0 (by decide))).bind
  intro state0 result0 related0
  apply (mirrors.store byte1 related0 (destReached 1 (by decide))).bind
  intro state1 result1 related1
  apply (mirrors.store byte2 related1 (destReached 2 (by decide))).bind
  intro state2 result2 related2
  exact mirrors.store byte3 related2 (destReached 3 (by decide))

theorem copyBytes_refines (mirrors : Mirrors memory other Undefined Related Reached)
    (related : Related state result) {source dest size : Nat}
    (sourceReached : ∀ offset, offset < size → Reached (source + offset))
    (destReached : ∀ offset, offset < size → Reached (dest + offset)) :
    Refines Undefined Related (memory.copyBytes source dest size state)
      (other.copyBytes source dest size result) := by
  induction size generalizing source dest state result with
  | zero => exact .ok related
  | succ size induction =>
      apply (copyByte_refines mirrors related (sourceReached 0 (by omega))
        (destReached 0 (by omega))).bind
      intro next nextResult nextRelated
      apply induction nextRelated
      · intro offset inside
        rw [Nat.add_assoc]
        exact sourceReached _ (by omega)
      · intro offset inside
        rw [Nat.add_assoc]
        exact destReached _ (by omega)

theorem copy_refines (mirrors : Mirrors memory other Undefined Related Reached)
    (related : Related state result) {source dest size : Nat}
    (sourceReached : ∀ offset, offset < size → Reached (source + offset))
    (destReached : ∀ offset, offset < size → Reached (dest + offset)) :
    Refines Undefined Related (memory.copy source dest size state)
      (other.copy source dest size result) := by
  induction size using Nat.strongRecOn generalizing source dest state result with
  | ind size induction =>
      rw [copy, copy]
      by_cases long : 4 < size
      · rw [if_pos long, if_pos long]
        apply (copyWord_refines mirrors related
          (fun offset inside => sourceReached offset (by omega))
          fun offset inside => destReached offset (by omega)).bind
        intro next nextResult nextRelated
        apply induction (size - 4) (by omega) nextRelated
        · intro offset inside
          rw [Nat.add_assoc]
          exact sourceReached _ (by omega)
        · intro offset inside
          rw [Nat.add_assoc]
          exact destReached _ (by omega)
      · rw [if_neg long, if_neg long]
        exact copyBytes_refines mirrors related sourceReached destReached

end Refinement

end ByteMemory

end Foundation
