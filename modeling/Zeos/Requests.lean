import Zeos.Readers

/-! # Requests

Readers are woken when the count of characters equals what they wait for. That
works as long as every count is right when its reader is first in line.
-/

namespace Zeos

open Foundation Kernel

def Input.lacks (view : Input) (t : TaskId) : Int :=
  match view.top t with
  | some (.sysReadLoop _ count i) => count - i
  | _ => view.wanted t

/-- What the reader leaves in the ring when it is served. A reader that was
queued takes nothing. -/
def Input.leaves (view : Input) (t : TaskId) : Int :=
  if view.top t = some .sysReadQueued then min (view.wanted t) circbuffSize else 0

def Input.demand (view : Input) (t : TaskId) : Int × Int := (view.leaves t, view.wanted t)

def Unsatisfied (first next : Int × Int) : Prop := first.1 < next.2

/-- A read that starts its loop waits for as many characters as it lacks. In front of
256 or more, which it does not see, it may lack more. -/
def Input.LoopFits (view : Input) (count i : Int) : Prop :=
  if view.ring.counter < 256 then
    count ≤ i + view.ring.counter ∨ i + view.ring.counter = 0
  else count ≤ i ∨ i ≤ 0 ∧ view.ring.counter < count

/-- A queued read waits for more than there will be in the ring when its turn comes.
A key press that wakes a reader in its loop leaves it few enough characters to see
them, or so few that it still waits for more than the full ring. -/
def Input.Fitting (view : Input) : Event → Prop
  | .read fd buffer count i => ReadAccepted fd buffer count →
      match view.waiting.getLast? with
      | none => view.LoopFits count i
      | some behind => view.leaves behind < count
  | .keyboard llegit => view.Accepts llegit → ∀ reader buffer count i,
      view.waiting.head? = some reader → view.top reader = some (.sysReadLoop buffer count i) →
      view.Completes llegit reader →
      (view.ring.push (charOf llegit)).counter < 256 ∨ 2 * circbuffSize < view.wanted reader
  | _ => True

/-- The first reader waits for more characters than there are. -/
def Input.Awaits (view : Input) : Prop :=
  ∀ reader, view.waiting.head? = some reader →
    view.ring.counter < view.wanted reader ∧ view.ring.counter < view.lacks reader

/-- The count of a reader says what it lacks. It may say less once there are more
characters in the ring than any reader sees, of which nobody takes one again. -/
def Input.CountsFor (view : Input) (t : TaskId) (lacking : Int) : Prop :=
  view.wanted t ≤ lacking ∧ (view.ring.counter < 256 → lacking = view.wanted t)

def Input.Resumes (view : Input) (t : TaskId) (lacking : Int) : Prop :=
  if view.ring.counter < 256 then
    view.wanted t + view.ring.counter = lacking ∧ 0 ≤ view.wanted t
  else view.ring.counter < view.wanted t ∧ view.wanted t ≤ lacking

structure Requests (view : Input) (resumed : Option TaskId) : Prop where
  first : (∀ t buffer count i, resumed = some t →
      view.top t ≠ some (.sysReadLoop buffer count i)) →
    ∀ reader, view.waiting.head? = some reader → view.ring.counter < view.wanted reader
  lacks : ∀ t ∈ view.waiting, view.CountsFor t (view.lacks t)
  line : (view.waiting.map view.demand).IsChain Unsatisfied
  loop : ∀ t buffer count i, resumed = some t →
    view.top t = some (.sysReadLoop buffer count i) →
    view.Resumes t (count - i) ∧ ∀ next, view.waiting.head? = some next → 0 < view.wanted next

section Requests

variable {view after : Input} {event : Event} {resumed switched : Option TaskId}

theorem lacks_congr {t : TaskId} (top : after.top t = view.top t)
    (wanted : after.wanted t = view.wanted t) : after.lacks t = view.lacks t := by
  unfold Input.lacks
  rw [top, wanted]

/-- A reader's count stays right while its stack and the count stay, and unless the
ring gets visible again. -/
theorem countsFor_congr {t : TaskId} (counts : view.CountsFor t (view.lacks t))
    (top : after.top t = view.top t) (wanted : after.wanted t = view.wanted t)
    (ring : after.ring.counter < 256 → view.ring.counter < 256) :
    after.CountsFor t (after.lacks t) := by
  rw [lacks_congr top wanted]
  refine ⟨?_, fun few => ?_⟩
  · rw [wanted]
    exact counts.1
  · rw [wanted]
    exact counts.2 (ring few)

theorem demand_congr {t : TaskId} (top : after.top t = view.top t)
    (wanted : after.wanted t = view.wanted t) : after.demand t = view.demand t := by
  unfold Input.demand Input.leaves
  rw [top, wanted]

theorem demands_congr {waiting : List TaskId} (tops : ∀ t ∈ waiting, after.top t = view.top t)
    (wanted : ∀ t ∈ waiting, after.wanted t = view.wanted t) :
    waiting.map after.demand = waiting.map view.demand :=
  List.map_congr_left fun t member => demand_congr (tops t member) (wanted t member)

theorem leaves_of_loop {t : TaskId} {buffer : Nat} {count i : Int}
    (top : view.top t = some (.sysReadLoop buffer count i)) : view.leaves t = 0 := by
  unfold Input.leaves
  rw [if_neg (by simp [top])]

theorem Requests.head (requests : Requests view resumed) (turn : Turn view event resumed)
    (notResume : event ≠ .resume) {reader : TaskId} {rest : List TaskId}
    (first : view.waiting = reader :: rest) : view.ring.counter < view.wanted reader := by
  apply requests.first
  · intro t _ _ _ isResumed
    exact absurd (turn.of_resumed isResumed).1 notResume
  · rw [first, List.head?_cons]

theorem Requests.next (requests : Requests view resumed) {reader next : TaskId}
    {rest : List TaskId} (first : view.waiting = reader :: rest)
    (second : rest.head? = some next) : view.leaves reader < view.wanted next := by
  have line := requests.line
  rw [first, List.map_cons, List.isChain_cons] at line
  exact line.1 (view.demand next) (by simp [second])

/-- The loop leaves the counts right, when the reader's own is right should it wait
again. -/
theorem LoopStep.requests {buffer : Nat} {count i : Int}
    (loop : LoopStep view buffer count i after switched)
    (lacks : ∀ t ∈ view.waiting, view.CountsFor t (view.lacks t))
    (line : (view.waiting.map view.demand).IsChain Unsatisfied)
    (waits : i + view.ring.visible < count →
      view.ring.counter < view.wanted view.caller + view.ring.visible ∧
        view.wanted view.caller ≤ count - (i + view.ring.visible) ∧
        (view.ring.counter < 256 →
          count - (i + view.ring.visible) = view.wanted view.caller))
    (finishes : i + view.ring.visible < count ∨ view.waiting = [] ∨
      i < count ∧ count ≤ i + view.ring.visible ∧ view.ring.counter ≤ count - i)
    (next : ∀ reader, view.waiting.head? = some reader → 0 < view.wanted reader) :
    Requests after switched := by
  cases loop with
  | finished taken stored oldest enough complete popped waiting wanted undisturbed caller =>
      have few : after.ring.counter < 256 → view.ring.counter < 256 := by
        rw [popped]
        exact Circbuff.few_of_pops enough
      refine ⟨?_, ?_, ?_, ?_⟩
      · intro _ reader first
        rw [waiting] at first
        rw [popped, wanted, Circbuff.pops_counter (enough.trans Circbuff.visible_le)]
        have positive := next reader first
        rcases finishes with more | alone | ⟨wants, done, exact'⟩
        · omega
        · simp [alone] at first
        · omega
      · intro t member
        rw [waiting] at member
        exact countsFor_congr (lacks t member) (undisturbed t member) (congrFun wanted t) few
      · rw [waiting, demands_congr undisturbed fun t _ => congrFun wanted t]
        exact line
      · intro t _ _ _ none
        cases none
  | waits _ taken stored oldest enough more drained popped waiting wanted undisturbed top unread =>
      have few : after.ring.counter < 256 → view.ring.counter < 256 := by
        rw [popped]
        exact Circbuff.few_of_pops enough
      have all : taken.length = view.ring.visible := by
        have visible := Circbuff.pops_visible enough
        rw [← popped, drained] at visible
        omega
      have counter : after.ring.counter = view.ring.counter - view.ring.visible := by
        rw [popped, Circbuff.pops_counter (enough.trans Circbuff.visible_le), all]
      rw [all] at more top
      rcases waits more with ⟨below, atMost, exactly⟩
      have here : after.lacks view.caller = count - (i + view.ring.visible) := by
        unfold Input.lacks
        rw [top]
      refine ⟨?_, ?_, ?_, ?_⟩
      · intro _ reader first
        rw [waiting, List.head?_cons, Option.some.injEq] at first
        rw [← first, counter, wanted]
        omega
      · intro t member
        rw [waiting, List.mem_cons] at member
        rcases member with isCaller | old
        · rw [isCaller, here]
          unfold Input.CountsFor
          rw [wanted]
          exact ⟨atMost, fun still => exactly (few still)⟩
        · exact countsFor_congr (lacks t old) (undisturbed t old) (congrFun wanted t) few
      · rw [waiting, List.map_cons, List.isChain_cons,
          demands_congr undisturbed fun t _ => congrFun wanted t]
        refine ⟨?_, line⟩
        intro demand head
        rw [List.head?_map, Option.mem_def, Option.map_eq_some_iff] at head
        rcases head with ⟨reader, first, isDemand⟩
        rw [← isDemand]
        show after.leaves view.caller < view.wanted reader
        rw [leaves_of_loop top]
        exact next reader first
      · exact fun t _ _ _ isSwitched loop => absurd loop (unread.not_loop isSwitched)

theorem Turn.ne_caller (turn : Turn view event resumed) {t : TaskId} (member : t ∈ view.waiting) :
    t ≠ view.caller := fun same => turn.absent (same ▸ member)

theorem Turn.rest (turn : Turn view event resumed) {reader : TaskId} {rest : List TaskId}
    (first : view.waiting = reader :: rest) : reader ∉ rest ∧ ∀ t ∈ rest, t ∈ view.waiting := by
  have nodup := turn.nodup
  rw [first, List.nodup_cons] at nodup
  exact ⟨nodup.1, fun t member => by simp [first, member]⟩

theorem Requests.quiet (requests : Requests view resumed) (ring : after.ring = view.ring)
    (waiting : after.waiting = view.waiting) (wanted : after.wanted = view.wanted)
    (undisturbed : Undisturbed view after) (unread : Unread after switched)
    (notLoop : ∀ t buffer count i, resumed = some t →
      view.top t ≠ some (.sysReadLoop buffer count i)) : Requests after switched where
  first _ := by
    rw [waiting, ring, wanted]
    exact requests.first notLoop
  lacks t member := by
    rw [waiting] at member
    apply countsFor_congr (requests.lacks t member) (undisturbed t member) (congrFun wanted t)
    rw [ring]
    exact id
  line := by
    rw [waiting, demands_congr undisturbed fun t _ => congrFun wanted t]
    exact requests.line
  loop t _ _ _ isSwitched top := absurd top (unread.not_loop isSwitched)

/-- The reader that a key press completes leaves the ring as its successor
expects it. -/
theorem Requests.wakes (requests : Requests view resumed) (order : InputOrder view resumed)
    (turn : Turn view event resumed) (notResume : event ≠ .resume) {llegit : UInt8}
    (accepts : view.Accepts llegit) {reader : TaskId} {rest : List TaskId}
    (first : view.waiting = reader :: rest) (complete : view.Completes llegit reader)
    (ring : after.ring = view.ring.push (charOf llegit)) (waiting : after.waiting = rest)
    (wanted : after.wanted = Function.update view.wanted reader
      (view.wanted reader - (view.ring.push (charOf llegit)).counter))
    (undisturbed : Undisturbed view after)
    (fits : ∀ buffer count i, view.top reader = some (.sysReadLoop buffer count i) →
      (view.ring.push (charOf llegit)).counter < 256 ∨ 2 * circbuffSize < view.wanted reader) :
    Requests after (some reader) := by
  have below := requests.head turn notResume first
  have counter := order.ring.push_counter accepts.room (charOf llegit)
  have size : circbuffSize = 666 := rfl
  have bound := order.ring.counter_le
  have room := accepts.room
  have here : reader ∈ view.waiting := by simp [first]
  rcases turn.rest first with ⟨absent, inside⟩
  have same : ∀ t ∈ rest, after.wanted t = view.wanted t := by
    intro t member
    have different : t ≠ reader := fun isReader => absent (isReader ▸ member)
    rw [wanted, Function.update_of_ne different]
  have tops : ∀ t ∈ rest, after.top t = view.top t :=
    fun t member => undisturbed t (inside t member)
  have left : after.wanted reader = view.wanted reader - after.ring.counter := by
    rw [wanted, Function.update_self, ring]
  have next : ∀ next, rest.head? = some next → view.leaves reader < after.wanted next := by
    intro next second
    rw [same next (List.mem_of_mem_head? second)]
    exact requests.next first second
  refine ⟨?_, ?_, ?_, ?_⟩
  · intro notLoop successor second
    rw [waiting] at second
    have queued : view.top reader = some .sysReadQueued := by
      rcases order.fits reader here with queued | ⟨buffer, count, i, isLoop, -⟩
      · exact queued
      · rw [← undisturbed reader here] at isLoop
        exact absurd isLoop (notLoop reader buffer count i rfl)
    have more := next successor second
    unfold Input.leaves at more
    rw [if_pos queued] at more
    rw [ring]
    rcases complete with full | exactly
    · rw [Circbuff.full_iff] at full
      omega
    · omega
  · intro t member
    rw [waiting] at member
    apply countsFor_congr (requests.lacks t (inside t member)) (tops t member) (same t member)
    rw [ring]
    omega
  · rw [waiting, demands_congr tops same]
    have line := requests.line
    rw [first, List.map_cons, List.isChain_cons] at line
    exact line.2
  · intro t buffer count i isReader top
    cases isReader
    rw [undisturbed reader here] at top
    have counts := requests.lacks reader here
    have lacking : view.lacks reader = count - i := by
      unfold Input.lacks
      rw [top]
    rw [lacking] at counts
    rcases counts with ⟨atMost, exactly⟩
    refine ⟨?_, ?_⟩
    · unfold Input.Resumes
      rw [left, ring]
      rcases fits buffer count i top with few | many
      · have exact' := exactly (by omega)
        rw [if_pos few]
        omega
      · split
        · have exact' := exactly (by omega)
          omega
        · omega
    · intro successor second
      rw [waiting] at second
      have more := next successor second
      rwa [leaves_of_loop top] at more

/-- A reader that goes on and finds too little still waits for what it lacks. -/
theorem Input.Resumes.waits {t : TaskId} {count i : Int} (resumes : view.Resumes t (count - i))
    (more : i + view.ring.visible < count) :
    view.ring.counter < view.wanted t + view.ring.visible ∧
      view.wanted t ≤ count - (i + view.ring.visible) ∧
      (view.ring.counter < 256 → count - (i + view.ring.visible) = view.wanted t) := by
  unfold Input.Resumes at resumes
  by_cases few : view.ring.counter < 256
  · rw [if_pos few] at resumes
    rw [Circbuff.visible_of_lt few] at more ⊢
    omega
  · rw [if_neg few] at resumes
    rw [Circbuff.visible_of_le (Nat.not_lt.mp few)] at more ⊢
    omega

/-- A reader that finds enough takes all that there is. -/
theorem Input.Resumes.finishes {t : TaskId} {count i : Int} (resumes : view.Resumes t (count - i))
    (wants : i < count) : i + view.ring.visible < count ∨
      i < count ∧ count ≤ i + view.ring.visible ∧ view.ring.counter ≤ count - i := by
  unfold Input.Resumes at resumes
  by_cases few : view.ring.counter < 256
  · rw [if_pos few] at resumes
    rw [Circbuff.visible_of_lt few]
    omega
  · rw [if_neg few] at resumes
    rw [Circbuff.visible_of_le (Nat.not_lt.mp few)]
    omega

theorem Requests.step (requests : Requests view resumed) (order : InputOrder view resumed)
    (turn : Turn view event resumed) (step : InputStep view event after switched)
    (fitting : view.Fitting event) : Requests after switched := by
  cases step with
  | quiet _ _ _ ring waiting wanted undisturbed unread notLoop notRead notKey returns =>
      apply requests.quiet ring waiting wanted undisturbed unread
      intro t buffer count i isResumed
      rcases turn.of_resumed isResumed with ⟨isResume, isCaller⟩
      subst isCaller
      exact notLoop isResume buffer count i
  | pushes llegit _ accepts reader rest first incomplete ring waiting wanted undisturbed =>
      have below := requests.head turn Event.noConfusion first
      have counter := order.ring.push_counter accepts.room (charOf llegit)
      rw [Input.Completes, not_or] at incomplete
      refine ⟨?_, ?_, ?_, ?_⟩
      · intro _ head isHead
        rw [waiting, first, List.head?_cons, Option.some.injEq] at isHead
        rw [← isHead, ring, wanted]
        omega
      · intro t member
        rw [waiting] at member
        apply countsFor_congr (requests.lacks t member) (undisturbed t member)
          (congrFun wanted t)
        rw [ring]
        omega
      · rw [waiting, demands_congr undisturbed fun t _ => congrFun wanted t]
        exact requests.line
      · intro t _ _ _ none
        cases none
  | wakes llegit _ accepts reader rest first complete ring waiting wanted undisturbed =>
      exact requests.wakes order turn Event.noConfusion accepts first complete ring waiting wanted
        undisturbed fun buffer count i top =>
          fitting accepts reader buffer count i (by rw [first, List.head?_cons]) top complete
  | calls fd buffer count i _ _ accepted alone loop =>
      have fits := fitting accepted
      rw [alone] at fits
      have alone' : (view.requesting count).waiting = [] := alone
      have wanted : (view.requesting count).wanted (view.requesting count).caller = count :=
        Function.update_self _ _ _
      have sameRing : (view.requesting count).ring = view.ring := rfl
      apply loop.requests
      · simp [alone']
      · simp [alone']
      · rw [wanted, sameRing]
        dsimp only [List.getLast?_nil, Input.LoopFits] at fits
        unfold Circbuff.visible
        split at fits
        · rename_i few
          rw [if_pos few]
          omega
        · rename_i many
          rw [if_neg many]
          omega
      · exact .inr (.inl alone')
      · simp [alone']
  | queues fd buffer count i _ _ accepted behind ring waiting wanted undisturbed top unread =>
      have fits := fitting accepted
      have same : ∀ t ∈ view.waiting, after.wanted t = view.wanted t := by
        intro t member
        rw [wanted, Function.update_of_ne (turn.ne_caller member)]
      have here : after.wanted view.caller = count := by
        rw [wanted, Function.update_self]
      refine ⟨?_, ?_, ?_, ?_⟩
      · intro _ reader isHead
        rw [waiting, List.head?_append_of_ne_nil _ behind] at isHead
        rw [ring, same reader (List.mem_of_mem_head? isHead)]
        apply requests.first _ reader isHead
        intro t _ _ _ isResumed
        cases (turn.of_resumed isResumed).1
      · intro t member
        rw [waiting, List.mem_append, List.mem_singleton] at member
        rcases member with old | isCaller
        · apply countsFor_congr (requests.lacks t old) (undisturbed t old) (same t old)
          rw [ring]
          exact id
        · have exactly : after.lacks t = after.wanted t := by
            unfold Input.lacks
            rw [isCaller, top]
          exact ⟨exactly.ge, fun _ => exactly⟩
      · rw [waiting, List.map_append, List.isChain_append, demands_congr undisturbed same]
        refine ⟨requests.line, List.isChain_singleton _, ?_⟩
        intro last isLast next isNext
        rw [List.map_singleton, List.head?_cons, Option.mem_some_iff] at isNext
        rw [List.getLast?_map, Option.mem_def, Option.map_eq_some_iff] at isLast
        rcases isLast with ⟨reader, isReader, isDemand⟩
        rw [isReader] at fits
        rw [← isDemand, ← isNext]
        show view.leaves reader < after.wanted view.caller
        rw [here]
        exact fits
      · exact fun t _ _ _ isSwitched loop => absurd loop (unread.not_loop isSwitched)
  | reads buffer count i _ _ top loop =>
      rcases requests.loop _ _ _ _ (turn.resumes rfl) top with ⟨resumes, next⟩
      have wants := (order.loop _ _ _ _ (turn.resumes rfl) top).1
      apply loop.requests requests.lacks requests.line resumes.waits
      · exact (resumes.finishes wants).imp_right .inr
      · exact next

end Requests

/-- Readers are woken in time as long as every read fits. -/
theorem readersAwait {machine : Machine} {history : List (Transition PointerKernel Event)}
    {last : PointerKernel} (reaches : (zeos machine).Reaches history last)
    (fitting : ∀ transition ∈ record history, transition.before.input.Fitting transition.label) :
    ∀ transition ∈ record history, transition.after.core.inKernel = false →
      transition.after.input.Awaits := by
  rcases (run_toSequences reaches).2 with ⟨first, start, run⟩
  rw [init_eq start] at run
  let Kept (kernel : SequenceKernel) : Prop :=
    Attentive kernel ∧ Requests kernel.input kernel.resumed
  have initially : Kept ⟨machine.bootCore 0 1, bootSequences⟩ := by
    have attentive := boot_attentive machine
    refine ⟨attentive, ?_, ?_, ?_, ?_⟩
    · intro _ reader isHead
      cases isHead
    · intro t member
      cases member
    · exact List.isChain_nil
    · intro t buffer count i isResumed
      have mode : (machine.bootCore 0 1).inKernel = false := (bootCore_frame machine).2.2.1
      rw [resumed, if_neg (by simp [mode])] at isResumed
      cases isResumed
  have kept := run.along initially fun transition member step kept =>
    ⟨kept.1.step step, kept.2.step kept.1.order (kept.1.disciplined.turn step.1)
      (step_input kept.1.disciplined kept.1.suspended step) (fitting transition member)⟩
  intro transition member mode reader isHead
  rcases kept transition member with ⟨-, -, requests⟩
  have below := requests.first (fun t _ _ _ isResumed => by
    rw [resumed, if_neg (by simp [mode])] at isResumed
    cases isResumed) reader isHead
  exact ⟨below, below.trans_le (requests.lacks reader (List.mem_of_mem_head? isHead)).1⟩

theorem fitting_of_alone {view : Input} (alone : view.waiting = []) (empty : view.ring.counter = 0)
    {fd : Int} {buffer : Nat} {count : Int} : view.Fitting (.read fd buffer count 0) := by
  intro _
  rw [alone]
  dsimp only [List.getLast?_nil, Input.LoopFits]
  rw [empty]
  exact .inr rfl

theorem fitting_of_few {view : Input} {llegit : UInt8}
    (few : (view.ring.push (charOf llegit)).counter < 256) : view.Fitting (.keyboard llegit) :=
  fun _ _ _ _ _ _ _ _ => .inl few

theorem readersAwait_one :
    ∃ history last, (zeos Machine.sample).Reaches history last ∧ history.length = 5 ∧
      ∀ transition ∈ record history, transition.after.core.inKernel = false →
        transition.after.input.Awaits := by
  have computed : (replay readOne ⟨Machine.sample.bootCore 0 1, bootLinks⟩).any (fun run =>
      decide (run.1.length = 5) && (record run.1).all fun transition =>
        match transition.label with
        | .read _ _ _ i => i = 0 ∧ transition.before.input.waiting = [] ∧
            transition.before.input.ring.counter = 0
        | .keyboard llegit => (transition.before.input.ring.push (charOf llegit)).counter < 256
        | _ => true) = true := by
    decide +kernel
  rcases reaches_of_replay computed with ⟨history, last, reaches, found⟩
  rw [Bool.and_eq_true, decide_eq_true_eq, List.all_eq_true] at found
  rcases found with ⟨length, fits⟩
  refine ⟨history, last, reaches, length, readersAwait reaches ?_⟩
  intro transition member
  have here := fits transition member
  cases label : transition.label with
  | read fd buffer count i =>
      rw [label] at here
      rcases of_decide_eq_true here with ⟨isZero, nobody, empty⟩
      subst isZero
      exact fitting_of_alone nobody empty
  | keyboard llegit =>
      rw [label] at here
      exact fitting_of_few (of_decide_eq_true here)
  | _ => trivial

def readNone : List Event :=
  [.clone 1048576 1081344, .read 0 1081344 1 0, .resume, .read 0 1081344 0 0, .resume,
    .keyboard 30, .resume]

theorem readersAwait_stuck :
    ∃ history last, (zeos Machine.sample).Reaches history last ∧
      last.core.inKernel = false ∧ ¬last.toSequences.input.Awaits := by
  have computed : (replay readNone ⟨Machine.sample.bootCore 0 1, bootLinks⟩).any (fun run =>
      decide (run.2.core.inKernel = false ∧ run.2.toSequences.input.waiting = [2] ∧
        run.2.toSequences.input.wanted 2 = 0)) = true := by
    decide +kernel
  rcases reaches_of_replay computed with ⟨history, last, reaches, found⟩
  rcases of_decide_eq_true found with ⟨userMode, waits, nothing⟩
  refine ⟨history, last, reaches, userMode, fun awaits => ?_⟩
  have below := (awaits 2 (by rw [waits, List.head?_cons])).1
  rw [nothing] at below
  omega

end Zeos
