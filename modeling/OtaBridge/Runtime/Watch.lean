import Mathlib.Data.List.Basic
import Mathlib.Logic.Relation

/-!
# The queue of `Watch` and its pipe

The QNX branch of `Watch` announces every entry of its queue by a token of 8 bytes in a pipe:
`pushQueue` enqueues first and then writes the token, `popQueue` reads a token first and then pops, and
no lock is held in between. At every moment the queue is as long as the pipe has tokens, plus the
producers that have not written theirs and the consumer that has not popped (`Balanced`), so nothing is
lost, and nothing is popped that is not there (`loses_nothing`).
-/

namespace OtaBridge.Runtime

/-- Where a producer thread stands: outside, or in `pushQueue` between the push and the write. -/
inductive Producer where
  | outside
  | midPush
  deriving DecidableEq, Repr

/-- Where the dispatch thread stands. -/
inductive Consumer (α : Type) where
  | outside
  /-- `emptyQueue` returned false. -/
  | checked
  /-- `frontQueue` returned the entry. -/
  | holds (entry : α)
  /-- In `popQueue` with that entry, between the read and the pop. -/
  | midPop (entry : α)
  deriving DecidableEq, Repr

/-- The watch with the threads that use it, what was pushed, and what was taken. -/
structure Watch (α : Type) where
  queue : List α
  /-- Tokens in the pipe. -/
  tokens : Nat
  producers : List Producer
  consumer : Consumer α
  pushed : List α
  taken : List α
  /-- `front` or `pop` was called on an empty queue. -/
  fault : Bool

/-- One atomic step of a thread. A call that fails with `EAGAIN` or `EINTR` is repeated. -/
inductive Action (α : Type) where
  /-- `queue_.push(entry)` of producer `i` under `queueMutex_`. -/
  | enqueue (i : Nat) (entry : α)
  | writeToken (i : Nat)
  | writeFails (i : Nat)
  | emptyQueue
  | frontQueue
  | readToken
  | readFails
  | pop

/-- A call that failed, or found nothing. -/
inductive Action.Idle {α : Type} : Action α → Prop where
  | writeFails (i : Nat) : Idle (.writeFails i)
  | emptyQueue : Idle .emptyQueue
  | readFails : Idle .readFails

/-- How many steps the consumer is away from taking an entry. -/
def Consumer.left {α : Type} : Consumer α → Nat
  | .outside => 3
  | .checked => 2
  | .holds _ => 1
  | .midPop _ => 0

namespace Watch

variable {α : Type}

/-- What `poll` finds at `pollFileDescriptor_`. -/
def readable (w : Watch α) : Prop := 0 < w.tokens

def step (w : Watch α) : Action α → Option (Watch α)
  | .enqueue i entry =>
    if w.producers[i]? = some .outside then
      some { w with
        queue := w.queue ++ [entry]
        pushed := w.pushed ++ [entry]
        producers := w.producers.set i .midPush }
    else none
  | .writeToken i =>
    if w.producers[i]? = some .midPush then
      some { w with tokens := w.tokens + 1, producers := w.producers.set i .outside }
    else none
  | .writeFails i => if w.producers[i]? = some .midPush then some w else none
  | .emptyQueue =>
    match w.consumer with
    | .outside => some (if w.queue.isEmpty then w else { w with consumer := .checked })
    | _ => none
  | .frontQueue =>
    match w.consumer, w.queue with
    | .checked, entry :: _ => some { w with consumer := .holds entry }
    | .checked, [] => some { w with fault := true }
    | _, _ => none
  | .readToken =>
    match w.consumer with
    | .holds entry => if 0 < w.tokens then some { w with tokens := w.tokens - 1, consumer := .midPop entry } else none
    | _ => none
  | .readFails =>
    match w.consumer with
    | .holds _ => some w
    | _ => none
  | .pop =>
    match w.consumer, w.queue with
    | .midPop entry, _ :: queue => some { w with queue := queue, taken := w.taken ++ [entry], consumer := .outside }
    | .midPop _, [] => some { w with fault := true }
    | _, _ => none

def Next (w v : Watch α) : Prop := ∃ a, w.step a = some v

/-- No thread is inside, and nothing was pushed. -/
structure Initial (w : Watch α) : Prop where
  queue : w.queue = []
  tokens : w.tokens = 0
  producers : ∀ p, p ∈ w.producers → p = .outside
  consumer : w.consumer = .outside
  pushed : w.pushed = []
  taken : w.taken = []
  fault : w.fault = false

/-- Producers between enqueue and write. -/
def midPushes (w : Watch α) : Nat := w.producers.count .midPush

/-- The consumer, if it is between read and pop. -/
def midPops (w : Watch α) : Nat :=
  match w.consumer with
  | .midPop _ => 1
  | _ => 0

/-- What every step keeps, whatever is in the pipe. -/
structure Safe (w : Watch α) : Prop where
  order : w.taken ++ w.queue = w.pushed
  checked : w.consumer = .checked → w.queue ≠ []
  held : ∀ entry, w.consumer = .holds entry ∨ w.consumer = .midPop entry → w.queue.head? = some entry
  fault : w.fault = false

/-- There is a token for each entry, but for those of the threads inside. -/
structure Balanced (w : Watch α) : Prop extends Safe w where
  count : w.queue.length = w.tokens + w.midPushes + w.midPops

/-- What a step makes of a safe watch. -/
inductive Moves (w : Watch α) : Action α → Watch α → Prop where
  | stays {a : Action α} (idle : a.Idle) : Moves w a w
  | enqueues {i : Nat} (entry : α) (outside : w.producers[i]? = some .outside) : Moves w (.enqueue i entry)
      { w with queue := w.queue ++ [entry], pushed := w.pushed ++ [entry], producers := w.producers.set i .midPush }
  | writes {i : Nat} (inside : w.producers[i]? = some .midPush) : Moves w (.writeToken i)
      { w with tokens := w.tokens + 1, producers := w.producers.set i .outside }
  | checks (outside : w.consumer = .outside) (waiting : w.queue ≠ []) : Moves w .emptyQueue { w with consumer := .checked }
  | fronts {entry : α} (inside : w.consumer = .checked) (front : w.queue.head? = some entry) :
    Moves w .frontQueue { w with consumer := .holds entry }
  | reads {entry : α} (inside : w.consumer = .holds entry) (token : 0 < w.tokens) : Moves w .readToken
      { w with tokens := w.tokens - 1, consumer := .midPop entry }
  | pops {entry : α} {queue : List α} (inside : w.consumer = .midPop entry) (front : w.queue = entry :: queue) :
    Moves w .pop { w with queue := queue, taken := w.taken ++ [entry], consumer := .outside }

section Steps

variable {w v : Watch α} {a : Action α} {i : Nat}

theorem count_enter (outside : w.producers[i]? = some .outside) :
    (w.producers.set i .midPush).count .midPush = w.midPushes + 1 := by
  obtain ⟨inside, here⟩ := List.getElem?_eq_some_iff.1 outside
  rw [List.count_set inside, here]
  rfl

theorem count_leave (midPush : w.producers[i]? = some .midPush) :
    (w.producers.set i .outside).count .midPush + 1 = w.midPushes := by
  obtain ⟨inside, here⟩ := List.getElem?_eq_some_iff.1 midPush
  have pos : 0 < w.producers.count .midPush := List.count_pos_iff.2 (here ▸ List.getElem_mem inside)
  rw [List.count_set inside, here]
  show w.producers.count .midPush - 1 + 0 + 1 = w.producers.count .midPush
  omega

theorem Initial.balanced (h : w.Initial) : w.Balanced where
  order := by rw [h.taken, h.queue, h.pushed]; rfl
  checked c := absurd (h.consumer.symm.trans c) (by simp)
  held entry c := by rw [h.consumer] at c; simp at c
  fault := h.fault
  count := by
    have none : w.midPushes = 0 := List.count_eq_zero.2 fun mem => absurd (h.producers _ mem) (by decide)
    rw [h.queue, h.tokens, none, midPops, h.consumer]
    rfl

/-- The entry that the consumer has seen is still the first one. -/
theorem Safe.exists_front (h : w.Safe) {entry : α} (seen : w.consumer = .holds entry ∨ w.consumer = .midPop entry) :
    ∃ queue, w.queue = entry :: queue :=
  List.head?_eq_some_iff.1 (h.held entry seen)

/-- Neither `front` nor `pop` finds an empty queue. -/
theorem Safe.moves (h : w.Safe) (step : w.step a = some v) : w.Moves a v := by
  cases a with
  | enqueue i entry =>
    simp only [Watch.step, Option.ite_none_right_eq_some, Option.some.injEq] at step
    obtain ⟨outside, rfl⟩ := step
    exact .enqueues entry outside
  | writeToken i =>
    simp only [Watch.step, Option.ite_none_right_eq_some, Option.some.injEq] at step
    obtain ⟨inside, rfl⟩ := step
    exact .writes inside
  | writeFails i =>
    simp only [Watch.step, Option.ite_none_right_eq_some, Option.some.injEq] at step
    obtain ⟨-, rfl⟩ := step
    exact .stays (.writeFails i)
  | emptyQueue =>
    simp only [Watch.step] at step
    split at step
    · next outside =>
      obtain rfl := Option.some.inj step
      by_cases empty : w.queue.isEmpty = true
      · rw [if_pos empty]
        exact .stays .emptyQueue
      · rw [if_neg empty]
        exact .checks outside (by simpa using empty)
    · cases step
  | frontQueue =>
    simp only [Watch.step] at step
    split at step
    · next entry queue inside front =>
      obtain rfl := Option.some.inj step
      exact .fronts inside (by rw [front]; rfl)
    · next inside empty => exact absurd empty (h.checked inside)
    · cases step
  | readToken =>
    simp only [Watch.step] at step
    split at step
    · next entry inside =>
      simp only [Option.ite_none_right_eq_some, Option.some.injEq] at step
      obtain ⟨token, rfl⟩ := step
      exact .reads inside token
    · cases step
  | readFails =>
    simp only [Watch.step] at step
    split at step
    · obtain rfl := Option.some.inj step
      exact .stays .readFails
    · cases step
  | pop =>
    simp only [Watch.step] at step
    split at step
    · next entry first queue inside front =>
      obtain rfl := Option.some.inj step
      -- what is popped is what `frontQueue` returned
      obtain ⟨rest, known⟩ := h.exists_front (.inr inside)
      obtain ⟨rfl, rfl⟩ := List.cons.inj (front.symm.trans known)
      exact .pops inside front
    · next entry inside empty =>
      obtain ⟨queue, front⟩ := h.exists_front (.inr inside)
      cases empty.symm.trans front
    · cases step

/-- The consumer goes on to the pop. -/
theorem Safe.popping (h : w.Safe) {entry : α} (inside : w.consumer = .holds entry) (n : Nat) :
    Safe { w with tokens := n, consumer := .midPop entry } where
  order := h.order
  checked c := by simp at c
  held e c := by
    obtain rfl : entry = e := by simpa using c
    exact h.held entry (.inl inside)
  fault := h.fault

theorem Moves.safe (moves : w.Moves a v) (h : w.Safe) : v.Safe := by
  cases moves with
  | stays idle => exact h
  | enqueues entry outside =>
    refine ⟨?_, fun _ => by simp, fun e c => ?_, h.fault⟩
    · show w.taken ++ (w.queue ++ [entry]) = w.pushed ++ [entry]
      rw [← List.append_assoc, h.order]
    · show (w.queue ++ [entry]).head? = some e
      rw [List.head?_append, h.held e c]
      rfl
  | writes inside => exact ⟨h.order, h.checked, h.held, h.fault⟩
  | checks outside waiting => exact ⟨h.order, fun _ => waiting, fun e c => by simp at c, h.fault⟩
  | @fronts entry inside front =>
    refine ⟨h.order, fun c => by simp at c, fun e c => ?_, h.fault⟩
    obtain rfl : entry = e := by simpa using c
    exact front
  | reads inside token => exact h.popping inside _
  | @pops entry queue inside front =>
    refine ⟨?_, fun c => by simp at c, fun e c => by simp at c, h.fault⟩
    show w.taken ++ [entry] ++ queue = w.pushed
    rw [List.append_assoc, List.singleton_append, ← front, h.order]

/-- No step changes by how much the entries outnumber the tokens and the threads inside. -/
theorem Moves.count (moves : w.Moves a v) :
    v.queue.length + (w.tokens + w.midPushes + w.midPops) = w.queue.length + (v.tokens + v.midPushes + v.midPops) := by
  cases moves with
  | stays idle => rfl
  | @enqueues i entry outside =>
    show (w.queue ++ [entry]).length + _ = _ + (w.tokens + (w.producers.set i .midPush).count .midPush + w.midPops)
    rw [count_enter outside, List.length_append, List.length_singleton]
    omega
  | @writes i inside =>
    have leave := count_leave inside
    show w.queue.length + (w.tokens + w.midPushes + w.midPops) =
      w.queue.length + (w.tokens + 1 + (w.producers.set i .outside).count .midPush + w.midPops)
    omega
  | checks outside waiting =>
    rw [midPops, outside]
    rfl
  | fronts inside front =>
    rw [midPops, inside]
    rfl
  | reads inside token =>
    rw [midPops, inside]
    show w.queue.length + (w.tokens + w.midPushes + 0) = w.queue.length + (w.tokens - 1 + w.midPushes + 1)
    omega
  | @pops entry queue inside front =>
    rw [midPops, inside, front]
    show queue.length + (w.tokens + w.midPushes + 1) = queue.length + 1 + (w.tokens + w.midPushes + 0)
    omega

theorem Moves.tokens (moves : w.Moves a v) (write : ∀ i, a ≠ .writeToken i) (read : a ≠ .readToken) :
    v.tokens = w.tokens := by
  cases moves with
  | writes inside => exact absurd rfl (write _)
  | reads inside token => exact absurd rfl read
  | _ => rfl

/-- Every step keeps the balance. -/
theorem Balanced.next (h : w.Balanced) (step : w.step a = some v) : v.Balanced := by
  have moves := h.toSafe.moves step
  refine ⟨moves.safe h.toSafe, ?_⟩
  have before := h.count
  have kept := moves.count
  omega

theorem Balanced.of_run (run : Relation.ReflTransGen Next w v) (h : w.Balanced) : v.Balanced := by
  induction run with
  | refl => exact h
  | tail _ next ih =>
    obtain ⟨a, step⟩ := next
    exact ih.next step

/-! ## Draining the queue -/

/-- How many steps are left if nothing more is pushed. -/
def left (w : Watch α) : Nat := 4 * w.queue.length + w.midPushes + w.consumer.left

/-- A step other than a push brings the watch nearer to its rest, or is an idle one. -/
theorem Moves.left_lt (moves : w.Moves a v) (push : ∀ i entry, a ≠ .enqueue i entry) :
    (v.pushed = w.pushed ∧ v.left < w.left) ∨ (a.Idle ∧ v = w) := by
  -- the steps of the consumer before the pop
  have ahead : ∀ c : Consumer α, c.left < w.consumer.left → ∀ n, Watch.left { w with tokens := n, consumer := c } < w.left :=
    fun c less n => Nat.add_lt_add_left less (4 * w.queue.length + w.midPushes)
  cases moves with
  | stays idle => exact .inr ⟨idle, rfl⟩
  | enqueues entry outside => exact absurd rfl (push _ entry)
  | @writes i inside =>
    have leave := count_leave inside
    refine .inl ⟨rfl, ?_⟩
    show 4 * w.queue.length + (w.producers.set i .outside).count .midPush + w.consumer.left < w.left
    unfold left
    omega
  | checks outside waiting => exact .inl ⟨rfl, ahead .checked (by rw [outside]; exact Nat.lt_succ_self 2) _⟩
  | @fronts entry inside front => exact .inl ⟨rfl, ahead (.holds entry) (by rw [inside]; exact Nat.lt_succ_self 1) _⟩
  | @reads entry inside token => exact .inl ⟨rfl, ahead (.midPop entry) (by rw [inside]; exact Nat.lt_succ_self 0) _⟩
  | @pops entry queue inside front =>
    refine .inl ⟨rfl, ?_⟩
    show 4 * queue.length + w.midPushes + 3 < w.left
    rw [left, front, List.length_cons]
    omega

/-- As long as something is waiting some thread can go on. -/
theorem Balanced.progress (h : w.Balanced) :
    w.taken = w.pushed ∨ ∃ a v, (∀ i entry, a ≠ .enqueue i entry) ∧ w.step a = some v ∧ v ≠ w := by
  have count := h.count
  by_cases mid : 0 < w.midPushes
  · obtain ⟨i, inside⟩ := List.mem_iff_getElem?.1 (List.count_pos_iff.1 mid)
    exact .inr ⟨.writeToken i, _, by simp, if_pos inside, fun same => absurd (congrArg tokens same) (Nat.succ_ne_self _)⟩
  cases stage : w.consumer with
  | outside =>
    by_cases empty : w.queue = []
    · have order := h.order
      rw [empty, List.append_nil] at order
      exact .inl order
    · refine .inr ⟨.emptyQueue, { w with consumer := .checked }, by simp, ?_, fun same => ?_⟩
      · simp [step, stage, empty]
      · cases (congrArg consumer same).trans stage
  | checked =>
    obtain ⟨entry, queue, front⟩ := List.exists_cons_of_ne_nil (h.checked stage)
    refine .inr ⟨.frontQueue, { w with consumer := .holds entry }, by simp, ?_, fun same => ?_⟩
    · simp [step, stage, front]
    · cases (congrArg consumer same).trans stage
  | holds entry =>
    obtain ⟨queue, front⟩ := h.toSafe.exists_front (.inl stage)
    rw [midPops, stage, front, List.length_cons] at count
    change queue.length + 1 = w.tokens + w.midPushes + 0 at count
    have token : 0 < w.tokens := by omega
    refine .inr ⟨.readToken, { w with tokens := w.tokens - 1, consumer := .midPop entry }, by simp, ?_, fun same => ?_⟩
    · simp [step, stage, token]
    · cases (congrArg consumer same).trans stage
  | midPop entry =>
    obtain ⟨queue, front⟩ := h.toSafe.exists_front (.inr stage)
    refine .inr ⟨.pop, { w with queue := queue, taken := w.taken ++ [entry], consumer := .outside }, by simp, ?_,
      fun same => ?_⟩
    · simp [step, stage, front]
    · cases (congrArg consumer same).trans stage

/-- Everything that was pushed can be taken. -/
theorem Balanced.drains (h : w.Balanced) : ∃ v, Relation.ReflTransGen Next w v ∧ v.taken = w.pushed := by
  induction n : w.left using Nat.strongRecOn generalizing w with
  | ind n ih =>
    rcases h.progress with done | ⟨a, v, push, step, changed⟩
    · exact ⟨w, .refl, done⟩
    · rcases (h.toSafe.moves step).left_lt push with ⟨pushed, less⟩ | ⟨-, same⟩
      · obtain ⟨u, run, taken⟩ := ih v.left (n ▸ less) (h.next step) rfl
        exact ⟨u, .head ⟨a, step⟩ run, taken.trans pushed⟩
      · exact absurd same changed

/-- No wake-up and no entry is lost. -/
structure LosesNothing (w : Watch α) : Prop where
  count : w.queue.length = w.tokens + w.midPushes + w.midPops
  fault : w.fault = false
  /-- What was taken, in the order in which it was pushed, and each entry once. -/
  order : w.taken ++ w.queue = w.pushed
  wakes : w.queue ≠ [] → w.midPushes = 0 → w.midPops = 0 → w.readable
  /-- A consumer that waits for its token has one, or a producer is about to write it. -/
  waits : ∀ entry, w.consumer = .holds entry → w.readable ∨ 0 < w.midPushes
  drains : ∃ v, Relation.ReflTransGen Next w v ∧ v.taken = w.pushed

theorem Balanced.losesNothing (h : w.Balanced) : w.LosesNothing where
  count := h.count
  fault := h.fault
  order := h.order
  wakes waiting mid pop := by
    have pos := List.length_pos_iff.2 waiting
    have count := h.count
    unfold readable
    omega
  waits entry holds := by
    obtain ⟨queue, front⟩ := h.toSafe.exists_front (.inl holds)
    have count := h.count
    rw [midPops, holds, front, List.length_cons] at count
    change queue.length + 1 = w.tokens + w.midPushes + 0 at count
    unfold readable
    omega
  drains := h.drains

/-- **The pipe loses no wake-up and no entry**, whatever the order of the steps. -/
theorem loses_nothing {start w : Watch α} (initial : start.Initial) (run : Relation.ReflTransGen Next start w) :
    w.LosesNothing :=
  (initial.balanced.of_run run).losesNothing

/-- A watch with `n` producer threads. -/
def fresh (n : Nat) : Watch Nat := ⟨[], 0, List.replicate n .outside, .outside, [], [], false⟩

theorem initial_fresh (n : Nat) : (fresh n).Initial :=
  ⟨rfl, rfl, fun _ mem => List.eq_of_mem_replicate mem, rfl, rfl, rfl, rfl⟩

/-- The consumer has read the token of 3 but not popped it, and the second producer has pushed 5 but not
written its token. -/
theorem loses_nothing_inside :
    (⟨[3, 5], 0, [.outside, .midPush], .midPop 3, [3, 5], [], false⟩ : Watch Nat).LosesNothing :=
  loses_nothing (initial_fresh 2) (.tail (.tail (.tail (.tail (.tail (.tail .refl ⟨.enqueue 0 3, rfl⟩)
    ⟨.writeToken 0, rfl⟩) ⟨.emptyQueue, rfl⟩) ⟨.frontQueue, rfl⟩) ⟨.enqueue 1 5, rfl⟩) ⟨.readToken, rfl⟩)

end Steps

end Watch

end OtaBridge.Runtime
