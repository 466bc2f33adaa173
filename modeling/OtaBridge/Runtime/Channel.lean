import OtaBridge.Logic.Systems
import OtaBridge.Runtime.Watch

/-!
# The two channels of `Watch`

The QNX branch wakes the dispatcher through a pipe, the other one through the counter of an eventfd. Both
can be full: a pipe has so many bytes, the counter stops two short of 64 bits. `pushQueue` and `popQueue`
repeat a call that does not go through, and hold no lock meanwhile. Both branches are a `Watch`
(`wired_loses_nothing`), and once nothing is pushed any more every run of them takes all that was pushed,
however small the channel, as long as one token fits (`wired_drains`).
-/

namespace OtaBridge.Runtime

open Logic.Systems

/-- What `Watch` uses of a descriptor. A call that gives `none` fails with `EAGAIN`, or waits. -/
structure Channel where
  State : Type
  /-- What every state is that calls lead to. -/
  Valid : State → Prop
  opened : State
  write : State → Option State
  read : State → Option State
  /-- How many reads can go through. -/
  tokens : State → Nat

/-- A channel of tokens, with room for one of them. -/
structure Channel.Lawful (ch : Channel) : Prop where
  opened : ch.Valid ch.opened ∧ ch.tokens ch.opened = 0
  write : ∀ s t, ch.Valid s → ch.write s = some t → ch.Valid t ∧ ch.tokens t = ch.tokens s + 1
  read : ∀ s t, ch.Valid s → ch.read s = some t → ch.Valid t ∧ ch.tokens t + 1 = ch.tokens s
  /-- A full channel is not empty. -/
  full : ∀ s, ch.Valid s → ch.write s = none → 0 < ch.tokens s
  empty : ∀ s, ch.Valid s → ch.read s = none → ch.tokens s = 0

/-! ## The channels of the two branches -/

/-- `sizeof(uint64_t)` -/
def tokenSize : Nat := 8

/-- `pipe(fds)` with room for `c` bytes, by the number of bytes in it. The write of a token is atomic; a
read takes what is there, but no more than it asks for. -/
def pipe (c : Nat) : Channel where
  State := Nat
  Valid n := n % tokenSize = 0
  opened := 0
  write n := if n + tokenSize ≤ c then some (n + tokenSize) else none
  read n := if n = 0 then none else some (n - min n tokenSize)
  tokens n := n / tokenSize

/-- The greatest value of the counter of an eventfd. -/
def eventfdMax : Nat := 0xfffffffffffffffe

/-- `eventfd(0, EFD_NONBLOCK | EFD_SEMAPHORE)`, to which `eventFdValue_` is written. -/
def eventfd : Channel where
  State := Nat
  Valid _ := True
  opened := 0
  write n := if n + 1 ≤ eventfdMax then some (n + 1) else none
  read n := if n = 0 then none else some (n - 1)
  tokens n := n

theorem lawful_pipe {c : Nat} (room : tokenSize ≤ c) : (pipe c).Lawful where
  opened := ⟨rfl, Nat.zero_div tokenSize⟩
  write (n m : Nat) valid written := by
    obtain ⟨-, more⟩ := Option.ite_none_right_eq_some.1 written
    obtain rfl : n + 8 = m := Option.some.inj more
    change n % 8 = 0 at valid
    show (n + 8) % 8 = 0 ∧ (n + 8) / 8 = n / 8 + 1
    omega
  read (n m : Nat) valid taken := by
    obtain ⟨bytes, less⟩ := Option.ite_none_left_eq_some.1 taken
    obtain rfl : n - min n 8 = m := Option.some.inj less
    change n % 8 = 0 at valid
    change ¬ n = 0 at bytes
    show (n - min n 8) % 8 = 0 ∧ (n - min n 8) / 8 + 1 = n / 8
    omega
  full (n : Nat) valid refused := by
    have more : ¬ n + 8 ≤ c := fun fits => by
      have written : (pipe c).write n = some (n + 8) := if_pos fits
      cases written.symm.trans refused
    change n % 8 = 0 at valid
    change 8 ≤ c at room
    show 0 < n / 8
    omega
  empty (n : Nat) _ refused := by
    obtain rfl : n = 0 := by simpa [pipe] using refused
    rfl

theorem lawful_eventfd : eventfd.Lawful where
  opened := ⟨trivial, rfl⟩
  write (n m : Nat) _ written := by
    obtain ⟨-, more⟩ := Option.ite_none_right_eq_some.1 written
    exact ⟨trivial, (Option.some.inj more).symm⟩
  read (n m : Nat) _ taken := by
    obtain ⟨count, less⟩ := Option.ite_none_left_eq_some.1 taken
    obtain rfl : n - 1 = m := Option.some.inj less
    exact ⟨trivial, Nat.sub_add_cancel (Nat.pos_of_ne_zero count)⟩
  full (n : Nat) _ refused := by
    have more : ¬ n + 1 ≤ eventfdMax := fun fits => by
      have written : eventfd.write n = some (n + 1) := if_pos fits
      cases written.symm.trans refused
    show 0 < n
    unfold eventfdMax at more
    omega
  empty (n : Nat) _ refused := by simpa [eventfd] using refused

/-! ## A watch on a channel -/

/-- A watch with the channel of one of the branches. -/
structure Wired (ch : Channel) (α : Type) where
  channel : ch.State
  queue : List α
  producers : List Producer
  consumer : Consumer α
  pushed : List α
  taken : List α
  fault : Bool

namespace Wired

variable {ch : Channel} {α : Type}

/-- The watch that counts tokens. -/
def watch (w : Wired ch α) : Watch α :=
  ⟨w.queue, ch.tokens w.channel, w.producers, w.consumer, w.pushed, w.taken, w.fault⟩

def withWatch (w : Wired ch α) (v : Watch α) : Wired ch α :=
  ⟨w.channel, v.queue, v.producers, v.consumer, v.pushed, v.taken, v.fault⟩

/-- `Watch.step`, where the write and the read of a token are calls on the channel. -/
def step (w : Wired ch α) : Action α → Option (Wired ch α)
  | .writeToken i =>
    if w.producers[i]? = some .midPush then
      (ch.write w.channel).map fun c => { w with channel := c, producers := w.producers.set i .outside }
    else none
  | .readToken =>
    match w.consumer with
    | .holds entry => (ch.read w.channel).map fun c => { w with channel := c, consumer := .midPop entry }
    | _ => none
  | a => (w.watch.step a).map w.withWatch

def Next (w v : Wired ch α) : Prop := ∃ a, w.step a = some v

/-- A step, other than a push, that changes something. -/
def Drains (w v : Wired ch α) : Prop := ∃ a, (∀ i entry, a ≠ .enqueue i entry) ∧ w.step a = some v ∧ v ≠ w

/-- Nothing was pushed, and the channel has just been opened. -/
structure Initial (w : Wired ch α) : Prop where
  channel : w.channel = ch.opened
  watch : w.watch.Initial

/-- What every step keeps, whatever is in the channel. -/
structure Safe (w : Wired ch α) : Prop where
  valid : ch.Valid w.channel
  watch : w.watch.Safe

/-- What every step keeps. -/
structure Balanced (w : Wired ch α) : Prop where
  valid : ch.Valid w.channel
  watch : w.watch.Balanced

theorem Balanced.safe {w : Wired ch α} (h : w.Balanced) : w.Safe := ⟨h.valid, h.watch.toSafe⟩

/-- The steps that leave the channel alone. -/
theorem step_other {w v : Wired ch α} {a : Action α} (write : ∀ i, a ≠ .writeToken i) (read : a ≠ .readToken)
    (step : w.step a = some v) : ∃ x, w.watch.step a = some x ∧ v = w.withWatch x := by
  have same : w.step a = (w.watch.step a).map w.withWatch := by
    cases a with
    | writeToken i => exact absurd rfl (write i)
    | readToken => exact absurd rfl read
    | _ => rfl
  rw [same, Option.map_eq_some_iff] at step
  obtain ⟨x, next, rfl⟩ := step
  exact ⟨x, next, rfl⟩

/-- Every step is one of the watch that counts tokens. -/
theorem watch_step (lawful : ch.Lawful) {w v : Wired ch α} {a : Action α} (h : w.Safe) (step : w.step a = some v) :
    w.watch.step a = some v.watch ∧ ch.Valid v.channel := by
  have valid := h.valid
  by_cases write : ∃ i, a = .writeToken i
  · obtain ⟨i, rfl⟩ := write
    simp only [Wired.step, Option.ite_none_right_eq_some, Option.map_eq_some_iff] at step
    obtain ⟨inside, c, written, rfl⟩ := step
    obtain ⟨valid', tokens⟩ := lawful.write _ _ valid written
    refine ⟨?_, valid'⟩
    have inside' : w.watch.producers[i]? = some .midPush := inside
    rw [Watch.step, if_pos inside']
    simp only [watch, tokens]
  by_cases read : a = .readToken
  · subst read
    simp only [Wired.step] at step
    split at step
    · next entry inside =>
      obtain ⟨c, taken, rfl⟩ := Option.map_eq_some_iff.1 step
      obtain ⟨valid', tokens⟩ := lawful.read _ _ valid taken
      refine ⟨?_, valid'⟩
      have inside' : w.watch.consumer = .holds entry := inside
      have waiting : 0 < ch.tokens w.channel := tokens ▸ Nat.succ_pos _
      rw [Watch.step, inside']
      show (if 0 < ch.tokens w.channel then _ else _) = _
      rw [if_pos waiting]
      simp only [watch, ← tokens, Nat.add_sub_cancel]
    · cases step
  · obtain ⟨x, next, rfl⟩ := step_other (not_exists.1 write) read step
    have tokens := (h.watch.moves next).tokens (not_exists.1 write) read
    refine ⟨next.trans (congrArg some ?_), valid⟩
    show x = ⟨x.queue, ch.tokens w.channel, x.producers, x.consumer, x.pushed, x.taken, x.fault⟩
    change x.tokens = ch.tokens w.channel at tokens
    rw [← tokens]

theorem Initial.balanced (lawful : ch.Lawful) {w : Wired ch α} (h : w.Initial) : w.Balanced :=
  ⟨h.channel ▸ lawful.opened.1, h.watch.balanced⟩

theorem Balanced.next (lawful : ch.Lawful) {w v : Wired ch α} (h : w.Balanced) (next : w.Next v) : v.Balanced := by
  obtain ⟨a, step⟩ := next
  obtain ⟨step, valid⟩ := watch_step lawful h.safe step
  exact ⟨valid, h.watch.next step⟩

/-- The watch that counts tokens can follow. -/
theorem simulates (lawful : ch.Lawful) :
    Simulates Next Watch.Next fun (w : Wired ch α) v => w.Balanced ∧ w.watch = v := by
  rintro w w' _ ⟨balanced, rfl⟩ ⟨a, step⟩
  exact ⟨w'.watch, .single ⟨a, (watch_step lawful balanced.safe step).1⟩, balanced.next lawful ⟨a, step⟩, rfl⟩

/-- **Both branches lose no wake-up and no entry.** -/
theorem wired_loses_nothing (lawful : ch.Lawful) {start w : Wired ch α} (initial : start.Initial)
    (run : Relation.ReflTransGen Next start w) : w.watch.LosesNothing := by
  obtain ⟨_, run, -, rfl⟩ := (simulates lawful).run ⟨initial.balanced lawful, rfl⟩ run
  exact (initial.watch.balanced.of_run run).losesNothing

/-! ## Draining, whatever the order -/

/-- What changes something, and is no push, brings the watch nearer to its rest. -/
theorem Safe.left_lt (lawful : ch.Lawful) {w v : Wired ch α} (h : w.Safe) (step : w.Drains v) :
    v.pushed = w.pushed ∧ v.watch.left < w.watch.left := by
  obtain ⟨a, push, step, changed⟩ := step
  have known := (watch_step lawful h step).1
  rcases (h.watch.moves known).left_lt push with ⟨pushed, less⟩ | ⟨idle, same⟩
  · exact ⟨pushed, less⟩
  · obtain ⟨x, next, rfl⟩ := step_other (fun i e => by rw [e] at idle; cases idle) (fun e => by rw [e] at idle; cases idle) step
    obtain rfl : x = w.watch := by
      rw [same] at known
      exact Option.some.inj (next.symm.trans known)
    exact absurd rfl changed

/-- Where the consumer waits for a token, none is there or about to come. -/
theorem Safe.starved (lawful : ch.Lawful) {w : Wired ch α} (h : w.Safe) (rests : Rests Drains w) {entry : α}
    (stage : w.consumer = .holds entry) : ch.tokens w.channel = 0 ∧ w.watch.midPushes = 0 := by
  have refused : ch.read w.channel = none := by
    by_contra accepted
    obtain ⟨c, taken⟩ := Option.ne_none_iff_exists'.1 accepted
    have next : w.step .readToken = some { w with channel := c, consumer := .midPop entry } := by
      simp [step, stage, taken]
    refine absurd ⟨_, by simp, next, fun same => ?_⟩ (rests _)
    cases (congrArg consumer same).trans stage
  have none := lawful.empty _ h.valid refused
  refine ⟨none, List.count_eq_zero.2 fun mid => ?_⟩
  obtain ⟨i, inside⟩ := List.mem_iff_getElem?.1 mid
  change w.producers[i]? = _ at inside
  cases written : ch.write w.channel with
  | none => exact absurd none (Nat.ne_of_gt (lawful.full _ h.valid written))
  | some c =>
    have next : w.step (.writeToken i) = some { w with channel := c, producers := w.producers.set i .outside } := by
      simp [step, inside, written]
    refine absurd ⟨_, by simp, next, fun same => ?_⟩ (rests _)
    have left := Watch.count_leave (w := w.watch) inside
    have kept : w.producers.set i .outside = w.producers := congrArg producers same
    change (w.producers.set i .outside).count .midPush + 1 = w.producers.count .midPush at left
    rw [kept] at left
    omega

theorem midPops_of_holds {w : Wired ch α} {entry : α} (stage : w.consumer = .holds entry) : w.watch.midPops = 0 := by
  rw [Watch.midPops, watch, stage]

/-- Where a watch rests, nothing waits, or the consumer waits for a token that does not come. -/
theorem Safe.rest (lawful : ch.Lawful) {w : Wired ch α} (h : w.Safe) (rests : Rests Drains w) :
    (w.consumer = .outside ∧ w.queue = []) ∨
      ∃ entry, w.consumer = .holds entry ∧ ch.tokens w.channel = 0 ∧ w.watch.midPushes = 0 := by
  -- the consumer stays where it is
  have stays : ∀ a v, (∀ i entry, a ≠ .enqueue i entry) → w.step a = some v → v.consumer = w.consumer := by
    intro a v push step
    by_contra changed
    exact rests v ⟨a, push, step, fun same => changed (congrArg consumer same)⟩
  cases stage : w.watch.consumer with
  | outside =>
    refine .inl ⟨stage, ?_⟩
    by_contra waiting
    change w.watch.queue ≠ [] at waiting
    have next : w.watch.step .emptyQueue = some { w.watch with consumer := .checked } := by
      simp [Watch.step, stage, waiting]
    cases (stays .emptyQueue _ (by simp) (congrArg (Option.map w.withWatch) next)).trans stage
  | checked =>
    obtain ⟨entry, queue, front⟩ := List.exists_cons_of_ne_nil (h.watch.checked stage)
    have next : w.watch.step .frontQueue = some { w.watch with consumer := .holds entry } := by
      simp [Watch.step, stage, front]
    cases (stays .frontQueue _ (by simp) (congrArg (Option.map w.withWatch) next)).trans stage
  | holds entry => exact .inr ⟨entry, stage, h.starved lawful rests stage⟩
  | midPop entry =>
    obtain ⟨queue, front⟩ := h.watch.exists_front (.inr stage)
    have next : w.watch.step .pop = some { w.watch with
        queue := queue, taken := w.watch.taken ++ [entry], consumer := .outside } := by
      simp [Watch.step, stage, front]
    cases (stays .pop _ (by simp) (congrArg (Option.map w.withWatch) next)).trans stage

theorem Balanced.taken_of_rests (lawful : ch.Lawful) {w : Wired ch α} (h : w.Balanced) (rests : Rests Drains w) :
    w.taken = w.pushed := by
  have empty : w.queue = [] := by
    rcases h.safe.rest lawful rests with ⟨-, empty⟩ | ⟨entry, stage, tokens, pushes⟩
    · exact empty
    · have pops : w.watch.midPops = 0 := midPops_of_holds stage
      have count := h.watch.count
      rw [pushes, pops] at count
      exact List.length_eq_zero_iff.1 (count.trans tokens)
  have order := h.watch.order
  change w.taken ++ w.queue = w.pushed at order
  rwa [empty, List.append_nil] at order

/-- **Both branches take all that was pushed**, on every run on which nothing more is pushed. -/
theorem wired_drains (lawful : ch.Lawful) {start w : Wired ch α} (initial : start.Initial)
    (run : Relation.ReflTransGen Next start w) : Settles Drains (fun v => v.taken = w.pushed) w := by
  have balanced : w.Balanced := invariant_run (fun _ _ h => h.next lawful) (initial.balanced lawful) run
  refine Settles.of_measure (I := fun v => v.Balanced ∧ v.pushed = w.pushed) (μ := fun v => v.watch.left) ?_ ?_ ?_
    ⟨balanced, rfl⟩
  · rintro v u ⟨here, same⟩ step
    refine ⟨here.next lawful ?_, (here.safe.left_lt lawful step).1.trans same⟩
    obtain ⟨a, -, step, -⟩ := step
    exact ⟨a, step⟩
  · exact fun v u here step => (here.1.safe.left_lt lawful step).2
  · exact fun v here rests => (here.1.taken_of_rests lawful rests).trans here.2

end Wired

/-! ## The channels in use -/

/-- Two producers, and a channel that was just opened. -/
def unused (ch : Channel) : Wired ch Nat := ⟨ch.opened, [], [.outside, .outside], .outside, [], [], false⟩

theorem initial_unused {ch : Channel} (lawful : ch.Lawful) : (unused ch).Initial :=
  ⟨rfl, rfl, lawful.opened.2, fun p mem => by simpa [unused, Wired.watch] using mem, rfl, rfl, rfl, rfl⟩

/-- Both producers have pushed, and the first has written its token. -/
def announced (ch : Channel) (c : ch.State) : Wired ch Nat :=
  ⟨c, [3, 5], [.outside, .midPush], .outside, [3, 5], [], false⟩

theorem reached_announced {ch : Channel} {c : ch.State} (written : ch.write ch.opened = some c) :
    Relation.ReflTransGen Wired.Next (unused ch) (announced ch c) := by
  refine ((Relation.ReflTransGen.single ⟨.enqueue 0 3, rfl⟩).tail ⟨.enqueue 1 5, rfl⟩).tail ⟨.writeToken 0, ?_⟩
  exact congrArg (Option.map fun c : ch.State => announced ch c) written

/-- One token fills the smallest pipe, and the write of the second producer does not go through. -/
example : (announced (pipe tokenSize) tokenSize).step (.writeToken 1) = none := rfl

theorem wired_loses_nothing_announced :
    (announced (pipe tokenSize) tokenSize).watch.LosesNothing ∧ (announced eventfd (1 : Nat)).watch.LosesNothing :=
  ⟨Wired.wired_loses_nothing (lawful_pipe (le_refl tokenSize)) (initial_unused (lawful_pipe (le_refl tokenSize)))
      (reached_announced rfl),
    Wired.wired_loses_nothing lawful_eventfd (initial_unused lawful_eventfd) (reached_announced rfl)⟩

theorem wired_drains_announced :
    Settles Wired.Drains (fun v => v.taken = [3, 5]) (announced (pipe tokenSize) tokenSize) ∧
      Settles Wired.Drains (fun v => v.taken = [3, 5]) (announced eventfd (1 : Nat)) :=
  ⟨Wired.wired_drains (lawful_pipe (le_refl tokenSize)) (initial_unused (lawful_pipe (le_refl tokenSize)))
      (reached_announced rfl),
    Wired.wired_drains lawful_eventfd (initial_unused lawful_eventfd) (reached_announced rfl)⟩

end OtaBridge.Runtime
