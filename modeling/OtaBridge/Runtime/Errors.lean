import OtaBridge.Runtime.Channel

/-!
# Errors on the channel

A call of `pushQueue` or `popQueue` that fails with `EAGAIN` or `EINTR` is repeated. After every other
error there is a `perror`, and the loop is left: `pushQueue` returns without a token for its entry, and
`popQueue` pops an entry whose token is still there. This costs no entry its place in the order, and `pop`
never finds an empty queue. But for each token that was not written, and not made up for by one that was
not read, one more entry is left in the end, with the dispatcher waiting in `popQueue` (`errors_cost`).
-/

namespace OtaBridge.Runtime

open Logic.Systems

/-- A watch, and how often a thread has left the loop without a token written, or read. -/
structure Erring (ch : Channel) (α : Type) where
  wired : Wired ch α
  unwritten : Nat
  unread : Nat

inductive ErringAction (α : Type) where
  | call (a : Action α)
  | writeBreaks (i : Nat)
  | readBreaks

namespace Erring

variable {ch : Channel} {α : Type}

def step (e : Erring ch α) : ErringAction α → Option (Erring ch α)
  | .call a => (e.wired.step a).map fun w => { e with wired := w }
  | .writeBreaks i =>
    if e.wired.producers[i]? = some .midPush then
      some { e with
        wired := { e.wired with producers := e.wired.producers.set i .outside }
        unwritten := e.unwritten + 1 }
    else none
  | .readBreaks =>
    match e.wired.consumer with
    | .holds entry => some { e with wired := { e.wired with consumer := .midPop entry }, unread := e.unread + 1 }
    | _ => none

def Next (e f : Erring ch α) : Prop := ∃ a, e.step a = some f

/-- A call, other than a push, that changes something. -/
def Drains (e f : Erring ch α) : Prop := e.wired.Drains f.wired ∧ f.unwritten = e.unwritten ∧ f.unread = e.unread

structure Initial (e : Erring ch α) : Prop where
  wired : e.wired.Initial
  unwritten : e.unwritten = 0
  unread : e.unread = 0

/-- What every step keeps. -/
structure Accounted (e : Erring ch α) : Prop where
  safe : e.wired.Safe
  count : e.wired.queue.length + e.unread =
    ch.tokens e.wired.channel + e.wired.watch.midPushes + e.wired.watch.midPops + e.unwritten

variable {e f : Erring ch α}

theorem Initial.accounted (lawful : ch.Lawful) (h : e.Initial) : e.Accounted where
  safe := (h.wired.balanced lawful).safe
  count := by
    rw [h.unwritten, h.unread]
    exact (h.wired.balanced lawful).watch.count

theorem Accounted.call (lawful : ch.Lawful) (h : e.Accounted) {a : Action α} {w : Wired ch α}
    (step : e.wired.step a = some w) : Accounted { e with wired := w } := by
  obtain ⟨known, valid⟩ := Wired.watch_step lawful h.safe step
  have moves := h.safe.watch.moves known
  refine ⟨⟨valid, moves.safe h.safe.watch⟩, ?_⟩
  have before := h.count
  have kept := moves.count
  change w.queue.length + (ch.tokens e.wired.channel + _ + _) = e.wired.queue.length + (ch.tokens w.channel + _ + _) at kept
  show w.queue.length + e.unread = ch.tokens w.channel + w.watch.midPushes + w.watch.midPops + e.unwritten
  omega

theorem Accounted.writeBreaks (h : e.Accounted) {i : Nat} (inside : e.wired.producers[i]? = some .midPush) :
    Accounted { e with
      wired := { e.wired with producers := e.wired.producers.set i .outside }
      unwritten := e.unwritten + 1 } := by
  have safe := h.safe.watch
  refine ⟨⟨h.safe.valid, safe.order, safe.checked, safe.held, safe.fault⟩, ?_⟩
  have leave := Watch.count_leave (w := e.wired.watch) inside
  have before := h.count
  change (e.wired.producers.set i .outside).count .midPush + 1 = _ at leave
  show e.wired.queue.length + e.unread =
    ch.tokens e.wired.channel + (e.wired.producers.set i .outside).count .midPush + e.wired.watch.midPops + (e.unwritten + 1)
  omega

theorem Accounted.readBreaks (h : e.Accounted) {entry : α} (inside : e.wired.consumer = .holds entry) :
    Accounted { e with wired := { e.wired with consumer := .midPop entry }, unread := e.unread + 1 } := by
  refine ⟨⟨h.safe.valid, h.safe.watch.popping inside _⟩, ?_⟩
  have before := h.count
  rw [Wired.midPops_of_holds inside] at before
  show e.wired.queue.length + (e.unread + 1) = ch.tokens e.wired.channel + e.wired.watch.midPushes + 1 + e.unwritten
  omega

/-- Errors are accounted for. -/
theorem Accounted.next (lawful : ch.Lawful) (h : e.Accounted) (next : e.Next f) : f.Accounted := by
  obtain ⟨a, step⟩ := next
  cases a with
  | call a =>
    obtain ⟨w, called, rfl⟩ := Option.map_eq_some_iff.1 step
    exact h.call lawful called
  | writeBreaks i =>
    simp only [Erring.step, Option.ite_none_right_eq_some, Option.some.injEq] at step
    obtain ⟨inside, rfl⟩ := step
    exact h.writeBreaks inside
  | readBreaks =>
    simp only [Erring.step] at step
    split at step
    · next entry inside =>
      obtain rfl := Option.some.inj step
      exact h.readBreaks inside
    · cases step

/-- The watch has come to rest, after what was pushed and failed up to `e`. -/
structure Ended (e f : Erring ch α) : Prop where
  /-- All but the last entries. -/
  taken : f.wired.taken = e.wired.pushed.take (e.wired.pushed.length - (e.unwritten - e.unread))
  /-- The dispatcher waits in `popQueue`. -/
  stuck : (∃ entry, f.wired.consumer = .holds entry) ↔ e.unread < e.unwritten
  /-- The tokens that were not read, and what the full channel keeps from being written. -/
  stale : ch.tokens f.wired.channel + f.wired.watch.midPushes = e.unread - e.unwritten

theorem Accounted.ended (lawful : ch.Lawful) (h : e.Accounted) (rests : Rests Drains e) : Ended e e := by
  have still : Rests Wired.Drains e.wired := fun w drains => rests { e with wired := w } ⟨drains, rfl, rfl⟩
  have count := h.count
  have order : e.wired.taken ++ e.wired.queue = e.wired.pushed := h.safe.watch.order
  have taken : e.wired.taken = e.wired.pushed.take (e.wired.pushed.length - e.wired.queue.length) := by
    rw [← order, List.length_append, Nat.add_sub_cancel, List.take_left]
  rcases h.safe.rest lawful still with ⟨stage, empty⟩ | ⟨entry, stage, tokens, pushes⟩
  · have pops : e.wired.watch.midPops = 0 := by rw [Watch.midPops, Wired.watch, stage]
    rw [empty, pops] at count
    change 0 + e.unread = _ at count
    have left : e.wired.queue.length = e.unwritten - e.unread := by
      rw [empty, List.length_nil]
      omega
    refine ⟨left ▸ taken, ⟨?_, fun less => ?_⟩, by omega⟩
    · rintro ⟨entry, held⟩
      cases stage.symm.trans held
    · omega
  · rw [tokens, pushes, Wired.midPops_of_holds stage] at count
    have left : e.wired.queue.length = e.unwritten - e.unread := by omega
    obtain ⟨queue, front⟩ := h.safe.watch.exists_front (.inl stage)
    have some : e.wired.queue.length = queue.length + 1 := congrArg List.length front
    exact ⟨left ▸ taken, ⟨fun _ => by omega, fun _ => ⟨entry, stage⟩⟩, by omega⟩

/-- What errors cost. -/
structure Costs (e : Erring ch α) : Prop where
  fault : e.wired.fault = false
  order : e.wired.taken ++ e.wired.queue = e.wired.pushed
  /-- Once nothing more is pushed, and nothing more fails for good. -/
  settles : Settles Drains (Ended e) e

/-- **What errors cost**, whatever the order of the steps. -/
theorem errors_cost (lawful : ch.Lawful) {start : Erring ch α} (initial : start.Initial)
    (run : Relation.ReflTransGen Next start e) : e.Costs := by
  have accounted : e.Accounted := invariant_run (fun _ _ h => h.next lawful) (initial.accounted lawful) run
  refine ⟨accounted.safe.watch.fault, accounted.safe.watch.order, ?_⟩
  refine Settles.of_measure (μ := fun f => f.wired.watch.left)
    (I := fun f => f.Accounted ∧ f.wired.pushed = e.wired.pushed ∧ f.unwritten = e.unwritten ∧ f.unread = e.unread)
    ?_ ?_ ?_ ⟨accounted, rfl, rfl, rfl⟩
  · rintro f g ⟨here, pushed, unwritten, unread⟩ ⟨drains, unwritten', unread'⟩
    have less := (here.safe.left_lt lawful drains).1
    obtain ⟨a, -, step, -⟩ := drains
    refine ⟨?_, less.trans pushed, unwritten'.trans unwritten, unread'.trans unread⟩
    have next := here.call lawful step
    rw [← unwritten', ← unread'] at next
    exact next
  · exact fun f g here drains => (here.1.safe.left_lt lawful drains.1).2
  · rintro f ⟨here, pushed, unwritten, unread⟩ rests
    obtain ⟨taken, stuck, stale⟩ := here.ended lawful rests
    rw [pushed, unwritten, unread] at taken
    rw [unwritten, unread] at stuck stale
    exact ⟨taken, stuck, stale⟩

end Erring

/-- The token of 3 was not written, and the dispatcher has taken 3 with that of 5. -/
def behind : Erring (pipe tokenSize) Nat := ⟨⟨(0 : Nat), [5], [.outside, .outside], .outside, [3, 5], [3], false⟩, 1, 0⟩

theorem reached_behind : Relation.ReflTransGen Erring.Next ⟨unused (pipe tokenSize), 0, 0⟩ behind :=
  .tail (.tail (.tail (.tail (.tail (.tail (.tail (.tail .refl ⟨.call (.enqueue 0 3), rfl⟩) ⟨.writeBreaks 0, rfl⟩)
    ⟨.call (.enqueue 1 5), rfl⟩) ⟨.call (.writeToken 1), rfl⟩) ⟨.call .emptyQueue, rfl⟩) ⟨.call .frontQueue, rfl⟩)
    ⟨.call .readToken, rfl⟩) ⟨.call .pop, rfl⟩

theorem errors_cost_behind : behind.Costs :=
  Erring.errors_cost (lawful_pipe (le_refl tokenSize)) ⟨initial_unused (lawful_pipe (le_refl tokenSize)), rfl, rfl⟩
    reached_behind

end OtaBridge.Runtime
