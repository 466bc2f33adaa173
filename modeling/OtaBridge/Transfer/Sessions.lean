import OtaBridge.Transfer.Completion
import OtaBridge.Transfer.Progress

/-!
# Whole sessions

The `main` of a client subscribes before it asks for anything, and asks for a transfer once, if the reply
told of a newer version. So in every session the transfers of the server belong to different clients that
were told so (`transfers_are_warranted`). And as long as there has been only one transfer, the client that
asked for it has a part of the image at every moment and all of it when it completes, whatever the others
do meanwhile (`asker_is_served`).
-/

namespace OtaBridge.Transfer

open Logic.Systems

section Sessions

variable {κ : Type} [DecidableEq κ] {image : List Byte} {s t : Session κ} {k : κ}

/-! ## Steps -/

/-- What a step does to the threads. -/
theorem System.threads_step {x y : System κ} {a : Action κ} (step : x.step image a = some y) :
    (y.threads = x.threads ∧ ∀ i, a ≠ .fire i) ∨ (∃ j read, a = .startTransfer j read ∧ y.threads = x.threads ++ [⟨read, 0⟩]) ∨
      ∃ i th e, a = .fire i ∧ x.threads[i]? = some th ∧ (th.events image)[th.fired]? = some e ∧
        y.threads = x.threads.set i { th with fired := th.fired + 1 } := by
  cases a with
  | subscribe j =>
    obtain rfl := Option.some.inj step
    exact .inl ⟨rfl, by simp⟩
  | startTransfer j read =>
    obtain rfl := Option.some.inj step
    exact .inr (.inl ⟨j, read, rfl, rfl⟩)
  | fire i =>
    obtain ⟨th, e, found, event, rfl⟩ := System.of_step_fire step
    exact .inr (.inr ⟨i, th, e, rfl, found, event, rfl⟩)
  | deliver j write closes =>
    obtain ⟨c, -, rfl⟩ := System.of_step_deliver step
    exact .inl ⟨rfl, by simp⟩

/-- A call that gets to the server and starts a thread. -/
def Call.Starts (read : FileRead) (call : Call) : Prop := ∃ status, call = .startTransfer (some read) status

/-- What a call is to the system. -/
theorem System.performed {x y : System κ} {call : Call} (step : x.perform image (call.action k) = some y) :
    (∃ read, call.Starts read ∧ y = { x with threads := x.threads ++ [⟨read, 0⟩] }) ∨
      (y.threads = x.threads ∧ (∀ read, ¬ call.Starts read) ∧ ∀ j, (y.clients j).sent = (x.clients j).sent ∧
        ((x.clients j).subscribed = true → (y.clients j).subscribed = true)) := by
  have same : x = y → ∀ j, (y.clients j).sent = (x.clients j).sent ∧
      ((x.clients j).subscribed = true → (y.clients j).subscribed = true) := by
    rintro rfl j
    exact ⟨rfl, id⟩
  cases call with
  | subscribe =>
    have shared : x.step image (.subscribe k) = some y := step
    refine .inr ⟨?_, by simp [Call.Starts], fun j => (System.moves shared j).kept (by simp)⟩
    obtain rfl := Option.some.inj step
    rfl
  | requestUpdate status version crc currentVersion =>
    obtain rfl := Option.some.inj step
    exact .inr ⟨rfl, by simp [Call.Starts], same rfl⟩
  | startTransfer read status =>
    cases read with
    | none =>
      obtain rfl := Option.some.inj step
      exact .inr ⟨rfl, by simp [Call.Starts], same rfl⟩
    | some read =>
      obtain rfl := Option.some.inj step
      exact .inl ⟨read, ⟨status, rfl⟩, rfl⟩
  | onChunk write closes =>
    have shared : x.step image (.deliver k write closes) = some y := step
    refine .inr ⟨?_, by simp [Call.Starts], fun j => (System.moves shared j).kept (by simp)⟩
    rcases System.threads_step shared with ⟨threads, -⟩ | ⟨j, read, no, -⟩ | ⟨i, th, e, no, -⟩
    · exact threads
    · cases no
    · cases no
  | exit =>
    obtain rfl := Option.some.inj step
    exact .inr ⟨rfl, by simp [Call.Starts], same rfl⟩

/-! ## The `main` of a client -/

/-- What a call makes of `main`. -/
inductive ClientMain.Moves (m : ClientMain) : Call → ClientMain → Prop where
  | subscribes (started : m.stage = .started) : Moves m .subscribe { m with stage := .subscribed }
  | requests {status : CallStatus} {version crc : FileState} {currentVersion : UInt32} (subscribed : m.stage = .subscribed)
    (info : UpdateInfo) : Moves m (.requestUpdate status version crc currentVersion)
      { m with stage := .answered (conclude status info), info := info }
  | starts {read : Option FileRead} {status : CallStatus} (newer : m.stage = .answered .startTransfer) (stage : Stage)
    (past : stage = .transferring ∧ read.isSome = true ∨ stage = .rejected) :
    Moves m (.startTransfer read status) { m with stage := stage }
  | takes {write : WriteOutcome} {closes : Bool} (m' : ClientMain) (same : m'.stage = m.stage ∧ m'.info = m.info) :
    Moves m (.onChunk write closes) m'
  | ends : Moves m .exit { m with stage := .ended }

/-- The client is between its subscription and its end. -/
def Stage.Listens : Stage → Prop
  | .started | .ended => False
  | _ => True

/-- The client is behind its call of `startTransfer`, or has ended. -/
def Stage.Past : Stage → Prop
  | .transferring | .rejected | .ended => True
  | _ => False

/-- The reply tells of an image and a newer version. -/
def UpdateInfo.Newer (info : UpdateInfo) : Prop := info.exists_ = true ∧ info.isNew = true

section Main

variable {m m' : ClientMain} {c : Client} {call : Call}

theorem ClientMain.moves (step : m.step image c call = some m') : m.Moves call m' := by
  cases call with
  | subscribe =>
    simp only [ClientMain.step, Option.ite_none_right_eq_some, Option.some.injEq] at step
    obtain ⟨started, rfl⟩ := step
    exact .subscribes started
  | requestUpdate status version crc currentVersion =>
    simp only [ClientMain.step, Option.ite_none_right_eq_some, Option.some.injEq] at step
    obtain ⟨subscribed, rfl⟩ := step
    exact .requests subscribed _
  | startTransfer read status =>
    simp only [ClientMain.step, Option.ite_none_right_eq_some, Option.some.injEq] at step
    obtain ⟨newer, rfl⟩ := step
    refine .starts newer _ ?_
    cases read with
    | none => exact .inr rfl
    | some read =>
      split
      · exact .inl ⟨rfl, rfl⟩
      · exact .inr rfl
  | onChunk write closes =>
    simp only [ClientMain.step, Option.ite_none_left_eq_some, Option.some.injEq] at step
    obtain ⟨-, rfl⟩ := step
    exact .takes _ (m.evaluate_eq c)
  | exit =>
    obtain rfl := Option.some.inj step
    exact .ends

/-- The client goes on to ask only if it was told of a newer version. -/
theorem newer_of_conclude {status : CallStatus} {info : UpdateInfo} (h : conclude status info = .startTransfer) :
    info.Newer := by
  unfold conclude at h
  split at h
  · cases h
  split at h
  · cases h
  · next there =>
    split at h
    · cases h
    · next new => exact ⟨not_not.1 there, not_not.1 new⟩

/-- The client was told of a newer version, and has asked. -/
structure ClientMain.Asked (m : ClientMain) : Prop where
  past : m.stage.Past
  newer : m.info.Newer

theorem ClientMain.Asked.next (h : m.Asked) (moves : m.Moves call m') : m'.Asked := by
  have past := h.past
  cases moves with
  | subscribes started =>
    rw [started] at past
    exact past.elim
  | requests subscribed info =>
    rw [subscribed] at past
    exact past.elim
  | starts newer stage after =>
    rw [newer] at past
    exact past.elim
  | takes m' same => exact ⟨by rwa [same.1], by rw [same.2]; exact h.newer⟩
  | ends => exact ⟨trivial, h.newer⟩

theorem ClientMain.Moves.told (moves : m.Moves call m') (h : m.stage = .answered .startTransfer → m.info.Newer)
    (asks : m'.stage = .answered .startTransfer) : m'.info.Newer := by
  cases moves with
  | subscribes started => cases asks
  | requests subscribed info => exact newer_of_conclude (Stage.answered.inj asks)
  | starts newer stage past => rcases past with ⟨rfl, -⟩ | rfl <;> cases asks
  | takes m' same =>
    rw [same.2]
    exact h (same.1 ▸ asks)
  | ends => cases asks

theorem ClientMain.Moves.listens (moves : m.Moves call m') (on : m'.stage.Listens) : m.stage.Listens ∨ call = .subscribe := by
  cases moves with
  | subscribes started => exact .inr rfl
  | requests subscribed info => exact .inl (by rw [subscribed]; trivial)
  | starts newer stage past => exact .inl (by rw [newer]; trivial)
  | takes m' same => exact .inl (same.1 ▸ on)
  | ends => exact on.elim

theorem ClientMain.Moves.transferring (moves : m.Moves call m') (quiet : ∀ read, ¬ call.Starts read)
    (asked : m'.stage = .transferring) : m.stage = .transferring := by
  cases moves with
  | subscribes started => cases asked
  | requests subscribed info => cases asked
  | @starts read status newer stage past =>
    rcases past with ⟨rfl, some⟩ | rfl
    · obtain ⟨r, rfl⟩ := Option.isSome_iff_exists.1 some
      exact absurd ⟨status, rfl⟩ (quiet r)
    · cases asked
  | takes m' same => exact same.1.symm.trans asked
  | ends => cases asked

end Main

/-! ## Every transfer was asked for -/

theorem Session.step_cases {a : SessionStep κ} (step : s.step image a = some t) :
    (∃ i, t.mains = s.mains ∧ s.system.step image (.fire i) = some t.system) ∨
      ∃ j call m, (s.mains j).Moves call m ∧ t.mains = Function.update s.mains j m ∧
        s.system.perform image (call.action j) = some t.system := by
  cases a with
  | client j call =>
    simp only [Session.step, Option.bind_eq_bind, Option.bind_eq_some_iff, Option.pure_def, Option.some.injEq] at step
    obtain ⟨m, main, system, shared, rfl⟩ := step
    exact .inr ⟨j, call, m, ClientMain.moves main, rfl, shared⟩
  | fire i =>
    simp only [Session.step, Option.bind_eq_bind, Option.bind_eq_some_iff, Option.pure_def, Option.some.injEq] at step
    obtain ⟨system, fires, rfl⟩ := step
    exact .inl ⟨i, rfl, fires⟩

/-- The threads belong to different clients, each of which was told of a newer version and has asked. -/
structure Session.Warranted (s : Session κ) : Prop where
  starters : ∃ js : List κ, js.length = s.system.threads.length ∧ js.Nodup ∧ ∀ j, j ∈ js → (s.mains j).Asked
  told : ∀ j, (s.mains j).stage = .answered .startTransfer → (s.mains j).info.Newer
  silent : s.system.threads = [] → ∀ j, (s.system.clients j).sent = []

omit [DecidableEq κ] in
theorem Session.Initial.warranted (h : s.Initial) : s.Warranted where
  starters := ⟨[], by rw [h.system.threads]; rfl, .nil, fun j mem => by cases mem⟩
  told j asks := by
    rw [h.mains] at asks
    cases asks
  silent _ := h.system.sent

theorem Session.Warranted.next (h : s.Warranted) (next : Session.Next image s t) : t.Warranted := by
  obtain ⟨a, step⟩ := next
  obtain ⟨js, length, nodup, asked⟩ := h.starters
  rcases Session.step_cases step with ⟨i, mains, fires⟩ | ⟨j, call, m, moves, mains, shared⟩
  · rcases System.threads_step fires with ⟨-, no⟩ | ⟨j, read, no, -⟩ | ⟨i', th, e, -, found, -, threads⟩
    · exact absurd rfl (no i)
    · cases no
    · refine ⟨⟨js, by rw [threads, List.length_set, length], nodup, mains ▸ asked⟩, mains ▸ h.told, fun none => ?_⟩
      rw [threads, List.set_eq_nil_iff] at none
      rw [none] at found
      cases found
  · have still : ∀ i, i ∈ js → (t.mains i).Asked := by
      rw [mains]
      intro i mem
      by_cases e : i = j
      · subst e
        rw [Function.update_self]
        exact (asked i mem).next moves
      · rw [Function.update_of_ne e]
        exact asked i mem
    have told : ∀ i, (t.mains i).stage = .answered .startTransfer → (t.mains i).info.Newer := by
      rw [mains]
      exact (Function.forall_update_iff s.mains fun _ m => m.stage = .answered .startTransfer → m.info.Newer).2
        ⟨moves.told (h.told j), fun i _ => h.told i⟩
    rcases System.performed shared with ⟨read, ⟨status, rfl⟩, system⟩ | ⟨threads, -, kept⟩
    · -- the client of the new thread was not one of the others
      cases moves with
      | starts newer stage past =>
        have fresh : j ∉ js := fun mem => by
          have before := (asked j mem).past
          rw [newer] at before
          exact before
        have own : (t.mains j).Asked := by
          rw [mains, Function.update_self]
          exact ⟨by rcases past with ⟨rfl, -⟩ | rfl <;> trivial, h.told j newer⟩
        refine ⟨⟨j :: js, ?_, List.nodup_cons.2 ⟨fresh, nodup⟩, List.forall_mem_cons.2 ⟨own, still⟩⟩, told, fun none => ?_⟩
        · rw [system, List.length_append, List.length_cons, length]
          rfl
        · rw [system] at none
          cases (List.append_eq_nil_iff.1 none).2
    · refine ⟨⟨js, by rw [threads, length], nodup, still⟩, told, fun none i => ?_⟩
      rw [(kept i).1]
      exact h.silent (threads ▸ none) i

theorem Session.warranted_of_run (initial : s.Initial) (run : Relation.ReflTransGen (Session.Next image) s t) :
    t.Warranted :=
  invariant_run (fun _ _ h => h.next) initial.warranted run

/-- **No transfer without a newer version**: each one has a client of its own that was told of it and has asked,
and as long as no client was told of one, nobody is sent anything. -/
theorem transfers_are_warranted (initial : s.Initial) (run : Relation.ReflTransGen (Session.Next image) s t) :
    (∃ js : List κ, js.length = t.system.threads.length ∧ js.Nodup ∧ ∀ j, j ∈ js → (t.mains j).Asked) ∧
      ((∀ j, ¬ (t.mains j).info.Newer) → ∀ j, (t.system.clients j).sent = []) := by
  have warranted := Session.warranted_of_run initial run
  obtain ⟨js, length, nodup, asked⟩ := warranted.starters
  refine ⟨⟨js, length, nodup, asked⟩, fun none => warranted.silent (List.length_eq_zero_iff.1 ?_)⟩
  rw [← length, List.length_eq_zero_iff, List.eq_nil_iff_forall_not_mem]
  exact fun j mem => none j (asked j mem).newer

/-! ## The client that asks -/

/-- What is true of a client while there is no transfer but its own. -/
structure Session.Asks (image : List Byte) (k : κ) (s : Session κ) : Prop where
  listens : (s.mains k).stage.Listens → (s.system.clients k).subscribed = true
  started : (s.mains k).stage = .transferring → s.system.threads ≠ []
  alone : (s.mains k).stage = .transferring → ∀ th, s.system.threads = [th] →
    (s.system.clients k).sent = (th.events image).take th.fired

omit [DecidableEq κ] in
theorem Session.Initial.asks (h : s.Initial) (k : κ) : s.Asks image k := by
  have stage : (s.mains k).stage = .started := by rw [h.mains]
  refine ⟨fun on => ?_, fun no => ?_, fun no => ?_⟩
  · rw [stage] at on
    exact on.elim
  · cases stage.symm.trans no
  · cases stage.symm.trans no

theorem Session.Asks.fire {i : ℕ} (h : s.Asks image k) (mains : t.mains = s.mains)
    (fires : s.system.step image (.fire i) = some t.system) : t.Asks image k := by
  obtain ⟨th, e, found, event, system⟩ := System.of_step_fire fires
  refine ⟨fun on => ?_, fun asked => ?_, fun asked th' only => ?_⟩
  · rw [mains] at on
    rw [system]
    exact (Client.receive_keeps (·.subscribed) (fun _ _ => rfl) _ e).trans (h.listens on)
  · rw [mains] at asked
    rw [system]
    exact fun none => h.started asked ((List.set_eq_nil_iff ..).1 none)
  · rw [mains] at asked
    rw [system] at only ⊢
    obtain ⟨x, single⟩ : ∃ x, s.system.threads = [x] := by
      have length := congrArg List.length only
      exact List.length_eq_one_iff.1 (by simpa using length)
    rw [single] at found only
    obtain ⟨rfl, rfl⟩ : i = 0 ∧ x = th := by
      rw [List.getElem?_singleton] at found
      split at found
      · next first => exact ⟨first, Option.some.inj found⟩
      · cases found
    obtain rfl := (List.cons.inj only).1
    show ((s.system.clients k).receive e).sent = (x.events image).take (x.fired + 1)
    rw [Client.sent_receive, if_pos (h.listens (by rw [asked]; trivial)), h.alone asked x single, List.take_add_one, event]
    rfl

theorem Session.Asks.call {call : Call} {m : ClientMain} {j : κ} (h : s.Asks image k) (silent : s.system.threads = [] →
    (s.system.clients k).sent = []) (moves : (s.mains j).Moves call m) (mains : t.mains = Function.update s.mains j m)
    (shared : s.system.perform image (call.action j) = some t.system) : t.Asks image k := by
  have own : ∀ P : Stage → Prop, P (t.mains k).stage → k = j ∧ P m.stage ∨ P (s.mains k).stage := by
    intro P now
    rw [mains] at now
    by_cases e : k = j
    · subst e
      rw [Function.update_self] at now
      exact .inl ⟨rfl, now⟩
    · rw [Function.update_of_ne e] at now
      exact .inr now
  rcases System.performed shared with ⟨read, starts, system⟩ | ⟨threads, quiet, kept⟩
  · refine ⟨fun on => ?_, fun _ => ?_, fun _ th only => ?_⟩
    · rw [system]
      rcases own _ on with ⟨rfl, on⟩ | on
      · refine h.listens ((moves.listens on).resolve_right ?_)
        obtain ⟨status, rfl⟩ := starts
        simp
      · exact h.listens on
    · rw [system]
      simp
    · -- this is the first transfer
      rw [system] at only ⊢
      obtain ⟨none, rfl⟩ : s.system.threads = [] ∧ ⟨read, 0⟩ = th := by
        rcases List.append_eq_singleton_iff.1 only with ⟨none, single⟩ | ⟨-, no⟩
        · exact ⟨none, (List.cons.inj single).1⟩
        · cases no
      exact silent none
  · have asked : (t.mains k).stage = .transferring → (s.mains k).stage = .transferring := by
      intro now
      rcases own (· = .transferring) now with ⟨rfl, now⟩ | before
      · exact moves.transferring quiet now
      · exact before
    refine ⟨fun on => ?_, fun now => ?_, fun now th only => ?_⟩
    · rcases own _ on with ⟨rfl, on⟩ | on
      · rcases moves.listens on with before | rfl
        · exact (kept k).2 (h.listens before)
        · have system := Option.some.inj shared
          rw [← system]
          simp [Client.subscribe]
      · exact (kept k).2 (h.listens on)
    · rw [threads]
      exact h.started (asked now)
    · rw [threads] at only
      rw [(kept k).1]
      exact h.alone (asked now) th only

theorem Session.Asks.next (h : s.Asks image k) (warranted : s.Warranted) (next : Session.Next image s t) : t.Asks image k := by
  obtain ⟨a, step⟩ := next
  rcases Session.step_cases step with ⟨i, mains, fires⟩ | ⟨j, call, m, moves, mains, shared⟩
  · exact h.fire mains fires
  · exact h.call (fun none => warranted.silent none k) moves mains shared

theorem Session.asks_of_run (initial : s.Initial) (run : Relation.ReflTransGen (Session.Next image) s t) (k : κ) :
    t.Asks image k := by
  refine (invariant_run (I := fun s => s.Warranted ∧ s.Asks image k) (fun _ _ h next => ?_)
    ⟨initial.warranted, initial.asks k⟩ run).2
  exact ⟨h.1.next next, h.2.next h.1 next⟩

/-- **The client that asks is served**, as long as nobody else has asked: its file is a front part of the image,
and all of it when it has completed, if the file was read whole and the writes have succeeded. -/
theorem asker_is_served (initial : s.Initial) (run : Relation.ReflTransGen (Session.Next image) s t)
    (asked : (t.mains k).stage = .transferring) (sole : t.system.threads.length ≤ 1)
    (opened : (t.system.clients k).opened = true) :
    ∃ th, t.system.threads = [th] ∧ (t.system.clients k).Part image th.read := by
  have asks := Session.asks_of_run initial run k
  obtain ⟨th, single⟩ : ∃ th, t.system.threads = [th] := by
    refine List.length_eq_one_iff.1 (Nat.le_antisymm sole (List.length_pos_iff.2 ?_))
    exact asks.started asked
  have hears : (t.system.clients k).Hears image th.read := ⟨asks.alone asked th single ▸ List.take_prefix _ _, opened⟩
  exact ⟨th, single, hears.partly⟩

end Sessions

/-! ## A client that asks while another one waits -/

/-- The first client has been accepted and taken its only chunk; the second one has just subscribed. -/
def oneServed : Session Bool where
  system := ⟨fun k => if k then ⟨receivedNote, [], true, true, [⟨0, [7], true⟩], []⟩
    else ⟨receivedNote, [], true, true, [], [delivered ⟨0, [7], true⟩]⟩, [⟨{}, 1⟩]⟩
  mains k := if k then ⟨.subscribed, .unset, []⟩ else ⟨.transferring, ⟨true, true, 2, 1, 0, 0⟩, [(0, 1)]⟩

theorem reached_oneServed : Relation.ReflTransGen (Session.Next [7]) twoMains oneServed := by
  refine .tail (.tail (.tail (.tail (.tail (.single ⟨.client false .subscribe, rfl⟩)
    ⟨.client false (.requestUpdate .success (some (ascii "2")) none 1), rfl⟩) ⟨.client true .subscribe, rfl⟩)
    ⟨.client false (.startTransfer (some {}) .success), rfl⟩) ⟨.fire 0, Session.step_of_fire rfl (event_seven 0)⟩)
    ⟨.client false (.onChunk .ok true), ?_⟩
  refine congrArg some (congrArg₂ Session.mk (congrArg₂ System.mk (funext fun k => ?_) rfl) (funext fun k => ?_))
  · cases k <;> rfl
  · cases k <;> rfl

theorem transfers_are_warranted_one :
    (∃ js : List Bool, js.length = 1 ∧ js.Nodup ∧ ∀ j, j ∈ js → (oneServed.mains j).Asked) ∧
      ((∀ j, ¬ (oneServed.mains j).info.Newer) → ∀ j, (oneServed.system.clients j).sent = []) :=
  transfers_are_warranted initial_twoMains reached_oneServed

theorem asker_is_served_one : ∃ th, oneServed.system.threads = [th] ∧ (oneServed.system.clients false).Part [7] th.read :=
  asker_is_served initial_twoMains reached_oneServed rfl (le_refl 1) rfl

end OtaBridge.Transfer
