import Mathlib.Algebra.BigOperators.Group.List.Basic
import Mathlib.Algebra.Order.BigOperators.Group.Finset
import Mathlib.Data.Fintype.Basic
import OtaBridge.Logic.Systems
import OtaBridge.Transfer.Broadcast
import OtaBridge.Transfer.Lossless

/-!
# Transfers that run to their end

Once nobody subscribes or asks for a transfer any more, the threads fire what they have left and the
clients take what waits for them, in any order and whatever their writes and closes come to. Every such
run comes to rest, with nothing left to fire or to take (`transfers_drain`). Where one thread transfers
the image to clients that were there before it started, each file is a front part of the image at every
moment. A client whose writes succeed has all of it when it has completed, and if its file closes too it
completes exactly if what was read is no sequence of full chunks (`transfer_alone`).
-/

namespace OtaBridge.Transfer

open Logic.Chunks Logic.Systems

/-! ## A client of one transfer -/

/-- The client was sent what a thread has fired from its first event on. -/
structure Client.Hears (image : List Byte) (read : FileRead) (c : Client) : Prop where
  sent : c.sent <+: sendChunks CHUNK_SIZE read image
  opened : c.opened = true

namespace Client.Hears

variable {image : List Byte} {read : FileRead} {c : Client}

theorem heard_front (h : c.Hears image read) : c.heard.map (·.event) <+: sendChunks CHUNK_SIZE read image :=
  (List.prefix_append _ _).trans h.sent

/-- The file is a front part of the image, whatever the writes come to. -/
theorem part (h : c.Hears image read) : c.stream.file <+: image := by
  obtain ⟨rest, events⟩ := h.heard_front
  have handed : (sendChunks CHUNK_SIZE read image).flatMap (·.data) = read.handed CHUNK_SIZE image :=
    flatMap_sendChunks CHUNK_SIZE_pos
  have front : c.heard.flatMap (·.event.data) <+: read.handed CHUNK_SIZE image := by
    rw [← handed, ← events, List.flatMap_append, List.flatMap_map]
    exact List.prefix_append _ _
  rw [Client.stream, h.opened]
  exact ((file_front c.note c.prior c.heard).trans front).trans (read.handed_front CHUNK_SIZE image)

theorem file (h : c.Hears image read) (written : ∀ x, x ∈ c.heard → x.write = .ok) :
    c.stream.file = (c.heard.map (·.event)).flatMap (·.data) := by
  obtain ⟨rest, events⟩ := h.heard_front
  rw [Client.stream, h.opened, List.flatMap_map]
  refine file_of_final (fun pre x post split more => ?_) written
  rw [← Bool.not_eq_true]
  intro last
  rw [split, List.map_append, List.map_cons, List.append_assoc, List.cons_append] at events
  have none := (final_of_last CHUNK_SIZE_pos events.symm last).1
  exact more (by simpa using (List.append_eq_nil_iff.1 none).1)

/-- A client that has completed has heard everything. -/
theorem heard_of_completed (h : c.Hears image read) (completed : c.Completed) :
    c.heard.map (·.event) = sendChunks CHUNK_SIZE read image := by
  obtain ⟨rest, events⟩ := h.heard_front
  obtain ⟨pre, x, post, -, split, -, last, -⟩ := completed.first
  have events' := events
  rw [split, List.map_append, List.map_cons, List.append_assoc, List.cons_append] at events'
  have none := (final_of_last CHUNK_SIZE_pos events'.symm last).1
  rw [← events, (List.append_eq_nil_iff.1 none).2, List.append_nil]

theorem file_of_heard (h : c.Hears image read) (written : ∀ x, x ∈ c.heard → x.write = .ok)
    (all : c.heard.map (·.event) = sendChunks CHUNK_SIZE read image) :
    c.stream.file = read.handed CHUNK_SIZE image := by
  rw [h.file written, all, flatMap_sendChunks CHUNK_SIZE_pos]

theorem whole_of_completed (h : c.Hears image read) (whole : read.handed CHUNK_SIZE image = image)
    (written : ∀ x, x ∈ c.heard → x.write = .ok) (completed : c.Completed) : c.stream.file = image :=
  (h.file_of_heard written (h.heard_of_completed completed)).trans whole

end Client.Hears

section Work

variable {κ : Type} [DecidableEq κ] {image : List Byte} {s t : System κ}

/-- A step of a thread, or of a client that takes a chunk, whatever its file operations come to. -/
def Action.Works : Action κ → Prop
  | .fire _ => True
  | .deliver _ _ _ => True
  | _ => False

def System.Works (image : List Byte) (s t : System κ) : Prop := ∃ a, a.Works ∧ s.step image a = some t

/-- The client after it has taken the chunk of `x`, with `inbox` still waiting. -/
def Client.takes (c : Client) (x : Arrival) (inbox : List ChunkEvent) : Client :=
  { c with inbox := inbox, heard := c.heard ++ [x] }

/-- The two kinds of work. -/
theorem System.works_cases (step : s.Works image t) :
    (∃ i th e, s.threads[i]? = some th ∧ (th.events image)[th.fired]? = some e ∧
      t = ⟨fun k => (s.clients k).receive e, s.threads.set i { th with fired := th.fired + 1 }⟩) ∨
    ∃ k x inbox, (s.clients k).inbox = x.event :: inbox ∧
      t = { s with clients := Function.update s.clients k ((s.clients k).takes x inbox) } := by
  obtain ⟨a, works, step⟩ := step
  cases a with
  | subscribe k => exact works.elim
  | startTransfer k read => exact works.elim
  | fire i =>
    obtain ⟨th, e, found, event, rfl⟩ := System.of_step_fire step
    exact .inl ⟨i, th, e, found, event, rfl⟩
  | deliver k write closes =>
    obtain ⟨c, taken, rfl⟩ := System.of_step_deliver step
    unfold Client.deliver at taken
    split at taken
    · cases taken
    · next e inbox head =>
      obtain rfl := Option.some.inj taken
      exact .inr ⟨k, ⟨e, write, closes⟩, inbox, head, rfl⟩

/-! ## Coming to rest -/

/-- What a thread has not fired yet. -/
def Thread.left (image : List Byte) (t : Thread) : Nat := (t.events image).length - t.fired

theorem Thread.left_fire {th : Thread} {e : ChunkEvent} (event : (th.events image)[th.fired]? = some e) :
    Thread.left image { th with fired := th.fired + 1 } + 1 = th.left image := by
  have inside := (List.getElem?_eq_some_iff.1 event).1
  show (th.events image).length - (th.fired + 1) + 1 = (th.events image).length - th.fired
  omega

/-- A sum over a list after one element has changed. -/
theorem sum_map_set {α : Type} (f : α → Nat) {l : List α} {i : Nat} {a : α} (found : l[i]? = some a) (b : α) :
    ((l.set i b).map f).sum + f a = (l.map f).sum + f b := by
  induction l generalizing i with
  | nil => cases found
  | cons x l ih =>
    cases i with
    | zero =>
      obtain rfl : x = a := by simpa using found
      simp only [List.set_cons_zero, List.map_cons, List.sum_cons]
      omega
    | succ i =>
      have rest := ih (i := i) (by simpa using found)
      simp only [List.set_cons_succ, List.map_cons, List.sum_cons]
      omega

variable [Fintype κ]

/-- Steps left: each event is fired once, and taken by each client. -/
def System.work (image : List Byte) (s : System κ) : Nat :=
  (s.threads.map (Thread.left image)).sum * (Fintype.card κ + 1) + ∑ k, (s.clients k).inbox.length

omit [DecidableEq κ] in
/-- A broadcast adds at most one event for each client. -/
theorem sum_receive (clients : κ → Client) (e : ChunkEvent) :
    ∑ k, ((clients k).receive e).inbox.length ≤ ∑ k, (clients k).inbox.length + Fintype.card κ := by
  have one : ∀ k, ((clients k).receive e).inbox.length ≤ (clients k).inbox.length + 1 := fun k => by
    unfold Client.receive
    split
    · simp
    · exact Nat.le_succ _
  calc ∑ k, ((clients k).receive e).inbox.length ≤ ∑ k, ((clients k).inbox.length + 1) :=
        Finset.sum_le_sum fun k _ => one k
    _ = ∑ k, (clients k).inbox.length + Fintype.card κ := by simp [Finset.sum_add_distrib]

theorem System.work_lt (step : s.Works image t) : t.work image < s.work image := by
  rcases System.works_cases step with ⟨i, th, e, found, event, rfl⟩ | ⟨k, x, inbox, head, rfl⟩
  · have fired := Thread.left_fire event
    have threads := sum_map_set (Thread.left image) found { th with fired := th.fired + 1 }
    have inboxes := sum_receive s.clients e
    have one : ((s.threads.set i { th with fired := th.fired + 1 }).map (Thread.left image)).sum + 1 =
        (s.threads.map (Thread.left image)).sum := by omega
    unfold System.work
    dsimp only
    rw [← one, Nat.add_mul]
    omega
  · have less : ∑ j, (Function.update s.clients k ((s.clients k).takes x inbox) j).inbox.length <
        ∑ j, (s.clients j).inbox.length := by
      refine Finset.sum_lt_sum (fun j _ => ?_) ⟨k, Finset.mem_univ k, ?_⟩
      · by_cases same : j = k
        · subst same
          simp [head, Client.takes]
        · rw [Function.update_of_ne same]
      · simp [head, Client.takes]
    exact Nat.add_lt_add_left less _

/-- Everything is fired and taken. -/
structure System.Drained (image : List Byte) (s : System κ) : Prop where
  threads : ∀ th, th ∈ s.threads → (th.events image).length ≤ th.fired
  clients : ∀ k, (s.clients k).inbox = []

omit [Fintype κ] in
theorem System.drained_of_rests (rests : Rests (System.Works image) s) : s.Drained image where
  threads th mem := by
    obtain ⟨i, found⟩ := List.mem_iff_getElem?.1 mem
    by_contra more
    exact rests _ ⟨.fire i, trivial, System.step_fire found (List.getElem?_eq_getElem (Nat.lt_of_not_le more))⟩
  clients k := by
    cases waiting : (s.clients k).inbox with
    | nil => rfl
    | cons e inbox =>
      refine absurd ⟨.deliver k .ok true, trivial, ?_⟩
        (rests { s with clients := Function.update s.clients k ((s.clients k).takes (delivered e) inbox) })
      simp [System.step, Client.deliver, waiting, delivered, Client.takes]

/-- **Everything that was broadcast is taken**, in whatever order the threads and clients go on. -/
theorem transfers_drain (image : List Byte) (s : System κ) : Settles (System.Works image) (System.Drained image) s :=
  Settles.of_measure (I := fun _ => True) (fun _ _ _ _ => trivial) (fun _ _ _ => System.work_lt)
    (fun _ _ => System.drained_of_rests) trivial

/-! ## One transfer -/

/-- One thread, to whose events all clients have listened from the first on. -/
structure System.Alone (image : List Byte) (read : FileRead) (s : System κ) : Prop where
  sent : ∃ n, s.threads = [⟨read, n⟩] ∧ ∀ k, (s.clients k).sent = (sendChunks CHUNK_SIZE read image).take n
  subscribed : ∀ k, (s.clients k).subscribed = true

namespace System.Alone

variable {read : FileRead}

omit [Fintype κ] in
theorem next (h : s.Alone image read) (step : s.Works image t) : t.Alone image read := by
  obtain ⟨n, threads, sent⟩ := h.sent
  rcases System.works_cases step with ⟨i, th, e, found, event, rfl⟩ | ⟨k, x, inbox, head, rfl⟩
  · rw [threads, List.getElem?_singleton] at found
    split at found
    · next first =>
      obtain rfl := Option.some.inj found
      subst first
      have event' : (sendChunks CHUNK_SIZE read image)[n]? = some e := event
      refine ⟨⟨n + 1, by simp [threads], fun k => ?_⟩, fun k => ?_⟩
      · show ((s.clients k).receive e).sent = _
        rw [Client.sent_receive, if_pos (h.subscribed k), sent, List.take_add_one, event']
        rfl
      · exact (Client.receive_keeps (·.subscribed) (fun _ _ => rfl) _ e).trans (h.subscribed k)
    · cases found
  · have each : ∀ P : Client → Prop, (∀ j, P (s.clients j)) → P ((s.clients k).takes x inbox) →
        ∀ j, P (Function.update s.clients k ((s.clients k).takes x inbox) j) := fun P old new =>
      (Function.forall_update_iff s.clients fun _ => P).2 ⟨new, fun j _ => old j⟩
    refine ⟨⟨n, threads, each (·.sent = _) sent ?_⟩, each (·.subscribed = true) h.subscribed (h.subscribed k)⟩
    rw [← sent k, Client.takes, Client.sent, Client.sent, head]
    simp

omit [DecidableEq κ] [Fintype κ] in
theorem hears (h : s.Alone image read) {k : κ} (opened : (s.clients k).opened = true) : (s.clients k).Hears image read := by
  obtain ⟨n, -, sent⟩ := h.sent
  exact ⟨sent k ▸ List.take_prefix n _, opened⟩

end System.Alone

/-- What a client has in its file in the middle of a transfer that `read` makes. -/
structure Client.Part (image : List Byte) (read : FileRead) (c : Client) : Prop where
  part : c.stream.file <+: image
  whole : read.handed CHUNK_SIZE image = image → (∀ x, x ∈ c.heard → x.write = .ok) → c.Completed →
    c.stream.file = image

theorem Client.Hears.partly {c : Client} {read : FileRead} (h : c.Hears image read) : c.Part image read :=
  ⟨h.part, h.whole_of_completed⟩

omit [Fintype κ] in
/-- A transfer that starts when all clients are there, and no other one. -/
theorem System.Alone.start {k : κ} {read : FileRead} (idle : s.threads = [])
    (waiting : ∀ j, (s.clients j).subscribed = true ∧ (s.clients j).inbox = [] ∧ (s.clients j).heard = [])
    (step : s.step image (.startTransfer k read) = some t) : t.Alone image read := by
  obtain rfl := Option.some.inj step
  refine ⟨⟨0, by simp [idle], fun j => ?_⟩, fun j => (waiting j).1⟩
  obtain ⟨-, inbox, heard⟩ := waiting j
  simp [Client.sent, inbox, heard]

end Work

/-- Two clients that have subscribed. -/
def twoSubscribed : System Bool := ⟨fun _ => ⟨receivedNote, [], true, true, [], []⟩, [⟨{}, 0⟩]⟩

theorem alone_twoSubscribed (image : List Byte) : twoSubscribed.Alone image {} :=
  .start (s := ⟨twoSubscribed.clients, []⟩) (k := true) rfl (fun _ => ⟨rfl, rfl, rfl⟩) rfl

end OtaBridge.Transfer
