import Mathlib.Logic.Function.Basic
import Mathlib.Logic.Relation
import OtaBridge.Transfer.Sender

/-!
# Transfers to many clients

Each accepted `startTransfer` makes a thread that runs `sendChunks`, and what a thread fires goes to
all clients that are subscribed at that moment. A client takes the chunks in the order in which they
were fired and looks at neither index nor sender, so it puts together what came in between its
subscription and the first marked chunk. That is the image if each marked chunk is fired to waiting
clients that were sent exactly the thread's chunks before it (`agrees_of_orderly`), and a run in which
one is not goes on to a client without the image (`disorderly_fire_disagrees`), as after a subscription
in the middle of a transfer (`not_agrees_late_subscriber`).
-/

namespace OtaBridge.Transfer

open Logic.Chunks

/-- A client process; `prior` and `opened` tell how its output file was opened. -/
structure Client where
  note : ChunkEvent → Note
  prior : List Byte
  opened : Bool
  subscribed : Bool
  inbox : List ChunkEvent
  heard : List Arrival

/-- The stream of the client's `FileReceiver`. -/
def Client.stream (c : Client) : OfStream := streamAfter c.note (.openFile c.prior c.opened) c.heard

/-- Everything that was broadcast since the subscription. -/
def Client.sent (c : Client) : List ChunkEvent := c.heard.map (·.event) ++ c.inbox

/-- The client has reported completion and closed its file. -/
def Client.Completed (c : Client) : Prop :=
  ∃ pre x post, c.heard = pre ++ x :: post ∧ Reports c.note (streamAfter c.note (.openFile c.prior c.opened) pre) x ∧
    x.closes = true

/-- The client has been sent no marked chunk. -/
def Client.Waits (c : Client) : Prop := ∀ e, e ∈ c.sent → e.last = false

/-- A thread in `sendChunks`, which has fired that many events. -/
structure Thread where
  read : FileRead
  fired : Nat

def Thread.events (image : List Byte) (t : Thread) : List ChunkEvent := (startTransfer (.regular image) t.read).2

/-- The server and its clients. -/
structure System (κ : Type) where
  clients : κ → Client
  threads : List Thread

inductive Action (κ : Type) where
  | subscribe (k : κ)
  /-- A call of client `k`; `read` is how its thread will read the image. -/
  | startTransfer (k : κ) (read : FileRead)
  | fire (thread : Nat)
  /-- Client `k` takes the next chunk. -/
  | deliver (k : κ) (write : WriteOutcome) (closes : Bool)

def Client.subscribe (c : Client) : Client := { c with subscribed := true }

/-- A broadcast. -/
def Client.receive (c : Client) (e : ChunkEvent) : Client :=
  if c.subscribed then { c with inbox := c.inbox ++ [e] } else c

def Client.deliver (c : Client) (write : WriteOutcome) (closes : Bool) : Option Client :=
  match c.inbox with
  | [] => none
  | e :: inbox => some { c with inbox := inbox, heard := c.heard ++ [⟨e, write, closes⟩] }

section Systems

variable {κ : Type} [DecidableEq κ]

def System.step (image : List Byte) (s : System κ) : Action κ → Option (System κ)
  | .subscribe k => some { s with clients := Function.update s.clients k (s.clients k).subscribe }
  | .startTransfer _ read =>
    if (Transfer.startTransfer (.regular image) read).1 then some { s with threads := s.threads ++ [⟨read, 0⟩] }
    else some s
  | .fire i => do
    let t ← s.threads[i]?
    let e ← (t.events image)[t.fired]?
    return ⟨fun k => (s.clients k).receive e, s.threads.set i { t with fired := t.fired + 1 }⟩
  | .deliver k write closes => do
    let c ← (s.clients k).deliver write closes
    return { s with clients := Function.update s.clients k c }

/-- Nothing is subscribed, and nothing runs. -/
structure System.Initial (s : System κ) : Prop where
  threads : s.threads = []
  silent : ∀ k, (s.clients k).subscribed = false ∧ (s.clients k).inbox = [] ∧ (s.clients k).heard = []

def System.Next (image : List Byte) (s t : System κ) : Prop := ∃ a, s.step image a = some t

/-- A client that has completed has the image. -/
def System.Agrees (image : List Byte) (s : System κ) : Prop :=
  ∀ k, (s.clients k).Completed → (s.clients k).stream.file = image

/-- A marked chunk is fired by a thread that reads the whole image, to waiting clients that were sent
exactly the payloads of what this thread has fired before, and it is written where it is delivered. -/
def System.Orderly (image : List Byte) (s : System κ) : Action κ → Prop
  | .fire i => ∀ t e, s.threads[i]? = some t → (t.events image)[t.fired]? = some e → e.last = true →
    ∀ k, (s.clients k).subscribed = true → (s.clients k).Waits →
      t.read.handed CHUNK_SIZE image = image ∧ (s.clients k).sent.map (·.data) = ((t.events image).take t.fired).map (·.data)
  | .deliver k write closes => ∀ e, e ∈ (s.clients k).inbox.head? → e.last = true → closes = true →
    (s.clients k).stream.good = true → (s.clients k).stream.isOpen = true → write = .ok
  | _ => True

def System.OrderlyNext (image : List Byte) (s t : System κ) : Prop :=
  ∃ a, s.step image a = some t ∧ s.Orderly image a

/-! ## What orderly steps keep -/

/-- The chunks up to the first marked one make up the image, and that one is written. -/
structure Client.Sound (image : List Byte) (c : Client) : Prop where
  whole : ∀ pre e post, c.sent = pre ++ e :: post → (∀ d, d ∈ pre → d.last = false) → e.last = true →
    (pre ++ [e]).flatMap (·.data) = image
  written : ∀ pre x post, c.heard = pre ++ x :: post → x.event.last = true → x.closes = true →
    (streamAfter c.note (.openFile c.prior c.opened) pre).good = true →
    (streamAfter c.note (.openFile c.prior c.opened) pre).isOpen = true → x.write = .ok

section Clients

variable {image : List Byte} {c : Client}

theorem Client.sent_deliver {d : Client} {write : WriteOutcome} {closes : Bool}
    (taken : c.deliver write closes = some d) : d.sent = c.sent := by
  unfold Client.deliver at taken
  split at taken
  · cases taken
  · next e inbox head =>
    obtain rfl := Option.some.inj taken
    rw [sent, sent, head]
    simp

theorem Client.subscribed_deliver {d : Client} {write : WriteOutcome} {closes : Bool}
    (taken : c.deliver write closes = some d) : d.subscribed = c.subscribed := by
  unfold Client.deliver at taken
  split at taken
  · cases taken
  · obtain rfl := Option.some.inj taken
    rfl

theorem Client.sent_receive (e : ChunkEvent) :
    (c.receive e).sent = if c.subscribed then c.sent ++ [e] else c.sent := by
  unfold receive
  split
  · rw [sent, sent, List.append_assoc]
  · rfl

/-- What does not look at the inbox does not notice a broadcast. -/
theorem Client.receive_keeps {β : Type} (f : Client → β) (keep : ∀ c xs, f { c with inbox := xs } = f c) (c : Client)
    (e : ChunkEvent) : f (c.receive e) = f c := by
  unfold receive
  split
  · exact keep _ _
  · rfl

theorem Client.Sound.subscribe (h : c.Sound image) : c.subscribe.Sound image := ⟨h.whole, h.written⟩

/-- A marked event is the final one of its thread. -/
theorem Thread.split {t : Thread} {e : ChunkEvent} (found : (t.events image)[t.fired]? = some e)
    (last : e.last = true) : t.events image = (t.events image).take t.fired ++ [e] := by
  obtain ⟨inside, rfl⟩ := List.getElem?_eq_some_iff.1 found
  have split := List.take_append_drop t.fired (t.events image)
  rw [List.drop_eq_getElem_cons inside] at split
  obtain ⟨rest, -⟩ := final_of_last CHUNK_SIZE_pos split.symm last
  rw [rest] at split
  exact split.symm

/-- What a marked event completes. -/
theorem Thread.whole {t : Thread} {e : ChunkEvent} (found : (t.events image)[t.fired]? = some e)
    (last : e.last = true) :
    ((t.events image).take t.fired ++ [e]).flatMap (·.data) = t.read.handed CHUNK_SIZE image := by
  rw [← split found last]
  exact flatMap_sendChunks CHUNK_SIZE_pos

/-- What comes before a marked event is unmarked. -/
theorem Thread.unmarked {t : Thread} {e d : ChunkEvent} (found : (t.events image)[t.fired]? = some e)
    (last : e.last = true) (mem : d ∈ (t.events image).take t.fired) : d.last = false := by
  obtain ⟨pre, split', front⟩ := split_of_last CHUNK_SIZE_pos (List.mem_of_getElem? found) last
  have same := List.append_cancel_right ((split found last).symm.trans split')
  exact front d (same ▸ mem)

/-- Full payloads that a marked event completes to the image are those the thread has fired. -/
theorem Thread.payloads {t : Thread} {e : ChunkEvent} {ds : List ChunkEvent}
    (found : (t.events image)[t.fired]? = some e) (last : e.last = true)
    (full : ∀ d, d ∈ ds → d.data.length = CHUNK_SIZE) (made : (ds ++ [e]).flatMap (·.data) = t.read.handed CHUNK_SIZE image) :
    ds.map (·.data) = ((t.events image).take t.fired).map (·.data) := by
  rw [← whole found last, List.flatMap_append, List.flatMap_append] at made
  apply eq_of_flatten CHUNK_SIZE_pos (List.forall_mem_map.2 full)
  · refine List.forall_mem_map.2 fun d inside => ?_
    exact full_of_unmarked CHUNK_SIZE_pos (List.mem_of_mem_take inside) (unmarked found last inside)
  · exact List.append_cancel_right made

/-- A broadcast of an event that completes the image where it is the first marked one. -/
theorem Client.Sound.receive {e : ChunkEvent} (h : c.Sound image)
    (order : e.last = true → c.subscribed = true → c.Waits → (c.sent ++ [e]).flatMap (·.data) = image) :
    (c.receive e).Sound image := by
  unfold Client.receive
  split
  · next subscribed =>
    refine ⟨fun pre d post split front last => ?_, h.written⟩
    change c.heard.map (·.event) ++ (c.inbox ++ [e]) = pre ++ d :: post at split
    rw [← List.append_assoc] at split
    rcases split_cases split with ⟨r, earlier⟩ | ⟨rfl, rfl, -⟩ | ⟨r, -, behind⟩
    · exact h.whole pre d r earlier front last
    · exact order last subscribed front
    · exact absurd behind.symm (by simp)
  · exact h

theorem Client.Sound.deliver {write : WriteOutcome} {closes : Bool} {d : Client} (h : c.Sound image)
    (taken : c.deliver write closes = some d)
    (order : ∀ e, e ∈ c.inbox.head? → e.last = true → closes = true → c.stream.good = true →
      c.stream.isOpen = true → write = .ok) : d.Sound image := by
  have kept := sent_deliver taken
  unfold Client.deliver at taken
  split at taken
  · cases taken
  · next e inbox head =>
    obtain rfl := Option.some.inj taken
    constructor
    · intro pre d post split
      exact h.whole pre d post (kept ▸ split)
    · intro pre x post split last closed good opened
      change c.heard ++ [⟨e, write, closes⟩] = pre ++ x :: post at split
      rcases split_cases split with ⟨r, earlier⟩ | ⟨rfl, rfl, -⟩ | ⟨r, -, behind⟩
      · exact h.written pre x r earlier last closed good opened
      · exact order e (by rw [head]; rfl) last closed good opened
      · exact absurd behind.symm (by simp)

section Streams

variable {note : ChunkEvent → Note} {u : OfStream} {xs ys : List Arrival}

theorem good_of_append (xs : List Arrival) (good : (streamAfter note u (xs ++ ys)).good = true) :
    (streamAfter note u xs).good = true := by
  rw [← Bool.not_eq_false]
  intro failed
  rw [streamAfter_append, (run_failed failed ys).1, failed] at good
  cases good

/-- A stream that nothing has failed on has taken what it was given. -/
theorem plain_of_good (opened : u.isOpen = true) (unmarked : ∀ x, x ∈ xs → x.event.last = false)
    (good : (streamAfter note u xs).good = true) : ∀ x, x ∈ xs → Plain x := by
  induction xs generalizing u with
  | nil => exact nofun
  | cons x xs ih =>
    have before : u.good = true := good_of_append [] good
    have after : (onChunkWith note u x).1.good = true := good_of_append [x] good
    have notLast := unmarked x List.mem_cons_self
    have written : x.write = .ok := by
      cases write : x.write with
      | ok => rfl
      | fails n =>
        rw [onChunkWith, before, notLast, write] at after
        simp [OfStream.write, OfStream.good, opened] at after
    have still : (onChunkWith note u x).1.isOpen = true := by
      simp [onChunkWith, before, notLast, written, OfStream.write, opened]
    intro y mem
    rcases List.mem_cons.1 mem with rfl | mem
    · exact ⟨notLast, written⟩
    · exact ih still (fun z inside => unmarked z (List.mem_cons_of_mem _ inside)) good y mem

/-- A failing close is noticed. -/
theorem closes_of_good {x : Arrival} (last : x.event.last = true) (good : (streamAfter note u (xs ++ [x])).good = true) :
    x.closes = true := by
  have before := good_of_append xs good
  rw [streamAfter_append] at good
  change (onChunkWith note (streamAfter note u xs) x).1.good = true at good
  rw [← Bool.not_eq_false]
  intro fails
  rw [onChunkWith, before, last, fails] at good
  simp [OfStream.close, OfStream.good] at good

end Streams

/-- The chunks up to the first marked one, where a client has completed. -/
theorem Client.Completed.first (completed : c.Completed) :
    ∃ pre x post, c.opened = true ∧ c.heard = pre ++ x :: post ∧ (∀ y, y ∈ pre → Plain y) ∧ x.event.last = true ∧
      x.closes = true := by
  obtain ⟨pre, x, post, split, reports, closed⟩ := completed
  obtain ⟨good, last⟩ := reports_iff.1 reports
  have opened : c.opened = true := by
    rw [← Bool.not_eq_false]
    intro failed
    rw [failed, (run_failed rfl pre).1] at good
    cases good
  obtain ⟨y, found⟩ : ∃ y, c.heard.find? (·.event.last) = some y := by
    rw [← Option.isSome_iff_exists, List.find?_isSome]
    exact ⟨x, split ▸ List.mem_append_right _ List.mem_cons_self, last⟩
  obtain ⟨first, p, q, split', front⟩ := List.find?_eq_some_iff_append.1 found
  have unmarked : ∀ z, z ∈ p → z.event.last = false := fun z inside => by simpa using front z inside
  rw [opened] at good
  rcases split_cases (split.symm.trans split') with ⟨r, rfl⟩ | ⟨rfl, rfl, -⟩ | ⟨r, rfl, -⟩
  · have taken := good
    rw [List.append_cons] at taken
    have closes := closes_of_good first (good_of_append (p ++ [y]) taken)
    exact ⟨p, y, q, opened, split', plain_of_good rfl unmarked (good_of_append p good), first, closes⟩
  · exact ⟨p, y, q, opened, split', plain_of_good rfl unmarked good, first, closed⟩
  · rw [unmarked x (List.mem_append_right _ List.mem_cons_self)] at last
    cases last

/-- A client that takes a marked chunk last completes, and has what it was given. -/
theorem Client.completed_of_last {pre : List Arrival} {e : ChunkEvent} (opened : c.opened = true)
    (heard : c.heard = pre ++ [delivered e]) (plain : ∀ y, y ∈ pre → Plain y) (last : e.last = true) :
    c.Completed ∧ c.stream.file = c.heard.flatMap (·.event.data) := by
  have before := streamAfter_plain c.note c.prior plain
  have after := streamAfter_last c.note c.prior plain (x := delivered e) last rfl
  constructor
  · refine ⟨pre, delivered e, [], heard, reports_iff.2 ⟨?_, last⟩, rfl⟩
    rw [opened, before]
    rfl
  · rw [stream, opened, heard, after]

/-- A sound client that has completed has the image. -/
theorem Client.Sound.file (h : c.Sound image) (completed : c.Completed) : c.stream.file = image := by
  obtain ⟨pre, x, post, opened, split, plain, last, closed⟩ := completed.first
  have before := streamAfter_plain c.note c.prior plain
  have written := h.written pre x post split last closed (by rw [opened, before]; rfl) (by rw [opened, before])
  have after := streamAfter_last c.note c.prior plain last written
  rw [closed] at after
  have whole := h.whole (pre.map (·.event)) x.event (post.map (·.event) ++ c.inbox) (by simp [Client.sent, split])
    (List.forall_mem_map.2 fun y inside => (plain y inside).1) last
  rw [Client.stream, opened, split, List.append_cons, streamAfter_append, after, (run_closed rfl rfl post).1, ← whole]
  simp [List.flatMap_map]

end Clients

section Runs

variable {image : List Byte} {s t : System κ}

/-- What a step makes of client `j`. -/
inductive System.Moves (image : List Byte) (s : System κ) (j : κ) : Action κ → Client → Prop where
  | stays (a : Action κ) : Moves image s j a (s.clients j)
  | subscribes : Moves image s j (.subscribe j) (s.clients j).subscribe
  | receives {i : Nat} {th : Thread} {e : ChunkEvent} (found : s.threads[i]? = some th)
    (event : (th.events image)[th.fired]? = some e) : Moves image s j (.fire i) ((s.clients j).receive e)
  | delivers {write : WriteOutcome} {closes : Bool} {c : Client} (taken : (s.clients j).deliver write closes = some c) :
    Moves image s j (.deliver j write closes) c

theorem System.moves {a : Action κ} (step : s.step image a = some t) (j : κ) : s.Moves image j a (t.clients j) := by
  cases a with
  | subscribe k =>
    obtain rfl := Option.some.inj step
    by_cases same : j = k
    · subst same
      simpa using Moves.subscribes
    · simpa [same] using Moves.stays _
  | startTransfer k read =>
    obtain rfl := Option.some.inj step
    exact .stays _
  | fire i =>
    simp only [System.step, Option.bind_eq_bind, Option.bind_eq_some_iff, Option.pure_def,
      Option.some.injEq] at step
    obtain ⟨th, found, e, event, rfl⟩ := step
    exact .receives found event
  | deliver k write closes =>
    simp only [System.step, Option.bind_eq_bind, Option.bind_eq_some_iff, Option.pure_def,
      Option.some.injEq] at step
    obtain ⟨c, taken, rfl⟩ := step
    by_cases same : j = k
    · subst same
      simpa using Moves.delivers taken
    · simpa [same] using Moves.stays _

omit [DecidableEq κ] in
/-- Only a broadcast sends something, and nobody unsubscribes. -/
theorem System.Moves.kept {a : Action κ} {j : κ} {c : Client} (moves : s.Moves image j a c) (quiet : ∀ i, a ≠ .fire i) :
    c.sent = (s.clients j).sent ∧ ((s.clients j).subscribed = true → c.subscribed = true) := by
  cases moves with
  | stays => exact ⟨rfl, id⟩
  | subscribes => exact ⟨rfl, fun _ => rfl⟩
  | receives found event => exact absurd rfl (quiet _)
  | delivers taken => exact ⟨Client.sent_deliver taken, (Client.subscribed_deliver taken).trans⟩

def System.Sound (image : List Byte) (s : System κ) : Prop := ∀ k, (s.clients k).Sound image

omit [DecidableEq κ] in
theorem System.Initial.sent (h : s.Initial) (k : κ) : (s.clients k).sent = [] := by
  obtain ⟨-, inbox, heard⟩ := h.silent k
  rw [Client.sent, inbox, heard]
  rfl

omit [DecidableEq κ] in
theorem System.Initial.sound (h : s.Initial) : s.Sound image := by
  intro k
  refine ⟨fun pre e post split => ?_, fun pre x post split => ?_⟩
  · rw [h.sent] at split
    exact absurd split (by simp)
  · rw [(h.silent k).2.2] at split
    exact absurd split (by simp)

theorem System.Sound.next (h : s.Sound image) (next : s.OrderlyNext image t) : t.Sound image := by
  obtain ⟨a, step, order⟩ := next
  intro j
  have moves := System.moves step j
  generalize t.clients j = c at moves ⊢
  cases moves with
  | stays => exact h j
  | subscribes => exact (h j).subscribe
  | receives found event =>
    refine (h j).receive fun last subscribed waits => ?_
    obtain ⟨whole, payloads⟩ := order _ _ found event last j subscribed waits
    rw [← whole, ← Thread.whole event last, List.flatMap_append, List.flatMap_append, List.flatMap_def, payloads]
    rfl
  | delivers taken => exact (h j).deliver taken order

/-! ## Out of order -/

/-- What holds of every event of every thread holds of all that a client was sent. -/
theorem System.sent_of_run {P : ChunkEvent → Prop} (events : ∀ (th : Thread) e, e ∈ th.events image → P e)
    (initial : s.Initial) (run : Relation.ReflTransGen (System.Next image) s t) (j : κ) :
    ∀ e, e ∈ (t.clients j).sent → P e := by
  induction run with
  | refl =>
    intro e mem
    rw [initial.sent] at mem
    cases mem
  | tail _ next ih =>
    obtain ⟨a, step⟩ := next
    have moves := System.moves step j
    generalize System.clients _ j = c at moves ⊢
    cases moves with
    | stays => exact ih
    | subscribes => exact ih
    | receives found event =>
      intro d mem
      rw [Client.sent_receive] at mem
      split at mem
      · rcases List.mem_append.1 mem with old | new
        · exact ih d old
        · obtain rfl := List.mem_singleton.1 new
          exact events _ d (List.mem_of_getElem? event)
      · exact ih d mem
    | delivers taken =>
      intro d mem
      rw [Client.sent_deliver taken] at mem
      exact ih d mem

/-- An unmarked chunk is a full one. -/
def Client.Full (c : Client) : Prop := ∀ e, e ∈ c.sent → e.last = false → e.data.length = CHUNK_SIZE

theorem System.full_of_run (initial : s.Initial) (run : Relation.ReflTransGen (System.Next image) s t) (j : κ) :
    (t.clients j).Full :=
  System.sent_of_run (fun _ _ mem => full_of_unmarked CHUNK_SIZE_pos mem) initial run j

theorem System.step_fire {i : Nat} {th : Thread} {e : ChunkEvent} (found : s.threads[i]? = some th)
    (event : (th.events image)[th.fired]? = some e) : s.step image (.fire i) =
      some ⟨fun k => (s.clients k).receive e, s.threads.set i { th with fired := th.fired + 1 }⟩ := by
  simp [step, found, event]

theorem System.of_step_fire {i : Nat} (step : s.step image (.fire i) = some t) :
    ∃ th e, s.threads[i]? = some th ∧ (th.events image)[th.fired]? = some e ∧
      t = ⟨fun k => (s.clients k).receive e, s.threads.set i { th with fired := th.fired + 1 }⟩ := by
  simp only [System.step, Option.bind_eq_bind, Option.bind_eq_some_iff, Option.pure_def, Option.some.injEq] at step
  obtain ⟨th, found, e, event, rfl⟩ := step
  exact ⟨th, e, found, event, rfl⟩

theorem System.of_step_deliver {k : κ} {write : WriteOutcome} {closes : Bool}
    (step : s.step image (.deliver k write closes) = some t) :
    ∃ c, (s.clients k).deliver write closes = some c ∧ t = { s with clients := Function.update s.clients k c } := by
  simp only [System.step, Option.bind_eq_bind, Option.bind_eq_some_iff, Option.pure_def, Option.some.injEq] at step
  obtain ⟨c, taken, rfl⟩ := step
  exact ⟨c, taken, rfl⟩

variable (image) in
/-- A client can take all that waits for it. -/
theorem System.drained (s : System κ) (k : κ) : ∃ t, Relation.ReflTransGen (System.Next image) s t ∧
    t.clients k = { s.clients k with inbox := [], heard := (s.clients k).heard ++ (s.clients k).inbox.map delivered } := by
  generalize waiting : (s.clients k).inbox = xs
  induction xs generalizing s with
  | nil =>
    refine ⟨s, .refl, ?_⟩
    rw [List.map_nil, List.append_nil, ← waiting]
  | cons e xs ih =>
    let c : Client := { s.clients k with inbox := xs, heard := (s.clients k).heard ++ [delivered e] }
    have taken : (s.clients k).deliver .ok true = some c := by
      rw [Client.deliver, waiting]
      rfl
    have step : s.step image (.deliver k .ok true) = some { s with clients := Function.update s.clients k c } := by
      simp [System.step, taken]
    obtain ⟨t, run, same⟩ := ih { s with clients := Function.update s.clients k c } (by simp [c])
    refine ⟨t, .head ⟨_, step⟩ run, ?_⟩
    rw [same]
    simp [c]

/-- A thread that reads the whole image and fires its marked chunk out of order, to a waiting client on
which nothing has failed, makes for a disagreement. -/
theorem disorderly_fire_disagrees {s₀ : System κ} {i : Nat} {th : Thread} {e : ChunkEvent} {k : κ}
    (initial : s₀.Initial) (run : Relation.ReflTransGen (System.Next image) s₀ s) (found : s.threads[i]? = some th)
    (event : (th.events image)[th.fired]? = some e) (last : e.last = true) (whole : th.read.handed CHUNK_SIZE image = image)
    (subscribed : (s.clients k).subscribed = true) (waits : (s.clients k).Waits)
    (opened : (s.clients k).opened = true) (smooth : ∀ x, x ∈ (s.clients k).heard → x.write = .ok)
    (order : (s.clients k).sent.map (·.data) ≠ ((th.events image).take th.fired).map (·.data)) :
    ∃ t, Relation.ReflTransGen (System.Next image) s t ∧ ¬ t.Agrees image := by
  have full : ∀ d, d ∈ (s.clients k).sent → d.data.length = CHUNK_SIZE := fun d mem =>
    System.full_of_run initial run k d mem (waits d mem)
  obtain ⟨t, rest, same⟩ := System.drained image
    ⟨fun k => (s.clients k).receive e, s.threads.set i { th with fired := th.fired + 1 }⟩ k
  refine ⟨t, .head ⟨_, System.step_fire found event⟩ rest, fun agrees => order ?_⟩
  have received : (s.clients k).receive e = { s.clients k with inbox := (s.clients k).inbox ++ [e] } := if_pos subscribed
  simp only [received, List.map_append, List.map_singleton, ← List.append_assoc] at same
  have plain : ∀ y, y ∈ (s.clients k).heard ++ (s.clients k).inbox.map delivered → Plain y := by
    intro y mem
    rcases List.mem_append.1 mem with old | new
    · exact ⟨waits _ (List.mem_append_left _ (List.mem_map_of_mem old)), smooth y old⟩
    · obtain ⟨d, inside, rfl⟩ := List.mem_map.1 new
      exact ⟨waits d (List.mem_append_right _ inside), rfl⟩
  have heard : (t.clients k).heard = (s.clients k).heard ++ (s.clients k).inbox.map delivered ++ [delivered e] := by
    rw [same]
  obtain ⟨completed, file⟩ := Client.completed_of_last (by rw [same]; exact opened) heard plain last
  rw [agrees k completed, heard] at file
  refine Thread.payloads event last full ?_
  rw [whole, file]
  simp [Client.sent, delivered, List.flatMap_map]

/-- **Transfers to many clients.** -/
theorem agrees_of_orderly (initial : s.Initial) (run : Relation.ReflTransGen (System.OrderlyNext image) s t) :
    t.Agrees image := by
  have sound : t.Sound image := by
    induction run with
    | refl => exact initial.sound
    | tail _ next ih => exact ih.next next
  exact fun k completed => (sound k).file completed

end Runs

end Systems

/-! ## Two clients -/

/-- Two clients before they subscribe. -/
def twoClients : System Bool := ⟨fun _ => ⟨receivedNote, [], true, false, [], []⟩, []⟩

theorem initial_twoClients : twoClients.Initial := ⟨rfl, fun _ => ⟨rfl, rfl, rfl⟩⟩

/-- An image that is shorter than a chunk. -/
theorem events_small {image : List Byte} (nonempty : image ≠ []) (small : image.length < CHUNK_SIZE) (n : Nat) :
    Thread.events image ⟨{}, n⟩ = [⟨0, image, true⟩] := by
  refine (sendChunks_eq CHUNK_SIZE_pos {} image).trans ?_
  show (chunks CHUNK_SIZE image).mapIdx _ = _
  rw [chunks_eq_cons CHUNK_SIZE_pos nonempty, List.drop_of_length_le (Nat.le_of_lt small), chunks_nil,
    List.take_of_length_le (Nat.le_of_lt small)]
  show [chunkEvent CHUNK_SIZE _ image] = _
  rw [chunkEvent, decide_eq_true small]
  rfl

theorem event_small {image : List Byte} (nonempty : image ≠ []) (small : image.length < CHUNK_SIZE) (n : Nat) :
    (Thread.events image ⟨{}, n⟩)[0]? = some ⟨0, image, true⟩ := by
  rw [events_small nonempty small]
  rfl

theorem event_seven (n : Nat) : (Thread.events [7] ⟨{}, n⟩)[0]? = some ⟨0, [7], true⟩ :=
  event_small (List.cons_ne_nil 7 []) (by decide) n

/-- Both clients subscribe before the transfer. -/
theorem agrees_of_orderly_two : ∃ t : System Bool, (∀ k, (t.clients k).Completed) ∧ t.Agrees [7] := by
  refine ⟨_, fun k => ?_, agrees_of_orderly initial_twoClients (.tail (.tail (.tail (.tail (.tail
    (.single ⟨.subscribe false, rfl, trivial⟩) ⟨.subscribe true, rfl, trivial⟩)
    ⟨.startTransfer false {}, rfl, trivial⟩) ⟨.fire 0, System.step_fire rfl (event_seven 0), ?_⟩)
    ⟨.deliver false .ok true, rfl, fun _ _ _ _ _ _ => rfl⟩) ⟨.deliver true .ok true, rfl, fun _ _ _ _ _ _ => rfl⟩)⟩
  · cases k <;> exact ⟨[], _, [], rfl, reports_iff.2 ⟨rfl, rfl⟩, rfl⟩
  · rintro th e found - - k - -
    obtain rfl := Option.some.inj found
    cases k <;> exact ⟨rfl, rfl⟩

/-- The second client subscribes after the first chunk of the first client's transfer. -/
theorem late_subscriber {front : List Byte} (b : Byte) (full : front.length = CHUNK_SIZE) :
    ∃ t, Relation.ReflTransGen (System.Next (front ++ [b])) twoClients t ∧ ¬ t.Agrees (front ++ [b]) := by
  have events : ∀ i, (Thread.events (front ++ [b]) ⟨{}, i⟩)[i]? = if i * CHUNK_SIZE < (front ++ [b]).length
      then some (chunkEvent CHUNK_SIZE (UInt32.ofNat i) (chunk CHUNK_SIZE (front ++ [b]) i)) else none :=
    getElem?_sendChunks {} (front ++ [b]) CHUNK_SIZE_pos
  have first := events 0
  have second := events 1
  rw [if_pos (by simp)] at first
  rw [if_pos (by simp [full])] at second
  have piece : chunk CHUNK_SIZE (front ++ [b]) 1 = [b] := by
    rw [chunk, Nat.one_mul, ← full, List.drop_left, full]
    rfl
  -- the first chunk finds the first client only
  have run : Relation.ReflTransGen (System.Next (front ++ [b])) twoClients _ :=
    .tail (.tail (.tail (.single ⟨.subscribe false, rfl⟩) ⟨.startTransfer false {}, rfl⟩)
      ⟨.fire 0, System.step_fire rfl first⟩) ⟨.subscribe true, rfl⟩
  obtain ⟨t, rest, disagrees⟩ := disorderly_fire_disagrees (i := 0) (k := true) initial_twoClients run rfl second
    (by rw [piece]; rfl) rfl rfl (fun _ mem => absurd mem List.not_mem_nil) rfl
    (fun _ mem => absurd mem List.not_mem_nil) fun same => by
      have lengths := congrArg List.length same
      rw [List.length_map, List.length_map, List.length_take_of_le] at lengths
      · cases lengths
      · exact Nat.le_of_lt (List.getElem?_eq_some_iff.1 second).1
  exact ⟨t, run.trans rest, disagrees⟩

/-- A client that subscribes in the middle of another client's transfer. -/
theorem not_agrees_late_subscriber : ¬ ∀ image (s t : System Bool), s.Initial →
    Relation.ReflTransGen (System.Next image) s t → t.Agrees image := by
  intro safe
  obtain ⟨t, run, disagrees⟩ := late_subscriber 0 (List.length_replicate (n := CHUNK_SIZE) (a := 0))
  exact disagrees (safe _ _ t initial_twoClients run)

end OtaBridge.Transfer
