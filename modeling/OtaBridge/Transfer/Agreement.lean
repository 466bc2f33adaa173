import OtaBridge.Logic.Systems
import OtaBridge.Transfer.Broadcast

/-!
# Agreement between clients

However transfers overlap, what is fired goes to all clients that are subscribed. They may get a garbled
image, but those that were sent the same when they had subscribed have the same file when they have
completed (`completed_clients_agree`). Where transfers do not overlap, and nobody subscribes in the middle
of one, it is the image (`agrees_of_serial`): a client that waits for a marked chunk was then sent nothing
but what the thread has fired that is in its loop (`System.InTurn`).
-/

namespace OtaBridge.Transfer

open Logic.Chunks Logic.Systems

section Agreement

variable {κ : Type} {image : List Byte} {s t : System κ} {c : Client} {j k : κ}

/-- Both clients listen, and were sent the same. -/
structure System.Twins (s : System κ) (j k : κ) : Prop where
  subscribed : (s.clients j).subscribed = true ∧ (s.clients k).subscribed = true
  sent : (s.clients j).sent = (s.clients k).sent

/-- What a completed client has in its file. -/
theorem Client.Completed.file (completed : c.Completed) (written : ∀ x, x ∈ c.heard → x.write = .ok) :
    ∃ pre e post, c.sent = pre ++ e :: post ∧ (∀ d, d ∈ pre → d.last = false) ∧ e.last = true ∧
      c.stream.file = (pre ++ [e]).flatMap (·.data) := by
  obtain ⟨pre, x, post, opened, split, plain, last, closed⟩ := completed.first
  have after := streamAfter_last c.note c.prior plain last
    (written x (split ▸ List.mem_append_right _ List.mem_cons_self))
  rw [closed] at after
  refine ⟨pre.map (·.event), x.event, post.map (·.event) ++ c.inbox, by simp [Client.sent, split],
    List.forall_mem_map.2 fun y inside => (plain y inside).1, last, ?_⟩
  rw [Client.stream, opened, split, List.append_cons, streamAfter_append, after, (run_closed rfl rfl post).1]
  simp [List.flatMap_map]

variable [DecidableEq κ]

variable (image) in
theorem System.keeps_twins (j k : κ) : Keeps (System.Next image) (System.Twins · j k) := by
  rintro s t h ⟨a, step⟩
  by_cases fires : ∃ i, a = .fire i
  · obtain ⟨i, rfl⟩ := fires
    obtain ⟨th, e, found, event, rfl⟩ := System.of_step_fire step
    refine ⟨⟨?_, ?_⟩, ?_⟩
    · exact (Client.receive_keeps (·.subscribed) (fun _ _ => rfl) _ e).trans h.subscribed.1
    · exact (Client.receive_keeps (·.subscribed) (fun _ _ => rfl) _ e).trans h.subscribed.2
    · show ((s.clients j).receive e).sent = ((s.clients k).receive e).sent
      rw [Client.sent_receive, Client.sent_receive, if_pos h.subscribed.1, if_pos h.subscribed.2, h.sent]
  · obtain ⟨j_sent, j_on⟩ := (System.moves step j).kept (not_exists.1 fires)
    obtain ⟨k_sent, k_on⟩ := (System.moves step k).kept (not_exists.1 fires)
    exact ⟨⟨j_on h.subscribed.1, k_on h.subscribed.2⟩, by rw [j_sent, k_sent, h.sent]⟩

/-- **Clients that were sent the same complete with the same file**, whatever was fired at them. -/
theorem completed_clients_agree (twins : s.Twins j k) (run : Relation.ReflTransGen (System.Next image) s t)
    (j_completed : (t.clients j).Completed) (k_completed : (t.clients k).Completed)
    (j_written : ∀ x, x ∈ (t.clients j).heard → x.write = .ok)
    (k_written : ∀ x, x ∈ (t.clients k).heard → x.write = .ok) :
    (t.clients j).stream.file = (t.clients k).stream.file := by
  have same := invariant_run (System.keeps_twins image j k) twins run
  obtain ⟨pre, e, post, split, front, last, file⟩ := j_completed.file j_written
  obtain ⟨pre', e', post', split', front', last', file'⟩ := k_completed.file k_written
  rw [file, file']
  -- the first marked chunk is the same
  rcases split_cases (split.symm.trans (same.sent.trans split')) with ⟨r, rfl⟩ | ⟨rfl, rfl, -⟩ | ⟨r, rfl, -⟩
  · rw [front e' (by simp)] at last'
    cases last'
  · rfl
  · rw [front' e (by simp)] at last
    cases last

end Agreement

/-! ## Transfers one after another -/

/-- In the middle of its transfer. -/
def Thread.Midway (image : List Byte) (t : Thread) : Prop := 0 < t.fired ∧ t.fired < (t.events image).length

def Client.Listens (c : Client) : Prop := c.subscribed = true ∧ c.Waits

/-- No transfer is under way. -/
def System.Quiet {κ : Type} (image : List Byte) (s : System κ) : Prop := ∀ th, th ∈ s.threads → ¬ th.Midway image

/-- Clients subscribe, and threads begin, between transfers; each reads the whole image, and marked chunks are
written where they are delivered. -/
def System.Serial {κ : Type} (image : List Byte) (s : System κ) : Action κ → Prop
  | .subscribe k => (s.clients k).subscribed = false → s.Quiet image
  | .startTransfer _ read => read.handed CHUNK_SIZE image = image
  | .fire i => ∀ th, s.threads[i]? = some th → th.fired = 0 → s.Quiet image
  | .deliver k write closes => s.Orderly image (.deliver k write closes)

/-- Every thread reads the whole image. -/
def System.Whole {κ : Type} (image : List Byte) (s : System κ) : Prop :=
  ∀ th, th ∈ s.threads → th.read.handed CHUNK_SIZE image = image

/-- At most one transfer is under way, and who waits was sent what it has fired. -/
structure System.InTurn {κ : Type} (image : List Byte) (s : System κ) : Prop where
  single : ∀ (i j : Nat) (th th' : Thread), s.threads[i]? = some th → s.threads[j]? = some th' → th.Midway image →
    th'.Midway image → i = j
  out : ∀ k, (s.clients k).subscribed = false → (s.clients k).sent = []
  between : s.Quiet image → ∀ k, (s.clients k).Listens → (s.clients k).sent = []
  midway : ∀ th, th ∈ s.threads → th.Midway image → ∀ k, (s.clients k).Listens →
    (s.clients k).sent = (th.events image).take th.fired

section Serial

variable {κ : Type} {image : List Byte} {s t : System κ} {c : Client} {i : Nat} {th : Thread} {e : ChunkEvent}

/-- Before a thread fires, the others are not under way, and who waits was sent what it has fired. -/
theorem System.InTurn.turn (h : s.InTurn image) (found : s.threads[i]? = some th)
    (begins : th.fired = 0 → s.Quiet image) (event : (th.events image)[th.fired]? = some e) :
    (∀ (j : Nat) (th' : Thread), s.threads[j]? = some th' → th'.Midway image → j = i) ∧
      ∀ k, (s.clients k).Listens → (s.clients k).sent = (th.events image).take th.fired := by
  have mem := List.mem_of_getElem? found
  rcases Nat.eq_zero_or_pos th.fired with fresh | fired
  · have quiet := begins fresh
    refine ⟨fun j th' other mid => absurd mid (quiet th' (List.mem_of_getElem? other)), fun k listens => ?_⟩
    rw [fresh, List.take_zero, h.between quiet k listens]
  · have mid : th.Midway image := ⟨fired, (List.getElem?_eq_some_iff.1 event).1⟩
    exact ⟨fun j th' other mid' => h.single j i th' th other found mid' mid, h.midway th mem mid⟩

/-- Who waits after a broadcast has waited before. -/
theorem Client.Listens.before (listens : (c.receive e).Listens) :
    c.Listens ∧ e.last = false ∧ (c.receive e).sent = c.sent ++ [e] := by
  have subscribed : c.subscribed = true :=
    (Client.receive_keeps (·.subscribed) (fun _ _ => rfl) c e).symm.trans listens.1
  have sent : (c.receive e).sent = c.sent ++ [e] := by rw [Client.sent_receive, if_pos subscribed]
  have waits := listens.2
  rw [Client.Waits, sent] at waits
  exact ⟨⟨subscribed, fun d mem => waits d (List.mem_append_left _ mem)⟩, waits e (by simp), sent⟩

/-- The last event of a thread that reads the whole image is marked. -/
theorem last_of_final (rest : image.length % CHUNK_SIZE ≠ 0) (whole : th.read.handed CHUNK_SIZE image = image)
    (event : (th.events image)[th.fired]? = some e) (final : (th.events image).length = th.fired + 1) : e.last = true := by
  obtain ⟨d, mem, last⟩ := (exists_last_iff CHUNK_SIZE_pos).2 (whole.symm ▸ rest : (th.read.handed CHUNK_SIZE image).length % _ ≠ 0)
  obtain ⟨pre, split, -⟩ := split_of_last CHUNK_SIZE_pos mem last
  change th.events image = pre ++ [d] at split
  rw [split, List.length_append, List.length_singleton] at final
  rw [split, ← Nat.succ.inj final, List.getElem?_append_right le_rfl, Nat.sub_self] at event
  obtain rfl := Option.some.inj event
  exact last

theorem System.InTurn.fire (h : s.InTurn image) (rest : image.length % CHUNK_SIZE ≠ 0)
    (whole : th.read.handed CHUNK_SIZE image = image) (found : s.threads[i]? = some th)
    (begins : th.fired = 0 → s.Quiet image) (event : (th.events image)[th.fired]? = some e) :
    System.InTurn image ⟨fun k => (s.clients k).receive e, s.threads.set i { th with fired := th.fired + 1 }⟩ := by
  obtain ⟨alone, waiting⟩ := h.turn found begins event
  have inside := (List.getElem?_eq_some_iff.1 event).1
  have here : (s.threads.set i { th with fired := th.fired + 1 })[i]? = some { th with fired := th.fired + 1 } :=
    List.getElem?_set_self (List.getElem?_eq_some_iff.1 found).1
  have only : ∀ (j : Nat) (th' : Thread), (s.threads.set i { th with fired := th.fired + 1 })[j]? = some th' → th'.Midway image → j = i := by
    intro j th' other mid
    by_contra ne
    rw [List.getElem?_set_ne (Ne.symm ne)] at other
    exact ne (alone j th' other mid)
  refine ⟨fun j l x y jth lth jmid lmid => (only j x jth jmid).trans (only l y lth lmid).symm, fun k off => ?_, ?_, ?_⟩
  · have off' := (Client.receive_keeps (·.subscribed) (fun _ _ => rfl) (s.clients k) e).symm.trans off
    show ((s.clients k).receive e).sent = []
    rw [Client.sent_receive, off']
    exact h.out k off'
  · intro quiet k listens
    obtain ⟨-, unmarked, -⟩ := listens.before
    have ended : ¬ th.fired + 1 < (th.events image).length := fun more =>
      quiet _ (List.mem_of_getElem? here) ⟨Nat.succ_pos _, more⟩
    have marked := last_of_final rest whole event (by omega)
    cases unmarked.symm.trans marked
  · intro th' mem mid k listens
    obtain ⟨j, other⟩ := List.mem_iff_getElem?.1 mem
    obtain rfl := only j th' other mid
    obtain rfl := Option.some.inj (here.symm.trans other)
    obtain ⟨before, -, sent⟩ := listens.before
    refine sent.trans ?_
    rw [waiting k before]
    show _ = (th.events image).take (th.fired + 1)
    rw [List.take_add_one, event]
    rfl

/-- The steps that fire nothing. -/
theorem System.InTurn.still (h : s.InTurn image) {new : List Thread} (threads : t.threads = s.threads ++ new)
    (begun : ∀ th, th ∈ new → th.fired = 0) (sent : ∀ k, (t.clients k).sent = (s.clients k).sent)
    (joins : ∀ k, (t.clients k).subscribed = (s.clients k).subscribed ∨
      (t.clients k).subscribed = true ∧ ((s.clients k).subscribed = false → s.Quiet image)) : t.InTurn image := by
  have old : ∀ (j : Nat) (th : Thread), t.threads[j]? = some th → th.Midway image → s.threads[j]? = some th := by
    intro j th found mid
    rw [threads] at found
    by_cases inside : j < s.threads.length
    · rwa [List.getElem?_append_left inside] at found
    · rw [List.getElem?_append_right (Nat.le_of_not_lt inside)] at found
      exact absurd (begun th (List.mem_of_getElem? found)) (Nat.ne_of_gt mid.1)
  have listened : ∀ k, (t.clients k).Listens → (s.clients k).Listens ∨ (s.clients k).subscribed = false ∧ s.Quiet image := by
    intro k listens
    have waits : (s.clients k).Waits := fun d mem => listens.2 d (sent k ▸ mem)
    cases on : (s.clients k).subscribed with
    | true => exact .inl ⟨on, waits⟩
    | false =>
      rcases joins k with same | ⟨-, quiet⟩
      · cases (same.symm.trans listens.1).symm.trans on
      · exact .inr ⟨rfl, quiet on⟩
  refine ⟨fun i j th th' ith jth mid mid' => h.single i j th th' (old i th ith mid) (old j th' jth mid') mid mid',
    fun k off => ?_, fun quiet k listens => ?_, fun th mem mid k listens => ?_⟩
  · rw [sent k]
    rcases joins k with same | ⟨on, -⟩
    · exact h.out k (same.symm.trans off)
    · cases on.symm.trans off
  · have quiet' : s.Quiet image := fun th mem => quiet th (threads ▸ List.mem_append_left _ mem)
    rw [sent k]
    rcases listened k listens with before | ⟨off, -⟩
    · exact h.between quiet' k before
    · exact h.out k off
  · obtain ⟨j, found⟩ := List.mem_iff_getElem?.1 mem
    have mem' := List.mem_of_getElem? (old j th found mid)
    rw [sent k]
    rcases listened k listens with before | ⟨-, quiet⟩
    · exact h.midway th mem' mid k before
    · exact absurd mid (quiet th mem')

variable [DecidableEq κ]

def System.SerialNext (image : List Byte) (s t : System κ) : Prop := ∃ a, s.step image a = some t ∧ s.Serial image a

theorem System.InTurn.next (h : s.InTurn image) (rest : image.length % CHUNK_SIZE ≠ 0) (whole : s.Whole image)
    (next : s.SerialNext image t) : t.InTurn image := by
  obtain ⟨a, step, serial⟩ := next
  by_cases fires : ∃ i, a = .fire i
  · obtain ⟨i, rfl⟩ := fires
    obtain ⟨th, e, found, event, rfl⟩ := System.of_step_fire step
    exact h.fire rest (whole th (List.mem_of_getElem? found)) found (serial th found) event
  have sent : ∀ k, (t.clients k).sent = (s.clients k).sent := fun k =>
    ((System.moves step k).kept (not_exists.1 fires)).1
  cases a with
  | subscribe j =>
    obtain rfl := Option.some.inj step
    refine h.still (List.append_nil _).symm (fun th mem => by cases mem) sent fun k => ?_
    by_cases same : k = j
    · subst same
      refine .inr ⟨?_, serial⟩
      show (Function.update s.clients k (s.clients k).subscribe k).subscribed = true
      rw [Function.update_self]
      rfl
    · exact .inl (congrArg Client.subscribed (Function.update_of_ne same _ _))
  | startTransfer j read =>
    obtain rfl := Option.some.inj step
    exact h.still rfl (fun th mem => List.mem_singleton.1 mem ▸ rfl) sent fun k => .inl rfl
  | fire i => exact absurd ⟨i, rfl⟩ fires
  | deliver j write closes =>
    obtain ⟨c, taken, rfl⟩ := System.of_step_deliver step
    refine h.still (List.append_nil _).symm (fun th mem => by cases mem) sent fun k => .inl ?_
    by_cases same : k = j
    · subst same
      exact (congrArg Client.subscribed (Function.update_self _ _ _)).trans (Client.subscribed_deliver taken)
    · exact congrArg Client.subscribed (Function.update_of_ne same _ _)

theorem System.Whole.next (h : s.Whole image) (next : s.SerialNext image t) : t.Whole image := by
  obtain ⟨a, step, serial⟩ := next
  intro th mem
  cases a with
  | subscribe k =>
    obtain rfl := Option.some.inj step
    exact h th mem
  | startTransfer k read =>
    obtain rfl := Option.some.inj step
    rcases List.mem_append.1 mem with old | new
    · exact h th old
    · obtain rfl := List.mem_singleton.1 new
      exact serial
  | fire i =>
    obtain ⟨th', e, found, -, rfl⟩ := System.of_step_fire step
    rcases List.mem_or_eq_of_mem_set mem with old | rfl
    · exact h th old
    · exact h th' (List.mem_of_getElem? found)
  | deliver k write closes =>
    obtain ⟨c, -, rfl⟩ := System.of_step_deliver step
    exact h th mem

/-- Transfers one after another are orderly. -/
theorem System.orderly_of_serial (whole : s.Whole image) (turn : image.length % CHUNK_SIZE ≠ 0 → s.InTurn image)
    (next : s.SerialNext image t) : s.OrderlyNext image t := by
  obtain ⟨a, step, serial⟩ := next
  refine ⟨a, step, ?_⟩
  cases a with
  | subscribe k => trivial
  | startTransfer k read => trivial
  | fire i =>
    intro th e found event last k subscribed waits
    have read := whole th (List.mem_of_getElem? found)
    have rest := (exists_last_iff CHUNK_SIZE_pos).1 ⟨e, List.mem_of_getElem? event, last⟩
    rw [read] at rest
    exact ⟨read, congrArg _ (((turn rest).turn found (serial th found) event).2 k ⟨subscribed, waits⟩)⟩
  | deliver k write closes => exact serial

omit [DecidableEq κ] in
theorem System.Initial.inTurn (h : s.Initial) : s.InTurn image where
  single i j th th' found := by
    rw [h.threads] at found
    cases found
  out k _ := h.sent k
  between _ k _ := h.sent k
  midway th mem := by
    rw [h.threads] at mem
    cases mem

/-- **Transfers one after another** give every client that completes the image. -/
theorem agrees_of_serial (initial : s.Initial) (run : Relation.ReflTransGen (System.SerialNext image) s t) :
    t.Agrees image := by
  have keeps : Keeps (System.SerialNext image) fun s : System κ =>
      s.Whole image ∧ (image.length % CHUNK_SIZE ≠ 0 → s.InTurn image) ∧ s.Sound image := by
    rintro s t ⟨whole, turn, sound⟩ next
    exact ⟨whole.next next, fun rest => (turn rest).next rest whole next,
      sound.next (System.orderly_of_serial whole turn next)⟩
  have whole : s.Whole image := by
    intro th mem
    rw [initial.threads] at mem
    cases mem
  obtain ⟨-, -, sound⟩ := invariant_run keeps ⟨whole, fun _ => initial.inTurn, initial.sound⟩ run
  exact fun k completed => (sound k).file completed

end Serial

/-! ## Two clients -/

theorem not_midway_seven (n : Nat) : ¬ Thread.Midway [7] ⟨{}, n⟩ := by
  rw [Thread.Midway, events_small (List.cons_ne_nil 7 []) (by decide)]
  exact fun mid => absurd (Nat.lt_of_lt_of_le mid.2 mid.1) (Nat.lt_irrefl n)

/-- Both clients have subscribed. -/
def twoListening : System Bool := ⟨fun _ => ⟨receivedNote, [], true, true, [], []⟩, []⟩

/-- Both clients have taken the only chunk of the image `[7]`. -/
def twoServed : System Bool := ⟨fun _ => ⟨receivedNote, [], true, true, [], [delivered ⟨0, [7], true⟩]⟩, [⟨{}, 1⟩]⟩

theorem reached_twoServed : Relation.ReflTransGen (System.Next [7]) twoListening twoServed := by
  refine .tail (.tail (.tail (.single ⟨.startTransfer false {}, rfl⟩) ⟨.fire 0, System.step_fire rfl (event_seven 0)⟩)
    ⟨.deliver false .ok true, rfl⟩) ⟨.deliver true .ok true, ?_⟩
  refine congrArg some (congrArg (System.mk · _) (funext fun k => ?_))
  cases k <;> rfl

theorem completed_clients_agree_two : (twoServed.clients true).stream.file = (twoServed.clients false).stream.file := by
  have completed : ∀ k, (twoServed.clients k).Completed := fun k => ⟨[], _, [], rfl, reports_iff.2 ⟨rfl, rfl⟩, rfl⟩
  have written : ∀ k x, x ∈ (twoServed.clients k).heard → x.write = .ok := by
    intro k x mem
    obtain rfl := List.mem_singleton.1 mem
    rfl
  exact completed_clients_agree ⟨⟨rfl, rfl⟩, rfl⟩ reached_twoServed (completed true) (completed false) (written true)
    (written false)

/-- The second client subscribes and transfers when the transfer of the first has ended. -/
theorem agrees_of_serial_two : ∃ t : System Bool, (∀ k, (t.clients k).Completed) ∧ t.Agrees [7] := by
  refine ⟨_, fun k => ?_, agrees_of_serial initial_twoClients (.tail (.tail (.tail (.tail (.tail (.tail (.tail
    (.single ⟨.subscribe false, rfl, fun _ th mem => by cases mem⟩) ⟨.startTransfer false {}, rfl, rfl⟩)
    ⟨.fire 0, System.step_fire rfl (event_seven 0), fun _ _ _ th mem => List.mem_singleton.1 mem ▸ not_midway_seven 0⟩)
    ⟨.subscribe true, rfl, fun _ th mem => List.mem_singleton.1 mem ▸ not_midway_seven 1⟩) ⟨.startTransfer true {}, rfl, rfl⟩)
    ⟨.fire 1, System.step_fire rfl (event_seven 0), fun _ _ _ th mem => ?_⟩)
    ⟨.deliver false .ok true, rfl, fun _ _ _ _ _ _ => rfl⟩) ⟨.deliver true .ok true, rfl, fun _ _ _ _ _ _ => rfl⟩)⟩
  · cases k <;> exact ⟨[], _, [], rfl, reports_iff.2 ⟨rfl, rfl⟩, rfl⟩
  · rcases List.mem_cons.1 mem with rfl | mem
    · exact not_midway_seven 1
    · exact List.mem_singleton.1 mem ▸ not_midway_seven 0

end OtaBridge.Transfer
