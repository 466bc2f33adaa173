import Mathlib.Algebra.Order.Field.Basic
import Mathlib.Data.Rat.Cast.Order
import Mathlib.Tactic.Linarith
import Mathlib.Tactic.Positivity
import OtaBridge.Transfer.Broadcast

/-!
# The progress of a download

`onChunk` prints `index * CHUNK_SIZE / size` in percent, where the size comes from the global that the
reply to `requestUpdate` is stored in. A client subscribes before it makes this request, so a transfer
of another client reaches it while the size is still zero. The progress is defined exactly for what
comes after the reply, on a 32-bit target for the first 65536 chunks (`defined_iff`).
-/

namespace OtaBridge.Transfer

/-- `index * CHUNK_SIZE`, where `size_t` has `w` bits, as a percentage of the size. -/
def progress (w : Nat) (index : UInt32) (size : UInt64) : ℚ :=
  (index.toNat * CHUNK_SIZE % 2 ^ w : Nat) / (size.toNat : ℚ) * 100

structure Defined (w : Nat) (index : UInt32) (size : UInt64) : Prop where
  divisor : size ≠ 0
  product : index.toNat * CHUNK_SIZE < 2 ^ w
  nonneg : 0 ≤ progress w index size
  le : progress w index size ≤ 100

/-- Where the `main` of a client is. -/
inductive Stage where
  | started
  | subscribed
  | answered (conclusion : Conclusion)
  | transferring
  | rejected
  | ended
  deriving DecidableEq, Repr

/-- The server has answered the request. -/
def Stage.Replied : Stage → Prop
  | .answered conclusion => conclusion ≠ .requestFailed
  | .transferring | .rejected => True
  | _ => False

/-- `UpdateInfo()` -/
def UpdateInfo.unset : UpdateInfo := ⟨false, false, 0, 0, 0, 0⟩

/-- The `main` of a client. Nothing reads `evaluated`: the indices and sizes of the progress that was
computed on the open file. -/
structure ClientMain where
  stage : Stage
  info : UpdateInfo
  evaluated : List (UInt32 × UInt64)

inductive Call where
  | subscribe
  | requestUpdate (status : CallStatus) (version crc : FileState) (currentVersion : UInt32)
  /-- `read` is how the thread of the server will read the image, if the call gets to the server. -/
  | startTransfer (read : Option FileRead) (status : CallStatus)
  | onChunk (write : WriteOutcome) (closes : Bool)
  /-- `main` returns, or the process is stopped. -/
  | exit
  deriving DecidableEq, Repr

def accepted (image : List Byte) : Option FileRead → CallStatus → Bool
  | some read, .success => (startTransfer (.regular image) read).1
  | _, _ => false

/-- The progress line of `onChunk`. -/
def ClientMain.evaluate (m : ClientMain) (c : Client) : ClientMain :=
  match c.inbox with
  | [] => m
  | e :: _ =>
    if c.stream.good ∧ c.stream.isOpen then { m with evaluated := m.evaluated ++ [(e.index, m.info.size)] } else m

def ClientMain.step (image : List Byte) (m : ClientMain) (c : Client) : Call → Option ClientMain
  | .subscribe => if m.stage = .started then some { m with stage := .subscribed } else none
  | .requestUpdate status version crc currentVersion =>
    if m.stage = .subscribed then
      -- the proxy stores what it has unpacked, and nothing was unpacked if the call failed
      let info := if status = .success then requestUpdate ⟨.regular image, version, crc⟩ currentVersion else .unset
      some { m with stage := .answered (conclude status info), info := info }
    else none
  | .startTransfer read status =>
    if m.stage = .answered .startTransfer then
      some { m with stage := if accepted image read status then .transferring else .rejected }
    else none
  | .onChunk _ _ => if m.stage = .ended then none else some (m.evaluate c)
  | .exit => some { m with stage := .ended }

/-- What a call of client `k` is to the others. -/
def Call.action {κ : Type} (k : κ) : Call → Option (Action κ)
  | .subscribe => some (.subscribe k)
  | .startTransfer read _ => read.map (.startTransfer k)
  | .onChunk write closes => some (.deliver k write closes)
  | _ => none

/-- The server and the processes of its clients. -/
structure Session (κ : Type) where
  system : System κ
  mains : κ → ClientMain

inductive SessionStep (κ : Type) where
  | client (k : κ) (call : Call)
  | fire (thread : Nat)

section Sessions

variable {κ : Type} [DecidableEq κ]

def System.perform (image : List Byte) (s : System κ) : Option (Action κ) → Option (System κ)
  | none => some s
  | some a => s.step image a

def Session.step (image : List Byte) (s : Session κ) : SessionStep κ → Option (Session κ)
  | .client k call => do
    let m ← (s.mains k).step image (s.system.clients k) call
    let system ← s.system.perform image (call.action k)
    return ⟨system, Function.update s.mains k m⟩
  | .fire i => do
    let system ← s.system.step image (.fire i)
    return { s with system := system }

structure Session.Initial (s : Session κ) : Prop where
  system : s.system.Initial
  mains : ∀ k, s.mains k = ⟨.started, .unset, []⟩

def Session.Next (image : List Byte) (s t : Session κ) : Prop := ∃ a, s.step image a = some t

/-- All progress that was computed is defined. -/
def Session.AlwaysDefined (w : Nat) (s : Session κ) : Prop :=
  ∀ k p, p ∈ (s.mains k).evaluated → Defined w p.1 p.2

/-- The client has its reply, and on a 32-bit target the chunk is one of the first 65536. -/
structure Timely (w : Nat) (m : ClientMain) (e : ChunkEvent) : Prop where
  replied : m.stage.Replied
  early : w = 32 → e.index.toNat < 65536

/-- The size of the image fits the reply, and chunks that are to be written come in time. -/
def Call.Orderly (image : List Byte) (w : Nat) (m : ClientMain) (c : Client) : Call → Prop
  | .requestUpdate _ _ _ _ => image.length < UInt64.size
  | .onChunk _ _ => ∀ e, e ∈ c.inbox.head? → c.stream.good = true → c.stream.isOpen = true → Timely w m e
  | _ => True

def Session.Orderly (image : List Byte) (w : Nat) (s : Session κ) : SessionStep κ → Prop
  | .client k call => call.Orderly image w (s.mains k) (s.system.clients k)
  | .fire _ => True

def Session.OrderlyNext (image : List Byte) (w : Nat) (s t : Session κ) : Prop :=
  ∃ a, s.step image a = some t ∧ s.Orderly image w a

/-! ## The progress of one chunk -/

/-- The size is that of the image from the reply on, and zero before. -/
structure ClientMain.Told (image : List Byte) (m : ClientMain) : Prop where
  size : m.stage.Replied → m.info.size.toNat = image.length
  unset : m.stage ≠ .ended → ¬ m.stage.Replied → m.info.size = 0

section Clients

variable {image : List Byte} {w : Nat} {m m' : ClientMain} {c : Client} {call : Call} {e : ChunkEvent}

theorem requestUpdate_size (bytes : List Byte) (version crc : FileState) (currentVersion : UInt32) :
    (requestUpdate ⟨.regular bytes, version, crc⟩ currentVersion).size = UInt64.ofNat bytes.length := by
  cases read : (readUint32FromFile version 0).1 with
  | false => rw [requestUpdate_unreadable bytes crc currentVersion read]
  | true => rw [requestUpdate_read currentVersion (Prod.ext read rfl)]

theorem conclude_requestFailed_iff {status : CallStatus} {info : UpdateInfo} :
    conclude status info = .requestFailed ↔ status ≠ .success := by
  unfold conclude
  split
  · next failed => simpa using failed
  · next success =>
    refine ⟨fun h => ?_, fun failed => absurd failed success⟩
    split at h
    · cases h
    · split at h <;> cases h

/-- A chunk that starts inside the image has its place in it. -/
theorem defined_of_lt {index : UInt32} {size : UInt64} (product : index.toNat * CHUNK_SIZE < 2 ^ w)
    (inside : index.toNat * CHUNK_SIZE < size.toNat) : Defined w index size := by
  have pos : (0 : ℚ) < size.toNat := by
    rw [Nat.cast_pos]
    omega
  have share : progress w index size = ((index.toNat * CHUNK_SIZE : Nat) : ℚ) / size.toNat * 100 := by
    rw [progress, Nat.mod_eq_of_lt product]
  refine ⟨?_, product, ?_, ?_⟩
  · rintro rfl
    exact Nat.not_lt_zero _ inside
  · rw [share]
    positivity
  · have le : ((index.toNat * CHUNK_SIZE : Nat) : ℚ) / size.toNat ≤ 1 := by
      rw [div_le_one pos, Nat.cast_le]
      exact Nat.le_of_lt inside
    rw [share]
    linarith

/-- **The progress of a chunk**, computed before `main` has ended, is defined if it comes in time. -/
theorem defined_iff (width : w = 32 ∨ w = 64) (told : m.Told image) (running : m.stage ≠ .ended)
    (inside : e.index.toNat * CHUNK_SIZE < image.length) : Defined w e.index m.info.size ↔ Timely w m e := by
  constructor
  · intro defined
    constructor
    · by_contra early
      exact defined.divisor (told.unset running early)
    · rintro rfl
      have := defined.product
      simp only [CHUNK_SIZE] at this
      omega
  · rintro ⟨replied, early⟩
    apply defined_of_lt
    · have index := e.index.toNat_lt
      simp only [CHUNK_SIZE]
      rcases width with rfl | rfl
      · have := early rfl
        omega
      · omega
    · rwa [told.size replied]

theorem ClientMain.evaluate_eq (m : ClientMain) (c : Client) :
    (m.evaluate c).stage = m.stage ∧ (m.evaluate c).info = m.info := by
  unfold evaluate
  split
  · exact ⟨rfl, rfl⟩
  · split <;> exact ⟨rfl, rfl⟩

theorem ClientMain.evaluated_of_head (head : e ∈ c.inbox.head?) (good : c.stream.good = true)
    (opened : c.stream.isOpen = true) : (e.index, m.info.size) ∈ (m.evaluate c).evaluated := by
  obtain ⟨rest, inbox⟩ : ∃ rest, c.inbox = e :: rest := List.head?_eq_some_iff.1 head
  rw [evaluate, inbox]
  simp [good, opened]

theorem ClientMain.mem_evaluate {p : UInt32 × UInt64} (mem : p ∈ (m.evaluate c).evaluated) :
    p ∈ m.evaluated ∨ ∃ e, e ∈ c.inbox.head? ∧ c.stream.good = true ∧ c.stream.isOpen = true ∧
      p = (e.index, m.info.size) := by
  unfold evaluate at mem
  split at mem
  · exact .inl mem
  · next e rest head =>
    split at mem
    · next writes =>
      rcases List.mem_append.1 mem with old | new
      · exact .inl old
      · exact .inr ⟨e, by rw [head]; rfl, writes.1, writes.2, List.mem_singleton.1 new⟩
    · exact .inl mem

/-- What the steps of `main` keep. -/
structure ClientMain.Sound (image : List Byte) (w : Nat) (m : ClientMain) : Prop extends m.Told image where
  defined : ∀ p, p ∈ m.evaluated → Defined w p.1 p.2

theorem ClientMain.Sound.step (h : m.Sound image w) (width : w = 32 ∨ w = 64)
    (inside : ∀ e, e ∈ c.inbox → e.index.toNat * CHUNK_SIZE < image.length)
    (step : m.step image c call = some m') (order : call.Orderly image w m c) : m'.Sound image w := by
  cases call with
  | subscribe =>
    simp only [ClientMain.step, Option.ite_none_right_eq_some, Option.some.injEq] at step
    obtain ⟨started, rfl⟩ := step
    have unset := h.unset (by rw [started]; exact nofun) (by rw [started]; exact id)
    exact ⟨⟨False.elim, fun _ _ => unset⟩, h.defined⟩
  | requestUpdate status version crc currentVersion =>
    simp only [ClientMain.step, Option.ite_none_right_eq_some, Option.some.injEq] at step
    obtain ⟨-, rfl⟩ := step
    refine ⟨⟨fun replied => ?_, fun _ silent => ?_⟩, h.defined⟩
    · have success : status = .success := not_not.1 (mt conclude_requestFailed_iff.2 replied)
      rw [if_pos success, requestUpdate_size, UInt64.toNat_ofNat_of_lt' order]
    · have failed : status ≠ .success := conclude_requestFailed_iff.1 (not_not.1 silent)
      rw [if_neg failed]
      rfl
  | startTransfer read status =>
    simp only [ClientMain.step, Option.ite_none_right_eq_some, Option.some.injEq] at step
    obtain ⟨newer, rfl⟩ := step
    have size := h.size (by rw [newer]; exact nofun)
    refine ⟨⟨fun _ => size, fun _ silent => absurd ?_ silent⟩, h.defined⟩
    split <;> trivial
  | onChunk write closes =>
    simp only [ClientMain.step, Option.ite_none_left_eq_some, Option.some.injEq] at step
    obtain ⟨running, rfl⟩ := step
    obtain ⟨stage, info⟩ := m.evaluate_eq c
    refine ⟨⟨?_, ?_⟩, fun p mem => ?_⟩
    · rw [stage, info]
      exact h.size
    · rw [stage, info]
      exact h.unset
    · rcases mem_evaluate mem with old | ⟨e, head, good, opened, rfl⟩
      · exact h.defined p old
      · have timely := order e head good opened
        exact (defined_iff width h.toTold running (inside e (List.mem_of_mem_head? head))).2 timely
  | exit =>
    obtain rfl := Option.some.inj step
    exact ⟨⟨False.elim, fun running => absurd rfl running⟩, h.defined⟩

end Clients

/-! ## Runs -/

section Runs

variable {image : List Byte} {w : Nat} {s t : Session κ}

/-- A step of the session, by what it is to its client and to the others. -/
theorem Session.step_client {k : κ} {call : Call} (step : s.step image (.client k call) = some t) :
    ∃ m, (s.mains k).step image (s.system.clients k) call = some m ∧ t.mains = Function.update s.mains k m ∧
      Relation.ReflTransGen (System.Next image) s.system t.system := by
  simp only [Session.step, Option.bind_eq_bind, Option.bind_eq_some_iff, Option.pure_def, Option.some.injEq] at step
  obtain ⟨m, main, system, shared, rfl⟩ := step
  refine ⟨m, main, rfl, ?_⟩
  unfold System.perform at shared
  split at shared
  · obtain rfl := Option.some.inj shared
    exact .refl
  · exact .single ⟨_, shared⟩

theorem Session.step_of_fire {i : Nat} {th : Thread} {e : ChunkEvent} (found : s.system.threads[i]? = some th)
    (event : (th.events image)[th.fired]? = some e) : s.step image (.fire i) =
      some { s with system := ⟨fun k => (s.system.clients k).receive e,
        s.system.threads.set i { th with fired := th.fired + 1 }⟩ } := by
  simp [Session.step, System.step_fire found event]

theorem Session.step_fire {i : Nat} (step : s.step image (.fire i) = some t) :
    t.mains = s.mains ∧ System.Next image s.system t.system := by
  simp only [Session.step, Option.bind_eq_bind, Option.bind_eq_some_iff, Option.pure_def, Option.some.injEq] at step
  obtain ⟨system, fires, rfl⟩ := step
  exact ⟨rfl, .fire i, fires⟩

/-- What a run from `s` to `t` is to the system, and to each client. -/
structure Session.Sound (image : List Byte) (w : Nat) (s t : Session κ) : Prop where
  system : Relation.ReflTransGen (System.Next image) s.system t.system
  mains : ∀ k, (t.mains k).Sound image w

theorem Session.Initial.sound (h : s.Initial) : s.Sound image w s := by
  refine ⟨.refl, fun k => ?_⟩
  rw [h.mains]
  exact ⟨⟨False.elim, fun _ _ => rfl⟩, fun p mem => absurd mem List.not_mem_nil⟩

/-- What waits for a client starts inside the image. -/
theorem Session.Sound.inside (initial : s.Initial) (h : s.Sound image w t) (k : κ) :
    ∀ e, e ∈ (t.system.clients k).inbox → e.index.toNat * CHUNK_SIZE < image.length := fun e mem =>
  System.sent_of_run (fun _ _ mem => index_lt CHUNK_SIZE_pos mem) initial.system h.system k e
    (List.mem_append_right _ mem)

theorem Session.Sound.next {u : Session κ} (width : w = 32 ∨ w = 64) (initial : s.Initial)
    (h : s.Sound image w t) (next : t.OrderlyNext image w u) : s.Sound image w u := by
  obtain ⟨a, step, order⟩ := next
  cases a with
  | client k call =>
    obtain ⟨m, main, mains, system⟩ := Session.step_client step
    refine ⟨h.system.trans system, ?_⟩
    rw [mains]
    apply (Function.forall_update_iff t.mains fun _ m => m.Sound image w).2
    exact ⟨(h.mains k).step width (h.inside initial k) main order, fun j _ => h.mains j⟩
  | fire i =>
    obtain ⟨mains, system⟩ := Session.step_fire step
    refine ⟨h.system.tail system, ?_⟩
    rw [mains]
    exact h.mains

theorem Session.sound_of_run (width : w = 32 ∨ w = 64) (initial : s.Initial)
    (run : Relation.ReflTransGen (Session.OrderlyNext image w) s t) : s.Sound image w t := by
  induction run with
  | refl => exact initial.sound
  | tail _ next ih => exact ih.next width initial next

/-- A chunk that comes out of time and is written makes for a progress that is not defined. -/
theorem untimely_chunk_undefined {k : κ} {e : ChunkEvent} (width : w = 32 ∨ w = 64) (initial : s.Initial)
    (run : Relation.ReflTransGen (Session.OrderlyNext image w) s t) (running : (t.mains k).stage ≠ .ended)
    (head : e ∈ (t.system.clients k).inbox.head?) (good : (t.system.clients k).stream.good = true)
    (opened : (t.system.clients k).stream.isOpen = true) (untimely : ¬ Timely w (t.mains k) e) :
    ∃ u, Session.Next image t u ∧ ¬ u.AlwaysDefined w := by
  have sound := Session.sound_of_run width initial run
  obtain ⟨c, taken⟩ : ∃ c, (t.system.clients k).deliver .ok true = some c := by
    obtain ⟨rest, inbox⟩ := List.head?_eq_some_iff.1 head
    rw [Client.deliver, inbox]
    exact ⟨_, rfl⟩
  have step : t.step image (.client k (.onChunk .ok true)) =
      some ⟨{ t.system with clients := Function.update t.system.clients k c },
        Function.update t.mains k ((t.mains k).evaluate (t.system.clients k))⟩ := by
    simp [Session.step, ClientMain.step, System.perform, Call.action, System.step, running, taken]
  refine ⟨_, ⟨_, step⟩, fun defined => untimely ?_⟩
  have written : (e.index, (t.mains k).info.size) ∈ ((t.mains k).evaluate (t.system.clients k)).evaluated :=
    ClientMain.evaluated_of_head head good opened
  have all := defined k (e.index, (t.mains k).info.size) (by simpa using written)
  exact (defined_iff width (sound.mains k).toTold running (sound.inside initial k e (List.mem_of_mem_head? head))).1 all

/-- **The progress of every chunk.** -/
theorem always_defined (width : w = 32 ∨ w = 64) (initial : s.Initial)
    (run : Relation.ReflTransGen (Session.OrderlyNext image w) s t) : t.AlwaysDefined w :=
  fun k => ((Session.sound_of_run width initial run).mains k).defined

end Runs

end Sessions

/-! ## Two clients -/

/-- Two clients before they subscribe. -/
def twoMains : Session Bool := ⟨twoClients, fun _ => ⟨.started, .unset, []⟩⟩

theorem initial_twoMains : twoMains.Initial := ⟨initial_twoClients, fun _ => rfl⟩

/-- A client that asks for version 2 and takes its chunk. -/
theorem always_defined_one : ∃ t : Session Bool, (t.mains false).evaluated = [(0, 1)] ∧ t.AlwaysDefined 32 := by
  have fits : [7].length < UInt64.size := by decide
  have run : Relation.ReflTransGen (Session.OrderlyNext [7] 32) twoMains _ :=
    .tail (.tail (.tail (.tail (.single ⟨.client false .subscribe, rfl, trivial⟩)
      ⟨.client false (.requestUpdate .success (some (ascii "2")) none 1), rfl, fits⟩)
      ⟨.client false (.startTransfer (some {}) .success), rfl, trivial⟩)
      ⟨.fire 0, Session.step_of_fire rfl (event_seven 0), trivial⟩)
      ⟨.client false (.onChunk .ok true), rfl, fun e head _ _ => by
        obtain rfl := Option.some.inj head
        exact ⟨trivial, fun _ => (by decide : 0 < 65536)⟩⟩
  exact ⟨_, rfl, always_defined (.inl rfl) initial_twoMains run⟩

/-- The second client has subscribed and not yet asked when the chunk of the first one comes. -/
theorem not_always_defined_unasked : ¬ ∀ image w (s t : Session Bool), w = 32 ∨ w = 64 → s.Initial →
    Relation.ReflTransGen (Session.Next image) s t → t.AlwaysDefined w := by
  intro defined
  have run : Relation.ReflTransGen (Session.Next [7]) twoMains _ :=
    .tail (.tail (.tail (.tail (.tail (.single ⟨.client false .subscribe, rfl⟩)
      ⟨.client false (.requestUpdate .success (some (ascii "2")) none 1), rfl⟩)
      ⟨.client false (.startTransfer (some {}) .success), rfl⟩) ⟨.client true .subscribe, rfl⟩)
      ⟨.fire 0, Session.step_of_fire rfl (event_seven 0)⟩) ⟨.client true (.onChunk .ok true), rfl⟩
  exact (defined [7] 64 twoMains _ (.inr rfl) initial_twoMains run true (0, 0) List.mem_cons_self).divisor rfl

end OtaBridge.Transfer
