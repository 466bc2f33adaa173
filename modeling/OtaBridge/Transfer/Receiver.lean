import Mathlib.Data.List.TakeWhile
import OtaBridge.Text

/-!
# The receiver of a file

`FileReceiver` of the two clients, over an output file stream with the state that decides what the
calls do: whether a file is open, and the two failure bits that `!ofs_` looks at. The guard of
`onChunk` does not look at whether the file is open, and nothing looks at the outcome of a write, so
the completion report can come after a failed write of the last chunk, and a second time after a
second last chunk (`well_behaved_iff`).
-/

namespace OtaBridge.Transfer

/-- `std::ofstream`; `file` is what has been handed to the file. -/
structure OfStream where
  isOpen : Bool
  failbit : Bool
  badbit : Bool
  file : List Byte
  deriving DecidableEq, Repr

/-- The outcome of a write to an open file; a failing one may take the first bytes. -/
inductive WriteOutcome where
  | ok
  | fails (n : Nat)
  deriving DecidableEq, Repr

namespace OfStream

/-- `!ofs_` is the negation of this. -/
def good (s : OfStream) : Bool := !s.failbit && !s.badbit

/-- `ofs_.open(path, std::ios::binary)`, on a file that holds `prior`. -/
def openFile (prior : List Byte) (ok : Bool) : OfStream :=
  if ok then ⟨true, false, false, []⟩ else ⟨false, true, false, prior⟩

/-- `ofs_.write(data, size)` on a good stream. Without an open file every byte fails, and no bytes
do what the outcome says. -/
def write (s : OfStream) (data : List Byte) : WriteOutcome → OfStream
  | .ok => if s.isOpen ∨ data = [] then { s with file := s.file ++ data } else { s with badbit := true }
  | .fails n => if s.isOpen then { s with file := s.file ++ data.take n, badbit := true } else { s with badbit := true }

/-- `ofs_.close()` -/
def close (s : OfStream) (ok : Bool) : OfStream :=
  if s.isOpen ∧ ok then { s with isOpen := false } else { s with isOpen := false, failbit := true }

end OfStream

/-- The same on both sides. -/
def CHUNK_SIZE : Nat := 64 * 1024

theorem CHUNK_SIZE_pos : 0 < CHUNK_SIZE := by decide

structure ChunkEvent where
  index : UInt32
  data : List Byte
  last : Bool
  deriving DecidableEq, Repr

/-- The line that a client prints for a chunk. -/
inductive Note where
  /-- The product and the size that the progress is computed from. -/
  | downloading (product : UInt64) (size : UInt64)
  | received (index : UInt32) (size : Nat) (last : Bool)
  deriving DecidableEq, Repr

inductive Message where
  | cannotWrite (index : UInt32)
  | note (n : Note)
  | allReceived
  deriving DecidableEq, Repr

/-- A chunk and what its file operations come to. -/
structure Arrival where
  event : ChunkEvent
  write : WriteOutcome
  closes : Bool
  deriving DecidableEq, Repr

/-- A chunk that is written, to a file that closes. -/
def delivered (e : ChunkEvent) : Arrival := ⟨e, .ok, true⟩

/-- `FileReceiver::onChunk`: the stream afterwards, and the lines printed. -/
def onChunkWith (note : ChunkEvent → Note) (s : OfStream) (x : Arrival) : OfStream × List Message :=
  if !s.good then (s, [.cannotWrite x.event.index])
  else
    let s := s.write x.event.data x.write
    if x.event.last then (s.close x.closes, [.note (note x.event), .allReceived])
    else (s, [.note (note x.event)])

/-- The progress line: `index * CHUNK_SIZE`, and the size that the server told. -/
def downloadingNote (size : UInt64) (e : ChunkEvent) : Note :=
  .downloading (UInt64.ofNat e.index.toNat * UInt64.ofNat CHUNK_SIZE) size

def receivedNote (e : ChunkEvent) : Note := .received e.index e.data.length e.last

/-- The client of the OTA project. -/
def onChunk (size : UInt64) : OfStream → Arrival → OfStream × List Message := onChunkWith (downloadingNote size)

/-- The client of the Ubuntu test application. -/
def appsOnChunk : OfStream → Arrival → OfStream × List Message := onChunkWith receivedNote

section Runs

variable (note : ChunkEvent → Note)

/-- The stream after all arrivals. -/
def streamAfter (s : OfStream) (xs : List Arrival) : OfStream := xs.foldl (fun s x => (onChunkWith note s x).1) s

/-- The lines printed. -/
def printed (s : OfStream) : List Arrival → List Message
  | [] => []
  | x :: xs => (onChunkWith note s x).2 ++ printed (onChunkWith note s x).1 xs

/-- The arrival makes the receiver report completion. -/
def Reports (s : OfStream) (x : Arrival) : Prop := .allReceived ∈ (onChunkWith note s x).2

/-- The payload is written. -/
structure Writes (s : OfStream) (x : Arrival) : Prop where
  good : s.good = true
  isOpen : s.isOpen = true
  outcome : x.write = .ok

/-- The receiver that opened its file as `ok` says reports completion of what it has written, once. -/
structure WellBehaved (prior : List Byte) (ok : Bool) (xs : List Arrival) : Prop where
  once : (printed note (.openFile prior ok) xs).count .allReceived ≤ 1
  written : ∀ pre x post, xs = pre ++ x :: post → Reports note (streamAfter note (.openFile prior ok) pre) x →
    ∀ p y q, pre ++ [x] = p ++ y :: q → Writes (streamAfter note (.openFile prior ok) p) y
  content : ∀ pre x post, xs = pre ++ x :: post → Reports note (streamAfter note (.openFile prior ok) pre) x →
    (streamAfter note (.openFile prior ok) (pre ++ [x])).file = (pre ++ [x]).flatMap (·.event.data)
  final : ∀ pre x mid post, xs = pre ++ x :: (mid ++ post) →
    Reports note (streamAfter note (.openFile prior ok) pre) x →
    (streamAfter note (.openFile prior ok) (pre ++ x :: mid)).file =
      (streamAfter note (.openFile prior ok) (pre ++ [x])).file

/-- Neither a last chunk nor a failed write. -/
def Plain (x : Arrival) : Prop := x.event.last = false ∧ x.write = .ok

instance (x : Arrival) : Decidable (Plain x) := inferInstanceAs (Decidable (_ ∧ _))

/-- Nothing that a stream without a file notices. -/
def quiet (x : Arrival) : Bool := x.event.data.isEmpty && x.write == .ok && !x.event.last

/-- If the file opened and nothing went wrong up to the first last chunk, then that chunk is written,
and either the close fails or the first later arrival that a closed stream notices is no last chunk. -/
def EndsOnce (ok : Bool) (xs : List Arrival) : Prop :=
  ∀ pre x post, xs = pre ++ x :: post → ok = true → (∀ y, y ∈ pre → Plain y) → x.event.last = true →
    x.write = .ok ∧ (x.closes = false ∨ ∀ y, y ∈ (post.dropWhile quiet).head? → y.event.last = false)

/-! ## Runs in the three states of the stream -/

variable {note} {s : OfStream} {x : Arrival} {xs ys : List Arrival}

theorem streamAfter_append : streamAfter note s (xs ++ ys) = streamAfter note (streamAfter note s xs) ys :=
  List.foldl_append

theorem printed_append : printed note s (xs ++ ys) = printed note s xs ++ printed note (streamAfter note s xs) ys := by
  induction xs generalizing s with
  | nil => rfl
  | cons x xs ih =>
    simp only [List.cons_append, printed, ih, List.append_assoc]
    rfl

theorem reports_iff : Reports note s x ↔ s.good = true ∧ x.event.last = true := by
  unfold Reports onChunkWith
  cases s.good <;> cases x.event.last <;> simp

theorem count_onChunk : ((onChunkWith note s x).2).count .allReceived = if s.good && x.event.last then 1 else 0 := by
  unfold onChunkWith
  cases s.good <;> cases x.event.last <;> simp

/-- A run that prints no report has no arrival that makes one. -/
theorem not_reports_of_count {pre post : List Arrival}
    (h : (printed note s (pre ++ x :: post)).count .allReceived = 0) : ¬ Reports note (streamAfter note s pre) x := by
  intro reports
  apply List.count_eq_zero.1 h
  rw [printed_append]
  exact List.mem_append_right _ (List.mem_append_left _ reports)

/-- With a failure bit set nothing happens any more. -/
theorem run_failed (failed : s.good = false) (xs : List Arrival) :
    streamAfter note s xs = s ∧ (printed note s xs).count .allReceived = 0 := by
  have step : ∀ x, (onChunkWith note s x).1 = s := fun x => by simp [onChunkWith, failed]
  induction xs with
  | nil => exact ⟨rfl, rfl⟩
  | cons x xs ih =>
    constructor
    · show streamAfter note (onChunkWith note s x).1 xs = s
      rw [step, ih.1]
    · rw [printed, List.count_append, count_onChunk, failed, step, ih.2]
      rfl

/-- An open stream takes plain arrivals one after another. -/
theorem run_plain (good : s.good = true) (opened : s.isOpen = true) (plain : ∀ x, x ∈ xs → Plain x) :
    streamAfter note s xs = { s with file := s.file ++ xs.flatMap (·.event.data) } ∧
      (printed note s xs).count .allReceived = 0 := by
  induction xs generalizing s with
  | nil => simp [streamAfter, printed]
  | cons x xs ih =>
    obtain ⟨notLast, written⟩ := plain x List.mem_cons_self
    have step : (onChunkWith note s x).1 = { s with file := s.file ++ x.event.data } := by
      simp [onChunkWith, good, notLast, written, OfStream.write, opened]
    obtain ⟨after, none⟩ := ih (s := { s with file := s.file ++ x.event.data }) good opened
      fun y hy => plain y (List.mem_cons_of_mem _ hy)
    constructor
    · show streamAfter note (onChunkWith note s x).1 xs = _
      rw [step, after]
      simp
    · rw [printed, List.count_append, count_onChunk, step, none, notLast]
      simp

/-- A closed stream takes nothing, and only a quiet arrival goes unnoticed. -/
theorem onChunk_closed (good : s.good = true) (closed : s.isOpen = false) (x : Arrival) :
    (onChunkWith note s x).1.file = s.file ∧
      (if quiet x then (onChunkWith note s x).1 = s else (onChunkWith note s x).1.good = false) := by
  have bits : s.failbit = false ∧ s.badbit = false := by
    simpa [OfStream.good] using good
  obtain ⟨isOpen, failbit, badbit, file⟩ := s
  obtain ⟨⟨index, data, last⟩, write, closes⟩ := x
  obtain ⟨rfl, rfl⟩ : failbit = false ∧ badbit = false := bits
  obtain rfl : isOpen = false := closed
  cases last <;> cases write <;> cases data <;>
    simp [onChunkWith, quiet, OfStream.write, OfStream.close, OfStream.good]

/-- A closed stream keeps its file, and reports again exactly where the next arrival it notices is a
last chunk. -/
theorem run_closed (good : s.good = true) (closed : s.isOpen = false) (xs : List Arrival) :
    (streamAfter note s xs).file = s.file ∧
      ((printed note s xs).count .allReceived = 0 ↔
        ∀ y, y ∈ (xs.dropWhile quiet).head? → y.event.last = false) := by
  induction xs with
  | nil => simp [streamAfter, printed]
  | cons x xs ih =>
    have step : (onChunkWith note s x).1.file = s.file ∧ _ := onChunk_closed good closed x
    have after : streamAfter note s (x :: xs) = streamAfter note (onChunkWith note s x).1 xs := rfl
    rw [after, printed, List.count_append, count_onChunk, good]
    by_cases q : quiet x = true
    · rw [if_pos q] at step
      have notLast : x.event.last = false := by
        simp only [quiet, Bool.and_eq_true, Bool.not_eq_true'] at q
        exact q.2
      rw [step.2, List.dropWhile_cons_of_pos q, notLast]
      simpa using ih
    · rw [if_neg q] at step
      obtain ⟨still, none⟩ : streamAfter note _ xs = _ ∧ _ := run_failed step.2 xs
      rw [still, none, List.dropWhile_cons_of_neg q]
      cases last : x.event.last <;> simp [last, step.1]

/-- The file is a front part of `bytes`, and all of it while the stream takes more. -/
structure OfStream.Front (s : OfStream) (bytes : List Byte) : Prop where
  part : s.file <+: bytes
  whole : s.good = true → s.isOpen = true → s.file = bytes

theorem OfStream.Front.write {bytes : List Byte} (h : s.Front bytes) (good : s.good = true) (data : List Byte)
    (outcome : WriteOutcome) : (s.write data outcome).Front (bytes ++ data) := by
  have longer : s.file <+: bytes ++ data := h.part.trans (List.prefix_append _ _)
  cases opened : s.isOpen with
  | true =>
    have all := h.whole good opened
    cases outcome with
    | ok => simp only [OfStream.write, opened, true_or, ↓reduceIte, all]; exact ⟨List.prefix_rfl, fun _ _ => rfl⟩
    | fails n =>
      simp only [OfStream.write, opened, ↓reduceIte, all]
      exact ⟨(List.prefix_append_right_inj _).2 (List.take_prefix _ _), fun failed => by simp [OfStream.good] at failed⟩
  | false =>
    have closed : (s.write data outcome).isOpen = false := by
      cases outcome <;> simp only [OfStream.write] <;> split <;> exact opened
    have same : (s.write data outcome).file = s.file := by
      cases outcome with
      | ok =>
        simp only [OfStream.write, opened, Bool.false_eq_true, false_or]
        split
        · next empty => rw [empty, List.append_nil]
        · rfl
      | fails n => simp only [OfStream.write, opened, Bool.false_eq_true, ↓reduceIte]
    exact ⟨same ▸ longer, fun _ yes => absurd (closed.symm.trans yes) (by decide)⟩

theorem OfStream.Front.close {bytes : List Byte} (h : s.Front bytes) (ok : Bool) : (s.close ok).Front bytes := by
  unfold OfStream.close
  split <;> exact ⟨h.part, fun _ yes => absurd yes Bool.false_ne_true⟩

theorem OfStream.Front.onChunk {bytes : List Byte} (h : s.Front bytes) (note : ChunkEvent → Note) (x : Arrival) :
    (onChunkWith note s x).1.Front (bytes ++ x.event.data) := by
  unfold onChunkWith
  split
  · next failed =>
    have bad : s.good = false := by simpa using failed
    exact ⟨h.part.trans (List.prefix_append _ _), fun yes => absurd (bad.symm.trans yes) (by decide)⟩
  · next good =>
    have written := h.write (by simpa using good) x.event.data x.write
    dsimp only
    split
    · exact written.close x.closes
    · exact written

/-- Whatever the file operations come to, the file is a front part of what came. -/
theorem file_front (note : ChunkEvent → Note) (prior : List Byte) (xs : List Arrival) :
    (streamAfter note (.openFile prior true) xs).file <+: xs.flatMap (·.event.data) := by
  suffices run : ∀ s bytes, OfStream.Front s bytes → (streamAfter note s xs).Front (bytes ++ xs.flatMap (·.event.data)) from
    (run (.openFile prior true) [] ⟨List.prefix_rfl, fun _ _ => rfl⟩).part
  induction xs with
  | nil =>
    intro s bytes h
    rw [List.flatMap_nil, List.append_nil]
    exact h
  | cons x xs ih =>
    intro s bytes h
    rw [List.flatMap_cons, ← List.append_assoc]
    exact ih _ _ (h.onChunk note x)

/-- Two ways to split a list at an element. -/
theorem split_cases {α : Type} {pre post p q : List α} {x y : α} (h : pre ++ x :: post = p ++ y :: q) :
    (∃ r, pre = p ++ y :: r) ∨ (p = pre ∧ y = x ∧ q = post) ∨ ∃ r, p = pre ++ x :: r ∧ post = r ++ y :: q := by
  rcases List.append_eq_append_iff.1 h with ⟨r, rfl, e⟩ | ⟨r, rfl, e⟩
  · cases r with
    | nil =>
      simp only [List.nil_append, List.cons.injEq] at e
      exact .inr (.inl ⟨by simp, e.1.symm, e.2.symm⟩)
    | cons z r =>
      simp only [List.cons_append, List.cons.injEq] at e
      exact .inr (.inr ⟨r, by rw [e.1], e.2⟩)
  · cases r with
    | nil =>
      simp only [List.nil_append, List.cons.injEq] at e
      exact .inr (.inl ⟨by simp, e.1, e.2⟩)
    | cons z r =>
      simp only [List.cons_append, List.cons.injEq] at e
      exact .inl ⟨r, by rw [e.1]⟩

section WellBehaved

variable {prior : List Byte} {ok : Bool} {pre post : List Arrival}

/-- A run without a report is well behaved. -/
theorem well_behaved_of_silent (none : (printed note (.openFile prior ok) xs).count .allReceived = 0) :
    WellBehaved note prior ok xs where
  once := by omega
  written pre x post e reports := absurd reports (not_reports_of_count (e ▸ none))
  content pre x post e reports := absurd reports (not_reports_of_count (e ▸ none))
  final pre x mid post e reports := absurd reports (not_reports_of_count (e ▸ none))

variable (note prior) in
/-- The stream before the first last chunk, if nothing went wrong. -/
theorem streamAfter_plain (plain : ∀ y, y ∈ pre → Plain y) :
    streamAfter note (.openFile prior true) pre = ⟨true, false, false, pre.flatMap (·.event.data)⟩ :=
  (run_plain rfl rfl plain).1

variable (note prior) in
/-- The stream after a last chunk that was written. -/
theorem streamAfter_last (plain : ∀ y, y ∈ pre → Plain y) (last : x.event.last = true) (written : x.write = .ok) :
    streamAfter note (.openFile prior true) (pre ++ [x]) =
      ⟨false, !x.closes, false, (pre ++ [x]).flatMap (·.event.data)⟩ := by
  rw [streamAfter_append, streamAfter_plain note prior plain]
  cases closes : x.closes <;>
    simp [streamAfter, onChunkWith, OfStream.good, OfStream.write, OfStream.close, last, written, closes]

theorem WellBehaved.endsOnce (h : WellBehaved note prior ok xs) : EndsOnce ok xs := by
  rintro pre x post rfl rfl plain last
  have before := streamAfter_plain note prior plain
  have reports : Reports note (streamAfter note (.openFile prior true) pre) x := by
    rw [before]
    exact reports_iff.2 ⟨rfl, last⟩
  have written := (h.written pre x post rfl reports pre x [] rfl).outcome
  refine ⟨written, ?_⟩
  by_contra wrong
  obtain ⟨closes, again⟩ := not_or.1 wrong
  have after := streamAfter_last note prior plain last written
  rw [Bool.not_eq_false] at closes
  rw [closes] at after
  -- one report at `x`, and one behind it
  have second : (printed note (streamAfter note (.openFile prior true) (pre ++ [x])) post).count .allReceived ≠ 0 := by
    rw [after]
    exact fun none => again ((run_closed rfl rfl post).2.1 none)
  have first : 1 ≤ (printed note (streamAfter note (.openFile prior true) pre) [x]).count .allReceived := by
    rw [printed, List.count_append, count_onChunk, before, last]
    exact Nat.le_add_right 1 _
  have once := h.once
  rw [List.append_cons, printed_append, printed_append, List.count_append, List.count_append] at once
  omega

/-- The run of a receiver that is stopped at its first last chunk. -/
theorem well_behaved_of_ends (plain : ∀ y, y ∈ pre → Plain y) (last : x.event.last = true) (written : x.write = .ok)
    (ends : x.closes = false ∨ ∀ y, y ∈ (post.dropWhile quiet).head? → y.event.last = false) :
    WellBehaved note prior true (pre ++ x :: post) := by
  have before := streamAfter_plain note prior plain
  have after := streamAfter_last note prior plain last written
  -- behind the last chunk nothing is written, and nothing is reported
  have rest : (∀ mid, (streamAfter note (streamAfter note (.openFile prior true) (pre ++ [x])) mid).file =
      (pre ++ [x]).flatMap (·.event.data)) ∧
      (printed note (streamAfter note (.openFile prior true) (pre ++ [x])) post).count .allReceived = 0 := by
    rw [after]
    rcases ends with failed | quietly
    · rw [failed]
      exact ⟨fun mid => by rw [(run_failed rfl mid).1], (run_failed rfl post).2⟩
    · cases closes : x.closes with
      | false => exact ⟨fun mid => by rw [(run_failed rfl mid).1], (run_failed rfl post).2⟩
      | true => exact ⟨fun mid => (run_closed rfl rfl mid).1, (run_closed rfl rfl post).2.2 quietly⟩
  -- the only report is the one at `x`
  have only : ∀ p y q, pre ++ x :: post = p ++ y :: q → Reports note (streamAfter note (.openFile prior true) p) y →
      p = pre ∧ y = x ∧ q = post := by
    intro p y q e reports
    rcases split_cases e with ⟨r, rfl⟩ | same | ⟨r, rfl, rfl⟩
    · have notLast := (plain y (List.mem_append_right _ List.mem_cons_self)).1
      rw [(reports_iff.1 reports).2] at notLast
      cases notLast
    · exact same
    · rw [List.append_cons, streamAfter_append] at reports
      exact absurd reports (not_reports_of_count rest.2)
  refine ⟨?_, ?_, ?_, ?_⟩
  · rw [List.append_cons, printed_append, printed_append, List.count_append, List.count_append, rest.2,
      (run_plain rfl rfl plain).2, printed, List.count_append, count_onChunk]
    split <;> simp [printed]
  · intro p y q e reports p' y' q' e'
    obtain ⟨rfl, rfl, rfl⟩ := only p y q e reports
    rcases split_cases e' with ⟨r, rfl⟩ | ⟨rfl, rfl, -⟩ | ⟨r, -, e⟩
    · have front : ∀ z, z ∈ p' → Plain z := fun z hz => plain z (List.mem_append_left _ hz)
      have inside := streamAfter_plain note prior front
      rw [inside]
      exact ⟨rfl, rfl, (plain y' (List.mem_append_right _ List.mem_cons_self)).2⟩
    · rw [before]
      exact ⟨rfl, rfl, written⟩
    · simp at e
  · intro p y q e reports
    obtain ⟨rfl, rfl, rfl⟩ := only p y q e reports
    exact congrArg OfStream.file after
  · intro p y mid q e reports
    obtain ⟨rfl, rfl, -⟩ := only p y (mid ++ q) e reports
    rw [List.append_cons, streamAfter_append, rest.1 mid, after]

/-- **When the receiver is well behaved.** -/
theorem well_behaved_iff (note : ChunkEvent → Note) (prior : List Byte) (ok : Bool) (xs : List Arrival) :
    WellBehaved note prior ok xs ↔ EndsOnce ok xs := by
  refine ⟨WellBehaved.endsOnce, fun h => ?_⟩
  cases ok with
  | false => exact well_behaved_of_silent (run_failed rfl xs).2
  | true =>
    have plain : ∀ y, y ∈ xs.takeWhile (Plain ·) → Plain y := by
      intro y hy
      have := List.mem_takeWhile_imp (p := fun z => decide (Plain z)) hy
      exact of_decide_eq_true this
    have split := List.takeWhile_append_dropWhile (p := (Plain ·)) (l := xs)
    cases rest : xs.dropWhile (Plain ·) with
    | nil =>
      rw [rest, List.append_nil] at split
      rw [← split]
      exact well_behaved_of_silent (run_plain rfl rfl plain).2
    | cons x post =>
      have special : ¬ Plain x := by
        have := List.head?_dropWhile_not (Plain ·) xs
        simpa [rest] using this
      rw [rest] at split
      rw [← split] at h ⊢
      cases last : x.event.last with
      | true =>
        obtain ⟨written, ends⟩ := h _ x post rfl rfl plain last
        exact well_behaved_of_ends plain last written ends
      | false =>
        have failed : x.write ≠ .ok := fun written => special ⟨last, written⟩
        have before := streamAfter_plain note prior plain
        have after :
            (onChunkWith note (streamAfter note (.openFile prior true) (xs.takeWhile (Plain ·))) x).1.good = false := by
          rw [before]
          cases write : x.write <;> simp_all [onChunkWith, OfStream.good, OfStream.write]
        apply well_behaved_of_silent
        rw [printed_append, List.count_append, (run_plain rfl rfl plain).2, printed, List.count_append, count_onChunk,
          last, (run_failed after post).2, Bool.and_false]
        rfl

/-- A second last chunk is reported as well, though its file is closed and nothing else has failed. -/
theorem not_well_behaved_second_last :
    ¬ ∀ size prior ok xs, WellBehaved (downloadingNote size) prior ok xs := by
  intro safe
  have ends := (safe 1 [] true [delivered ⟨0, [1], true⟩, delivered ⟨0, [1], true⟩]).endsOnce
  have quietly := (ends [] _ [delivered ⟨0, [1], true⟩] rfl rfl nofun rfl).2
  exact absurd quietly (by decide)

end WellBehaved

end Runs

end OtaBridge.Transfer
