import OtaBridge.Transfer.Sender

/-!
# The end-of-transfer marker

`sendChunks` takes a short read for the end of the file, so it marks a chunk exactly if it was handed
a number of bytes that is no multiple of `CHUNK_SIZE`. The marker tells the end of the file where this
coincides with having reached it (`marked_iff`): never for an image of full chunks that is read to its
end, and not after a read error inside a chunk if the bytes before it are handed over.
-/

namespace OtaBridge.Transfer

/-- The image was opened, and the events carry all of it. -/
def SentWhole (image : List Byte) (r : FileRead) (events : List ChunkEvent) : Prop :=
  r.opens = true ∧ events.flatMap (·.data) = image

/-- The marker tells the end of the transfer. -/
structure Marked (image : List Byte) (r : FileRead) (events : List ChunkEvent) : Prop where
  marked : (∃ e, e ∈ events ∧ e.last = true) ↔ SentWhole image r events
  unique : events.countP (·.last) ≤ 1
  final : ∀ pre e post, events = pre ++ e :: post → e.last = true → post = []
  /-- Nothing for an empty image. -/
  carries : ∀ e, e ∈ events → e.last = true → e.data.getLast? = image.getLast?
  completes : SentWhole image r events → ∀ note prior,
    .allReceived ∈ printed note (.openFile prior true) (events.map delivered) ∧
      (streamAfter note (.openFile prior true) (events.map delivered)).isOpen = false
  waits : ¬ SentWhole image r events → ∀ note prior ok xs, xs.map (·.event) = events →
    .allReceived ∉ printed note (.openFile prior ok) xs ∧ (streamAfter note (.openFile prior ok) xs).isOpen = ok

/-- Where the marker can tell the end: the image is no sequence of full chunks, or it is cut by a read error
that leaves only full chunks. -/
structure Tellable (image : List Byte) (r : FileRead) : Prop where
  whole : r.opens = true → (∀ n, r.failsAt = some n → image.length ≤ n) → image.length % CHUNK_SIZE ≠ 0
  cut : r.opens = true → ∀ n, r.failsAt = some n → n < image.length → r.salvages = true → n % CHUNK_SIZE = 0

section Receivers

variable {note : ChunkEvent → Note} {prior : List Byte} {xs : List Arrival}

variable (note) in
/-- Without a marker a receiver goes on waiting, whatever its file operations come to. -/
theorem run_unmarked (s : OfStream) (unmarked : ∀ x, x ∈ xs → x.event.last = false) :
    (printed note s xs).count .allReceived = 0 ∧ (streamAfter note s xs).isOpen = s.isOpen := by
  induction xs generalizing s with
  | nil => exact ⟨rfl, rfl⟩
  | cons x xs ih =>
    have notLast := unmarked x List.mem_cons_self
    obtain ⟨none, still⟩ := ih (onChunkWith note s x).1 fun y hy => unmarked y (List.mem_cons_of_mem _ hy)
    have step : (onChunkWith note s x).1.isOpen = s.isOpen := by
      unfold onChunkWith
      rw [notLast]
      cases s.good
      · rfl
      · cases x.write <;> simp only [OfStream.write, Bool.not_true, Bool.false_eq_true, ↓reduceIte] <;> split <;> rfl
    refine ⟨?_, still.trans step⟩
    rw [printed, List.count_append, count_onChunk, notLast, none, Bool.and_false]
    rfl

/-- A marker at the end makes a receiver report, and close its file. -/
theorem run_marked {pre : List ChunkEvent} {e : ChunkEvent} (unmarked : ∀ d, d ∈ pre → d.last = false)
    (last : e.last = true) :
    .allReceived ∈ printed note (.openFile prior true) ((pre ++ [e]).map delivered) ∧
      (streamAfter note (.openFile prior true) ((pre ++ [e]).map delivered)).isOpen = false := by
  have plain : ∀ y, y ∈ pre.map delivered → Plain y :=
    List.forall_mem_map.2 fun d inside => ⟨unmarked d inside, rfl⟩
  rw [List.map_append, List.map_singleton]
  constructor
  · rw [printed_append, streamAfter_plain note prior plain]
    exact List.mem_append_right _ (List.mem_append_left _ (reports_iff.2 ⟨rfl, last⟩))
  · rw [streamAfter_last note prior plain last rfl]

end Receivers

section Marker

variable {image : List Byte} {r : FileRead}

theorem startTransfer_regular : (startTransfer (.regular image) r).2 = sendChunks CHUNK_SIZE r image := rfl

/-- What was sent, by what the read handed over. -/
theorem sentWhole_iff : SentWhole image r (sendChunks CHUNK_SIZE r image) ↔
    r.opens = true ∧ r.handed CHUNK_SIZE image = image := by
  rw [SentWhole, flatMap_sendChunks CHUNK_SIZE_pos]

theorem Marked.agrees (h : Marked image r (startTransfer (.regular image) r).2) :
    (r.handed CHUNK_SIZE image).length % CHUNK_SIZE ≠ 0 ↔ r.opens = true ∧ r.handed CHUNK_SIZE image = image := by
  rw [← sentWhole_iff, ← startTransfer_regular, ← h.marked]
  exact (exists_last_iff CHUNK_SIZE_pos).symm

/-- The marker and the end of the file agree. -/
theorem agrees_iff_tellable : ((r.handed CHUNK_SIZE image).length % CHUNK_SIZE ≠ 0 ↔
    r.opens = true ∧ r.handed CHUNK_SIZE image = image) ↔ Tellable image r := by
  by_cases opens : r.opens = true
  · rw [and_iff_right opens]
    by_cases early : ∃ n, r.failsAt = some n ∧ n < image.length
    · obtain ⟨n, fails, before⟩ := early
      obtain ⟨part, multiple⟩ := multiple_of_cut CHUNK_SIZE opens fails before
      constructor
      · intro agrees
        refine ⟨fun _ late => absurd (late n fails) (Nat.not_le.2 before), fun _ m fails' _ => ?_⟩
        obtain rfl := Option.some.inj (fails.symm.trans fails')
        exact multiple.1 (not_not.1 (mt agrees.1 part))
      · intro tellable
        exact ⟨fun rest => absurd (multiple.2 (tellable.cut opens n fails before)) rest, fun all => absurd all part⟩
    · have late : ∀ n, r.failsAt = some n → image.length ≤ n := fun n fails =>
        Nat.le_of_not_lt fun before => early ⟨n, fails, before⟩
      rw [agrees_of_late CHUNK_SIZE opens late]
      exact ⟨fun rest => ⟨fun _ _ => rest, fun _ n fails before => absurd (late n fails) (Nat.not_le.2 before)⟩,
        fun tellable => tellable.whole opens late⟩
  · -- nothing is sent, and that is not the whole image
    have none : r.handed CHUNK_SIZE image = [] := if_neg opens
    rw [none]
    exact ⟨fun _ => ⟨fun yes => absurd yes opens, fun yes => absurd yes opens⟩,
      fun _ => ⟨fun rest => absurd (Nat.zero_mod _) rest, fun yes => absurd yes.1 opens⟩⟩

theorem unique_last : (sendChunks CHUNK_SIZE r image).countP (·.last) ≤ 1 := by
  by_cases some : ∃ e, e ∈ sendChunks CHUNK_SIZE r image ∧ e.last = true
  · obtain ⟨e, mem, last⟩ := some
    obtain ⟨pre, split, front⟩ := split_of_last CHUNK_SIZE_pos mem last
    have none : pre.countP (·.last) = 0 := List.countP_eq_zero.2 fun d inside => by simp [front d inside]
    rw [split, List.countP_append, none, List.countP_singleton, last]
    decide
  · rw [List.countP_eq_zero.2 fun e mem last => some ⟨e, mem, last⟩]
    exact Nat.zero_le 1

/-- **When the marker tells the end of the transfer.** -/
theorem marked_iff (image : List Byte) (r : FileRead) :
    Marked image r (startTransfer (.regular image) r).2 ↔ Tellable image r := by
  refine ⟨fun h => agrees_iff_tellable.1 h.agrees, fun tellable => ?_⟩
  rw [startTransfer_regular]
  have marked : (∃ e, e ∈ sendChunks CHUNK_SIZE r image ∧ e.last = true) ↔
      SentWhole image r (sendChunks CHUNK_SIZE r image) :=
    (exists_last_iff CHUNK_SIZE_pos).trans ((agrees_iff_tellable.2 tellable).trans sentWhole_iff.symm)
  refine ⟨marked, unique_last, fun _ _ _ split last => (final_of_last CHUNK_SIZE_pos split last).1, ?_, ?_, ?_⟩
  · intro e mem last
    obtain ⟨pre, split, -⟩ := split_of_last CHUNK_SIZE_pos mem last
    have whole := (marked.1 ⟨e, mem, last⟩).2
    rw [← whole, split, List.flatMap_append, List.flatMap_singleton,
      List.getLast?_append_of_ne_nil _ (data_ne_nil CHUNK_SIZE_pos split)]
  · intro whole note prior
    obtain ⟨e, mem, last⟩ := marked.2 whole
    obtain ⟨pre, split, front⟩ := split_of_last CHUNK_SIZE_pos mem last
    rw [split]
    exact run_marked front last
  · intro partly note prior ok xs events
    have unmarked : ∀ x, x ∈ xs → x.event.last = false := by
      intro x mem
      rw [← Bool.not_eq_true]
      intro last
      refine partly (marked.1 ⟨x.event, ?_, last⟩)
      rw [← events]
      exact List.mem_map_of_mem mem
    obtain ⟨none, still⟩ := run_unmarked note (.openFile prior ok) unmarked
    refine ⟨List.count_eq_zero.1 none, still.trans ?_⟩
    cases ok <;> rfl

/-- An image of one full chunk is sent without a marker. -/
theorem not_marked_full_chunk : ¬ ∀ image r, Marked image r (startTransfer (.regular image) r).2 := by
  intro always
  have tellable := agrees_iff_tellable.1 (always (List.replicate CHUNK_SIZE 0) {}).agrees
  refine tellable.whole rfl (fun n fails => by cases fails) ?_
  rw [List.length_replicate, Nat.mod_self]

end Marker

end OtaBridge.Transfer
