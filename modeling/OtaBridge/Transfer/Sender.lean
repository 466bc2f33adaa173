import OtaBridge.Logic.Chunks
import OtaBridge.Transfer.Receiver
import OtaBridge.Transfer.Update

/-!
# The sender of a file

`startTransfer` and `sendChunks` of the servers. The loop reads `CHUNK_SIZE` bytes at a time from a
stream that is no longer good after a short read, and takes a short read for the end of the file. A read
error makes a short read too, with or without the bytes before it (`FileRead.salvages`).
`sendLoop_eq` gives the events in closed form: the pieces of what the stream hands over, numbered.
-/

namespace OtaBridge.Transfer

open Logic.Chunks

/-- `std::ifstream`, with what is there before the end of the file or a read error. -/
structure InStream where
  rest : List Byte
  good : Bool
  /-- The `read` that comes to the end of `rest` hands over nothing. -/
  drops : Bool

/-- `file.read(buffer, k)`: the `gcount()` bytes. -/
def InStream.read (s : InStream) (k : Nat) : List Byte × InStream :=
  if s.good then
    if k ≤ s.rest.length then (s.rest.take k, { s with rest := s.rest.drop k })
    else (if s.drops then [] else s.rest, { s with rest := [], good := false })
  else ([], s)

theorem InStream.read_shorter {s : InStream} {k : Nat} (h : (s.read k).1 ≠ []) :
    (s.read k).2.rest.length < s.rest.length := by
  unfold read at h ⊢
  split at h
  · next good =>
    rw [if_pos good]
    split at h
    · next full =>
      have pos := List.length_pos_iff.2 h
      rw [if_pos full, List.length_drop]
      rw [List.length_take] at pos
      omega
    · next short =>
      rw [if_neg short]
      refine List.length_pos_iff.2 fun empty => h ?_
      rw [empty, ite_self]
  · exact absurd rfl h

/-- How the image is read: whether it opens, and at which offset a read fails. The `filebuf` of libstdc++ throws
then, so `gcount()` is 0; other libraries may hand over the bytes of the chunk that they have got (`salvages`). -/
structure FileRead where
  opens : Bool := true
  failsAt : Option Nat := none
  salvages : Bool := false
  deriving DecidableEq, Repr

/-- The image is there up to the offset where a read fails, if that is not behind its end. -/
def FileRead.stream (r : FileRead) (image : List Byte) : InStream :=
  match r.failsAt with
  | some n => if n ≤ image.length then ⟨image.take n, true, !r.salvages⟩ else ⟨image, true, false⟩
  | none => ⟨image, true, false⟩

/-- What reads of `k` bytes hand over: a stream that drops hands over full chunks only. -/
def InStream.handed (s : InStream) (k : Nat) : List Byte :=
  if s.drops then s.rest.take (s.rest.length / k * k) else s.rest

def FileRead.handed (r : FileRead) (k : Nat) (image : List Byte) : List Byte :=
  if r.opens then (r.stream image).handed k else []

theorem FileRead.stream_good (r : FileRead) (image : List Byte) : (r.stream image).good = true := by
  unfold stream
  split
  · split <;> rfl
  · rfl

theorem FileRead.handed_front (r : FileRead) (k : Nat) (image : List Byte) : r.handed k image <+: image := by
  have rest : (r.stream image).rest <+: image := by
    unfold stream
    split
    · split
      · exact List.take_prefix _ _
      · exact List.prefix_rfl
    · exact List.prefix_rfl
  unfold handed InStream.handed
  split
  · split
    · exact (List.take_prefix _ _).trans rest
    · exact rest
  · exact List.nil_prefix

/-- A read error before the end cuts the image. -/
theorem handed_cut {r : FileRead} {image : List Byte} {n : Nat} (k : Nat) (opens : r.opens = true)
    (fails : r.failsAt = some n) (before : n < image.length) :
    r.handed k image = image.take (if r.salvages then n else n / k * k) := by
  have front : (image.take n).length = n := List.length_take_of_le (Nat.le_of_lt before)
  rw [FileRead.handed, if_pos opens, FileRead.stream, fails]
  simp only [Nat.le_of_lt before, ↓reduceIte, InStream.handed, front, List.take_take,
    Nat.min_eq_left (Nat.div_mul_le_self n k)]
  cases r.salvages <;> rfl

/-- Otherwise it is handed over to its end, but for what an error in the place of the end makes the library drop. -/
theorem handed_whole {r : FileRead} {image : List Byte} (k : Nat) (opens : r.opens = true)
    (late : ∀ n, r.failsAt = some n → image.length ≤ n) :
    r.handed k image = image ∨ r.handed k image = image.take (image.length / k * k) := by
  rw [FileRead.handed, if_pos opens, FileRead.stream]
  split
  · next n fails =>
    split
    · next le =>
      rw [List.take_of_length_le (late n fails)]
      cases r.salvages with
      | true => exact .inl rfl
      | false => exact .inr rfl
    · exact .inl rfl
  · exact .inl rfl

theorem length_take_full {image : List Byte} {n : Nat} (k : Nat) (le : n ≤ image.length) :
    (image.take (n / k * k)).length = n / k * k :=
  List.length_take_of_le ((Nat.div_mul_le_self n k).trans le)

/-- What is cut is not whole, and it ends with a full chunk if the library drops the rest or there is none. -/
theorem multiple_of_cut {r : FileRead} {image : List Byte} {n : Nat} (k : Nat) (opens : r.opens = true)
    (fails : r.failsAt = some n) (before : n < image.length) :
    r.handed k image ≠ image ∧ ((r.handed k image).length % k = 0 ↔ (r.salvages = true → n % k = 0)) := by
  have less : n / k * k ≤ n := Nat.div_mul_le_self n k
  have le := Nat.le_of_lt before
  rw [handed_cut k opens fails before]
  cases r.salvages with
  | true =>
    simp only [↓reduceIte, forall_const, List.length_take_of_le le, and_true, ne_eq, List.take_eq_self_iff]
    omega
  | false =>
    simp only [Bool.false_eq_true, ↓reduceIte, false_imp_iff, length_take_full k le, Nat.mul_mod_left, and_true,
      ne_eq, List.take_eq_self_iff]
    omega

/-- What is read to its end is handed over with a short chunk at its end, if it has one and nothing is dropped. -/
theorem agrees_of_late {r : FileRead} {image : List Byte} (k : Nat) (opens : r.opens = true)
    (late : ∀ n, r.failsAt = some n → image.length ≤ n) :
    ((r.handed k image).length % k ≠ 0 ↔ r.handed k image = image) ↔ image.length % k ≠ 0 := by
  rcases handed_whole k opens late with all | chunks
  · simp [all]
  · have le := Nat.mod_le image.length k
    have all : r.handed k image = image ↔ image.length % k = 0 := by
      rw [chunks, List.take_eq_self_iff, Nat.div_mul_self_eq_mod_sub_self]
      omega
    have multiple : (r.handed k image).length % k = 0 := by
      rw [chunks, length_take_full k le_rfl, Nat.mul_mod_left]
    simp only [multiple, all, ne_eq, not_true_eq_false, false_iff]

section Streams

variable {l : List Byte} {drops : Bool} {k : Nat}

theorem read_full (full : k ≤ l.length) :
    InStream.read ⟨l, true, drops⟩ k = (l.take k, ⟨l.drop k, true, drops⟩) := by
  simp only [InStream.read, ↓reduceIte, full]

theorem read_short (short : l.length < k) :
    InStream.read ⟨l, true, drops⟩ k = (if drops then [] else l, ⟨[], false, drops⟩) := by
  simp only [InStream.read, ↓reduceIte, Nat.not_le.2 short]

/-- A full chunk is handed over in any case. -/
theorem handed_full (hk : 0 < k) (full : k ≤ l.length) :
    InStream.handed ⟨l, true, drops⟩ k = l.take k ++ InStream.handed ⟨l.drop k, true, drops⟩ k := by
  unfold InStream.handed
  cases drops with
  | false => exact (List.take_append_drop k l).symm
  | true =>
    have count : l.length / k * k = k + (l.drop k).length / k * k := by
      rw [List.length_drop, Nat.div_eq_sub_div hk full, Nat.add_mul, Nat.one_mul, Nat.add_comm]
    show l.take (l.length / k * k) = l.take k ++ (l.drop k).take ((l.drop k).length / k * k)
    rw [count, List.take_add]

theorem handed_short (short : l.length < k) : InStream.handed ⟨l, true, drops⟩ k = if drops then [] else l := by
  have count : l.length / k * k = 0 := by rw [Nat.div_eq_of_lt short, Nat.zero_mul]
  show (if drops then l.take (l.length / k * k) else l) = _
  rw [count, List.take_zero]

end Streams

/-- The `while` loop of `sendChunks`: the events fired. -/
def sendLoop (k : Nat) (file : InStream) (chunkIndex : UInt32) : List ChunkEvent :=
  let bytes := (file.read k).1
  if h : bytes = [] then []
  else ⟨chunkIndex, bytes, bytes.length < k⟩ :: sendLoop k (file.read k).2 (chunkIndex + 1)
termination_by file.rest.length
decreasing_by exact InStream.read_shorter h

def sendChunks (k : Nat) (r : FileRead) (image : List Byte) : List ChunkEvent :=
  if r.opens then sendLoop k (r.stream image) 0 else []

/-- The reply of `startTransfer`, and the events of the thread it starts. -/
def startTransfer (image : ImageFile) (r : FileRead) : Bool × List ChunkEvent :=
  match image with
  | .regular bytes => (true, sendChunks CHUNK_SIZE r bytes)
  | _ => (false, [])

/-! ## The events in closed form -/

/-- The event for the piece `c`. -/
def chunkEvent (k : Nat) (index : UInt32) (c : List Byte) : ChunkEvent := ⟨index, c, c.length < k⟩

theorem sendLoop_eq {k : Nat} (hk : 0 < k) (s : InStream) (good : s.good = true) (i : UInt32) :
    sendLoop k s i = (chunks k (s.handed k)).mapIdx fun j c => chunkEvent k (i + UInt32.ofNat j) c := by
  obtain ⟨l, _, drops⟩ := s
  obtain rfl := good
  induction n : l.length using Nat.strong_induction_on generalizing l i with
  | _ n ih =>
    rw [sendLoop]
    by_cases full : k ≤ l.length
    · have front : (l.take k).length = k := List.length_take_of_le full
      have some : l.take k ≠ [] := List.ne_nil_of_length_pos (by omega)
      have more : l.take k ++ InStream.handed ⟨l.drop k, true, drops⟩ k ≠ [] := List.append_ne_nil_of_left_ne_nil some _
      simp only [read_full full, some, ↓reduceDIte]
      rw [handed_full hk full, chunks_eq_cons hk more, List.mapIdx_cons, List.take_left' front, List.drop_left' front,
        ih _ (by rw [List.length_drop]; omega) (i + 1) (l.drop k) rfl]
      refine congrArg₂ _ (by simp [chunkEvent]) ?_
      refine congrArg (List.mapIdx · _) (funext₂ fun j c => ?_)
      rw [UInt32.ofNat_add, UInt32.add_assoc, UInt32.add_comm (1 : UInt32)]
      rfl
    · have short := Nat.lt_of_not_le full
      simp only [read_short short]
      rw [handed_short short]
      have less : (if drops then [] else l).length < k := by
        split
        · exact hk
        · exact short
      generalize (if drops then [] else l) = bytes at less ⊢
      by_cases empty : bytes = []
      · rw [dif_pos empty, empty, chunks_nil, List.mapIdx_nil]
      · -- after a short read the stream hands over nothing more
        have after : InStream.read ⟨[], false, drops⟩ k = ([], ⟨[], false, drops⟩) := rfl
        rw [dif_neg empty, chunks_eq_cons hk empty, List.drop_of_length_le (Nat.le_of_lt less), chunks_nil,
          List.take_of_length_le (Nat.le_of_lt less), sendLoop]
        simp [after, chunkEvent]

/-- The events of `sendChunks`. -/
theorem sendChunks_eq {k : Nat} (hk : 0 < k) (r : FileRead) (image : List Byte) :
    sendChunks k r image = (chunks k (r.handed k image)).mapIdx fun j c => chunkEvent k (UInt32.ofNat j) c := by
  unfold sendChunks
  split
  · next opens =>
    rw [sendLoop_eq hk _ (r.stream_good image), FileRead.handed, if_pos opens]
    simp
  · next closed => rw [FileRead.handed, if_neg closed, chunks_nil, List.mapIdx_nil]

section Events

variable {k : Nat} {r : FileRead} {image : List Byte} {pre post : List ChunkEvent} {e : ChunkEvent}

theorem flatMap_sendChunks (hk : 0 < k) : (sendChunks k r image).flatMap (·.data) = r.handed k image := by
  have datas : (sendChunks k r image).map (·.data) = chunks k (r.handed k image) := by
    refine List.ext_getElem? fun i => ?_
    rw [sendChunks_eq hk, List.getElem?_map, List.getElem?_mapIdx]
    cases (chunks k (r.handed k image))[i]? <;> rfl
  rw [List.flatMap_def, datas, flatten_chunks hk]

variable (r image) in
theorem getElem?_sendChunks (hk : 0 < k) (i : Nat) :
    (sendChunks k r image)[i]? = if i * k < (r.handed k image).length
      then some (chunkEvent k (UInt32.ofNat i) (chunk k (r.handed k image) i)) else none := by
  rw [sendChunks_eq hk, List.getElem?_mapIdx, getElem?_chunks hk]
  split <;> rfl

/-- Where an event stands in the run of the loop. -/
theorem event_at (hk : 0 < k) (split : sendChunks k r image = pre ++ e :: post) :
    pre.length * k < (r.handed k image).length ∧ e.data = chunk k (r.handed k image) pre.length ∧
      e.last = decide (e.data.length < k) := by
  have here : (sendChunks k r image)[pre.length]? = some e := by
    rw [split]
    simp
  rw [getElem?_sendChunks r image hk] at here
  split at here
  · next inside =>
    obtain rfl := Option.some.inj here
    exact ⟨inside, rfl, rfl⟩
  · cases here

/-- An event starts inside the image. -/
theorem index_lt (hk : 0 < k) (mem : e ∈ sendChunks k r image) : e.index.toNat * k < image.length := by
  obtain ⟨i, here⟩ := List.mem_iff_getElem?.1 mem
  rw [getElem?_sendChunks r image hk] at here
  split at here
  · next inside =>
    obtain rfl := Option.some.inj here
    have index : (UInt32.ofNat i).toNat ≤ i := by
      rw [UInt32.toNat_ofNat']
      exact Nat.mod_le _ _
    calc (UInt32.ofNat i).toNat * k ≤ i * k := Nat.mul_le_mul_right k index
      _ < (r.handed k image).length := inside
      _ ≤ image.length := (r.handed_front k image).length_le
  · cases here

/-- Only the final event is marked, and only if the length is no multiple of `k`. -/
theorem final_of_last (hk : 0 < k) (split : sendChunks k r image = pre ++ e :: post) (last : e.last = true) :
    post = [] ∧ (r.handed k image).length % k ≠ 0 := by
  obtain ⟨inside, data, mark⟩ := event_at hk split
  rw [last, data] at mark
  obtain ⟨count, rest⟩ := eq_last_of_short hk inside (of_decide_eq_true mark.symm)
  refine ⟨List.length_eq_zero_iff.1 ?_, rest⟩
  have length : (sendChunks k r image).length = chunkCount k (r.handed k image).length := by
    rw [sendChunks_eq hk, List.length_mapIdx, length_chunks]
  rw [split, List.length_append, List.length_cons] at length
  omega

/-- A marked event has only unmarked ones before it. -/
theorem split_of_last (hk : 0 < k) (mem : e ∈ sendChunks k r image) (last : e.last = true) :
    ∃ pre, sendChunks k r image = pre ++ [e] ∧ ∀ d, d ∈ pre → d.last = false := by
  obtain ⟨pre, post, split⟩ := List.append_of_mem mem
  obtain rfl := (final_of_last hk split last).1
  refine ⟨pre, split, fun d inside => ?_⟩
  rw [← Bool.not_eq_true]
  intro earlier
  obtain ⟨p, q, rfl⟩ := List.append_of_mem inside
  rw [List.append_assoc, List.cons_append] at split
  exact List.append_ne_nil_of_right_ne_nil _ (by simp) (final_of_last hk split earlier).1

/-- The loop marks an event exactly if the length is no multiple of `k`. -/
theorem exists_last_iff (hk : 0 < k) :
    (∃ e, e ∈ sendChunks k r image ∧ e.last = true) ↔ (r.handed k image).length % k ≠ 0 := by
  refine ⟨?_, fun rest => ?_⟩
  · rintro ⟨e, mem, last⟩
    obtain ⟨pre, post, split⟩ := List.append_of_mem mem
    exact (final_of_last hk split last).2
  · obtain ⟨inside, short⟩ := short_last hk rest
    have here := getElem?_sendChunks r image hk ((r.handed k image).length / k)
    rw [if_pos inside] at here
    exact ⟨_, List.mem_of_getElem? here, decide_eq_true short⟩

/-- An unmarked event carries a full piece. -/
theorem full_of_unmarked (hk : 0 < k) (mem : e ∈ sendChunks k r image) (unmarked : e.last = false) :
    e.data.length = k := by
  obtain ⟨pre, post, split⟩ := List.append_of_mem mem
  obtain ⟨-, data, mark⟩ := event_at hk split
  have full : ¬ e.data.length < k := by
    rw [unmarked] at mark
    exact of_decide_eq_false mark.symm
  rw [data, length_chunk] at full ⊢
  omega

theorem data_ne_nil (hk : 0 < k) (split : sendChunks k r image = pre ++ e :: post) : e.data ≠ [] := by
  obtain ⟨inside, data, -⟩ := event_at hk split
  rw [data]
  apply List.ne_nil_of_length_pos
  rw [length_chunk]
  omega

end Events

end OtaBridge.Transfer
