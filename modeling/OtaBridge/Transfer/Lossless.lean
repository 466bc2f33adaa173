import Mathlib.Algebra.Order.Floor.Div
import OtaBridge.Transfer.Sender

/-!
# Sending and receiving a whole image

The loop of `sendChunks` once more, with the buffer that every read goes to: a short read leaves the
bytes of the read before behind it, and `data` takes only the front. An image that is read without an
error comes out as numbered pieces that a receiver puts together again (`lossless`), as long as the
counter of 32 bits can number them.
-/

namespace OtaBridge.Transfer

open Logic.Chunks

/-- The buffer after `bytes` were read to its front. -/
def readTo (buffer bytes : List Byte) : List Byte := bytes ++ buffer.drop bytes.length

/-- `sendLoop` with the buffer. -/
def sendLoopFrom (k : Nat) (buffer : List Byte) (file : InStream) (chunkIndex : UInt32) : List ChunkEvent :=
  let bytesRead := (file.read k).1.length
  if h : bytesRead = 0 then []
  else
    let buffer := readTo buffer (file.read k).1
    ⟨chunkIndex, buffer.take bytesRead, bytesRead < k⟩ :: sendLoopFrom k buffer (file.read k).2 (chunkIndex + 1)
termination_by file.rest.length
decreasing_by exact InStream.read_shorter fun empty => h (List.length_eq_zero_iff.2 empty)

def sendChunksBuffered (k : Nat) (r : FileRead) (image : List Byte) : List ChunkEvent :=
  if r.opens then sendLoopFrom k (List.replicate k 0) (r.stream image) 0 else []

/-- What a short read leaves in the buffer is not sent. -/
theorem sendLoopFrom_eq (k : Nat) (buffer : List Byte) (file : InStream) (chunkIndex : UInt32) :
    sendLoopFrom k buffer file chunkIndex = sendLoop k file chunkIndex := by
  fun_induction sendLoop k file chunkIndex generalizing buffer with
  | case1 file chunkIndex bytes empty =>
    rw [sendLoopFrom, dif_pos (List.length_eq_zero_iff.2 empty)]
  | case2 file chunkIndex bytes some ih =>
    have front : (readTo buffer bytes).take bytes.length = bytes := List.take_left
    rw [sendLoopFrom, dif_neg (mt List.length_eq_zero_iff.1 some)]
    show ⟨_, (readTo buffer bytes).take bytes.length, _⟩ :: sendLoopFrom k _ _ _ = _
    rw [front, ih]

theorem sendChunksBuffered_eq (k : Nat) (r : FileRead) (image : List Byte) :
    sendChunksBuffered k r image = sendChunks k r image := by
  rw [sendChunksBuffered, sendLoopFrom_eq]
  rfl

/-- The events number and carry the image, and receivers write it. -/
structure Lossless (k : Nat) (image : List Byte) (events : List ChunkEvent) : Prop where
  count : events.length = image.length ⌈/⌉ k
  index : ∀ (i : Nat) (e : ChunkEvent), events[i]? = some e → e.index.toNat = i
  payload : ∀ e, e ∈ events → e.data ≠ [] ∧ e.data.length ≤ k
  full : ∀ pre e post, events = pre ++ e :: post → post ≠ [] → e.data.length = k
  unmarked : ∀ pre e post, events = pre ++ e :: post → post ≠ [] → e.last = false
  /-- Whether or not the file of the receiver closes. -/
  written : ∀ note prior xs, xs.map (·.event) = events → (∀ x, x ∈ xs → x.write = .ok) →
    (streamAfter note (.openFile prior true) xs).file = image

section Lossless

variable {k : Nat} {image : List Byte}

/-- A receiver of events of which only the final one may be marked writes all of them. -/
theorem file_of_final {note : ChunkEvent → Note} {prior : List Byte} {xs : List Arrival}
    (final : ∀ pre x post, xs = pre ++ x :: post → post ≠ [] → x.event.last = false)
    (written : ∀ x, x ∈ xs → x.write = .ok) :
    (streamAfter note (.openFile prior true) xs).file = xs.flatMap (·.event.data) := by
  rcases List.eq_nil_or_concat xs with rfl | ⟨pre, x, rfl⟩
  · rfl
  rw [List.concat_eq_append] at final written ⊢
  have plain : ∀ y, y ∈ pre → Plain y := by
    intro y mem
    refine ⟨?_, written y (List.mem_append_left _ mem)⟩
    obtain ⟨p, q, rfl⟩ := List.append_of_mem mem
    exact final p y (q ++ [x]) (by simp) (by simp)
  have outcome := written x (List.mem_append_right _ List.mem_cons_self)
  cases last : x.event.last with
  | true => rw [streamAfter_last note prior plain last outcome]
  | false =>
    have all : ∀ y, y ∈ pre ++ [x] → Plain y := by
      intro y mem
      rcases List.mem_append.1 mem with front | here
      · exact plain y front
      · obtain rfl := List.mem_singleton.1 here
        exact ⟨last, outcome⟩
    rw [streamAfter_plain note prior all]

/-- The `i`-th event, of an image that 32 bits can number the pieces of. -/
theorem index_of_short (hk : 0 < k) (short : image.length < k * UInt32.size) {i : Nat} {e : ChunkEvent}
    (here : (sendChunks k {} image)[i]? = some e) : e.index.toNat = i := by
  rw [getElem?_sendChunks {} image hk] at here
  split at here
  · next inside =>
    obtain rfl := Option.some.inj here
    have below : i * k < UInt32.size * k := by
      calc i * k < image.length := inside
        _ < k * UInt32.size := short
        _ = UInt32.size * k := Nat.mul_comm _ _
    exact UInt32.toNat_ofNat_of_lt' (Nat.lt_of_mul_lt_mul_right below)
  · cases here

/-- **Nothing is lost between sender and receiver.** -/
theorem lossless (k : Nat) (image : List Byte) (hk : 0 < k) (short : image.length < k * UInt32.size) :
    Lossless k image (sendChunksBuffered k {} image) := by
  rw [sendChunksBuffered_eq]
  have unmarked : ∀ pre e post, sendChunks k {} image = pre ++ e :: post → post ≠ [] → e.last = false := by
    intro pre e post split more
    rw [← Bool.not_eq_true]
    intro last
    exact more (final_of_last hk split last).1
  refine ⟨?_, fun i e => index_of_short hk short, ?_, ?_, unmarked, ?_⟩
  · rw [sendChunks_eq hk, List.length_mapIdx, length_chunks]
    rfl
  · intro e mem
    obtain ⟨pre, post, split⟩ := List.append_of_mem mem
    refine ⟨data_ne_nil hk split, ?_⟩
    rw [(event_at hk split).2.1, length_chunk]
    exact Nat.min_le_left _ _
  · intro pre e post split more
    have mem : e ∈ sendChunks k {} image := split ▸ List.mem_append_right _ List.mem_cons_self
    exact full_of_unmarked hk mem (unmarked pre e post split more)
  · intro note prior xs events written
    have final : ∀ pre x post, xs = pre ++ x :: post → post ≠ [] → x.event.last = false := by
      intro pre x post split more
      rw [split, List.map_append, List.map_cons] at events
      exact unmarked _ _ _ events.symm (mt List.map_eq_nil_iff.1 more)
    calc (streamAfter note (.openFile prior true) xs).file = xs.flatMap (·.event.data) := file_of_final final written
      _ = (xs.map (·.event)).flatMap (·.data) := by rw [List.flatMap_map]
      _ = image := by rw [events, flatMap_sendChunks hk]; rfl

/-- Five bytes in pieces of two. -/
theorem lossless_five : Lossless 2 [1, 2, 3, 4, 5] (sendChunksBuffered 2 {} [1, 2, 3, 4, 5]) :=
  lossless 2 [1, 2, 3, 4, 5] (by decide) (by decide)

end Lossless

end OtaBridge.Transfer
