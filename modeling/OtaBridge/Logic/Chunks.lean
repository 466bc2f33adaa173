import Mathlib.Data.List.Basic

/-!
# Cutting a list into pieces of one size

`chunk k l i` is the `i`-th piece of `k` elements of `l`, and `chunks k l` are all pieces that are
not empty; only the last one can be shorter than `k`. The pieces before the `i`-th make up the
first `i * k` elements (`flatten_take_chunks`).
-/

namespace Logic.Chunks

variable {α : Type} {k : Nat} {l : List α} {i : Nat}

def chunk (k : Nat) (l : List α) (i : Nat) : List α := (l.drop (i * k)).take k

/-- How many pieces of `k` elements `n` elements make. -/
def chunkCount (k n : Nat) : Nat := (n + k - 1) / k

def chunks (k : Nat) (l : List α) : List (List α) := (List.range (chunkCount k l.length)).map (chunk k l)

theorem lt_chunkCount (hk : 0 < k) {n : Nat} : i < chunkCount k n ↔ i * k < n := by
  rw [chunkCount, Nat.lt_div_iff_mul_lt hk]
  omega

@[simp] theorem length_chunks : (chunks k l).length = chunkCount k l.length := by
  simp [chunks]

@[simp] theorem chunks_nil : chunks k ([] : List α) = [] := by
  apply List.length_eq_zero_iff.1
  rw [length_chunks, chunkCount, List.length_nil]
  exact Nat.div_eq_zero_iff.2 (by omega)

theorem getElem?_chunks (hk : 0 < k) :
    (chunks k l)[i]? = if i * k < l.length then some (chunk k l i) else none := by
  rw [chunks, List.getElem?_map]
  split
  · next inside => rw [List.getElem?_range ((lt_chunkCount hk).2 inside)]; rfl
  · next outside =>
    rw [List.getElem?_eq_none, Option.map_none]
    rw [List.length_range]
    exact Nat.not_lt.1 fun lt => outside ((lt_chunkCount hk).1 lt)

theorem length_chunk : (chunk k l i).length = min k (l.length - i * k) := by
  rw [chunk, List.length_take, List.length_drop]

theorem chunk_drop : chunk k (l.drop k) i = chunk k l (i + 1) := by
  rw [chunk, chunk, List.drop_drop, Nat.add_mul, Nat.one_mul, Nat.add_comm]

/-- Cutting off the first piece. -/
theorem chunks_eq_cons (hk : 0 < k) (h : l ≠ []) : chunks k l = l.take k :: chunks k (l.drop k) := by
  have pos := List.length_pos_iff.2 h
  have count : chunkCount k l.length = chunkCount k (l.drop k).length + 1 := by
    have front : l.length + k - 1 = (l.length - 1) + k := by omega
    rw [chunkCount, chunkCount, List.length_drop, front, Nat.add_div_right _ hk]
    congr 1
    by_cases long : k ≤ l.length
    · congr 1
      omega
    · rw [Nat.div_eq_of_lt (by omega), Nat.div_eq_of_lt (by omega)]
  rw [chunks, count, List.range_succ_eq_map, List.map_cons, List.map_map, chunks]
  refine congrArg₂ _ (by simp [chunk]) (List.map_congr_left fun i _ => ?_)
  exact chunk_drop.symm

/-- The pieces before the `i`-th. -/
theorem flatten_take_chunks (hk : 0 < k) (i : Nat) : ((chunks k l).take i).flatten = l.take (i * k) := by
  induction i with
  | zero => simp
  | succ i ih =>
    rw [List.take_add_one, List.flatten_append, ih, getElem?_chunks hk]
    split
    · rw [Nat.add_mul, Nat.one_mul, List.take_add]
      simp [chunk]
    · next outside =>
      rw [List.take_of_length_le (by omega), List.take_of_length_le (by rw [Nat.add_mul]; omega)]
      simp

theorem flatten_chunks (hk : 0 < k) (l : List α) : (chunks k l).flatten = l := by
  have all : l.length ≤ chunkCount k l.length * k :=
    Nat.not_lt.1 fun more => absurd ((lt_chunkCount hk).2 more) (Nat.lt_irrefl _)
  rw [← List.take_of_length_le (l := chunks k l) (Nat.le_of_eq length_chunks), flatten_take_chunks hk,
    List.take_of_length_le all]

/-- Pieces of one size can be told from what they make up. -/
theorem eq_of_flatten (hk : 0 < k) {a b : List (List α)} (ha : ∀ p, p ∈ a → p.length = k)
    (hb : ∀ p, p ∈ b → p.length = k) (h : a.flatten = b.flatten) : a = b := by
  induction a generalizing b with
  | nil =>
    cases b with
    | nil => rfl
    | cons q b =>
      have size := hb q List.mem_cons_self
      have none := congrArg List.length h
      simp only [List.flatten_nil, List.length_nil, List.flatten_cons, List.length_append] at none
      omega
  | cons p a ih =>
    have size := ha p List.mem_cons_self
    cases b with
    | nil =>
      have none := congrArg List.length h
      simp only [List.flatten_nil, List.length_nil, List.flatten_cons, List.length_append] at none
      omega
    | cons q b =>
      obtain ⟨rfl, rest⟩ := List.append_inj h (size.trans (hb q List.mem_cons_self).symm)
      rw [ih (fun r mem => ha r (List.mem_cons_of_mem _ mem)) (fun r mem => hb r (List.mem_cons_of_mem _ mem)) rest]

/-- A piece that is shorter than the others is the last one. -/
theorem eq_last_of_short (hk : 0 < k) (inside : i * k < l.length) (short : (chunk k l i).length < k) :
    i + 1 = chunkCount k l.length ∧ l.length % k ≠ 0 := by
  rw [length_chunk] at short
  have next : ¬ (i + 1) * k < l.length := by
    rw [Nat.add_mul]
    omega
  have lt := (lt_chunkCount hk).2 inside
  have ge := Nat.not_lt.1 fun more => next ((lt_chunkCount hk).1 more)
  refine ⟨by omega, fun whole => ?_⟩
  obtain ⟨q, e⟩ := Nat.dvd_of_mod_eq_zero whole
  rw [e, Nat.mul_comm k q] at inside short
  have lt := Nat.lt_of_mul_lt_mul_right inside
  have le := Nat.mul_le_mul_right k (Nat.succ_le_of_lt lt)
  rw [Nat.succ_mul] at le
  omega

/-- A length that is no multiple makes a short piece. -/
theorem short_last (hk : 0 < k) (h : l.length % k ≠ 0) :
    (l.length / k) * k < l.length ∧ (chunk k l (l.length / k)).length < k := by
  have split := Nat.div_add_mod l.length k
  have lt := Nat.mod_lt l.length hk
  rw [Nat.mul_comm] at split
  refine ⟨by omega, ?_⟩
  rw [length_chunk]
  omega

end Logic.Chunks
