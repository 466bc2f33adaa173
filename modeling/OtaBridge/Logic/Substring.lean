import Mathlib.Data.List.Infix
import Mathlib.Data.List.Nodup

/-!
# Occurrences of a pattern in a list

`At p t i` says that `p` stands in `t` at position `i`; `find` is the first such position and
`occurrences` their number. `replaceAt` overwrites a window. The rewriting lemmas need patterns
that cannot overlap (`Apart`); a `Code` packages a family of equally long patterns with that
property, and `Code.at_replaceAt` says which patterns stand where after one word of the family
has been overwritten by another.
-/

namespace Logic.Substring

variable {α : Type}

/-- The pattern `p` stands in `t` at position `i`. -/
def At (p t : List α) (i : Nat) : Prop := p <+: t.drop i

instance [DecidableEq α] (p t : List α) (i : Nat) : Decidable (At p t i) :=
  inferInstanceAs (Decidable (p <+: t.drop i))

/-- The first position of `p` in `t`. -/
def find [DecidableEq α] (p t : List α) : Option Nat :=
  (List.range (t.length + 1)).find? fun i => decide (At p t i)

/-- The number of positions of `p` in `t`. -/
def occurrences [DecidableEq α] (p t : List α) : Nat :=
  (List.range (t.length + 1)).countP fun i => decide (At p t i)

/-- `t` with the `n` elements from position `i` on replaced by `r`. -/
def replaceAt (t : List α) (i n : Nat) (r : List α) : List α :=
  t.take i ++ r ++ t.drop (i + n)

theorem at_iff_getElem? {p t : List α} {i : Nat} :
    At p t i ↔ ∀ k, k < p.length → t[i + k]? = p[k]? := by
  unfold At
  rw [List.prefix_iff_getElem?]
  constructor
  · intro h k hk
    rw [← List.getElem?_drop, h k hk, List.getElem?_eq_getElem hk]
  · intro h k hk
    rw [List.getElem?_drop, h k hk, List.getElem?_eq_getElem hk]

theorem At.length_le {p t : List α} {i : Nat} (h : At p t i) (hp : p ≠ []) :
    i + p.length ≤ t.length := by
  have len := List.IsPrefix.length_le h
  have pos := List.length_pos_iff.2 hp
  rw [List.length_drop] at len
  omega

theorem At.mem_range {p t : List α} {i : Nat} (h : At p t i) (hp : p ≠ []) :
    i ∈ List.range (t.length + 1) := by
  have := h.length_le hp
  exact List.mem_range.2 (by omega)

theorem At.eq_append {p t : List α} {i : Nat} (h : At p t i) :
    t = t.take i ++ p ++ t.drop (i + p.length) := by
  obtain ⟨post, e⟩ := h
  have tail : t.drop (i + p.length) = post := by
    rw [← List.drop_drop, ← e, List.drop_left]
  rw [tail, List.append_assoc, e, List.take_append_drop]

theorem at_append (pre p post : List α) : At p (pre ++ p ++ post) pre.length := by
  unfold At
  rw [List.append_assoc, List.drop_left]
  exact List.prefix_append p post

theorem At.append_right {p a : List α} {i : Nat} (h : At p a i) (hi : i ≤ a.length) (b : List α) :
    At p (a ++ b) i := by
  unfold At
  rw [List.drop_append_of_le_length hi]
  exact h.trans (List.prefix_append _ _)

theorem At.append_left {p b : List α} {i : Nat} (h : At p b i) (a : List α) : At p (a ++ b) (a.length + i) := by
  unfold At
  rwa [← List.drop_drop, List.drop_left]

/-- What stands in the front of a text stands in the text. -/
theorem At.of_take {p t : List α} {i n : Nat} (h : At p (t.take n) i) : At p t i := by
  unfold At at h ⊢
  rw [List.drop_take] at h
  exact h.trans (List.take_prefix _ _)

theorem exists_at_iff_infix {p t : List α} : (∃ i, At p t i) ↔ p <:+: t := by
  constructor
  · rintro ⟨i, h⟩
    exact h.isInfix.trans (List.drop_suffix i t).isInfix
  · rintro ⟨pre, post, rfl⟩
    exact ⟨pre.length, at_append pre p post⟩

section Find

variable [DecidableEq α] {p t : List α}

theorem find_eq_none (hp : p ≠ []) : find p t = none ↔ ∀ i, ¬ At p t i := by
  simp only [find, List.find?_eq_none, decide_eq_true_eq]
  exact ⟨fun none i h => none i (h.mem_range hp) h, fun none i _ => none i⟩

theorem find_eq_some (hp : p ≠ []) {i : Nat} :
    find p t = some i ↔ At p t i ∧ ∀ j, j < i → ¬ At p t j := by
  simp only [find, List.find?_range_eq_some, decide_eq_true_eq, Bool.not_eq_true', decide_eq_false_iff_not]
  exact ⟨fun ⟨h, _, first⟩ => ⟨h, first⟩, fun ⟨h, first⟩ => ⟨h, h.mem_range hp, first⟩⟩

/-- A pattern in front. -/
theorem find_eq_zero (hp : p ≠ []) : find p t = some 0 ↔ p <+: t := by
  rw [find_eq_some hp]
  exact ⟨fun h => h.1, fun h => ⟨h, fun _ lt => absurd lt (Nat.not_lt_zero _)⟩⟩

/-- A pattern that stands somewhere has a first position. -/
theorem exists_find (hp : p ≠ []) {i : Nat} (h : At p t i) :
    ∃ j, find p t = some j ∧ At p t j ∧ ∀ k, k < j → ¬ At p t k := by
  cases found : find p t with
  | none => exact absurd h ((find_eq_none hp).1 found i)
  | some j => exact ⟨j, rfl, (find_eq_some hp).1 found⟩

theorem find_isSome_iff (hp : p ≠ []) : (find p t).isSome ↔ ∃ i, At p t i := by
  rw [Option.isSome_iff_ne_none, ne_eq, find_eq_none hp, not_forall_not]

theorem occurrences_eq_zero (hp : p ≠ []) : occurrences p t = 0 ↔ ∀ i, ¬ At p t i := by
  simp only [occurrences, List.countP_eq_zero, decide_eq_true_eq]
  exact ⟨fun none i h => none i (h.mem_range hp) h, fun none i _ => none i⟩

theorem occurrences_eq_one (hp : p ≠ []) :
    occurrences p t = 1 ↔ ∃ i, At p t i ∧ ∀ j, At p t j → j = i := by
  have nodup : ((List.range (t.length + 1)).filter fun i => decide (At p t i)).Nodup :=
    List.nodup_range.filter _
  have mem : ∀ i, i ∈ (List.range (t.length + 1)).filter (fun i => decide (At p t i)) ↔ At p t i := by
    intro i
    simp only [List.mem_filter, decide_eq_true_eq]
    exact ⟨And.right, fun h => ⟨h.mem_range hp, h⟩⟩
  rw [occurrences, List.countP_eq_length_filter, List.length_eq_one_iff]
  constructor
  · rintro ⟨i, e⟩
    rw [e] at mem
    exact ⟨i, (mem i).1 (List.mem_singleton_self i), fun j h => List.mem_singleton.1 ((mem j).2 h)⟩
  · rintro ⟨i, h, only⟩
    refine ⟨i, List.perm_singleton.1 ((List.perm_ext_iff_of_nodup nodup (List.nodup_singleton i)).2 fun j => ?_)⟩
    rw [mem, List.mem_singleton]
    exact ⟨only j, fun e => e ▸ h⟩

end Find

section Replace

variable {t r : List α} {i n : Nat}

theorem length_replaceAt (h : i + n ≤ t.length) (hr : r.length = n) :
    (replaceAt t i n r).length = t.length := by
  simp only [replaceAt, List.length_append, List.length_take, List.length_drop]
  omega

theorem getElem?_replaceAt (h : i + n ≤ t.length) (hr : r.length = n) (k : Nat) :
    (replaceAt t i n r)[k]? = if i ≤ k ∧ k < i + n then r[k - i]? else t[k]? := by
  simp only [replaceAt, List.getElem?_append, List.length_append, List.length_take, List.getElem?_take,
    List.getElem?_drop]
  have front : min i t.length = i := by omega
  rw [front, hr]
  by_cases before : k < i
  · rw [if_pos (by omega), if_pos before, if_pos before, if_neg (by omega)]
  · by_cases inside : k < i + n
    · rw [if_pos inside, if_neg before, if_pos ⟨by omega, inside⟩]
    · rw [if_neg inside, if_neg (by omega)]
      congr 1
      omega

/-- A window that keeps clear of the overwritten one holds what it held. -/
theorem at_replaceAt_clear {q : List α} {j : Nat} (h : i + n ≤ t.length) (hr : r.length = n)
    (clear : j + q.length ≤ i ∨ i + n ≤ j) : At q (replaceAt t i n r) j ↔ At q t j := by
  simp only [at_iff_getElem?]
  refine forall₂_congr fun k hk => ?_
  rw [getElem?_replaceAt h hr, if_neg (by omega)]

/-- The overwritten window holds the replacement. -/
theorem at_replaceAt_self (h : i + n ≤ t.length) (hr : r.length = n) : At r (replaceAt t i n r) i := by
  rw [at_iff_getElem?]
  intro k hk
  rw [getElem?_replaceAt h hr, if_pos (by omega), Nat.add_sub_cancel_left]

/-- Overwriting a window with what it holds changes nothing. -/
theorem replaceAt_self (h : At r t i) : replaceAt t i r.length r = t := h.eq_append.symm

/-- Overwriting a window twice keeps the second replacement only. -/
theorem replaceAt_replaceAt (h : i + n ≤ t.length) (hr : r.length = n) (q : List α) :
    replaceAt (replaceAt t i n r) i n q = replaceAt t i n q := by
  have front : (t.take i).length = i := by rw [List.length_take]; omega
  have take : (replaceAt t i n r).take i = t.take i := by
    rw [replaceAt, List.append_assoc, List.take_left' front]
  have drop : (replaceAt t i n r).drop (i + n) = t.drop (i + n) := by
    rw [replaceAt, List.drop_left' (by rw [List.length_append, front, hr])]
  simp only [replaceAt] at take drop ⊢
  rw [take, drop]

end Replace

/-- No proper overlap: an occurrence of `q` never starts strictly inside one of `p`. -/
def Apart (p q : List α) : Prop := ∀ d, d < p.length → 0 < d → ¬ (p.drop d <+: q ∨ q <+: p.drop d)

instance [DecidableEq α] (p q : List α) : Decidable (Apart p q) :=
  inferInstanceAs (Decidable (∀ d, d < p.length → 0 < d → ¬ (p.drop d <+: q ∨ q <+: p.drop d)))

theorem Apart.not_inside {p q t : List α} {i j : Nat} (apart : Apart p q) (hp : At p t i) (hq : At q t j)
    (after : i < j) : i + p.length ≤ j := by
  by_contra inside
  have tail : p.drop (j - i) <+: t.drop j := by
    have := hp.drop (j - i)
    rwa [List.drop_drop, Nat.add_sub_cancel' (Nat.le_of_lt after)] at this
  exact apart (j - i) (by omega) (by omega) (List.prefix_or_prefix_of_prefix tail hq)

/-- A family of equally long patterns that never overlap each other. -/
structure Code (ι α : Type) where
  word : ι → List α
  size : Nat
  size_pos : 0 < size
  length_word : ∀ s, (word s).length = size
  apart : ∀ s s', Apart (word s) (word s')
  injective : ∀ s s', word s = word s' → s = s'

namespace Code

variable {ι : Type} (c : Code ι α) {t : List α} {s s' : ι} {i j : Nat}

theorem word_ne_nil (s : ι) : c.word s ≠ [] := by
  have := c.length_word s
  have := c.size_pos
  exact List.ne_nil_of_length_pos (by omega)

variable {c}

theorem at_length_le (h : At (c.word s) t i) : i + c.size ≤ t.length := by
  have := h.length_le (c.word_ne_nil s)
  rwa [c.length_word] at this

theorem at_unique (h : At (c.word s) t i) (h' : At (c.word s') t i) : s = s' := by
  apply c.injective
  have len : (c.word s).length = (c.word s').length := by rw [c.length_word, c.length_word]
  exact (List.prefix_of_prefix_length_le h h' (Nat.le_of_eq len)).eq_of_length len

theorem clear (h : At (c.word s) t i) (h' : At (c.word s') t j) (ne : j ≠ i) :
    j + c.size ≤ i ∨ i + c.size ≤ j := by
  have left := (c.apart s s').not_inside h h'
  have right := (c.apart s' s).not_inside h' h
  rw [c.length_word] at left right
  omega

/-- After one word has been overwritten by another, the family stands where it stood before,
the overwritten window excepted. -/
theorem at_replaceAt (h : At (c.word s) t i) (r : ι) :
    At (c.word s') (replaceAt t i c.size (c.word r)) j ↔ (j = i ∧ s' = r) ∨ (j ≠ i ∧ At (c.word s') t j) := by
  have room := at_length_le h
  have self := at_replaceAt_self room (c.length_word r)
  constructor
  · intro h'
    by_cases e : j = i
    · subst e
      exact .inl ⟨rfl, (at_unique self h').symm⟩
    · have away := clear self h' e
      rw [at_replaceAt_clear room (c.length_word r) (by rwa [c.length_word])] at h'
      exact .inr ⟨e, h'⟩
  · rintro (⟨rfl, rfl⟩ | ⟨ne, h'⟩)
    · exact self
    · have away := clear h h' ne
      rwa [at_replaceAt_clear room (c.length_word r) (by rwa [c.length_word])]

/-- The only word of the family in `t` is `s`, and it stands at `i` only. -/
structure Sole (c : Code ι α) (t : List α) (s : ι) (i : Nat) : Prop where
  stands : At (c.word s) t i
  only : ∀ s' j, At (c.word s') t j → s' = s ∧ j = i

theorem Sole.replaceAt (h : Sole c t s i) (r : ι) : Sole c (replaceAt t i c.size (c.word r)) r i where
  stands := (at_replaceAt h.stands r).2 (.inl ⟨rfl, rfl⟩)
  only := by
    intro s' j h'
    rcases (at_replaceAt h.stands r).1 h' with ⟨e, e'⟩ | ⟨ne, old⟩
    · exact ⟨e', e⟩
    · exact absurd (h.only s' j old).2 ne

end Code

end Logic.Substring
