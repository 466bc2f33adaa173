import Mathlib.Data.List.SplitBy
import OtaBridge.Logic.Substring

/-!
# Words between separators

`pieces sep t` cuts `t` into its maximal runs of separators and of other elements; the runs of
the second kind are the `words`. `mapWords` rewrites each word and keeps every separator.
A word is located by what stands around it: `Delimited sep pre w post` says that `w` is a word
of `pre ++ w ++ post`, and `mapWords_append` rewrites the three parts on their own.
-/

namespace Logic.Words

open Logic.Substring

variable {α : Type} {sep : α → Bool}

/-- The maximal runs of separators and of non-separators. -/
def pieces (sep : α → Bool) (t : List α) : List (List α) :=
  t.splitBy fun a b => sep a == sep b

/-- The maximal runs of non-separators. -/
def words (sep : α → Bool) (t : List α) : List (List α) :=
  (pieces sep t).filter fun w => !w.any sep

/-- Every word `w` replaced by `f w`, every separator kept. -/
def mapWords (sep : α → Bool) (f : List α → List α) (t : List α) : List α :=
  (pieces sep t).flatMap fun w => if w.any sep then w else f w

/-- `w` is a word of `pre ++ w ++ post`. -/
structure Delimited (sep : α → Bool) (pre w post : List α) : Prop where
  nonempty : w ≠ []
  solid : ∀ x, x ∈ w → sep x = false
  before : ∀ x, x ∈ pre.getLast? → sep x = true
  after : ∀ x, x ∈ post.head? → sep x = true

@[simp] theorem flatten_pieces (t : List α) : (pieces sep t).flatten = t :=
  List.flatten_splitBy _ t

theorem mem_words {t w : List α} : w ∈ words sep t ↔ w ∈ pieces sep t ∧ ∀ x, x ∈ w → sep x = false := by
  simp [words]

theorem ne_nil_of_mem_words {t w : List α} (h : w ∈ words sep t) : w ≠ [] :=
  List.ne_nil_of_mem_splitBy (mem_words.1 h).1

theorem infix_of_mem_words {t w : List α} (h : w ∈ words sep t) : w <:+: t := by
  have inside := List.infix_of_mem_flatten (mem_words.1 h).1
  rwa [flatten_pieces] at inside

/-- A word stands between separators. -/
theorem delimited_of_mem_words {t w : List α} (h : w ∈ words sep t) :
    ∃ pre post, t = pre ++ w ++ post ∧ Delimited sep pre w post := by
  obtain ⟨mem, solid⟩ := mem_words.1 h
  have full := ne_nil_of_mem_words h
  have chain := List.isChain_getLast_head_splitBy (fun a b => sep a == sep b) t
  have none := List.nil_notMem_splitBy (fun a b => sep a == sep b) t
  have flat : (pieces sep t).flatten = t := flatten_pieces t
  change w ∈ t.splitBy _ at mem
  rw [pieces] at flat
  obtain ⟨front, back, e⟩ := List.append_of_mem mem
  rw [e] at chain none flat
  obtain ⟨-, chainBack, joint⟩ := List.isChain_append.1 chain
  refine ⟨front.flatten, back.flatten, by rw [← flat]; simp, full, solid, ?_, ?_⟩
  · -- the piece before the word ends in an element of the other kind
    rcases List.eq_nil_or_concat front with rfl | ⟨front, p, rfl⟩
    · intro x hx; cases hx
    · intro x hx
      obtain ⟨hp, hw, differ⟩ := joint p (by simp) w (by simp)
      have last : x = p.getLast hp := by
        rw [List.concat_eq_append, List.flatten_append, List.flatten_singleton,
          List.getLast?_append_of_ne_nil _ hp, List.getLast?_eq_some_getLast hp] at hx
        exact (Option.some.inj hx).symm
      have head := solid _ (List.head_mem hw)
      rw [last]
      simpa [head] using differ
  · cases back with
    | nil => intro x hx; cases hx
    | cons q back =>
      intro x hx
      obtain ⟨hw, hq, differ⟩ := (List.isChain_cons_cons.1 chainBack).1
      have first : x = q.head hq := by
        rw [List.flatten_cons, List.head?_append_of_ne_nil _ hq, List.head?_eq_some_head hq] at hx
        exact (Option.some.inj hx).symm
      have tail := solid _ (List.getLast_mem hw)
      rw [first]
      simpa [tail] using differ

theorem Delimited.pieces_append {pre w post : List α} (h : Delimited sep pre w post) :
    pieces sep (pre ++ w ++ post) = pieces sep pre ++ w :: pieces sep post := by
  have alone : pieces sep w = [w] := by
    refine List.splitBy_of_isChain h.nonempty (List.isChain_iff_getElem.2 fun i hi => ?_)
    rw [h.solid _ (List.getElem_mem _), h.solid _ (List.getElem_mem _)]
    rfl
  have left : ∀ x ∈ pre.getLast?, ∀ y ∈ w.head?, (sep x == sep y) = false := by
    intro x hx y hy
    rw [h.before x hx, h.solid y (List.mem_of_mem_head? hy)]
    rfl
  have right : ∀ x ∈ (pre ++ w).getLast?, ∀ y ∈ post.head?, (sep x == sep y) = false := by
    intro x hx y hy
    rw [List.getLast?_append_of_ne_nil _ h.nonempty] at hx
    rw [h.after y hy, h.solid x (List.mem_of_mem_getLast? hx)]
    rfl
  rw [pieces, List.splitBy_append right, List.splitBy_append left]
  show pieces sep pre ++ pieces sep w ++ pieces sep post = _
  rw [alone, List.append_assoc, List.singleton_append]

theorem Delimited.mem_words {pre w post : List α} (h : Delimited sep pre w post) :
    w ∈ words sep (pre ++ w ++ post) := by
  rw [Words.mem_words, h.pieces_append]
  exact ⟨by simp, h.solid⟩

theorem Delimited.mapWords_append {pre w post : List α} (h : Delimited sep pre w post)
    (f : List α → List α) :
    mapWords sep f (pre ++ w ++ post) = mapWords sep f pre ++ f w ++ mapWords sep f post := by
  have solid : w.any sep = false := by
    rw [List.any_eq_false]
    intro x hx
    rw [h.solid x hx]
    exact Bool.false_ne_true
  rw [mapWords, h.pieces_append, List.flatMap_append, List.flatMap_cons, solid, if_neg Bool.false_ne_true,
    List.append_assoc]
  rfl

/-- A rewriting that keeps every word keeps the text. -/
theorem mapWords_eq_self {t : List α} {f : List α → List α} (h : ∀ w, w ∈ words sep t → f w = w) :
    mapWords sep f t = t := by
  have keep : ∀ w, w ∈ pieces sep t → (if w.any sep then w else f w) = w := by
    intro w hw
    split
    · rfl
    · next solid =>
      refine h w (List.mem_filter.2 ⟨hw, ?_⟩)
      simpa using solid
  rw [mapWords, List.flatMap_congr keep, List.flatMap_id', flatten_pieces]

/-- `w` is a word of `t`, standing at position `i`. -/
structure WordAt (sep : α → Bool) (w t : List α) (i : Nat) : Prop where
  stands : At w t i
  delimited : Delimited sep (t.take i) w (t.drop (i + w.length))

theorem mem_words_iff_wordAt {t w : List α} : w ∈ words sep t ↔ ∃ i, WordAt sep w t i := by
  constructor
  · intro h
    obtain ⟨pre, post, rfl, d⟩ := delimited_of_mem_words h
    refine ⟨pre.length, at_append pre w post, ?_⟩
    rwa [List.append_assoc, List.take_left, ← List.append_assoc,
      List.drop_left' (by rw [List.length_append])]
  · rintro ⟨i, stands, d⟩
    rw [stands.eq_append]
    exact d.mem_words

end Logic.Words
