import OtaBridge.Apply.BootConfig

/-!
# The two windows of the boot-config edit

`updateExtlinuxRootPartlabel` finds both positions in the old text, and uses the second one in a text
that the first replacement has changed. It comes to the replacement of both windows at once, by their
positions in the old text (`edits_at_once`).
-/

namespace OtaBridge.Apply

open Logic.Substring

/-- The start of the window of slot `s` that position `k` lies in: the first entry of `s`, if any. -/
def windowAt (t : Text) (s : Slot) (k : Nat) : Option Nat :=
  (find s.rootArg t).filter fun i => i ≤ k ∧ k < i + rootArgs.size

/-- `t` with both windows overwritten by the argument of slot `s`, byte by byte. -/
def replaceBoth (t : Text) (s : Slot) : Text :=
  t.mapIdx fun k b =>
    match (windowAt t .A k).or (windowAt t .B k) with
    | some i => s.rootArg.getD (k - i) b
    | none => b

/-- The edit for slot `s` in terms of the old text. -/
structure EditsAtOnce (t : Text) (s : Slot) : Prop where
  /-- Entries of the two slots never overlap. -/
  apart : ∀ i j, At Slot.A.rootArg t i → At Slot.B.rootArg t j →
    i + rootArgs.size ≤ j ∨ j + rootArgs.size ≤ i
  /-- The second position still holds what was found there, wherever it lies. -/
  position : ∀ i j, find Slot.A.rootArg t = some i → find Slot.B.rootArg t = some j →
    At Slot.B.rootArg (replaceAt t i rootArgs.size s.rootArg) j
  throws : ∀ e, updateExtlinuxRootPartlabel t s.label = .error e ↔
    e = .noRootEntry ∧ find Slot.A.rootArg t = none ∧ find Slot.B.rootArg t = none
  edited : ∀ u, updateExtlinuxRootPartlabel t s.label = .ok u → u = replaceBoth t s
  length : ∀ u, updateExtlinuxRootPartlabel t s.label = .ok u → u.length = t.length
  outside : ∀ u, updateExtlinuxRootPartlabel t s.label = .ok u → ∀ k,
    windowAt t .A k = none → windowAt t .B k = none → u[k]? = t[k]?

section Windows

variable {t : Text} {s s' : Slot} {i j k : Nat}

theorem windowAt_eq_some : windowAt t s k = some i ↔
    find s.rootArg t = some i ∧ i ≤ k ∧ k < i + rootArgs.size := by
  rw [windowAt, Option.filter_eq_some_iff, decide_eq_true_eq]

theorem lt_of_window (here : windowAt t s k = some i) (s' : Slot) : k - i < s'.rootArg.length := by
  have size : s'.rootArg.length = rootArgs.size := rootArgs.length_word s'
  obtain ⟨-, le, lt⟩ := windowAt_eq_some.1 here
  omega

/-- What a window holds. -/
theorem getElem?_window (here : windowAt t s k = some i) : t[k]? = s.rootArg[k - i]? := by
  obtain ⟨found, le, lt⟩ := windowAt_eq_some.1 here
  have stands := at_iff_getElem?.1 (stands_of_find found) (k - i) (by rw [rootArgs.length_word]; omega)
  rwa [Nat.add_sub_cancel' le] at stands

/-- No position lies in both windows. -/
theorem windowAt_other (here : windowAt t s k = some i) : windowAt t s.other k = none := by
  cases other : windowAt t s.other k with
  | none => rfl
  | some j =>
    obtain ⟨found, le, lt⟩ := windowAt_eq_some.1 here
    obtain ⟨found', le', lt'⟩ := windowAt_eq_some.1 other
    have ne : j ≠ i := by
      rintro rfl
      exact s.other_ne (rootArgs.at_unique (stands_of_find found') (stands_of_find found))
    have clear := Code.clear (stands_of_find found) (stands_of_find found') ne
    omega

theorem getElem?_replaceFirst (t : Text) (s s' : Slot) (k : Nat) :
    (replaceFirst t s.rootArg s'.rootArg)[k]? =
      match windowAt t s k with
      | some i => s'.rootArg[k - i]?
      | none => t[k]? := by
  cases found : find s.rootArg t with
  | none =>
    rw [replaceFirst_of_not_names (find_rootArg_eq_none.1 found), windowAt, found]
    rfl
  | some i =>
    have size : s'.rootArg.length = rootArgs.size := rootArgs.length_word s'
    rw [replaceFirst_of_find found, getElem?_replaceAt (Code.at_length_le (stands_of_find found)) size]
    by_cases inside : i ≤ k ∧ k < i + rootArgs.size
    · rw [if_pos inside, windowAt_eq_some.2 ⟨found, inside⟩]
    · have none : windowAt t s k = none := by
        rw [windowAt, found]
        exact if_neg (by simpa using inside)
      rw [if_neg inside, none]

/-- The windows in either order. -/
theorem windowAt_or (t : Text) (s : Slot) (k : Nat) :
    (windowAt t .A k).or (windowAt t .B k) = (windowAt t s.other k).or (windowAt t s k) := by
  cases s with
  | B => rfl
  | A =>
    show _ = (windowAt t .B k).or (windowAt t .A k)
    cases here : windowAt t .A k with
    | none => simp
    | some i =>
      have none : windowAt t .B k = none := windowAt_other (s := .A) here
      rw [none]
      rfl

/-- Both windows at once are the window of the other slot. -/
theorem replaceBoth_eq (t : Text) (s : Slot) : replaceBoth t s = replaceFirst t s.other.rootArg s.rootArg := by
  apply List.ext_getElem?
  intro k
  rw [getElem?_replaceFirst, replaceBoth, List.getElem?_mapIdx, windowAt_or t s k]
  cases other : windowAt t s.other k with
  | some i =>
    have inside := lt_of_window other s
    rw [getElem?_window other, List.getElem?_eq_getElem (lt_of_window other s.other)]
    simp [inside]
  | none =>
    cases own : windowAt t s k with
    | some i =>
      -- this window is overwritten by what it holds
      have inside := lt_of_window own s
      have held := getElem?_window own
      rw [List.getElem?_eq_getElem inside] at held
      simp [held, inside]
    | none => simp

/-- **The edit replaces both first entries at once.** -/
theorem edits_at_once (t : Text) (s : Slot) : EditsAtOnce t s := by
  have result : ∀ u, updateExtlinuxRootPartlabel t s.label = .ok u → u = replaceFirst t s.other.rootArg s.rootArg :=
    fun u ok => (update_ok_iff.1 ok).2
  constructor
  · intro i j a b
    have ne : j ≠ i := by
      rintro rfl
      exact absurd (rootArgs.at_unique a b) (by decide)
    exact (Code.clear (c := rootArgs) a b ne).symm
  · intro i j a b
    have ne : j ≠ i := by
      rintro rfl
      exact absurd (rootArgs.at_unique (stands_of_find a) (stands_of_find b)) (by decide)
    exact (Code.at_replaceAt (stands_of_find a) s).2 (.inr ⟨ne, stands_of_find b⟩)
  · intro e
    rw [update_eq, find_rootArg_eq_none, find_rootArg_eq_none, ← not_or]
    split
    · next named => simp [named]
    · next no => simp [no, eq_comm]
  · intro u ok
    rw [result u ok, replaceBoth_eq]
  · intro u ok
    rw [result u ok, length_replaceFirst]
  · intro u ok k a b
    have none : windowAt t s.other k = none := by
      cases s with
      | A => exact b
      | B => exact a
    rw [result u ok, getElem?_replaceFirst, none]

end Windows

end OtaBridge.Apply
