import OtaBridge.Apply.Error
import OtaBridge.Apply.Slots

/-!
# The boot-config edit

`updateExtlinuxRootPartlabel` looks up the first occurrence of each label argument in the old
text and overwrites both. The two patterns and the replacement are equally long, and the
patterns never overlap, so the second position is still right after the first replacement; one
of the two replacements writes what is already there (`update_eq`).
-/

namespace OtaBridge.Apply

open Logic.Substring

def updateExtlinuxRootPartlabel (extlinux newLabel : Text) : Except Error Text :=
  let out := extlinux
  let a := ascii "root=PARTLABEL=rootfsA"
  let b := ascii "root=PARTLABEL=rootfsB"
  let posA := find a out
  let posB := find b out
  if posA = none ∧ posB = none then .error .noRootEntry
  else
    let repl := ascii "root=PARTLABEL=" ++ newLabel
    let out := match posA with
      | some i => replaceAt out i a.length repl
      | none => out
    let out := match posB with
      | some i => replaceAt out i b.length repl
      | none => out
    .ok out

/-- The first occurrence of `pattern` in `t`, if any, overwritten by `repl`. -/
def replaceFirst (t pattern repl : Text) : Text :=
  match find pattern t with
  | some i => replaceAt t i pattern.length repl
  | none => t

/-- `t` names slot `s` somewhere. -/
def Names (t : Text) (s : Slot) : Prop := ∃ i, At s.rootArg t i

instance (t : Text) (s : Slot) : Decidable (Names t s) :=
  decidable_of_iff _ (find_isSome_iff (rootArg_ne_nil s))

theorem names_cases {t : Text} (s : Slot) : Names t .A ∨ Names t .B ↔ Names t s ∨ Names t s.other := by
  cases s
  · exact Iff.rfl
  · exact Or.comm

theorem find_rootArg_eq_none {t : Text} {s : Slot} : find s.rootArg t = none ↔ ¬ Names t s := by
  rw [find_eq_none (rootArg_ne_nil s), Names, not_exists]

theorem stands_of_find {t : Text} {s : Slot} {i : Nat} (found : find s.rootArg t = some i) :
    At (rootArgs.word s) t i :=
  ((find_eq_some (rootArg_ne_nil s)).1 found).1

theorem replaceFirst_of_find {t : Text} {s : Slot} {i : Nat} (found : find s.rootArg t = some i) (r : Text) :
    replaceFirst t s.rootArg r = replaceAt t i rootArgs.size r := by
  rw [replaceFirst, found]
  exact congrArg (replaceAt t i · r) (rootArgs.length_word s)

theorem replaceFirst_of_not_names {t : Text} {s : Slot} (no : ¬ Names t s) (r : Text) :
    replaceFirst t s.rootArg r = t := by
  rw [replaceFirst, find_rootArg_eq_none.2 no]

/-- Overwriting an entry with itself changes nothing. -/
theorem replaceAt_rootArg {t : Text} {s : Slot} {i : Nat} (h : At (rootArgs.word s) t i) :
    replaceAt t i rootArgs.size s.rootArg = t := by
  rw [← rootArgs.length_word s]
  exact replaceAt_self h

theorem replaceFirst_self (t : Text) (s : Slot) : replaceFirst t s.rootArg s.rootArg = t := by
  cases found : find s.rootArg t with
  | none => exact replaceFirst_of_not_names (find_rootArg_eq_none.1 found) _
  | some i => rw [replaceFirst_of_find found, replaceAt_rootArg (stands_of_find found)]

/-- Overwriting the first entry of one slot leaves the entries of the other where they are. -/
theorem at_replaceFirst {t : Text} {s s' : Slot} {i : Nat} (ne : s' ≠ s) (h : At s'.rootArg t i)
    (r : Slot) : At s'.rootArg (replaceFirst t s.rootArg r.rootArg) i := by
  cases found : find s.rootArg t with
  | none => rwa [replaceFirst_of_not_names (find_rootArg_eq_none.1 found)]
  | some j =>
    have stands := stands_of_find found
    rw [replaceFirst_of_find found]
    refine (Code.at_replaceAt (c := rootArgs) stands r).2 (.inr ⟨?_, h⟩)
    rintro rfl
    exact ne (rootArgs.at_unique h stands)

/-- The edit, for the label of a slot: the other slot's first entry becomes this slot's. -/
theorem update_eq (t : Text) (s : Slot) :
    updateExtlinuxRootPartlabel t s.label =
      if Names t .A ∨ Names t .B then .ok (replaceFirst t s.other.rootArg s.rootArg)
      else .error .noRootEntry := by
  have unnamed : (find Slot.A.rootArg t = none ∧ find Slot.B.rootArg t = none) ↔
      ¬ (Names t .A ∨ Names t .B) := by
    rw [not_or, find_rootArg_eq_none, find_rootArg_eq_none]
  show (if find Slot.A.rootArg t = none ∧ find Slot.B.rootArg t = none then _
    else Except.ok (match find Slot.B.rootArg t with
      | some i => replaceAt (replaceFirst t Slot.A.rootArg s.rootArg) i 22 s.rootArg
      | none => replaceFirst t Slot.A.rootArg s.rootArg)) = _
  simp only [unnamed, ite_not]
  congr 2
  cases s with
  | A =>
    rw [replaceFirst_self]
    rfl
  | B =>
    -- the second replacement writes what the window already holds
    cases found : find Slot.B.rootArg t with
    | none => rfl
    | some i => exact replaceAt_self (at_replaceFirst (by decide) (stands_of_find found) .B)

theorem update_ok_iff {t : Text} {s : Slot} {u : Text} :
    updateExtlinuxRootPartlabel t s.label = .ok u ↔
      (Names t .A ∨ Names t .B) ∧ u = replaceFirst t s.other.rootArg s.rootArg := by
  rw [update_eq]
  split
  · next named => simp [named, eq_comm]
  · next no => simp [no]

theorem update_of_names {t : Text} (s : Slot) (h : Names t .A ∨ Names t .B) :
    updateExtlinuxRootPartlabel t s.label = .ok (replaceFirst t s.other.rootArg s.rootArg) :=
  update_ok_iff.2 ⟨h, rfl⟩

theorem length_replaceFirst (t : Text) (s s' : Slot) :
    (replaceFirst t s.rootArg s'.rootArg).length = t.length := by
  cases found : find s.rootArg t with
  | none => rw [replaceFirst_of_not_names (find_rootArg_eq_none.1 found)]
  | some i =>
    rw [replaceFirst_of_find found]
    exact length_replaceAt (Code.at_length_le (stands_of_find found)) (rootArgs.length_word s')

/-- Where a slot is named, writing the other slot over its first entry changes the text. -/
theorem replaceFirst_ne {t : Text} {s s' : Slot} (h : Names t s) (ne : s' ≠ s) :
    replaceFirst t s.rootArg s'.rootArg ≠ t := by
  obtain ⟨i, h⟩ := h
  obtain ⟨j, found, stands, -⟩ := exists_find (rootArg_ne_nil _) h
  intro same
  have new : At (rootArgs.word s') (replaceFirst t s.rootArg s'.rootArg) j := by
    rw [replaceFirst_of_find found]
    exact (Code.at_replaceAt (c := rootArgs) stands s').2 (.inl ⟨rfl, rfl⟩)
  rw [same] at new
  exact ne (rootArgs.at_unique new stands)

/-- The edited text names the slot it was edited for. -/
theorem names_replaceFirst {t : Text} {s : Slot} (h : Names t .A ∨ Names t .B) :
    Names (replaceFirst t s.other.rootArg s.rootArg) s := by
  cases found : find s.other.rootArg t with
  | none =>
    have no := find_rootArg_eq_none.1 found
    rw [replaceFirst_of_not_names no]
    cases s
    · exact h.resolve_right no
    · exact h.resolve_left no
  | some i =>
    rw [replaceFirst_of_find found]
    exact ⟨i, (Code.at_replaceAt (c := rootArgs) (stands_of_find found) s).2 (.inl ⟨rfl, rfl⟩)⟩

/-! ## A config with a single entry -/

/-- The text has one entry in all, and it names slot `s`. -/
def Configured (t : Text) (s : Slot) : Prop := ∃ i, Code.Sole rootArgs t s i

theorem configured_iff {t : Text} {s : Slot} :
    Configured t s ↔ occurrences s.rootArg t = 1 ∧ occurrences s.other.rootArg t = 0 := by
  rw [occurrences_eq_one (rootArg_ne_nil s), occurrences_eq_zero (rootArg_ne_nil _)]
  constructor
  · rintro ⟨i, sole⟩
    exact ⟨⟨i, sole.stands, fun j h => (sole.only s j h).2⟩, fun j h => s.other_ne (sole.only _ j h).1⟩
  · rintro ⟨⟨i, stands, only⟩, no⟩
    refine ⟨i, stands, fun s' j h => ?_⟩
    by_cases e : s' = s
    · subst e
      exact ⟨rfl, only j h⟩
    · rw [Slot.eq_other_of_ne e] at h
      exact absurd h (no j)

instance (t : Text) (s : Slot) : Decidable (Configured t s) := decidable_of_iff _ configured_iff.symm

theorem occurrences_add_eq_one {t : Text} :
    occurrences Slot.A.rootArg t + occurrences Slot.B.rootArg t = 1 ↔ ∃ s, Configured t s := by
  constructor
  · intro one
    by_cases a : occurrences Slot.A.rootArg t = 1
    · exact ⟨.A, configured_iff.2 ⟨a, by change occurrences Slot.B.rootArg t = 0; omega⟩⟩
    · exact ⟨.B, configured_iff.2 ⟨by omega, by change occurrences Slot.A.rootArg t = 0; omega⟩⟩
  · rintro ⟨s, h⟩
    obtain ⟨one, none⟩ := configured_iff.1 h
    cases s
    · change occurrences Slot.B.rootArg t = 0 at none
      omega
    · change occurrences Slot.A.rootArg t = 0 at none
      omega

theorem Configured.names {t : Text} {s : Slot} (h : Configured t s) : Names t s :=
  h.imp fun _ sole => sole.stands

theorem Configured.eq_of_names {t : Text} {s s' : Slot} (h : Configured t s) (named : Names t s') :
    s' = s := by
  obtain ⟨i, sole⟩ := h
  obtain ⟨j, h'⟩ := named
  exact (sole.only s' j h').1

theorem find_of_sole {t : Text} {s : Slot} {i : Nat} (h : Code.Sole rootArgs t s i) :
    find s.rootArg t = some i := by
  obtain ⟨j, found, stands, -⟩ := exists_find (rootArg_ne_nil s) h.stands
  rw [found, (h.only s j stands).2]

/-- The edit for the other slot moves the single entry to that slot, in place. -/
theorem update_of_sole {t : Text} {s : Slot} {i : Nat} (h : Code.Sole rootArgs t s i) :
    updateExtlinuxRootPartlabel t s.other.label = .ok (replaceAt t i rootArgs.size s.other.rootArg) := by
  have named : Names t .A ∨ Names t .B := by
    cases s
    · exact .inl ⟨i, h.stands⟩
    · exact .inr ⟨i, h.stands⟩
  rw [update_eq, if_pos named, Slot.other_other, replaceFirst_of_find (find_of_sole h)]

/-- The edit of a front part of a config with a single entry is a config with a single entry. -/
theorem Configured.update {t u : Text} {s : Slot} {n : Nat} (h : Configured t s)
    (edited : updateExtlinuxRootPartlabel (t.take n) s.other.label = .ok u) : Configured u s.other := by
  have named : ∀ s', Names (t.take n) s' → s' = s := fun s' named =>
    h.eq_of_names (named.imp fun _ stands => stands.of_take)
  have here : Names (t.take n) s := by
    rcases (update_ok_iff.1 edited).1 with a | b
    · rwa [← named _ a]
    · rwa [← named _ b]
  obtain ⟨i, sole⟩ := h
  obtain ⟨j, stands⟩ := here
  have front : Code.Sole rootArgs (t.take n) s j := by
    refine ⟨stands, fun s' k at_ => ?_⟩
    obtain ⟨same, rfl⟩ := sole.only s' k at_.of_take
    exact ⟨same, (sole.only s j stands.of_take).2.symm⟩
  rw [update_of_sole front] at edited
  exact ⟨j, Except.ok.inj edited ▸ front.replaceAt s.other⟩

end OtaBridge.Apply
