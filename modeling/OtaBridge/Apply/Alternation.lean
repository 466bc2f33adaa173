import Mathlib.Algebra.Group.Nat.Even
import OtaBridge.Apply.BootConfig

/-!
# Slot alternation over update cycles

A cycle is a successful run of `ota-apply` and a reboot. The run detects the slot on the command
line and edits the boot config for the plan's label; the next command line carries the edited
entry's root argument and none of the detector's other patterns. The invariant `Cycled` says that
the text after `n` cycles is the original with its one window overwritten by the argument of the
slot configured then, so two cycles restore it byte for byte.
-/

namespace OtaBridge.Apply

open Logic.Substring

/-- The boot config after `n` cycles, when the machine runs cycle `k` with the command line `c k`. -/
def afterCycles (t : Text) (c : Nat → Text) : Nat → Option Text
  | 0 => some t
  | n + 1 => do
    let t' ← afterCycles t c n
    let active ← detectActiveSlotFromCmdline (c n)
    (updateExtlinuxRootPartlabel t' (buildPlan active).targetLabel).toOption

/-- The command line carries the argument of the text's entry and no other pattern of the detector. -/
structure Booted (t c : Text) : Prop where
  own : ∀ s, Configured t s → occurrences s.rootArg c = 1 ∧ occurrences s.other.rootArg c = 0
  noDev : ∀ s : Slot, occurrences s.rootDevArg c = 0

/-- The slot configured after `n` cycles. -/
def slotAfter (s : Slot) (n : Nat) : Slot := if Even n then s else s.other

theorem slotAfter_succ (s : Slot) (n : Nat) : slotAfter s (n + 1) = (slotAfter s n).other := by
  unfold slotAfter
  by_cases even : Even n
  · rw [if_pos even, if_neg (by rwa [Nat.even_add_one, not_not])]
  · rw [if_neg even, if_pos (by rwa [Nat.even_add_one]), Slot.other_other]

theorem contains_eq_false {c : Text} {p : Text} (hp : p ≠ []) (h : occurrences p c = 0) :
    contains c p = false := by
  rw [Bool.eq_false_iff, ne_eq, contains_iff hp, not_exists]
  exact (occurrences_eq_zero hp).1 h

/-- The detector reads back the entry the command line was built from. -/
theorem Booted.detect {t c : Text} {s : Slot} (h : Booted t c) (conf : Configured t s) :
    detectActiveSlotFromCmdline c = some s := by
  obtain ⟨one, none⟩ := h.own s conf
  have named : contains c s.rootArg = true := by
    obtain ⟨i, stands, -⟩ := (occurrences_eq_one (rootArg_ne_nil s)).1 one
    exact (contains_iff (rootArg_ne_nil s)).2 ⟨i, stands⟩
  have unnamed := contains_eq_false (rootArg_ne_nil _) none
  rw [detect_eq]
  cases s
  · rw [if_pos named]
  · change contains c Slot.A.rootArg = false at unnamed
    rw [if_neg (by rw [unnamed]; exact Bool.false_ne_true), if_pos named]

/-- The state after `n` cycles: the original text with the window at `i` overwritten. -/
structure Cycled (t : Text) (c : Nat → Text) (s : Slot) (i n : Nat) : Prop where
  text : afterCycles t c n = some (replaceAt t i rootArgs.size (slotAfter s n).rootArg)
  sole : Code.Sole rootArgs (replaceAt t i rootArgs.size (slotAfter s n).rootArg) (slotAfter s n) i
  detected : detectActiveSlotFromCmdline (c n) = some (slotAfter s n)

/-- One cycle. -/
theorem Cycled.step {t : Text} {c : Nat → Text} {s : Slot} {i n : Nat} (original : Code.Sole rootArgs t s i)
    (h : Cycled t c s i n) (booted : ∀ u, afterCycles t c (n + 1) = some u → Booted u (c (n + 1))) :
    Cycled t c s i (n + 1) := by
  have room := Code.at_length_le original.stands
  have edited : afterCycles t c (n + 1) =
      some (replaceAt t i rootArgs.size (slotAfter s (n + 1)).rootArg) := by
    have twice := replaceAt_replaceAt room (rootArgs.length_word (slotAfter s n)) (slotAfter s n).other.rootArg
    simp only [afterCycles, h.text, h.detected, buildPlan_eq, Option.bind_eq_bind, Option.bind_some,
      update_of_sole h.sole, Except.toOption, slotAfter_succ]
    exact congrArg some twice
  have sole := original.replaceAt (slotAfter s (n + 1))
  exact ⟨edited, sole, (booted _ edited).detect ⟨i, sole⟩⟩

theorem cycled {t : Text} {c : Nat → Text} {s : Slot} {i : Nat} (original : Code.Sole rootArgs t s i)
    (first : detectActiveSlotFromCmdline (c 0) = some s) :
    ∀ n, (∀ k, k < n → ∀ u, afterCycles t c (k + 1) = some u → Booted u (c (k + 1))) → Cycled t c s i n := by
  intro n
  induction n with
  | zero =>
    intro _
    have same : replaceAt t i rootArgs.size (slotAfter s 0).rootArg = t := replaceAt_rootArg original.stands
    exact ⟨by rw [same]; rfl, by rw [same]; exact original, first⟩
  | succ n ih =>
    intro booted
    exact (ih fun k hk => booted k (by omega)).step original (booted n (Nat.lt_succ_self n))

/-- **Slot alternation.** From a config with one entry and a command line that names its slot, every
run detects the slot the previous one targeted, the configured slot alternates, and the text is
the original with that one label changed after an odd number of cycles. -/
theorem slots_alternate (t : Text) (c : Nat → Text) (s : Slot) (n : Nat)
    (single : occurrences Slot.A.rootArg t + occurrences Slot.B.rootArg t = 1) (named : Names t s)
    (first : detectActiveSlotFromCmdline (c 0) = some s)
    (booted : ∀ k, k < n → ∀ u, afterCycles t c (k + 1) = some u → Booted u (c (k + 1))) :
    (∀ k, k < n → ∃ active, detectActiveSlotFromCmdline (c k) = some active ∧
      detectActiveSlotFromCmdline (c (k + 1)) = some (buildPlan active).target) ∧
    ∃ pre post u, t = pre ++ s.rootArg ++ post ∧ afterCycles t c n = some u ∧
      Configured u (if Even n then s else s.other) ∧
      u = if Even n then t else pre ++ s.other.rootArg ++ post := by
  obtain ⟨s', conf⟩ := occurrences_add_eq_one.1 single
  obtain rfl := conf.eq_of_names named
  obtain ⟨i, original⟩ := conf
  have run := cycled original first
  constructor
  · intro k hk
    have now := run k fun j hj => booted j (by omega)
    have next := now.step original (booted k hk)
    refine ⟨_, now.detected, ?_⟩
    rw [next.detected, slotAfter_succ, buildPlan_eq]
  · have last := run n booted
    refine ⟨t.take i, t.drop (i + s.rootArg.length), _, original.stands.eq_append, last.text, ⟨i, last.sole⟩, ?_⟩
    unfold slotAfter
    split
    · exact replaceAt_rootArg original.stands
    · rw [replaceAt, ← rootArgs.length_word s]
      rfl

theorem slots_alternate_two :
    ∃ pre post u, Slot.A.rootArg = pre ++ Slot.A.rootArg ++ post ∧
      afterCycles Slot.A.rootArg (fun k => (slotAfter .A k).rootArg) 2 = some u ∧
      Configured u (if Even 2 then .A else .B) ∧ u = if Even 2 then Slot.A.rootArg else pre ++ Slot.B.rootArg ++ post := by
  refine (slots_alternate Slot.A.rootArg (fun k => (slotAfter .A k).rootArg) .A 2 (by decide) (by decide)
    (by decide) ?_).2
  intro k hk u h
  have cases : k = 0 ∨ k = 1 := by omega
  rcases cases with rfl | rfl
  · have e : u = Slot.B.rootArg := Option.some.inj (h.symm.trans (by decide))
    subst e
    refine ⟨?_, by rintro (_ | _) <;> decide⟩
    rintro (_ | _) conf
    · exact absurd conf (by decide)
    · decide
  · have e : u = Slot.A.rootArg := Option.some.inj (h.symm.trans (by decide))
    subst e
    refine ⟨?_, by rintro (_ | _) <;> decide⟩
    rintro (_ | _) conf
    · decide
    · exact absurd conf (by decide)

end OtaBridge.Apply
