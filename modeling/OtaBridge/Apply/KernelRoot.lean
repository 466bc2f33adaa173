import OtaBridge.Apply.Course
import OtaBridge.Logic.Words

/-!
# The detected slot and the kernel's root

The kernel mounts the value of the last word of its command line that begins with `root=`. The
detector searches for four patterns anywhere in the text, labels before devices and A before B,
so the two agree exactly where no other occurrence of a pattern comes first in that order
(`protects_root_iff`).
-/

namespace OtaBridge.Apply

open Logic.Crash Logic.Substring Logic.Words

/-- The value of the last argument that begins with `root=`. -/
def effectiveRoot (c : Text) : Option Text :=
  (((words isspace c).filter fun w => (ascii "root=").isPrefixOf w).getLast?).map (·.drop 5)

/-- The root value that names the slot by its partition label. -/
def Slot.partlabel (s : Slot) : Text := ascii "PARTLABEL=" ++ s.label

/-- The kernel's root is slot `s`. -/
def RootedAt (c : Text) (s : Slot) : Prop := effectiveRoot c = some s.partlabel ∨ effectiveRoot c = some s.dev

instance (c : Text) (s : Slot) : Decidable (RootedAt c s) :=
  inferInstanceAs (Decidable (effectiveRoot c = some s.partlabel ∨ effectiveRoot c = some s.dev))

/-- On the command line `c` the partition that is running is never written. -/
structure ProtectsRoot (c : Text) : Prop where
  detected : ∀ s, detectActiveSlotFromCmdline c = some s → RootedAt c s
  target : ∀ s, detectActiveSlotFromCmdline c = some s → ∀ r, RootedAt c r → (buildPlan s).targetDev ≠ r.dev
  stops : (∀ s, ¬ RootedAt c s) → ∀ env argv (s : Powered Machine), s.now.cmdline = c →
    env.cmdline.failsAt = none → (main env argv s).2.now.disk = s.now.disk ∧
      (parseArgs argv ≠ .exit → (main env argv s).1 ≠ .returned 0)

/-- `c` names slot `s` by its device somewhere. -/
def NamesDev (c : Text) (s : Slot) : Prop := ∃ i, At s.rootDevArg c i

instance (c : Text) (s : Slot) : Decidable (NamesDev c s) :=
  decidable_of_iff _ (find_isSome_iff (rootDevArg_ne_nil s))

/-- No pattern that the detector looks for earlier hides the kernel's root, and where the kernel's
root is no slot there is no pattern at all. -/
structure Unhidden (c : Text) : Prop where
  labelB : effectiveRoot c = some Slot.B.partlabel → ¬ Names c .A
  devA : effectiveRoot c = some Slot.A.dev → Names c .B → Names c .A
  devB : effectiveRoot c = some Slot.B.dev → ¬ Names c .A ∧ (Names c .B ∨ ¬ NamesDev c .A)
  foreign : (∀ s, ¬ RootedAt c s) → ∀ s, ¬ Names c s ∧ ¬ NamesDev c s

theorem detect_names (c : Text) :
    detectActiveSlotFromCmdline c =
      if Names c .A then some .A else if Names c .B then some .B
      else if NamesDev c .A then some .A else if NamesDev c .B then some .B else none := by
  have label : ∀ s, contains c s.rootArg = true ↔ Names c s := fun s => contains_iff (rootArg_ne_nil s)
  have dev : ∀ s, contains c s.rootDevArg = true ↔ NamesDev c s := fun s => contains_iff (rootDevArg_ne_nil s)
  rw [detect_eq]
  exact if_congr (label .A) rfl (if_congr (label .B) rfl (if_congr (dev .A) rfl (if_congr (dev .B) rfl rfl)))

/-- The argument of the kernel's root stands on the command line. -/
theorem at_effectiveRoot {c e : Text} (h : effectiveRoot c = some e) : ∃ i, At (ascii "root=" ++ e) c i := by
  obtain ⟨w, last, rfl⟩ := Option.map_eq_some_iff.1 h
  obtain ⟨mem, begins⟩ := List.mem_filter.1 (List.mem_of_getLast? last)
  obtain ⟨rest, rfl⟩ := List.isPrefixOf_iff_prefix.1 begins
  exact exists_at_iff_infix.2 (infix_of_mem_words mem)

theorem names_of_root {c : Text} {s : Slot} (h : effectiveRoot c = some s.partlabel) : Names c s := by
  have e : ascii "root=" ++ s.partlabel = s.rootArg := by cases s <;> decide
  rw [Names, ← e]
  exact at_effectiveRoot h

theorem namesDev_of_root {c : Text} {s : Slot} (h : effectiveRoot c = some s.dev) : NamesDev c s :=
  at_effectiveRoot h

/-- The four root values are different. -/
theorem RootedAt.unique {c : Text} {s r : Slot} (h : RootedAt c s) (h' : RootedAt c r) : s = r := by
  unfold RootedAt at h h'
  cases e : effectiveRoot c with
  | none => simp [e] at h
  | some e =>
    rw [‹effectiveRoot c = _›, Option.some.injEq, Option.some.injEq] at h h'
    cases s <;> cases r <;> first
      | rfl
      | rcases h with rfl | rfl <;> exact absurd h' (by decide)

/-- What the detector must not return, where the kernel's root is slot `s`. -/
theorem ProtectsRoot.not_detected {c : Text} {s : Slot} (h : ProtectsRoot c) (rooted : RootedAt c s) :
    detectActiveSlotFromCmdline c ≠ some s.other :=
  fun found => s.other_ne ((h.detected _ found).unique rooted)

theorem ProtectsRoot.unhidden {c : Text} (h : ProtectsRoot c) : Unhidden c where
  labelB root named := h.not_detected (s := .B) (.inl root) (by rw [detect_names, if_pos named]; rfl)
  devA root named := by
    by_contra unnamed
    exact h.not_detected (s := .A) (.inr root) (by rw [detect_names, if_neg unnamed, if_pos named]; rfl)
  devB root := by
    have notA : ¬ Names c .A := fun named =>
      h.not_detected (s := .B) (.inr root) (by rw [detect_names, if_pos named]; rfl)
    refine ⟨notA, ?_⟩
    by_contra hidden
    obtain ⟨notB, dev⟩ := not_or.1 hidden
    exact h.not_detected (s := .B) (.inr root)
      (by rw [detect_names, if_neg notA, if_neg notB, if_pos (not_not.1 dev)]; rfl)
  foreign root := by
    have none : detectActiveSlotFromCmdline c = none := by
      cases found : detectActiveSlotFromCmdline c with
      | none => rfl
      | some s => exact absurd (h.detected s found) (root s)
    rw [detect_eq_none] at none
    intro s
    obtain ⟨label, dev⟩ := none s
    rw [Names, ← contains_iff (rootArg_ne_nil s), NamesDev, ← contains_iff (rootDevArg_ne_nil s), label, dev]
    exact ⟨Bool.false_ne_true, Bool.false_ne_true⟩

theorem Unhidden.rooted {c : Text} (h : Unhidden c) {s : Slot} (found : detectActiveSlotFromCmdline c = some s) :
    RootedAt c s := by
  rw [detect_names] at found
  by_contra other
  by_cases foreign : ∀ r, ¬ RootedAt c r
  · have none := h.foreign foreign
    rw [if_neg (none .A).1, if_neg (none .B).1, if_neg (none .A).2, if_neg (none .B).2] at found
    cases found
  · obtain ⟨r, rooted⟩ := not_forall_not.1 foreign
    -- the kernel's root is the slot that was not detected
    have opposite : s = r.other := Slot.eq_other_of_ne fun e => other (e ▸ rooted)
    subst opposite
    rcases rooted with root | root
    · have named := names_of_root root
      cases r with
      | A =>
        rw [if_pos named] at found
        cases found
      | B =>
        rw [if_neg (h.labelB root), if_pos named] at found
        cases found
    · have named := namesDev_of_root root
      cases r with
      | A =>
        by_cases a : Names c .A
        · rw [if_pos a] at found
          cases found
        · rw [if_neg a, if_neg fun b => a (h.devA root b), if_pos named] at found
          cases found
      | B =>
        obtain ⟨notA, b | notDev⟩ := h.devB root
        · rw [if_neg notA, if_pos b] at found
          cases found
        · by_cases b : Names c .B
          · rw [if_neg notA, if_pos b] at found
            cases found
          · rw [if_neg notA, if_neg b, if_neg notDev, if_pos named] at found
            cases found

/-- **When the running partition is protected.** -/
theorem protects_root_iff (c : Text) : ProtectsRoot c ↔ Unhidden c := by
  refine ⟨ProtectsRoot.unhidden, fun h => ⟨fun s => h.rooted, ?_, ?_⟩⟩
  · intro s found r rooted same
    obtain rfl := (h.rooted found).unique rooted
    rw [buildPlan_eq] at same
    exact s.other_ne (Slot.dev_injective same)
  · intro foreign env argv s here whole
    have none : detectActiveSlotFromCmdline (env.cmdline.cut s.now.cmdline) = none := by
      rw [TextRead.cut, whole, here]
      cases found : detectActiveSlotFromCmdline c with
      | none => rfl
      | some r => exact absurd (h.rooted found) (foreign r)
    have run : Triple false (fun m => m = s.now) (main env argv) _ (fun _ _ => False) fun m => m.disk = s.now.disk :=
      main_undetected none fun _ => id
    rcases run.ends s rfl with ⟨code, ended, same, nonzero⟩ | ⟨_, _, no⟩ | ⟨ended, same⟩
    · refine ⟨same, fun accepted => ?_⟩
      rw [ended, ne_eq, Outcome.returned.injEq]
      exact nonzero accepted
    · exact no.elim
    · refine ⟨same, fun _ => ?_⟩
      rw [ended]
      exact nofun

/-- A later device argument overrides the label argument that the detector finds: the target is the
partition that is running. -/
theorem not_protects_root_overridden : ¬ ProtectsRoot (ascii "root=PARTLABEL=rootfsA root=/dev/vda3") := by
  intro h
  exact h.target .A (by decide) .B (by decide) (by decide)

end OtaBridge.Apply
