import OtaBridge.Logic.Substring
import OtaBridge.Text

/-!
# Slots, the running slot and the update plan

`detectActiveSlotFromCmdline` and `buildPlan` of `ota-apply.cpp`. The source defines `QEMU_ENV`
to 1 itself, so the device names are those of the QEMU branch.
-/

namespace OtaBridge.Apply

open Logic.Substring

inductive Slot where
  | A
  | B
  deriving DecidableEq, Repr

structure Plan where
  active : Slot
  target : Slot
  targetDev : Text
  targetLabel : Text
  deriving DecidableEq, Repr

def kDevA : Text := ascii "/dev/vda2"
def kDevB : Text := ascii "/dev/vda3"
def kLabelA : Text := ascii "rootfsA"
def kLabelB : Text := ascii "rootfsB"

/-- `cmdline.find(pattern) != std::string::npos` -/
def contains (cmdline pattern : Text) : Bool := (find pattern cmdline).isSome

def detectActiveSlotFromCmdline (cmdline : Text) : Option Slot :=
  if contains cmdline (ascii "root=PARTLABEL=rootfsA") then some .A
  else if contains cmdline (ascii "root=PARTLABEL=rootfsB") then some .B
  else if contains cmdline (ascii "root=/dev/vda2") then some .A
  else if contains cmdline (ascii "root=/dev/vda3") then some .B
  else none

def buildPlan (active : Slot) : Plan :=
  let target := if active = .A then .B else .A
  if target = .A then ⟨active, target, kDevA, kLabelA⟩ else ⟨active, target, kDevB, kLabelB⟩

/-! ## The plan in terms of slots -/

def Slot.other : Slot → Slot
  | .A => .B
  | .B => .A

def Slot.dev : Slot → Text
  | .A => kDevA
  | .B => kDevB

def Slot.label : Slot → Text
  | .A => kLabelA
  | .B => kLabelB

/-- The root argument that names the slot by its partition label. -/
def Slot.rootArg (s : Slot) : Text := ascii "root=PARTLABEL=" ++ s.label

/-- The root argument that names the slot by its device. -/
def Slot.rootDevArg (s : Slot) : Text := ascii "root=" ++ s.dev

theorem buildPlan_eq (s : Slot) : buildPlan s = ⟨s, s.other, s.other.dev, s.other.label⟩ := by
  cases s <;> rfl

@[simp] theorem Slot.other_other (s : Slot) : s.other.other = s := by cases s <;> rfl

theorem Slot.other_ne (s : Slot) : s.other ≠ s := by cases s <;> decide

theorem Slot.eq_other_of_ne {s s' : Slot} (h : s' ≠ s) : s' = s.other := by
  cases s <;> cases s' <;> first | rfl | exact absurd rfl h

theorem Slot.dev_injective {s s' : Slot} (h : s.dev = s'.dev) : s = s' := by
  cases s <;> cases s' <;> first | rfl | exact absurd h (by decide)

/-- The two label arguments are equally long and cannot overlap. -/
def rootArgs : Code Slot Byte where
  word := Slot.rootArg
  size := 22
  size_pos := by decide
  length_word s := by cases s <;> decide
  apart s s' := by cases s <;> cases s' <;> decide
  injective s s' h := by cases s <;> cases s' <;> first | rfl | exact absurd h (by decide)

theorem rootArg_ne_nil (s : Slot) : s.rootArg ≠ [] := rootArgs.word_ne_nil s

theorem rootDevArg_ne_nil (s : Slot) : s.rootDevArg ≠ [] := by cases s <;> decide

theorem contains_iff {cmdline pattern : Text} (h : pattern ≠ []) :
    contains cmdline pattern = true ↔ ∃ i, At pattern cmdline i := find_isSome_iff h

/-- The detector in terms of the slots' arguments: a label argument wins over a device argument,
and slot A wins over slot B. -/
theorem detect_eq (c : Text) :
    detectActiveSlotFromCmdline c =
      if contains c Slot.A.rootArg then some .A else if contains c Slot.B.rootArg then some .B
      else if contains c Slot.A.rootDevArg then some .A else if contains c Slot.B.rootDevArg then some .B
      else none := rfl

/-- No slot is detected exactly when none of the four arguments occurs. -/
theorem detect_eq_none {c : Text} :
    detectActiveSlotFromCmdline c = none ↔
      ∀ s : Slot, contains c s.rootArg = false ∧ contains c s.rootDevArg = false := by
  rw [detect_eq]
  constructor
  · intro h
    split at h
    · cases h
    · split at h
      · cases h
      · split at h
        · cases h
        · split at h
          · cases h
          · next a b devA devB =>
            rintro (_ | _)
            · exact ⟨Bool.eq_false_iff.2 a, Bool.eq_false_iff.2 devA⟩
            · exact ⟨Bool.eq_false_iff.2 b, Bool.eq_false_iff.2 devB⟩
  · intro h
    simp [h .A, h .B]

end OtaBridge.Apply
