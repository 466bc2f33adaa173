import OtaBridge.Apply.Course

/-!
# What the stages show

The names and contents that a process sees at each stage of a run. Before the rename the boot
config is the old file and the target holds a part of the image over its old bytes; after it the
boot config is the new file and the whole image is there. `Layout` keeps the files apart, and
every stage keeps the layout.
-/

namespace OtaBridge.Apply

open Logic.Journal Logic.Substring

/-- `new` written over the beginning of `old`. -/
def overlay (new old : List Byte) : List Byte := new ++ old.drop new.length

/-- The text found under a name. -/
def Disk.text (d : Disk) (p : Path) : Option Text := (d.lookup p).map d.data

/-- The boot config, its temporary file and the two devices are four different files. -/
structure Layout (d : Disk) (conf : Path) (boot : Ino) (dev : Slot → Ino) : Prop where
  onDisk : conf ≠ ascii "/proc/cmdline"
  boots : d.lookup conf = some boot
  devices : ∀ s : Slot, d.lookup s.dev = some (dev s)
  dev_ne : ∀ s, dev s ≠ dev s.other
  boot_ne : ∀ s, dev s ≠ boot
  temp_ne : ∀ i, d.lookup (tempPath conf) = some i → i ≠ boot ∧ ∀ s, i ≠ dev s
  boot_lt : boot < d.fresh
  dev_lt : ∀ s, dev s < d.fresh
  temp_lt : ∀ i, d.lookup (tempPath conf) = some i → i < d.fresh

namespace Disk

variable {d : Disk} {p : Path}

theorem creat_fst_ne {j : Ino} (old : ∀ i, d.lookup p = some i → i ≠ j) (lt : j < d.fresh) : (d.creat p).1 ≠ j := by
  cases found : d.lookup p with
  | some i =>
    rw [creat_of_some found]
    exact old i found
  | none =>
    rw [creat_of_none found]
    exact Nat.ne_of_gt lt

theorem le_creat_fresh : d.fresh ≤ (d.creat p).2.fresh := by
  cases found : d.lookup p with
  | some i =>
    rw [creat_of_some found]
    exact le_rfl
  | none =>
    rw [creat_of_none found]
    exact Nat.le_succ _

theorem creat_fst_lt (old : ∀ i, d.lookup p = some i → i < d.fresh) : (d.creat p).1 < (d.creat p).2.fresh := by
  cases found : d.lookup p with
  | some i =>
    rw [creat_of_some found]
    exact old i found
  | none =>
    rw [creat_of_none found]
    exact Nat.lt_succ_self _

theorem data_put_start (d : Disk) (i : Ino) (bytes : List Byte) :
    (d.put i 0 bytes).data i = overlay bytes (d.data i) := by
  rw [data_put_self _ (Nat.zero_le _), replaceAt, Nat.zero_add, List.take_zero, List.nil_append]
  rfl

end Disk

theorem tempPath_ne (p : Path) : tempPath p ≠ p := by
  intro e
  have := congrArg List.length e
  rw [tempPath, List.length_append] at this
  exact absurd this (by simp [ascii])

namespace Flushed

variable {d d' : Disk}

/-- What no flush changes. -/
theorem keeps {β : Type} (f : Disk → β) (fsync : ∀ d i, f (d.fsync i) = f d) (fsyncDir : ∀ d, f d.fsyncDir = f d)
    (sync : ∀ d, f d.sync = f d) (h : Flushed d d') : f d' = f d := by
  induction h with
  | refl => rfl
  | fsync i _ ih => rw [fsync, ih]
  | fsyncDir _ ih => rw [fsyncDir, ih]
  | sync _ ih => rw [sync, ih]

theorem lookup (h : Flushed d d') : d'.lookup = d.lookup :=
  h.keeps Disk.lookup (fun _ _ => rfl) (fun _ => rfl) fun _ => rfl

theorem data (h : Flushed d d') (j : Ino) : d'.data j = d.data j :=
  h.keeps (Disk.data · j) (fun d i => d.data_fsync i j) (fun _ => rfl) fun _ => rfl

theorem fresh (h : Flushed d d') : d'.fresh = d.fresh :=
  h.keeps Disk.fresh (fun _ _ => rfl) (fun _ => rfl) fun _ => rfl

theorem kind (h : Flushed d d') (j : Ino) : (d'.node j).kind = (d.node j).kind :=
  h.keeps (fun d => (d.node j).kind) (fun d i => d.kind_fsync i j) (fun _ => rfl) fun _ => rfl

/-- `written` counts writes, not flushes. -/
theorem written (h : Flushed d d') (j : Ino) : (d'.node j).written = (d.node j).written :=
  h.keeps (fun d => (d.node j).written) (fun d i => d.written_fsync i j) (fun _ => rfl) fun _ => rfl

end Flushed

namespace Course

variable {c : Course}

theorem data_installed_target : c.installed.data c.target = overlay c.image (c.disk.data c.target) := by
  rw [installed, Disk.data_sync, Disk.data_fsync, Disk.data_put_start]

theorem data_installed_ne {j : Ino} (ne : j ≠ c.target) : c.installed.data j = c.disk.data j := by
  rw [installed, Disk.data_sync, Disk.data_fsync, Disk.data_put_ne _ ne]

theorem kind_installed (j : Ino) : (c.installed.node j).kind = (c.disk.node j).kind := by
  show (((c.disk.put c.target 0 c.image).fsync c.target).node j).kind = _
  rw [Disk.kind_fsync, Disk.kind_put]

/-- A regular temporary file has room for any boot config. -/
theorem fits_temp (regular : ∀ i, c.disk.lookup (tempPath c.conf) = some i → (c.disk.node i).kind = .regular)
    (n : Nat) : c.created.Fits c.temp n := by
  intro block
  have kind : (c.created.node c.temp).kind = .regular :=
    Disk.kind_creat_self (d := c.installed) fun i found => (kind_installed i).trans (regular i found)
  rw [kind] at block
  cases block

theorem lookup_created : c.created.lookup = Function.update c.disk.lookup (tempPath c.conf) (some c.temp) :=
  c.installed.lookup_creat _

theorem data_created_ne {j : Ino} (ne : j ≠ c.temp) : c.created.data j = c.installed.data j :=
  congrArg (fun x => x.data.view) (Disk.node_creat_ne ne)

theorem data_staged_temp : c.staged.data c.temp = c.updated := by
  rw [staged, Disk.data_fsync, Disk.data_put_start, created, temp, Disk.data_creat_self, overlay, List.drop_nil,
    List.append_nil]

theorem data_staged_ne {j : Ino} (ne : j ≠ c.temp) : c.staged.data j = c.installed.data j := by
  rw [staged, Disk.data_fsync, Disk.data_put_ne _ ne, data_created_ne ne]

theorem node_committed_ne {j : Ino} (ne : j ≠ c.temp) : c.committed.node j = c.installed.node j := by
  have created : c.created.node j = c.installed.node j := Disk.node_creat_ne ne
  show ((c.created.put c.temp 0 c.updated).fsync c.temp).node j = _
  rw [Disk.fsync, Disk.node_onNode_ne _ ne, Disk.put, Disk.node_onNode_ne _ ne, created]

/-- The writes to the target are those of the image. -/
theorem written_committed (ne : c.target ≠ c.temp) :
    (c.committed.node c.target).written = (c.disk.node c.target).written + c.image.length := by
  rw [node_committed_ne ne]
  show (((c.disk.put c.target 0 c.image).fsync c.target).node c.target).written = _
  rw [Disk.written_fsync, Disk.put, Disk.node_onNode_self]

/-- What is seen before the rename. -/
structure Before (c : Course) (d : Disk) : Prop where
  lookup : ∀ p, p ≠ tempPath c.conf → d.lookup p = c.disk.lookup p
  temp : d.lookup (tempPath c.conf) = c.disk.lookup (tempPath c.conf) ∨
    d.lookup (tempPath c.conf) = some c.temp ∧ d.fresh = c.created.fresh
  data : ∀ j, j ≠ c.target → j ≠ c.temp → d.data j = c.disk.data j
  target : c.target ≠ c.temp → ∃ n, n ≤ c.image.length ∧ d.data c.target = overlay (c.image.take n) (c.disk.data c.target)
  fresh : c.disk.fresh ≤ d.fresh

/-- What is seen after the rename. -/
structure After (c : Course) (d : Disk) : Prop where
  lookup : ∀ p, p ≠ tempPath c.conf → p ≠ c.conf → d.lookup p = c.disk.lookup p
  conf : d.lookup c.conf = some c.temp
  temp : d.lookup (tempPath c.conf) = none
  updated : d.data c.temp = c.updated
  data : ∀ j, j ≠ c.target → j ≠ c.temp → d.data j = c.disk.data j
  target : c.target ≠ c.temp → d.data c.target = overlay c.image (c.disk.data c.target)
  kind : ∀ j, j ≠ c.temp → (d.node j).kind = (c.disk.node j).kind
  fresh : d.fresh = c.created.fresh

theorem Pending.before {d : Disk} (h : c.Pending d) : c.Before d := by
  have whole : overlay c.image (c.disk.data c.target) = overlay (c.image.take c.image.length) (c.disk.data c.target) := by
    rw [List.take_length]
  have grown : c.disk.fresh ≤ c.created.fresh := Disk.le_creat_fresh (d := c.installed)
  have other : ∀ p, p ≠ tempPath c.conf → c.created.lookup p = c.disk.lookup p := fun p ne => by
    rw [lookup_created, Function.update_of_ne ne]
  have linked : c.created.lookup (tempPath c.conf) = some c.temp := by
    rw [lookup_created, Function.update_self]
  cases h with
  | copying n le fits =>
    exact ⟨fun _ _ => rfl, .inl rfl, fun j ne _ => Disk.data_put_ne _ ne _ _,
      fun _ => ⟨n, le, Disk.data_put_start _ _ _⟩, le_rfl⟩
  | copied fits =>
    refine ⟨fun _ _ => rfl, .inl rfl, fun j ne _ => ?_, fun _ => ⟨_, le_rfl, ?_⟩, le_rfl⟩
    · rw [Disk.data_fsync, Disk.data_put_ne _ ne]
    · rw [Disk.data_fsync, Disk.data_put_start, whole]
  | installed fits =>
    exact ⟨fun _ _ => rfl, .inl rfl, fun j ne _ => data_installed_ne ne,
      fun _ => ⟨_, le_rfl, data_installed_target.trans whole⟩, le_rfl⟩
  | writing n fits =>
    refine ⟨other, .inr ⟨linked, rfl⟩, fun j ne ne' => ?_, fun ne => ⟨_, le_rfl, ?_⟩, grown⟩
    · rw [Disk.data_put_ne _ ne', data_created_ne ne', data_installed_ne ne]
    · rw [Disk.data_put_ne _ ne, data_created_ne ne, data_installed_target, whole]
  | staged fits =>
    refine ⟨other, .inr ⟨linked, rfl⟩, fun j ne ne' => ?_, fun ne => ⟨_, le_rfl, ?_⟩, grown⟩
    · rw [data_staged_ne ne', data_installed_ne ne]
    · rw [data_staged_ne ne, data_installed_target, whole]

theorem after_of_flushed {d : Disk} (h : Flushed c.committed d) : c.After d := by
  have names : d.lookup = Function.update (Function.update c.created.lookup (tempPath c.conf) none) c.conf (some c.temp) :=
    h.lookup.trans (c.staged.lookup_rename _ _ _)
  refine ⟨fun p ne ne' => ?_, ?_, ?_, ?_, fun j ne ne' => ?_, fun ne => ?_, fun j ne => ?_, h.fresh⟩
  · rw [names, Function.update_of_ne ne', Function.update_of_ne ne, lookup_created, Function.update_of_ne ne]
  · rw [names, Function.update_self]
  · rw [names, Function.update_of_ne (tempPath_ne _), Function.update_self]
  · rw [h.data]
    exact data_staged_temp
  · rw [h.data]
    exact (data_staged_ne ne').trans (data_installed_ne ne)
  · rw [h.data]
    exact (data_staged_ne ne).trans data_installed_target
  · rw [h.kind, node_committed_ne ne, kind_installed]

end Course

/-! ## The layout is kept -/

section Layout

variable {c : Course} {boot : Ino} {dev : Slot → Ino} {d : Disk}

theorem Layout.conf_ne_dev (h : Layout d c.conf boot dev) (s : Slot) : s.dev ≠ c.conf := by
  intro e
  exact h.boot_ne s (Option.some.inj ((h.devices s).symm.trans (e ▸ h.boots)))

theorem Layout.temp_ne_dev (h : Layout d c.conf boot dev) (s : Slot) : s.dev ≠ tempPath c.conf := by
  intro e
  exact (h.temp_ne _ (e ▸ h.devices s)).2 s rfl

theorem Layout.temp_ne_boot (h : Layout c.disk c.conf boot dev) : c.temp ≠ boot :=
  Disk.creat_fst_ne (fun i found => (h.temp_ne i found).1) h.boot_lt

theorem Layout.ne_temp (h : Layout c.disk c.conf boot dev) (s : Slot) : c.temp ≠ dev s :=
  Disk.creat_fst_ne (fun i found => (h.temp_ne i found).2 s) (h.dev_lt s)

theorem Layout.temp_lt_fresh (h : Layout c.disk c.conf boot dev) : c.temp < c.created.fresh :=
  Disk.creat_fst_lt (d := c.installed) h.temp_lt

/-- Before the rename every file is where it was. -/
theorem Layout.before (h : Layout c.disk c.conf boot dev) (before : c.Before d) : Layout d c.conf boot dev where
  onDisk := h.onDisk
  boots := (before.lookup _ (tempPath_ne _).symm).trans h.boots
  devices s := (before.lookup _ (h.temp_ne_dev s)).trans (h.devices s)
  dev_ne := h.dev_ne
  boot_ne := h.boot_ne
  temp_ne i found := by
    rcases before.temp with same | ⟨new, -⟩
    · exact h.temp_ne i (same ▸ found)
    · obtain rfl := Option.some.inj (new.symm.trans found)
      exact ⟨h.temp_ne_boot, h.ne_temp⟩
  boot_lt := h.boot_lt.trans_le before.fresh
  dev_lt s := (h.dev_lt s).trans_le before.fresh
  temp_lt i found := by
    rcases before.temp with same | ⟨new, fresh⟩
    · exact (h.temp_lt i (same ▸ found)).trans_le before.fresh
    · obtain rfl := Option.some.inj (new.symm.trans found)
      rw [fresh]
      exact h.temp_lt_fresh

/-- After the rename the boot config is the file that was the temporary one. -/
theorem Layout.after (h : Layout c.disk c.conf boot dev) (after : c.After d) : Layout d c.conf c.temp dev where
  onDisk := h.onDisk
  boots := after.conf
  devices s := (after.lookup _ (h.temp_ne_dev s) (h.conf_ne_dev s)).trans (h.devices s)
  dev_ne := h.dev_ne
  boot_ne s := (h.ne_temp s).symm
  temp_ne i found := nomatch after.temp.symm.trans found
  boot_lt := by
    rw [after.fresh]
    exact h.temp_lt_fresh
  dev_lt s := by
    rw [after.fresh]
    exact (h.dev_lt s).trans_le (Disk.le_creat_fresh (d := c.installed))
  temp_lt i found := nomatch after.temp.symm.trans found

/-- The course of a run that starts on a machine with the layout. -/
theorem Starts.layout {env : Env} {args : Args} {m : Machine} {active : Slot} {text : Text}
    (start : Starts env args m active text c) (h : Layout m.disk args.bootconf boot dev) :
    Layout c.disk c.conf boot dev ∧ c.target = dev active.other ∧ text = m.disk.data boot := by
  refine ⟨by rwa [start.disk, start.conf], ?_, ?_⟩
  · exact Option.some.inj (start.target.symm.trans (h.devices _))
  · have content := start.content
    rw [Machine.content, if_neg h.onDisk, inode_ok.2 h.boots] at content
    exact (Except.ok.inj content).symm

/-- On a machine with the layout nothing fails if no answer is a failure and the sizes fit. -/
theorem Layout.ready {env : Env} {args : Args} {m : Machine} {active : Slot} {st : Stat} {u : Text}
    (h : Layout m.disk args.bootconf boot dev) (clear : env.Clear)
    (detected : detectActiveSlotFromCmdline (env.cmdline.cut m.cmdline) = some active)
    (block : (m.disk.node (dev active.other)).kind = .block)
    (leftover : ∀ i, m.disk.lookup (tempPath args.bootconf) = some i → (m.disk.node i).kind = .regular)
    (stat : env.statImage = .ok st) (regular : st.regular = true)
    (size : st.size ≤ (m.disk.data (dev active.other)).length)
    (fits : (delivered env.reads).length ≤ (m.disk.data (dev active.other)).length)
    (edited : updateExtlinuxRootPartlabel (env.bootconf.cut (m.disk.data boot)) active.other.label = .ok u) :
    Ready env args m where
  clear := clear
  starts := by
    let c : Course := ⟨m.disk, dev active.other, delivered env.reads, args.bootconf, u⟩
    have content : m.content args.bootconf = .ok (m.disk.data boot) := by
      rw [Machine.content, if_neg h.onDisk, inode_ok.2 h.boots]
      rfl
    refine ⟨active, m.disk.data boot, c,
      ⟨detected, h.devices _, block, ⟨st, stat, regular, size⟩, content, edited, rfl, rfl, rfl,
      clear.cmdline, clear.bootconf⟩, ?_⟩
    exact ⟨fun _ => fits, Course.fits_temp leftover _⟩

theorem Layout.text {conf : Path} (h : Layout d conf boot dev) : d.text conf = some (d.data boot) := by
  rw [Disk.text, h.boots, Option.map_some]

theorem Layout.text_dev {conf : Path} (h : Layout d conf boot dev) (s : Slot) : d.text s.dev = some (d.data (dev s)) := by
  rw [Disk.text, h.devices, Option.map_some]

/-- Before the rename the boot config and the slot that runs hold what they held. -/
theorem Course.Before.kept (before : c.Before d) (h : Layout c.disk c.conf boot dev) {s : Slot}
    (target : c.target = dev s.other) :
    d.text c.conf = c.disk.text c.conf ∧ d.text s.dev = c.disk.text s.dev := by
  have here := h.before before
  have apart : dev s ≠ c.target := by
    rw [target]
    exact h.dev_ne s
  have boot_ne : boot ≠ c.target := by
    rw [target]
    exact (h.boot_ne s.other).symm
  rw [here.text, h.text, here.text_dev, h.text_dev, before.data _ boot_ne h.temp_ne_boot.symm,
    before.data _ apart (h.ne_temp s).symm]
  exact ⟨rfl, rfl⟩

/-- After the rename the boot config is the new one, and the target holds the image. -/
theorem Course.After.switched (after : c.After d) (h : Layout c.disk c.conf boot dev) {s : Slot}
    (target : c.target = dev s.other) :
    d.text c.conf = some c.updated ∧ d.text s.other.dev = (c.disk.text s.other.dev).map (overlay c.image) := by
  have here := h.after after
  have apart : c.target ≠ c.temp := by
    rw [target]
    exact (h.ne_temp s.other).symm
  rw [here.text, here.text_dev, h.text_dev, after.updated, ← target, after.target apart]
  exact ⟨rfl, rfl⟩

end Layout

/-! ## A disk with the layout -/

/-- The boot config that `parseArgs` takes by default. -/
def bootconfPath : Path := ascii "/boot/extlinux/extlinux.conf"

def Slot.ino : Slot → Ino
  | .A => 1
  | .B => 2

def flashedDir : Dir := fun p =>
  if p = bootconfPath then some 0 else if p = kDevA then some 1 else if p = kDevB then some 2 else none

/-- A flushed disk with nothing but the boot config and the two devices. -/
def Disk.flashed (conf : Text) (dev : Slot → List Byte) : Disk where
  dir := ⟨flashedDir, []⟩
  node
    | 0 => ⟨.regular, ⟨conf, []⟩, 0⟩
    | 1 => ⟨.block, ⟨dev .A, []⟩, 0⟩
    | _ => ⟨.block, ⟨dev .B, []⟩, 0⟩
  fresh := 3

theorem lookup_flashed (conf : Text) (dev : Slot → List Byte) : (Disk.flashed conf dev).lookup = flashedDir := rfl

theorem flashedDir_temp : flashedDir (tempPath bootconfPath) = none := by decide

theorem flashedDir_dev (s : Slot) : flashedDir s.dev = some s.ino := by cases s <;> decide

theorem ino_lt (s : Slot) : s.ino < 3 := by cases s <;> decide

theorem layout_flashed (conf : Text) (dev : Slot → List Byte) :
    Layout (Disk.flashed conf dev) bootconfPath 0 Slot.ino where
  onDisk := by decide
  boots := by
    rw [lookup_flashed]
    decide
  devices := flashedDir_dev
  dev_ne s := by cases s <;> decide
  boot_ne s := by cases s <;> decide
  temp_ne i found := nomatch flashedDir_temp.symm.trans found
  boot_lt := Nat.zero_lt_succ 2
  dev_lt := ino_lt
  temp_lt i found := nomatch flashedDir_temp.symm.trans found

theorem leftover_flashed (conf : Text) (dev : Slot → List Byte) (i : Ino)
    (found : (Disk.flashed conf dev).lookup (tempPath bootconfPath) = some i) :
    ((Disk.flashed conf dev).node i).kind = .regular :=
  nomatch flashedDir_temp.symm.trans found

theorem update_rootArg (s : Slot) : updateExtlinuxRootPartlabel s.rootArg s.other.label = .ok s.other.rootArg := by
  cases s <;> decide

theorem detect_rootArg (s : Slot) : detectActiveSlotFromCmdline s.rootArg = some s := by
  cases s <;> decide

end OtaBridge.Apply
