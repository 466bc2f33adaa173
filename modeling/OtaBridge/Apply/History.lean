import Mathlib.Logic.Relation
import OtaBridge.Apply.Layout

/-!
# Histories of updates and reboots

A machine goes through runs of `ota-apply`, each of which may fail or be cut off anywhere, and
through reboots into the slot that the boot config names. `main` picks its target from the running
slot alone, so a second run before the reboot writes over the slot that the first one made the boot
config name. In histories without such runs the boot config always names one slot, with a complete image
(`bootable_of_history`); `not_bootable_second_run` is one with such a run.
-/

namespace OtaBridge.Apply

open Logic.Crash Logic.Substring

/-- A machine between two runs. -/
structure Site where
  cmdline : Text
  disk : Disk
  running : Slot
  /-- The contents of the completely written slots: the first one, and those whose copy ran to its end. -/
  complete : List (List Byte)

/-- The boot config has one entry, for slot `s`. -/
def Site.BootsInto (conf : Path) (x : Site) (s : Slot) : Prop := ∃ t, x.disk.text conf = some t ∧ Configured t s

/-- The boot config names a slot, which holds a completely written image. -/
def Site.Bootable (conf : Path) (x : Site) : Prop :=
  ∃ s, x.BootsInto conf s ∧ ∃ content, content ∈ x.complete ∧ x.disk.text s.dev = some content

/-- The machine after a run that left `m`; the message tells that the copy ran to its end. -/
def Site.after (x : Site) (img : List Byte) (m : Machine) : Site :=
  { x with
    disk := m.disk
    complete := if writeComplete ∈ m.err
      then ((x.disk.text x.running.other.dev).map (overlay img)).toList ++ x.complete else x.complete }

/-- A run that is no dry run, with any accepted arguments for `conf`, any answers and any end. The image file
does not change during the run, and the command line of the kernel is read whole. -/
inductive RunStep (conf : Path) (x : Site) : Site → Prop where
  | run {env : Env} {argv : List Text} {args : Args} (img : List Byte) (supply : Option Nat)
    (accepted : parseArgs argv = .args args) (wet : args.dryRun = false) (bootconf : args.bootconf = conf)
    (image : Unchanged env img) (whole : env.cmdline.failsAt = none) :
    RunStep conf x (x.after img (main env argv ⟨supply, ⟨x.cmdline, x.disk, []⟩⟩).2.now)

/-- A reboot into the slot that the boot config names. -/
inductive Reboot (conf : Path) (x : Site) : Site → Prop where
  | reboot (c : Text) (s : Slot) (named : x.BootsInto conf s) (detected : detectActiveSlotFromCmdline c = some s) :
    Reboot conf x { x with cmdline := c, running := s }

def HistoryStep (conf : Path) (x y : Site) : Prop := RunStep conf x y ∨ Reboot conf x y

/-- A step that starts no run while the boot config names another slot than the running one. -/
def SettledStep (conf : Path) (x y : Site) : Prop :=
  (RunStep conf x y ∧ x.BootsInto conf x.running) ∨ Reboot conf x y

/-- Where histories start: the boot config names the running slot, and that slot holds an image. -/
structure Site.Fresh (conf : Path) (x : Site) : Prop where
  layout : ∃ boot dev, Layout x.disk conf boot dev
  named : x.BootsInto conf x.running
  detected : detectActiveSlotFromCmdline x.cmdline = some x.running
  complete : ∃ content, content ∈ x.complete ∧ x.disk.text x.running.dev = some content

/-- What settled steps keep. -/
structure Site.Sound (conf : Path) (x : Site) : Prop where
  layout : ∃ boot dev, Layout x.disk conf boot dev
  detected : detectActiveSlotFromCmdline x.cmdline = some x.running
  bootable : x.Bootable conf

theorem Site.BootsInto.unique {conf : Path} {x : Site} {s s' : Slot} (h : x.BootsInto conf s)
    (h' : x.BootsInto conf s') : s = s' := by
  obtain ⟨t, found, configured⟩ := h
  obtain ⟨t', found', configured'⟩ := h'
  obtain rfl := Option.some.inj (found.symm.trans found')
  exact configured'.eq_of_names configured.names

theorem Site.Fresh.sound {conf : Path} {x : Site} (h : x.Fresh conf) : x.Sound conf where
  layout := h.layout
  detected := h.detected
  bootable := ⟨x.running, h.named, h.complete⟩

/-- A reboot keeps the disk. -/
theorem Site.Sound.reboot {conf : Path} {x y : Site} (h : x.Sound conf) (step : Reboot conf x y) : y.Sound conf := by
  obtain ⟨c, s, named, detected⟩ := step
  exact ⟨h.layout, detected, h.bootable⟩

theorem Site.subset_after {x : Site} {img : List Byte} {m : Machine} : x.complete ⊆ (x.after img m).complete := by
  unfold after
  dsimp only
  split
  · exact List.subset_append_right _ _
  · exact List.Subset.refl _

/-- What a run that got past the rename has made of the machine. -/
structure Site.Updated (conf : Path) (dev : Slot → Ino) (img : List Byte) (x : Site) (m : Machine) : Prop where
  layout : ∃ boot, Layout m.disk conf boot dev
  named : x.BootsInto conf x.running → ∃ u, m.disk.text conf = some u ∧ Configured u x.running.other
  target : m.disk.text x.running.other.dev = (x.disk.text x.running.other.dev).map (overlay img)
  kind : ∀ s, (m.disk.node (dev s)).kind = (x.disk.node (dev s)).kind
  said : writeComplete ∈ m.err

/-- The slot a run has detected is the running one. -/
theorem Site.own {x : Site} {env : Env} {args : Args} {active : Slot} {text : Text} {c : Course}
    (detected : detectActiveSlotFromCmdline x.cmdline = some x.running) (whole : env.cmdline.failsAt = none)
    (start : Starts env args ⟨x.cmdline, x.disk, []⟩ active text c) : active = x.running := by
  have own := start.detected
  rw [TextRead.cut, whole] at own
  exact Option.some.inj (own.symm.trans detected)

theorem Site.updated {x : Site} {env : Env} {args : Args} {img : List Byte} {m : Machine} {boot : Ino}
    {dev : Slot → Ino} (layout : Layout x.disk args.bootconf boot dev)
    (detected : detectActiveSlotFromCmdline x.cmdline = some x.running) (whole : env.cmdline.failsAt = none)
    (image : Unchanged env img) (switched : Switched env args ⟨x.cmdline, x.disk, []⟩ m) :
    x.Updated args.bootconf dev img m := by
  obtain ⟨active, text, c, start, committed⟩ := switched
  obtain rfl := own detected whole start
  obtain ⟨here, target, read⟩ := start.layout layout
  have shown := Course.after_of_flushed committed.disk
  obtain ⟨conf, written⟩ := shown.switched here target
  rw [start.conf] at conf
  rw [start.disk, start.image, image.whole committed.drained] at written
  refine ⟨⟨c.temp, start.conf ▸ here.after shown⟩, ?_, written, fun s => ?_, committed.said⟩
  · rintro ⟨t, found, configured⟩
    rw [layout.text, Option.some.injEq] at found
    obtain ⟨n, cut⟩ := env.bootconf.cut_eq_take text
    have edited := start.updated
    rw [cut, read, found] at edited
    exact ⟨_, conf, configured.update edited⟩
  · rw [shown.kind _ (here.ne_temp s).symm, start.disk]

/-- What is added to the complete images by a copy that ran to its end. -/
theorem Site.complete_after {x : Site} (img : List Byte) {old : List Byte} {m : Machine} (said : writeComplete ∈ m.err)
    (target : x.disk.text x.running.other.dev = some old) :
    (x.after img m).complete = overlay img old :: x.complete := by
  simp [after, said, target]

/-- A run whose target is not the slot that the boot config names. -/
theorem Site.Sound.run {conf : Path} {x y : Site} (h : x.Sound conf) (step : RunStep conf x y)
    (named : x.BootsInto conf x.running) : y.Sound conf := by
  obtain @⟨env, argv, args, img, supply, accepted, wet, rfl, image, whole⟩ := step
  obtain ⟨boot, dev, layout⟩ := h.layout
  have leaves := main_leaves env ⟨x.cmdline, x.disk, []⟩ accepted wet supply
  generalize (main env argv ⟨supply, ⟨x.cmdline, x.disk, []⟩⟩).2.now = m at leaves ⊢
  rcases leaves with (same | ⟨active, text, c, start, pending⟩) | switched
  · change m.disk = x.disk at same
    obtain ⟨s, names, content, mem, found⟩ := h.bootable
    refine ⟨⟨boot, dev, ?_⟩, h.detected, s, ?_, content, subset_after mem, ?_⟩
    · show Layout m.disk _ _ _
      rwa [same]
    · show ∃ t, m.disk.text _ = some t ∧ Configured t s
      rwa [same]
    · exact (congrArg (Disk.text · s.dev) same).trans found
  · obtain rfl := own h.detected whole start
    obtain ⟨here, target, -⟩ := start.layout layout
    obtain ⟨conf, kept⟩ := pending.before.kept here target
    rw [start.conf, start.disk] at conf
    rw [start.disk] at kept
    obtain ⟨s, names, content, mem, found⟩ := h.bootable
    obtain rfl := names.unique named
    refine ⟨⟨boot, dev, start.conf ▸ here.before pending.before⟩, h.detected, x.running, ?_, content, subset_after mem,
      kept.trans found⟩
    show ∃ t, m.disk.text _ = some t ∧ Configured t x.running
    rwa [conf]
  · have updated := updated layout h.detected whole image switched
    obtain ⟨boot', layout'⟩ := updated.layout
    have old := layout.text_dev x.running.other
    have written := updated.target
    rw [old] at written
    exact ⟨⟨boot', dev, layout'⟩, h.detected, x.running.other, updated.named named, _,
      complete_after img updated.said old ▸ List.mem_cons_self, written⟩

/-- **History safety.** -/
theorem bootable_of_history {conf : Path} {x y : Site} (fresh : x.Fresh conf)
    (history : Relation.ReflTransGen (SettledStep conf) x y) : y.Bootable conf := by
  have sound : y.Sound conf := by
    induction history with
    | refl => exact fresh.sound
    | tail _ step ih =>
      rcases step with ⟨run, named⟩ | reboot
      · exact ih.run run named
      · exact ih.reboot reboot
  exact sound.bootable

/-! ## A run while the boot config names another slot -/

/-- The answers of a run whose copy fails after the first of two bytes `b`. -/
def tornEnv (b : Byte) : Env where
  statImage := .ok ⟨true, 2⟩
  reads := [.bytes [b, b] (Nat.le_add_left 2 (kBuf - 2))]
  targetWrites := [.wrote 1, .fail 5]

theorem unchanged_torn (b : Byte) : Unchanged (tornEnv b) [b, b] where
  size st h := by
    obtain rfl := Except.ok.inj h
    rfl
  part := by simp [tornEnv, delivered]
  whole _ := by simp [tornEnv, delivered]

/-- The copy leaves one byte on the target. -/
theorem stream_torn {d : Disk} {dev : Path} {t : Ino} {c : Text} {said : List Text} {image : Path} (b : Byte)
    (found : d.lookup dev = some t) (fits : d.Fits t 1) :
    streamWriteImageToBlock (tornEnv b) image dev ⟨none, ⟨c, d, said⟩⟩ =
      (.thrown (.writeTarget 5), ⟨none, ⟨c, d.put t 0 [b], said⟩⟩) := by
  simp [streamWriteImageToBlock, tornEnv, attempt, query, Machine.inode, found, copyLoop, writeLoop, write,
    Disk.writeResult, Disk.accepted, fits, Disk.put_nil]

/-- The whole run. -/
theorem main_torn {x : Site} {conf : Path} {boot : Ino} {dev : Slot → Ino} {u : Text} (b : Byte)
    (layout : Layout x.disk conf boot dev) (detected : detectActiveSlotFromCmdline x.cmdline = some x.running)
    (block : (x.disk.node (dev x.running.other)).kind = .block)
    (room : 2 ≤ (x.disk.data (dev x.running.other)).length)
    (edited : updateExtlinuxRootPartlabel (x.disk.data boot) x.running.other.label = .ok u) :
    (main (tornEnv b) (confArgv conf) ⟨none, ⟨x.cmdline, x.disk, []⟩⟩).2.now.disk =
      x.disk.put (dev x.running.other) 0 [b] := by
  have fits : x.disk.Fits (dev x.running.other) 1 := fun _ => by omega
  have small : ¬ (x.disk.data (dev x.running.other)).length < 2 ∧ ¬ (x.disk.data (dev x.running.other)).length ≤ 1 := by
    omega
  have stat : (tornEnv b).statImage = .ok ⟨true, 2⟩ := rfl
  have euid : (tornEnv b).euid = 0 := rfl
  have texts : (tornEnv b).cmdline = {} ∧ (tornEnv b).bootconf = {} := ⟨rfl, rfl⟩
  have sizes : (tornEnv b).openSize = none ∧ (tornEnv b).ioctlSize = none := ⟨rfl, rfl⟩
  simp [main, mainBody, parse_confArgv, confArgs, readTextFile, attempt, query, Machine.content, TextRead.cut,
    detected, runUpdate, buildPlan_eq, say, fileSizeBytes, blockDeviceSizeBytes, Machine.inode, layout.devices,
    Machine.blockSize, block, small, layout.onDisk, layout.boots, edited, install,
    stream_torn b (layout.devices _) fits, stat, euid, texts, sizes]

/-- A run that starts while the boot config names its target may leave a torn image there. -/
theorem unsettled_run_tears {x : Site} {conf : Path} {boot : Ino} {dev : Slot → Ino} (b : Byte)
    (layout : Layout x.disk conf boot dev) (detected : detectActiveSlotFromCmdline x.cmdline = some x.running)
    (block : (x.disk.node (dev x.running.other)).kind = .block)
    (room : 2 ≤ (x.disk.data (dev x.running.other)).length) (named : x.BootsInto conf x.running.other) :
    ∃ y, RunStep conf x y ∧ y.BootsInto conf x.running.other ∧
      y.complete ⊆ overlay [b, b] (x.disk.data (dev x.running.other)) :: x.complete ∧
      y.disk.text x.running.other.dev = some (overlay [b] (x.disk.data (dev x.running.other))) := by
  obtain ⟨t, found, configured⟩ := named
  rw [layout.text, Option.some.injEq] at found
  subst found
  have edited := update_of_names x.running.other ((names_cases _).2 (.inl configured.names))
  have torn := main_torn b layout detected block room edited
  refine ⟨_, .run [b, b] none (parse_confArgv conf) rfl rfl (unchanged_torn b) rfl, ⟨_, ?_, configured⟩, ?_, ?_⟩
  · show (main _ _ _).2.now.disk.text conf = _
    rw [torn, Disk.text, Disk.lookup_put, layout.boots, Option.map_some, Disk.data_put_ne _ (layout.boot_ne _).symm]
  · unfold Site.after
    dsimp only
    split
    · rw [layout.text_dev]
      exact List.Subset.refl _
    · exact List.subset_cons_self _ _
  · show (main _ _ _).2.now.disk.text x.running.other.dev = _
    rw [torn, Disk.text, Disk.lookup_put, layout.devices, Option.map_some, Disk.data_put_start]

/-- A machine that runs from slot A, which holds a complete image. -/
def siteA : Site := ⟨Slot.A.rootArg, Disk.flashed Slot.A.rootArg fun _ => [0, 0], .A, [[0, 0]]⟩

theorem layout_siteA : Layout siteA.disk bootconfPath 0 Slot.ino := layout_flashed Slot.A.rootArg fun _ => [0, 0]

theorem fresh_siteA : siteA.Fresh bootconfPath where
  layout := ⟨0, Slot.ino, layout_siteA⟩
  named := ⟨Slot.A.rootArg, layout_siteA.text, by decide⟩
  detected := by decide
  complete := ⟨[0, 0], List.mem_singleton_self _, layout_siteA.text_dev .A⟩

/-- The answers of a run in which the image `[1, 1]` is installed. -/
def wholeEnv : Env where
  statImage := .ok ⟨true, 2⟩
  reads := [.bytes [1, 1] (Nat.le_add_left 2 (kBuf - 2))]

theorem unchanged_whole : Unchanged wholeEnv [1, 1] where
  size st h := by
    obtain rfl := Except.ok.inj h
    rfl
  part := by decide
  whole _ := by decide

theorem ready_siteA : Ready wholeEnv (confArgs bootconfPath) ⟨siteA.cmdline, siteA.disk, []⟩ :=
  layout_siteA.ready
    ⟨⟨rfl, rfl, by decide, nofun, rfl, rfl, nofun, rfl, rfl⟩, rfl, rfl, rfl, rfl, rfl⟩ (detect_rootArg .A) rfl
    (leftover_flashed _ _) rfl rfl (by decide) (by decide) (update_rootArg .A)

/-- A second run before the reboot of the first one tears the slot that the boot config names. -/
theorem not_bootable_second_run :
    ¬ ∀ conf x y, x.Fresh conf → Relation.ReflTransGen (HistoryStep conf) x y → y.Bootable conf := by
  intro safe
  have parsed := parse_confArgv bootconfPath
  obtain ⟨-, switched⟩ := main_ready parsed rfl ready_siteA
  have updated := Site.updated (x := siteA) layout_siteA (by decide) rfl unchanged_whole switched
  have first : RunStep bootconfPath siteA (siteA.after [1, 1] _) :=
    .run [1, 1] none parsed rfl rfl unchanged_whole rfl
  have content := updated.target
  have complete := Site.complete_after [1, 1] updated.said (layout_siteA.text_dev .B)
  obtain ⟨boot, layout⟩ := updated.layout
  obtain ⟨u, conf, configured⟩ := updated.named fresh_siteA.named
  have block := (updated.kind .B).trans rfl
  generalize (main wholeEnv (confArgv bootconfPath) ⟨none, ⟨siteA.cmdline, siteA.disk, []⟩⟩).2.now = m at *
  -- slot B holds the image of the first run
  change m.disk.text Slot.B.dev = (siteA.disk.text Slot.B.dev).map (overlay [1, 1]) at content
  rw [layout.text_dev, layout_siteA.text_dev, Option.map_some, Option.some.injEq] at content
  have ones : m.disk.data Slot.B.ino = [1, 1] := content.trans (by decide)
  obtain ⟨y, second, named, subset, torn⟩ := unsettled_run_tears (x := siteA.after [1, 1] m) 2 layout
    fresh_siteA.detected block
    (by
      show 2 ≤ (m.disk.data Slot.B.ino).length
      rw [ones]
      decide) ⟨u, conf, configured⟩
  obtain ⟨s, names, image, mem, found⟩ := safe bootconfPath siteA y fresh_siteA
    (.tail (.single (.inl first)) (.inl second))
  obtain rfl := names.unique named
  change y.disk.text Slot.B.dev = some (overlay [2] (m.disk.data Slot.B.ino)) at torn
  obtain rfl := Option.some.inj (torn.symm.trans found)
  have known := subset mem
  rw [complete] at known
  change overlay [2] (m.disk.data Slot.B.ino) ∈
    overlay [2, 2] (m.disk.data Slot.B.ino) :: [overlay [1, 1] [0, 0], [0, 0]] at known
  rw [ones] at known
  exact absurd known (by decide)

/-- The history of one run from slot A. -/
theorem bootable_of_history_first_run :
    (siteA.after [1, 1] (main wholeEnv (confArgv bootconfPath) ⟨none, ⟨siteA.cmdline, siteA.disk, []⟩⟩).2.now).Bootable
      bootconfPath :=
  bootable_of_history fresh_siteA (.single (.inl
    ⟨.run [1, 1] none (parse_confArgv bootconfPath) rfl rfl unchanged_whole rfl, fresh_siteA.named⟩))

end OtaBridge.Apply
