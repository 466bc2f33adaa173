import OtaBridge.Apply.Layout

/-!
# What is validated and what is installed

`fileSizeBytes` asks for the size of the image before the copy, and the copy loop takes the first
end of the file it meets for the end of the image. Whatever the reads deliver up to there is
installed, so the size that was compared with the device's is the size of what is installed only
if the reads deliver just as many bytes.
-/

namespace OtaBridge.Apply

open Logic.Crash

/-- A run on `m` that came to an end switched the boot config only after `size` bytes. -/
structure Validated (env : Env) (args : Args) (m m' : Machine) (code : Nat) (size : Nat) : Prop where
  success : code = 0 → ∃ active t, detectActiveSlotFromCmdline (env.cmdline.cut m.cmdline) = some active ∧
    m.disk.lookup (buildPlan active).targetDev = some t ∧
    (m'.disk.node t).written = (m.disk.node t).written + size
  failure : code ≠ 0 → m'.disk.text args.bootconf = m.disk.text args.bootconf

/-- Whatever the machine, the other answers and the arguments are: what is validated is installed. -/
def InstallsValidated (st : Stat) (reads : List (ReadAnswer kBuf)) : Prop :=
  ∀ env args argv m boot dev code, env.statImage = .ok st → env.reads = reads → parseArgs argv = .args args →
    args.dryRun = false → Layout m.disk args.bootconf boot dev → (main env argv ⟨none, m⟩).1 = .returned code →
    Validated env args m (main env argv ⟨none, m⟩).2.now code st.size

/-- A run that stopped before the rename left the boot config alone. -/
theorem Stopped.text {env : Env} {args : Args} {m : Machine} {d : Disk} {boot : Ino} {dev : Slot → Ino}
    (h : Stopped env args m d) (layout : Layout m.disk args.bootconf boot dev) :
    d.text args.bootconf = m.disk.text args.bootconf := by
  rcases h with rfl | ⟨active, text, c, start, pending⟩
  · rfl
  · obtain ⟨here, target, -⟩ := start.layout layout
    rw [← start.conf, ← start.disk]
    exact (pending.before.kept here target).1

/-- A run that switched has written to the target what the reads delivered. -/
theorem Switched.written {env : Env} {args : Args} {m m' : Machine} {boot : Ino} {dev : Slot → Ino}
    (h : Switched env args m m') (layout : Layout m.disk args.bootconf boot dev) :
    ∃ active t, detectActiveSlotFromCmdline (env.cmdline.cut m.cmdline) = some active ∧
      m.disk.lookup (buildPlan active).targetDev = some t ∧
      (m'.disk.node t).written = (m.disk.node t).written + (delivered env.reads).length := by
  obtain ⟨active, text, c, start, committed⟩ := h
  obtain ⟨here, target, -⟩ := start.layout layout
  have apart : c.target ≠ c.temp := by
    rw [target]
    exact (here.ne_temp active.other).symm
  refine ⟨active, c.target, start.detected, ?_, ?_⟩
  · rw [buildPlan_eq]
    exact start.target
  · rw [committed.disk.written, Course.written_committed apart, start.image, start.disk]

/-- A machine that runs from slot A, with two devices of `n` bytes. -/
def machineA (n : Nat) : Machine where
  cmdline := Slot.A.rootArg
  disk := Disk.flashed Slot.A.rootArg fun _ => List.replicate n 0
  err := []

theorem layout_machineA (n : Nat) : Layout (machineA n).disk bootconfPath 0 Slot.ino :=
  layout_flashed Slot.A.rootArg fun _ => List.replicate n 0

/-- Nothing fails when the sizes fit and the reads reach an end. -/
theorem ready_machineA {n : Nat} {st : Stat} {reads : List (ReadAnswer kBuf)} (regular : st.regular = true)
    (small : st.size ≤ n) (fits : (delivered reads).length ≤ n) (drained : readError reads = none) :
    Ready { statImage := .ok st, reads := reads } (confArgs bootconfPath) (machineA n) := by
  have len : ((machineA n).disk.data Slot.B.ino).length = n := List.length_replicate
  refine (layout_machineA n).ready ⟨⟨rfl, rfl, drained, nofun, rfl, rfl, nofun, rfl, rfl⟩, rfl, rfl, rfl, rfl, rfl⟩
    (detect_rootArg .A) rfl (leftover_flashed _ _) rfl regular ?_ ?_ (update_rootArg .A)
  · rwa [← len] at small
  · rwa [← len] at fits

/-- A run on which nothing else fails shows what the reads must deliver. -/
theorem InstallsValidated.delivered {st : Stat} {reads : List (ReadAnswer kBuf)} (h : InstallsValidated st reads)
    (regular : st.regular = true) (drained : readError reads = none) : (delivered reads).length = st.size := by
  have ready := ready_machineA regular (Nat.le_max_left st.size (Apply.delivered reads).length)
    (Nat.le_max_right st.size (Apply.delivered reads).length) drained
  have layout := layout_machineA (max st.size (Apply.delivered reads).length)
  obtain ⟨ended, switched⟩ := main_ready (parse_confArgv bootconfPath) rfl ready
  have validated := h _ _ _ _ 0 Slot.ino 0 rfl rfl (parse_confArgv bootconfPath) rfl layout ended
  obtain ⟨active, t, detected, target, streamed⟩ := switched.written layout
  obtain ⟨active', t', detected', target', size⟩ := validated.success rfl
  obtain rfl := Option.some.inj (detected.symm.trans detected')
  obtain rfl := Option.some.inj (target.symm.trans target')
  exact Nat.add_left_cancel (streamed.symm.trans size)

/-- **When what is validated is what is installed.** -/
theorem installs_validated_iff (st : Stat) (reads : List (ReadAnswer kBuf)) :
    InstallsValidated st reads ↔
      (st.regular = true → readError reads = none → (delivered reads).length = st.size) := by
  refine ⟨fun h => h.delivered, ?_⟩
  rintro h env args argv m boot dev code stat rfl accepted wet layout ended
  obtain ⟨code', ended', outcome⟩ := main_end env m accepted wet
  obtain rfl := Outcome.returned.inj (ended.symm.trans ended')
  rcases outcome with ⟨rfl, switched⟩ | ⟨nonzero, stopped, -⟩
  · refine ⟨fun _ => ?_, fun no => absurd rfl no⟩
    obtain ⟨active, t, detected, target, streamed⟩ := switched.written layout
    obtain ⟨_, _, c, start, committed⟩ := switched
    obtain ⟨st', stat', regular, -⟩ := start.validated
    obtain rfl := Except.ok.inj (stat.symm.trans stat')
    exact ⟨active, t, detected, target, by rw [streamed, h regular committed.drained]⟩
  · exact ⟨fun zero => absurd zero nonzero, fun _ => stopped.text layout⟩

/-- An image that is emptied after the size check is installed as nothing. -/
theorem not_installs_validated_emptied : ¬ InstallsValidated ⟨true, 1⟩ [] := by
  intro h
  have same := h.delivered rfl rfl
  exact absurd same (by decide)

end OtaBridge.Apply
