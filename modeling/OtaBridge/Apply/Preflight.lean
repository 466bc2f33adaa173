import OtaBridge.Apply.History
import OtaBridge.Logic.Simulation

/-!
# Dry runs

With `--dry-run` the program stops where it would begin to write. So a dry run never touches the disk,
what it does when it does not succeed is what the same run without the option does, and it succeeds
exactly if all checks before the first write pass (`dry_run_predicts`). The checks leave out whatever
`install` asks for.
-/

namespace OtaBridge.Apply

open Logic.Crash

/-! ## The option -/

def dryRunArgv (argv : List Text) : List Text := argv ++ [ascii "--dry-run"]

theorem parseLoop_append {l : List Text} {a b : Args} (accepted : parseLoop l a = .args b) :
    parseLoop (l ++ [ascii "--dry-run"]) a = .args { b with dryRun := true } := by
  have last : ∀ c : Args, parseLoop [ascii "--dry-run"] c = .args { c with dryRun := true } := fun c => by
    rw [parseLoop, if_neg (by decide), if_neg (by decide), if_pos rfl]
    rfl
  fun_induction parseLoop l a with
  | case1 a =>
    obtain rfl : a = b := by simpa using accepted
    exact last a
  | case2 => cases accepted
  | case3 a v rest ih =>
    rw [List.cons_append, List.cons_append, parseLoop, if_pos rfl]
    exact ih accepted
  | case4 => cases accepted
  | case5 a v rest image ih =>
    rw [List.cons_append, List.cons_append, parseLoop, if_neg image, if_pos rfl]
    exact ih accepted
  | case6 rest a image bootconf ih =>
    rw [List.cons_append, parseLoop.eq_def]
    simp only [if_neg image, if_neg bootconf, ↓reduceIte]
    exact ih accepted
  | case7 => cases accepted
  | case8 => cases accepted

/-- The option at the end changes nothing else. -/
theorem parse_dryRunArgv {argv : List Text} {args : Args} (accepted : parseArgs argv = .args args) :
    parseArgs (dryRunArgv argv) = .args { args with dryRun := true } := by
  cases argv with
  | nil =>
    have missing : parseArgs [] = .throw .missingImage := by decide
    cases missing.symm.trans accepted
  | cons name rest =>
    unfold parseArgs at accepted ⊢
    rw [List.drop_one, List.tail_cons] at accepted
    rw [dryRunArgv, List.cons_append, List.drop_one, List.tail_cons]
    split at accepted
    · next a parsed =>
      split at accepted
      · cases accepted
      · next given =>
        obtain rfl : a = args := by simpa using accepted
        rw [parseLoop_append parsed]
        exact if_neg given
    · next other => exact absurd accepted (other args)

/-! ## What a dry run shows -/

/-- Everything that is checked before the first write. -/
structure Passes (env : Env) (args : Args) (m : Machine) : Prop where
  euid : env.euid = 0
  openSize : env.openSize = none
  ioctlSize : env.ioctlSize = none
  starts : ∃ active text c, Starts env args m active text c

/-- A call that returned did not fail. -/
theorem error_of_returned {α : Type} {error : Option Errno} {answer : Machine → Except Errno α} {fail : Errno → Error}
    {s : Powered Machine} {a : α} (returned : (attempt (query error answer) fail s).1 = .returned a) : error = none := by
  cases error with
  | none => rfl
  | some e =>
    obtain ⟨r, s', asked, ended⟩ := Prog.bind_returned returned
    obtain ⟨_ | _ | n, now⟩ := s <;> cases asked <;> cases ended

theorem answers_of_returned {env : Env} {dev : Path} {s : Powered Machine} {n : Nat}
    (returned : (blockDeviceSizeBytes env dev s).1 = .returned n) : env.openSize = none ∧ env.ioctlSize = none := by
  obtain ⟨fd, s', opened, sized⟩ := Prog.bind_returned returned
  exact ⟨error_of_returned (congrArg Prod.fst opened), error_of_returned sized⟩

section DryRun

variable {steady : Bool} {env : Env} {args : Args} {m₀ : Machine} {active : Slot}

/-- Steps 2 and 3 of a dry run. -/
theorem runUpdate_dry (dry : args.dryRun = true) (user : env.euid = 0) (opened : env.cmdline.openError = none)
    (detected : detectActiveSlotFromCmdline (env.cmdline.cut m₀.cmdline) = some active) :
    Triple steady (Same m₀) (runUpdate env args active)
      (fun code m => Same m₀ m ∧ (code = 0 ↔ Passes env args m₀)) (fun _ m => Same m₀ m ∧ ¬ Passes env args m₀)
      (Same m₀) := by
  -- a run that passes has detected the same slot
  have same : ∀ {active' text c}, Starts env args m₀ active' text c → active' = active :=
    fun start => Option.some.inj (start.detected.symm.trans detected)
  unfold runUpdate
  rw [buildPlan_eq]
  refine Triple.bind say_same fun _ => Triple.bind say_same fun _ => ?_
  refine Triple.bind_fact (fileSizeBytes_spec (fun _ => id) fun bad (e : Error) m h => ⟨h, ?_⟩) fun imgBytes stat => ?_
  · rintro ⟨-, -, -, _, _, c, start⟩
    obtain ⟨st, ok, regular, -⟩ := start.validated
    exact bad ⟨st, ok, regular⟩
  obtain ⟨st, ok, regular, rfl⟩ := stat
  have refused : ¬ (env.openSize = none ∧ env.ioctlSize = none ∧
      ∃ i, m₀.disk.lookup active.other.dev = some i ∧ (m₀.disk.node i).kind = .block) → ¬ Passes env args m₀ := by
    rintro bad ⟨-, openSize, ioctlSize, _, _, c, start⟩
    obtain rfl := same start
    exact bad ⟨openSize, ioctlSize, c.target, start.target, start.block⟩
  refine Triple.bind_fact ((blockDeviceSizeBytes_spec (fun _ => id) fun bad (e : Error) m h => ⟨h, refused bad⟩).with_fact
    fun _ _ => answers_of_returned) fun devBytes dev => ?_
  obtain ⟨⟨target, found, block, rfl⟩, openSize, ioctlSize⟩ := dev
  refine Triple.bind say_same fun _ => Triple.bind say_same fun _ => ?_
  split
  · next large =>
    refine Triple.bind say_same fun _ => Triple.pure fun m h => ⟨h, fun no => absurd no (by decide), ?_⟩
    rintro ⟨-, -, -, _, _, c, start⟩
    obtain rfl := same start
    obtain ⟨st', ok', -, small⟩ := start.validated
    obtain rfl := Except.ok.inj (ok.symm.trans ok')
    rw [← Option.some.inj (found.symm.trans start.target)] at small
    omega
  next small =>
  refine Triple.bind_fact (readTextFile_spec (fun _ => id) fun bad (e : Error) m h => ⟨h, ?_⟩) fun extlinux read => ?_
  · rintro ⟨-, -, -, _, text, c, start⟩
    exact bad ⟨start.opened.2, text, start.content⟩
  obtain ⟨opened', text, content, rfl⟩ := read
  split
  · next e wrong =>
    refine Triple.throw fun m h => ⟨h, ?_⟩
    rintro ⟨-, -, -, _, text', c, start⟩
    obtain rfl := same start
    obtain rfl := Except.ok.inj (content.symm.trans start.content)
    rw [start.updated] at wrong
    cases wrong
  next updated right =>
  refine Triple.bind say_same fun _ => Triple.pure fun m h => ⟨h, fun _ => ?_, fun _ => rfl⟩
  exact ⟨user, openSize, ioctlSize, active, text, ⟨m₀.disk, target, delivered env.reads, args.bootconf, updated⟩,
    ⟨detected, found, block, ⟨st, ok, regular, Nat.not_lt.1 small⟩, content, right, rfl, rfl, rfl, opened, opened'⟩⟩

/-- A dry run leaves the disk alone, and its status tells whether the checks pass. -/
theorem main_dry {argv : List Text} (accepted : parseArgs argv = .args args) (dry : args.dryRun = true) :
    Triple steady (fun m => m = m₀) (main env argv)
      (fun code m => m.disk = m₀.disk ∧ (code = 0 ↔ Passes env args m₀)) (fun _ _ => False)
      (fun m => m.disk = m₀.disk) := by
  let thrown : Error → Machine → Prop := fun _ m => Same m₀ m ∧ ¬ Passes env args m₀
  have body : Triple steady (Same m₀) (mainBody env argv)
      (fun code m => Same m₀ m ∧ (code = 0 ↔ Passes env args m₀)) thrown (Same m₀) := by
    unfold mainBody
    split
    · next user =>
      refine Triple.bind say_same fun _ => Triple.pure fun m h => ⟨h, fun no => absurd no (by decide), ?_⟩
      exact fun passes => absurd passes.euid user
    next user =>
    rw [accepted]
    refine Triple.bind_fact (readTextFile_spec (fun _ => id) fun bad (e : Error) m h => ⟨h, ?_⟩) fun cmdline read => ?_
    · rintro ⟨-, -, -, _, _, _, start⟩
      exact bad ⟨start.opened.1, m₀.cmdline, if_pos rfl⟩
    obtain ⟨opened, text, content, rfl⟩ := read
    obtain rfl : m₀.cmdline = text := Except.ok.inj ((if_pos rfl).symm.trans content)
    split
    · next none =>
      refine Triple.bind say_same fun _ => Triple.pure fun m h => ⟨h, fun no => absurd no (by decide), ?_⟩
      rintro ⟨-, -, -, _, _, _, start⟩
      rw [start.detected] at none
      cases none
    · next active detected => exact runUpdate_dry dry (not_not.1 user) opened detected
  refine Triple.tryCatch ((body.conseq (fun m e => e ▸ ⟨rfl, rfl⟩) (fun _ m h => ⟨h.1.disk, h.2⟩) (fun _ _ => id)
    fun m h => h.disk)) fun e => ?_
  refine Triple.bind (Q := fun _ => thrown e) (Triple.modify fun m h => ⟨⟨h.1.cmdline, h.1.disk⟩, h.2⟩) fun _ =>
    Triple.pure fun m h => ⟨h.1.disk, fun no => absurd no (by decide), fun passes => absurd passes h.2⟩

/-! ## The same run without the option -/

/-- The checks do not look at the option. -/
theorem starts_dry {text : Text} {c : Course} : Starts env { args with dryRun := true } m₀ active text c ↔
    Starts env args m₀ active text c :=
  ⟨fun h => ⟨h.detected, h.target, h.block, h.validated, h.content, h.updated, h.disk, h.image, h.conf, h.opened⟩,
    fun h => ⟨h.detected, h.target, h.block, h.validated, h.content, h.updated, h.disk, h.image, h.conf, h.opened⟩⟩

theorem passes_dry : Passes env { args with dryRun := true } m₀ ↔ Passes env args m₀ := by
  constructor
  · rintro ⟨euid, openSize, ioctlSize, active, text, c, start⟩
    exact ⟨euid, openSize, ioctlSize, active, text, c, starts_dry.1 start⟩
  · rintro ⟨euid, openSize, ioctlSize, active, text, c, start⟩
    exact ⟨euid, openSize, ioctlSize, active, text, c, starts_dry.2 start⟩

theorem runUpdate_forecasts (env : Env) (args : Args) (active : Slot) :
    Forecasts 0 (runUpdate env { args with dryRun := true } active) (runUpdate env args active) := by
  unfold runUpdate
  refine .bind _ fun _ => .bind _ fun _ => .bind _ fun imgBytes => .bind _ fun devBytes => ?_
  refine .bind _ fun _ => .bind _ fun _ => ?_
  split
  · exact .refl _
  · refine .bind _ fun extlinux => ?_
    split
    · exact .refl _
    · exact fun _ => .inl rfl

theorem main_forecasts {argv : List Text} (accepted : parseArgs argv = .args args) :
    Forecasts 0 (main env (dryRunArgv argv)) (main env argv) := by
  refine Forecasts.tryCatch ?_ _
  unfold mainBody
  rw [accepted, parse_dryRunArgv accepted]
  split
  · exact .refl _
  · refine .bind _ fun cmdline => ?_
    split
    · exact .refl _
    · exact runUpdate_forecasts env args _

end DryRun

/-- What a dry run that gets `supply` system calls tells of the run without the option. -/
structure Predicts (env : Env) (args : Args) (m : Machine) (supply : Option Nat)
    (dry wet : Outcome Error Nat × Powered Machine) : Prop where
  untouched : dry.2.now.disk = m.disk
  same : dry.1 ≠ .returned 0 → wet = dry
  passes : dry.1 = .returned 0 → Passes env args m
  succeeds : supply = none → Passes env args m → dry.1 = .returned 0
  /-- Behind the checks only the installation can fail. -/
  installs : supply = none → dry.1 = .returned 0 → env.Smooth →
    (∀ active text c, Starts env args m active text c → c.Fitting) → wet.1 = .returned 0

/-- **What a dry run tells.** -/
theorem dry_run_predicts (env : Env) (m : Machine) (supply : Option Nat) {argv : List Text} {args : Args}
    (accepted : parseArgs argv = .args args) (wet : args.dryRun = false) :
    Predicts env args m supply (main env (dryRunArgv argv) ⟨supply, m⟩) (main env argv ⟨supply, m⟩) := by
  have leaves := (@main_dry false env _ m _ (parse_dryRunArgv accepted) rfl).ends ⟨supply, m⟩ rfl
  have passes : (main env (dryRunArgv argv) ⟨supply, m⟩).1 = .returned 0 → Passes env args m := by
    intro returned
    rcases leaves with ⟨code, ended, -, tells⟩ | ⟨_, _, no⟩ | ⟨lost, -⟩
    · obtain rfl := Outcome.returned.inj (ended.symm.trans returned)
      exact passes_dry.1 (tells.1 rfl)
    · exact no.elim
    · cases lost.symm.trans returned
  refine ⟨?_, fun failed => ?_, passes, ?_, ?_⟩
  · rcases leaves with ⟨_, _, same, -⟩ | ⟨_, _, no⟩ | ⟨-, same⟩
    · exact same
    · exact no.elim
    · exact same
  · rcases @main_forecasts env _ _ accepted ⟨supply, m⟩ with returned | same
    · exact absurd returned failed
    · exact same.symm
  · rintro rfl all
    rcases (@main_dry true env _ m _ (parse_dryRunArgv accepted) rfl).steady_end m rfl with
      ⟨code, ended, -, tells⟩ | ⟨_, _, no⟩
    · rw [ended, tells.2 (passes_dry.2 all)]
    · exact no.elim
  · rintro rfl returned smooth fits
    obtain ⟨euid, openSize, ioctlSize, active, text, c, start⟩ := passes returned
    exact (main_ready accepted wet ⟨⟨smooth, euid, start.opened.1, openSize, ioctlSize, start.opened.2⟩,
      active, text, c, start, fits active text c start⟩).1

/-- A dry run on a machine where the run succeeds. -/
theorem dry_run_predicts_siteA : Predicts wholeEnv (confArgs bootconfPath) ⟨siteA.cmdline, siteA.disk, []⟩ none
    (main wholeEnv (dryRunArgv (confArgv bootconfPath)) ⟨none, ⟨siteA.cmdline, siteA.disk, []⟩⟩)
    (main wholeEnv (confArgv bootconfPath) ⟨none, ⟨siteA.cmdline, siteA.disk, []⟩⟩) :=
  dry_run_predicts wholeEnv ⟨siteA.cmdline, siteA.disk, []⟩ none (parse_confArgv bootconfPath) rfl

end OtaBridge.Apply
