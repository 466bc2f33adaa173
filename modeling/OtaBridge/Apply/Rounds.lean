import OtaBridge.Apply.Status

/-!
# Rounds of updates

An update is tried until it succeeds: runs that fail or lose power, restarts into the old slot, and in the
end a run in which nothing fails and the restart after it. What the attempts have written is written over,
and behind it nothing was touched, so a round ends as if there had been no attempt before
(`attempts_leave_no_trace`). From round to round the slots change places, and the one that does not run
holds what ran before (`rounds_install`).
-/

namespace OtaBridge.Apply

open Logic.Crash Logic.Journal Logic.Systems

/-- What the owner of a machine sees between two rounds. -/
structure Slots where
  running : Slot
  holds : Slot → List Byte

/-- The image goes over what the other slot holds, and that slot runs next. -/
def Slots.install (b : Slots) (img : List Byte) : Slots where
  running := b.running.other
  holds := Function.update b.holds b.running.other (overlay img (b.holds b.running.other))

/-- A run at an image of at most `k` bytes that starts while the boot config names the running slot, whatever
becomes of it, or a restart into the same slot. -/
inductive Attempt (conf : Path) (k : Nat) (x : Site) : Site → Prop where
  | run {env : Env} {argv : List Text} {args : Args} (img : List Byte) (supply : Option Nat)
    (accepted : parseArgs argv = .args args) (wet : args.dryRun = false) (bootconf : args.bootconf = conf)
    (image : Unchanged env img) (whole : env.cmdline.failsAt = none) (named : x.BootsInto conf x.running)
    (small : img.length ≤ k) : Attempt conf k x (x.after img (main env argv ⟨supply, ⟨x.cmdline, x.disk, []⟩⟩).2.now)
  | restart {y : Site} (step : Restart conf x y) (same : y.running = x.running) : Attempt conf k x y

/-- Attempts at an image, a run in which nothing fails, and a restart. -/
inductive Round (conf : Path) (img : List Byte) (x : Site) : Site → Prop where
  | round {y z : Site} {env : Env} {argv : List Text} {args : Args} {old : List Byte}
    (attempts : Relation.ReflTransGen (Attempt conf img.length) x y) (named : y.BootsInto conf y.running)
    (accepted : parseArgs argv = .args args) (wet : args.dryRun = false) (bootconf : args.bootconf = conf)
    (content : x.disk.text x.running.other.dev = some old) (fine : env.Fine img old)
    (restart : Restart conf (y.after img (main env argv ⟨none, ⟨y.cmdline, y.disk, []⟩⟩).2.now) z) : Round conf img x z

inductive Rounds (conf : Path) : List (List Byte) → Site → Site → Prop where
  | nil (x : Site) : Rounds conf [] x x
  | cons {img : List Byte} {imgs : List (List Byte)} {x y z : Site} (round : Round conf img x y)
    (rest : Rounds conf imgs y z) : Rounds conf (img :: imgs) x z

/-! ## Behind the image -/

/-- The bytes `w` are `v` but for the first `k`. -/
structure Behind (k : Nat) (v w : List Byte) : Prop where
  length : w.length = v.length
  rest : w.drop k = v.drop k

namespace Behind

variable {k : Nat} {v w img : List Byte}

theorem refl (k : Nat) (v : List Byte) : Behind k v v := ⟨rfl, rfl⟩

/-- What is written in front makes no difference. -/
theorem put (h : Behind k v w) {op : Edit Byte} (room : k ≤ v.length) (small : img.length ≤ k) (mem : op ∈ puts 0 img) :
    Behind k v (Update.apply op w) := by
  obtain ⟨j, a, rfl, lt⟩ := exists_of_mem_puts mem
  have inside : j < w.length := by
    rw [h.length]
    omega
  have applied : Update.apply (Edit.put j a) w = w.set j a := if_pos inside
  rw [applied]
  refine ⟨List.length_set.trans h.length, ?_⟩
  rw [List.drop_set_of_lt (by omega), h.rest]

/-- An image that is longer covers it. -/
theorem overlay_eq (h : Behind k v w) (le : k ≤ img.length) : overlay img w = overlay img v := by
  have rest := congrArg (List.drop (img.length - k)) h.rest
  rw [List.drop_drop, List.drop_drop, Nat.add_sub_cancel' le] at rest
  rw [overlay, overlay, rest]

end Behind

/-! ## Attempts -/

section Attempts

variable {conf : Path} {dev : Slot → Ino} {k : Nat} {x y : Site} {a : Device} {img : List Byte}

theorem Attempt.outage (step : Attempt conf k x y) : OutageStep conf x y := by
  cases step with
  | run img supply accepted wet bootconf image whole named small =>
    exact .inl ⟨.run img supply accepted wet bootconf image whole, named⟩
  | restart step same => exact .inr step

/-- What is true of a slot after a run. -/
theorem Mirrors.always (h : Mirrors conf dev x a) (supply : Option Nat) (named : x.BootsInto conf x.running) {env : Env}
    {argv : List Text} {args : Args} (accepted : parseArgs argv = .args args) (wet : args.dryRun = false)
    (bootconf : args.bootconf = conf) (image : Unchanged env img) (whole : env.cmdline.failsAt = none) {s : Slot}
    {I : List Byte → Prop} (holds : x.disk.Always (dev s) I)
    (keep : s = x.running.other → ∀ op, op ∈ puts 0 img → ∀ v, I v → I (Update.apply op v)) :
    (main env argv ⟨supply, ⟨x.cmdline, x.disk, []⟩⟩).2.now.disk.Always (dev s) I := by
  subst bootconf
  obtain ⟨-, boot, t, rooted, -, -⟩ := h.settled named
  have course : ∀ active text c, Starts env args ⟨x.cmdline, x.disk, []⟩ active text c → c.disk.Always (dev s) I ∧
      (dev s = c.target → ∀ op, op ∈ puts 0 c.image → ∀ v, I v → I (Update.apply op v)) ∧ dev s ≠ c.temp := by
    intro active text c start
    obtain rfl := Site.own h.detected whole start
    obtain ⟨here, target, -⟩ := start.layout rooted.updatable.toLayout
    refine ⟨start.disk ▸ holds, fun e op mem => keep ?_ op (puts_subset (start.image ▸ image.part) mem),
      (here.ne_temp s).symm⟩
    by_contra ne
    obtain rfl : s = x.running := by
      by_contra other
      exact ne (Slot.eq_other_of_ne other)
    exact here.dev_ne _ (e.trans target)
  rcases main_leaves env ⟨x.cmdline, x.disk, []⟩ accepted wet supply with
    (same | ⟨active, text, c, start, pending⟩) | ⟨active, text, c, start, committed⟩
  · rwa [same]
  · obtain ⟨before, target, temp⟩ := course active text c start
    exact pending.always before target temp
  · obtain ⟨before, target, temp⟩ := course active text c start
    exact committed.disk.always (Course.always_committed before target temp)

/-- What attempts leave as it was. -/
structure Untouched (conf : Path) (dev : Slot → Ino) (k : Nat) (x y : Site) : Prop where
  mirrors : ∃ a, Mirrors conf dev y a
  running : y.running = x.running
  own : y.disk.Holds (dev x.running) (x.disk.data (dev x.running))
  rest : y.disk.Always (dev x.running.other) (Behind k (x.disk.data (dev x.running.other)))

theorem Untouched.attempt {z : Site} (room : k ≤ (x.disk.data (dev x.running.other)).length) (h : Untouched conf dev k x y)
    (step : Attempt conf k y z) : Untouched conf dev k x z := by
  obtain ⟨a, mirrors⟩ := h.mirrors
  obtain ⟨b, -, after⟩ := simulates conf dev y z a mirrors step.outage
  cases step with
  | run img supply accepted wet bootconf image whole named small =>
    refine ⟨⟨b, after⟩, h.running, ?_, ?_⟩
    · refine mirrors.always supply named accepted wet bootconf image whole h.own fun other => ?_
      exact absurd other (h.running ▸ x.running.other_ne.symm)
    · refine mirrors.always supply named accepted wet bootconf image whole h.rest fun _ op mem v behind => ?_
      exact behind.put room small mem
  | restart step same =>
    have survivors := step
    obtain ⟨survives⟩ := survivors
    exact ⟨⟨b, after⟩, same.trans h.running, h.own.restart survives, h.rest.restart survives⟩

theorem Untouched.attempts (room : k ≤ (x.disk.data (dev x.running.other)).length) (start : Untouched conf dev k x x)
    (attempts : Relation.ReflTransGen (Attempt conf k) x y) : Untouched conf dev k x y :=
  invariant_run (fun _ _ h => h.attempt room) start attempts

end Attempts

/-! ## Rounds -/

theorem Env.Fine.of_length {env : Env} {img old old' : List Byte} (h : env.Fine img old)
    (same : old'.length = old.length) : env.Fine img old' :=
  { h with room := same ▸ h.room }

/-- The machine has just started, and its slots are what is seen. -/
structure Steady (conf : Path) (dev : Slot → Ino) (x : Site) (b : Slots) : Prop where
  mirrors : ∃ a, Mirrors conf dev x a
  named : x.BootsInto conf x.running
  running : x.running = b.running
  holds : ∀ s, x.disk.Holds (dev s) (b.holds s)

section Rounds

variable {conf : Path} {dev : Slot → Ino} {x y z : Site} {b : Slots} {img old : List Byte}

theorem Steady.text (h : Steady conf dev x b) (s : Slot) : x.disk.text s.dev = some (b.holds s) := by
  obtain ⟨a, mirrors⟩ := h.mirrors
  obtain ⟨-, boot, t, rooted, -⟩ := mirrors.settled h.named
  rw [rooted.updatable.toLayout.text_dev, (h.holds s).view]

theorem Steady.untouched (h : Steady conf dev x b) (k : Nat) : Untouched conf dev k x x where
  mirrors := h.mirrors
  running := rfl
  own := by
    rw [(h.holds _).view]
    exact h.holds _
  rest v survives := by
    rw [h.holds _ v survives, (h.holds _).view]
    exact .refl k _

/-- The run that ends a round, and what it finds. -/
structure Finishes (conf : Path) (dev : Slot → Ino) (img old : List Byte) (x y : Site)
    (run : Outcome Error Nat × Powered Machine) : Prop where
  untouched : Untouched conf dev img.length x y
  status : run.1 = .returned 0
  updated : y.Updated conf dev img run.2.now
  target : run.2.now.disk.text x.running.other.dev = some (overlay img old)
  own : run.2.now.disk.data (dev x.running) = x.disk.data (dev x.running)

theorem Steady.finishes (h : Steady conf dev x b) (attempts : Relation.ReflTransGen (Attempt conf img.length) x y)
    (named : y.BootsInto conf y.running) {env : Env} {argv : List Text} {args : Args}
    (accepted : parseArgs argv = .args args) (wet : args.dryRun = false) (bootconf : args.bootconf = conf)
    (content : x.disk.text x.running.other.dev = some old) (fine : env.Fine img old) :
    Finishes conf dev img old x y (main env argv ⟨none, ⟨y.cmdline, y.disk, []⟩⟩) := by
  have before : x.disk.data (dev x.running.other) = old := by
    rw [h.text, Option.some.injEq] at content
    rw [(h.holds _).view, content]
  have untouched := (h.untouched img.length).attempts (before ▸ fine.room) attempts
  obtain ⟨a, mirrors⟩ := untouched.mirrors
  obtain ⟨-, boot, t, rooted, -⟩ := mirrors.settled named
  have behind := untouched.rest.view
  rw [before] at behind
  have found := rooted.updatable.toLayout.text_dev y.running.other
  rw [untouched.running] at found
  obtain ⟨returned, updated⟩ := mirrors.succeeds named accepted wet bootconf (untouched.running ▸ found)
    (fine.of_length behind.length)
  have target := updated.target
  rw [untouched.running, found, Option.map_some, behind.overlay_eq le_rfl] at target
  refine ⟨untouched, returned, updated, target, ?_⟩
  have own := mirrors.always none named accepted wet bootconf fine.image fine.cmdlineWhole untouched.own fun other =>
    absurd other (untouched.running ▸ x.running.other_ne.symm)
  exact own.view

theorem Steady.round (h : Steady conf dev x b) (round : Round conf img x z) : Steady conf dev z (b.install img) := by
  obtain @⟨y, z, env, argv, args, old, attempts, named, accepted, wet, bootconf, content, fine, restart⟩ := round
  have finishes := h.finishes attempts named accepted wet bootconf content fine
  obtain ⟨a, mirrors⟩ := finishes.untouched.mirrors
  have ran : OutageStep conf y (y.after img (main env argv ⟨none, ⟨y.cmdline, y.disk, []⟩⟩).2.now) :=
    .inl ⟨.run img none accepted wet bootconf fine.image fine.cmdlineWhole, named⟩
  obtain ⟨a', -, ended⟩ := simulates conf dev y _ a mirrors ran
  obtain ⟨a'', -, after⟩ := simulates conf dev _ z a' ended (.inr restart)
  have boots := finishes.updated.boots named
  have target := finishes.target
  obtain ⟨boot, layout⟩ := finishes.updated.layout
  rw [layout.text_dev, Option.some.injEq] at target
  have starts := restart.named
  obtain ⟨survives, c, s, u, found, configured, detected⟩ := restart
  -- nothing is on its way after a success, so what survives is what is read
  obtain ⟨rfl, rfl⟩ := quiet_of_success accepted wet finishes.status _ _ survives
  obtain rfl := boots.unique ⟨u, found, configured⟩
  refine ⟨⟨a'', after⟩, starts, congrArg Slot.other (finishes.untouched.running.trans h.running), fun s => ?_⟩
  have holds : (b.install img).holds s = (main env argv ⟨none, ⟨y.cmdline, y.disk, []⟩⟩).2.now.disk.data (dev s) := by
    show Function.update b.holds b.running.other (overlay img (b.holds b.running.other)) s = _
    rw [← h.running]
    by_cases e : s = x.running
    · subst e
      rw [Function.update_of_ne x.running.other_ne.symm, finishes.own, (h.holds _).view]
    · rw [h.text, Option.some.injEq] at content
      rw [Slot.eq_other_of_ne e, Function.update_self, target, content]
  rw [holds]
  exact Cell.settled_flushed _

theorem Steady.rounds {imgs : List (List Byte)} (h : Steady conf dev x b) (rounds : Rounds conf imgs x z) :
    Steady conf dev z (imgs.foldl Slots.install b) := by
  induction rounds generalizing b with
  | nil x => exact h
  | cons round rest ih => exact ih (h.round round)

theorem Site.Started.steady (h : x.Started conf) :
    ∃ dev, Steady conf dev x ⟨x.running, fun s => x.disk.data (dev s)⟩ := by
  obtain ⟨dev, mirrors⟩ := h.mirrors
  refine ⟨dev, ⟨_, mirrors⟩, h.named, rfl, fun s v survives => ?_⟩
  obtain ⟨kept, sub, rfl⟩ := survives
  rw [h.contents, List.sublist_nil] at sub
  show replay kept (x.disk.node (dev s)).data.durable = (x.disk.node (dev s)).data.view
  rw [sub, Cell.view, h.contents]

/-- What a run finds after attempts at an image, and what it leaves. -/
structure LeavesNoTrace (x y : Site) (img old : List Byte) (run : Outcome Error Nat × Powered Machine) : Prop where
  running : y.running = x.running
  status : run.1 = .returned 0
  /-- As if the run had been the first one. -/
  target : run.2.now.disk.text x.running.other.dev = some (overlay img old)
  own : run.2.now.disk.text x.running.dev = x.disk.text x.running.dev

/-- **Attempts leave no trace.** -/
theorem attempts_leave_no_trace (started : x.Started conf) (content : x.disk.text x.running.other.dev = some old)
    (attempts : Relation.ReflTransGen (Attempt conf img.length) x y) (named : y.BootsInto conf y.running) {env : Env}
    {argv : List Text} {args : Args} (accepted : parseArgs argv = .args args) (wet : args.dryRun = false)
    (bootconf : args.bootconf = conf) (fine : env.Fine img old) :
    LeavesNoTrace x y img old (main env argv ⟨none, ⟨y.cmdline, y.disk, []⟩⟩) := by
  obtain ⟨dev, steady⟩ := started.steady
  have finishes := steady.finishes attempts named accepted wet bootconf content fine
  obtain ⟨boot, layout⟩ := finishes.updated.layout
  refine ⟨finishes.untouched.running, finishes.status, finishes.target, ?_⟩
  rw [layout.text_dev, finishes.own, steady.text]

/-- **Round after round the slots change places.** -/
theorem rounds_install {imgs : List (List Byte)} (started : x.Started conf) (running : x.running = b.running)
    (text : ∀ s, x.disk.text s.dev = some (b.holds s)) (rounds : Rounds conf imgs x z) :
    z.running = (imgs.foldl Slots.install b).running ∧
      ∀ s, z.disk.text s.dev = some ((imgs.foldl Slots.install b).holds s) := by
  obtain ⟨dev, steady⟩ := started.steady
  obtain rfl : b = ⟨x.running, fun s => x.disk.data (dev s)⟩ := by
    obtain ⟨r, holds⟩ := b
    refine congrArg₂ Slots.mk running.symm (funext fun s => ?_)
    exact Option.some.inj ((text s).symm.trans (steady.text s))
  exact ⟨(steady.rounds rounds).running, (steady.rounds rounds).text⟩

end Rounds

/-! ## A torn attempt, and a round -/

/-- The machine after a restart that found what was read. -/
def Site.found (x : Site) (c : Text) (s : Slot) : Site :=
  { x with cmdline := c, disk := x.disk.restart x.disk.lookup x.disk.data, running := s }

theorem Site.BootsInto.restart {conf : Path} {x : Site} {s : Slot} {c : Text} (h : x.BootsInto conf s)
    (detected : detectActiveSlotFromCmdline c = some s) : Restart conf x (x.found c s) := by
  obtain ⟨t, found, configured⟩ := h
  exact .restart x.disk.survives_view c s t found configured detected

/-- The machine `siteA` after a run that lost power behind the write of the image. -/
def siteHalf : Site :=
  siteA.after [1, 1] (main wholeEnv (confArgv bootconfPath) ⟨some 9, ⟨siteA.cmdline, siteA.disk, []⟩⟩).2.now

/-- Of the two bytes only the second one has survived. -/
def tornData : Ino → List Byte := Function.update siteHalf.disk.data (Slot.ino .B) [0, 1]

theorem survives_tornData : siteHalf.disk.Survives siteHalf.disk.lookup tornData where
  dir := siteHalf.disk.dir.survives_view
  data i := by
    by_cases e : i = Slot.ino .B
    · subst e
      rw [tornData, Function.update_self]
      exact ⟨[.put 1 1], List.sublist_cons_self _ _, rfl⟩
    · rw [tornData, Function.update_of_ne e]
      exact (siteHalf.disk.node i).data.survives_view

def siteTorn : Site :=
  { siteHalf with cmdline := Slot.A.rootArg, disk := siteHalf.disk.restart siteHalf.disk.lookup tornData, running := .A }

theorem restart_siteTorn : Restart bootconfPath siteHalf siteTorn :=
  .restart survives_tornData Slot.A.rootArg .A Slot.A.rootArg rfl (by decide) (detect_rootArg .A)

theorem attempts_siteTorn : Relation.ReflTransGen (Attempt bootconfPath ([1, 1] : List Byte).length) siteA siteTorn :=
  .tail (.single (.run [1, 1] (some 9) (parse_confArgv bootconfPath) rfl rfl unchanged_whole rfl fresh_siteA.named le_rfl))
    (.restart restart_siteTorn rfl)

theorem attempts_leave_no_trace_torn : LeavesNoTrace siteA siteTorn [1, 1] [0, 0]
    (main wholeEnv (confArgv bootconfPath) ⟨none, ⟨siteTorn.cmdline, siteTorn.disk, []⟩⟩) :=
  attempts_leave_no_trace started_siteA (layout_siteA.text_dev .B) attempts_siteTorn restart_siteTorn.named
    (parse_confArgv bootconfPath) rfl rfl fine_whole

/-- The machine `siteTorn` after a run in which nothing fails. -/
def siteDone : Site :=
  siteTorn.after [1, 1] (main wholeEnv (confArgv bootconfPath) ⟨none, ⟨siteTorn.cmdline, siteTorn.disk, []⟩⟩).2.now

theorem boots_siteDone : siteDone.BootsInto bootconfPath .B := by
  obtain ⟨dev, steady⟩ := started_siteA.steady
  have finishes := steady.finishes attempts_siteTorn restart_siteTorn.named (parse_confArgv bootconfPath) rfl rfl
    (layout_siteA.text_dev .B) fine_whole
  exact finishes.updated.boots restart_siteTorn.named

def siteB : Site := siteDone.found Slot.B.rootArg .B

theorem restart_siteB : Restart bootconfPath siteDone siteB := boots_siteDone.restart (detect_rootArg .B)

theorem round_siteB : Round bootconfPath [1, 1] siteA siteB := by
  refine .round attempts_siteTorn restart_siteTorn.named (parse_confArgv bootconfPath) rfl rfl
    (layout_siteA.text_dev .B) fine_whole ?_
  exact restart_siteB

theorem rounds_install_siteB : siteB.running = .B ∧
    ∀ s, siteB.disk.text s.dev = some ((([[1, 1]] : List (List Byte)).foldl Slots.install ⟨.A, fun _ => [0, 0]⟩).holds s) :=
  rounds_install (b := ⟨.A, fun _ => [0, 0]⟩) started_siteA rfl
    (fun s => (layout_siteA.text_dev s).trans (by cases s <;> rfl)) (.cons round_siteB (.nil siteB))

end OtaBridge.Apply
