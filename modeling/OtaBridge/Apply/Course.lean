import OtaBridge.Apply.Stages

/-!
# The course of `main`

`Starts` says what a run has found out once it begins to write: the slot, the target, the texts and
sizes. `main_spec` follows a run with accepted arguments from any machine: it leaves the disk
alone, or it is on a course that its start determines. On a `Ready` machine nothing fails, and a run
that is not cut off returns 0 with the new boot config in place.
-/

namespace OtaBridge.Apply

open Logic.Crash

/-- What a run on `m` has found out when it starts to write. -/
structure Starts (env : Env) (args : Args) (m : Machine) (active : Slot) (text : Text) (c : Course) : Prop where
  detected : detectActiveSlotFromCmdline (env.cmdline.cut m.cmdline) = some active
  target : m.disk.lookup active.other.dev = some c.target
  block : (m.disk.node c.target).kind = .block
  validated : ∃ st, env.statImage = .ok st ∧ st.regular = true ∧ st.size ≤ (m.disk.data c.target).length
  content : m.content args.bootconf = .ok text
  updated : updateExtlinuxRootPartlabel (env.bootconf.cut text) active.other.label = .ok c.updated
  disk : c.disk = m.disk
  image : c.image = delivered env.reads
  conf : c.conf = args.bootconf
  opened : env.cmdline.openError = none ∧ env.bootconf.openError = none

/-- The image file holds `img` and does not change during the run. -/
structure Unchanged (env : Env) (img : List Byte) : Prop where
  size : ∀ st, env.statImage = .ok st → st.size = img.length
  part : delivered env.reads <+: img
  whole : readError env.reads = none → delivered env.reads = img

/-- A run on `m` started and did not get as far as the rename. -/
inductive Stopped (env : Env) (args : Args) (m : Machine) (d : Disk) : Prop where
  | early (same : d = m.disk)
  | late (active : Slot) (text : Text) (c : Course) (start : Starts env args m active text c) (pending : c.Pending d)

/-- A run on `m` got past the rename. -/
inductive Switched (env : Env) (args : Args) (m m' : Machine) : Prop where
  | intro (active : Slot) (text : Text) (c : Course) (start : Starts env args m active text c)
    (committed : c.Committed env m')

/-- No answer is a failure; the size of the image is left out. -/
structure Env.Clear (env : Env) : Prop extends env.Smooth where
  euid : env.euid = 0
  cmdline : env.cmdline.openError = none
  openSize : env.openSize = none
  ioctlSize : env.ioctlSize = none
  bootconf : env.bootconf.openError = none

/-- Nothing that a run on `m` asks for fails. -/
structure Ready (env : Env) (args : Args) (m : Machine) : Prop where
  clear : env.Clear
  starts : ∃ active text c, Starts env args m active text c ∧ c.Fitting

/-- A run has one course. -/
theorem Starts.unique {env : Env} {args : Args} {m : Machine} {active active' : Slot} {text text' : Text}
    {c c' : Course} (h : Starts env args m active text c) (h' : Starts env args m active' text' c') :
    active = active' ∧ text = text' ∧ c = c' := by
  obtain rfl := Option.some.inj (h.detected.symm.trans h'.detected)
  obtain rfl := Except.ok.inj (h.content.symm.trans h'.content)
  have target := Option.some.inj (h.target.symm.trans h'.target)
  have updated := Except.ok.inj (h.updated.symm.trans h'.updated)
  have disk := h.disk.trans h'.disk.symm
  have image := h.image.trans h'.image.symm
  have conf := h.conf.trans h'.conf.symm
  cases c
  cases c'
  simp_all

/-- Nothing has been written yet. -/
structure Same (m₀ m : Machine) : Prop where
  cmdline : m.cmdline = m₀.cmdline
  disk : m.disk = m₀.disk

theorem Same.inode {m₀ m : Machine} (h : Same m₀ m) (path : Path) : m.inode path = m₀.inode path := by
  rw [Machine.inode, Machine.inode, h.disk]

theorem Same.content {m₀ m : Machine} (h : Same m₀ m) (path : Path) : m.content path = m₀.content path := by
  rw [Machine.content, Machine.content, h.cmdline, h.disk, h.inode]

theorem Same.blockSize {m₀ m : Machine} (h : Same m₀ m) (i : Ino) : m.blockSize i = m₀.blockSize i := by
  rw [Machine.blockSize, Machine.blockSize, h.disk]

section Start

variable {steady : Bool} {env : Env} {m₀ : Machine} {X : Error → Machine → Prop} {C : Machine → Prop}

theorem say_same {line : Text} : Triple steady (Same m₀) (say line) (fun _ => Same m₀) X C :=
  Triple.modify fun _ h => ⟨h.cmdline, h.disk⟩

theorem ask_spec {α : Type} {error : Option Errno} {answer : Machine → Except Errno α} {fail : Errno → Error}
    (same : ∀ m, Same m₀ m → answer m = answer m₀) (lost : ∀ m, Same m₀ m → C m)
    (failed : ¬ (error = none ∧ ∃ a, answer m₀ = .ok a) → ∀ e m, Same m₀ m → X e m) :
    Triple steady (Same m₀) (attempt (query error answer) fail)
      (fun a m => Same m₀ m ∧ error = none ∧ answer m₀ = .ok a) X C := by
  refine query_spec lost (fun m h on a ok => ⟨h, on, same m h ▸ ok⟩) fun m h e bad => ?_
  refine failed ?_ _ m h
  rintro ⟨on, a, ok⟩
  rw [on, same m h, ok] at bad
  rcases bad with bad | bad <;> cases bad

theorem readTextFile_spec {r : TextRead} {path : Path} (lost : ∀ m, Same m₀ m → C m)
    (failed : ¬ (r.openError = none ∧ ∃ t, m₀.content path = .ok t) → ∀ e m, Same m₀ m → X e m) :
    Triple steady (Same m₀) (readTextFile r path)
      (fun t m => Same m₀ m ∧ r.openError = none ∧ ∃ text, m₀.content path = .ok text ∧ t = r.cut text) X C :=
  Triple.bind_fact (ask_spec (fun _ h => h.content path) lost failed) fun text found =>
    Triple.pure fun _ h => ⟨h, found.1, text, found.2, rfl⟩

theorem fileSizeBytes_spec {path : Path} (lost : ∀ m, Same m₀ m → C m)
    (failed : ¬ (∃ st, env.statImage = .ok st ∧ st.regular = true) → ∀ e m, Same m₀ m → X e m) :
    Triple steady (Same m₀) (fileSizeBytes env path)
      (fun n m => Same m₀ m ∧ ∃ st, env.statImage = .ok st ∧ st.regular = true ∧ n = st.size) X C := by
  refine Triple.bind_fact (ask_spec (fun _ _ => rfl) lost fun bad => failed ?_) fun st found => ?_
  · rintro ⟨st, ok, -⟩
    exact bad ⟨rfl, st, ok⟩
  · split
    · next irregular =>
      refine Triple.throw fun m h => failed ?_ _ m h
      rintro ⟨st', ok, regular⟩
      obtain rfl := Except.ok.inj (found.2.symm.trans ok)
      exact irregular regular
    · next regular => exact Triple.pure fun m h => ⟨h, st, found.2, not_not.1 regular, rfl⟩

theorem inode_ok {m : Machine} {path : Path} {i : Ino} : m.inode path = .ok i ↔ m.disk.lookup path = some i := by
  unfold Machine.inode
  split
  · next j found => rw [found, Except.ok.injEq, Option.some.injEq]
  · next none => simp [none]

theorem blockSize_ok {m : Machine} {i : Ino} {n : Nat} :
    m.blockSize i = .ok n ↔ (m.disk.node i).kind = .block ∧ n = (m.disk.data i).length := by
  unfold Machine.blockSize
  split
  · next block => simp [block, eq_comm]
  · next regular => simp [regular]

theorem blockDeviceSizeBytes_spec {dev : Path} (lost : ∀ m, Same m₀ m → C m)
    (failed : ¬ (env.openSize = none ∧ env.ioctlSize = none ∧
      ∃ i, m₀.disk.lookup dev = some i ∧ (m₀.disk.node i).kind = .block) → ∀ e m, Same m₀ m → X e m) :
    Triple steady (Same m₀) (blockDeviceSizeBytes env dev)
      (fun n m => Same m₀ m ∧ ∃ i, m₀.disk.lookup dev = some i ∧ (m₀.disk.node i).kind = .block ∧
        n = (m₀.disk.data i).length) X C := by
  refine Triple.bind_fact (ask_spec (fun m h => h.inode dev) lost fun bad => failed ?_) fun i found => ?_
  · rintro ⟨on, -, i, found, -⟩
    exact bad ⟨on, i, inode_ok.2 found⟩
  · refine (ask_spec (fun m h => h.blockSize i) lost fun bad => failed ?_).conseq (fun _ => id) (fun n m h => ?_)
      (fun _ _ => id) fun _ => id
    · rintro ⟨-, on, j, found', block⟩
      obtain rfl := Option.some.inj ((inode_ok.1 found.2).symm.trans found')
      exact bad ⟨on, _, blockSize_ok.2 ⟨block, rfl⟩⟩
    · obtain ⟨block, size⟩ := blockSize_ok.1 h.2.2
      exact ⟨h.1, i, inode_ok.1 found.2, block, size⟩

end Start

section Main

variable {steady : Bool} {env : Env} {args : Args} {m₀ : Machine} {X : Error → Machine → Prop} {C : Machine → Prop}

theorem Same.stopped {m : Machine} (h : Same m₀ m) : Stopped env args m₀ m.disk := .early h.disk

/-- Steps 2 to 5 of a run that is no dry run. -/
theorem runUpdate_spec {active : Slot} (wet : args.dryRun = false) (opened : env.cmdline.openError = none)
    (detected : detectActiveSlotFromCmdline (env.cmdline.cut m₀.cmdline) = some active)
    (lost : ∀ m, Stopped env args m₀ m.disk ∨ Switched env args m₀ m → C m)
    (failed : ¬ Ready env args m₀ → ∀ e m, Stopped env args m₀ m.disk → X e m) :
    Triple steady (Same m₀) (runUpdate env args active)
      (fun code m => (code = 0 ∧ Switched env args m₀ m) ∨
        (code = 30 ∧ Stopped env args m₀ m.disk ∧ ¬ Ready env args m₀)) X C := by
  have lostEarly : ∀ m, Same m₀ m → C m := fun m h => lost m (.inl h.stopped)
  have failedEarly : ¬ Ready env args m₀ → ∀ e m, Same m₀ m → X e m := fun bad e m h => failed bad e m h.stopped
  -- a ready run has detected the same slot
  have same : ∀ {active' text c}, Starts env args m₀ active' text c → active' = active :=
    fun start => Option.some.inj (start.detected.symm.trans detected)
  unfold runUpdate
  rw [buildPlan_eq]
  refine Triple.bind say_same fun _ => Triple.bind say_same fun _ => ?_
  refine Triple.bind_fact (fileSizeBytes_spec lostEarly fun bad => failedEarly ?_) fun imgBytes stat => ?_
  · intro ready
    obtain ⟨_, _, c, start, -⟩ := ready.starts
    obtain ⟨st, ok, regular, -⟩ := start.validated
    exact bad ⟨st, ok, regular⟩
  obtain ⟨st, ok, regular, rfl⟩ := stat
  refine Triple.bind_fact (blockDeviceSizeBytes_spec lostEarly fun bad => failedEarly ?_) fun devBytes dev => ?_
  · intro ready
    obtain ⟨_, _, c, start, -⟩ := ready.starts
    obtain rfl := same start
    exact bad ⟨ready.clear.openSize, ready.clear.ioctlSize, c.target, start.target, start.block⟩
  obtain ⟨target, found, block, rfl⟩ := dev
  refine Triple.bind say_same fun _ => Triple.bind say_same fun _ => ?_
  split
  · next large =>
    refine Triple.bind say_same fun _ => Triple.pure fun m h => .inr ⟨rfl, h.stopped, fun ready => ?_⟩
    obtain ⟨_, _, c, start, -⟩ := ready.starts
    obtain rfl := same start
    obtain ⟨st', ok', -, small⟩ := start.validated
    obtain rfl := Except.ok.inj (ok.symm.trans ok')
    rw [← Option.some.inj (found.symm.trans start.target)] at small
    omega
  next small =>
  refine Triple.bind_fact (readTextFile_spec lostEarly fun bad => failedEarly ?_) fun extlinux read => ?_
  · intro ready
    obtain ⟨_, text, c, start, -⟩ := ready.starts
    exact bad ⟨ready.clear.bootconf, text, start.content⟩
  obtain ⟨opened', text, content, rfl⟩ := read
  split
  · next e wrong =>
    refine Triple.throw fun m h => failedEarly (fun ready => ?_) e m h
    obtain ⟨_, text', c, start, -⟩ := ready.starts
    obtain rfl := same start
    obtain rfl := Except.ok.inj (content.symm.trans start.content)
    rw [start.updated] at wrong
    cases wrong
  next updated right =>
  rw [wet]
  let c : Course := ⟨m₀.disk, target, delivered env.reads, args.bootconf, updated⟩
  have start : Starts env args m₀ active text c :=
    ⟨detected, found, block, ⟨st, ok, regular, Nat.not_lt.1 small⟩, content, right, rfl, rfl, rfl, opened, opened'⟩
  have go : Triple steady (Now m₀.disk [])
      (install env args ⟨active, active.other, active.other.dev, active.other.label⟩ updated)
      (fun _ => c.Committed env) X C := install_spec (c := c) found rfl rfl
    (by
      rintro m (pending | committed)
      · exact lost m (.inl (.late active text c start pending))
      · exact lost m (.inr ⟨active, text, c, start, committed⟩))
    (by
      refine fun bad e m pending => failed (fun ready => bad ?_) e m (.late active text c start pending)
      obtain ⟨_, _, c', start', fitting⟩ := ready.starts
      obtain ⟨-, -, rfl⟩ := start'.unique start
      exact ⟨ready.clear.toSmooth, fitting⟩)
  refine Triple.bind (go.strengthen fun m h => ⟨h.disk, List.nil_subset _⟩) fun _ => ?_
  exact Triple.pure fun m h => .inl ⟨rfl, active, text, c, start, h⟩

/-- **What a run may leave.** A run that is no dry run returns 0 past the rename, or returns another
code before it, and then something failed; cut off at any moment, it is on its course. -/
theorem main_spec {argv : List Text} (accepted : parseArgs argv = .args args) (wet : args.dryRun = false)
    (lost : ∀ m, Stopped env args m₀ m.disk ∨ Switched env args m₀ m → C m) :
    Triple steady (fun m => m = m₀) (main env argv)
      (fun code m => (code = 0 ∧ Switched env args m₀ m) ∨
        (code ≠ 0 ∧ Stopped env args m₀ m.disk ∧ ¬ Ready env args m₀)) X C := by
  let thrown : Error → Machine → Prop := fun _ m => Stopped env args m₀ m.disk ∧ ¬ Ready env args m₀
  have lostEarly : ∀ m, Same m₀ m → C m := fun m h => lost m (.inl h.stopped)
  refine Triple.tryCatch (Triple.strengthen (P := Same m₀) (X := thrown) ?_ fun _ e => ⟨congrArg _ e, congrArg _ e⟩)
    fun e => ?_
  · unfold mainBody
    split
    · next user =>
      exact Triple.bind say_same fun _ => Triple.pure fun m h =>
        .inr ⟨by decide, h.stopped, fun ready => user ready.clear.euid⟩
    rw [accepted]
    refine Triple.bind_fact (readTextFile_spec lostEarly fun bad e m h => ⟨h.stopped, fun ready => bad ?_⟩)
      fun cmdline read => ?_
    · exact ⟨ready.clear.cmdline, m₀.cmdline, if_pos rfl⟩
    obtain ⟨opened, text, content, rfl⟩ := read
    obtain rfl : m₀.cmdline = text := Except.ok.inj ((if_pos rfl).symm.trans content)
    split
    · next none =>
      refine Triple.bind say_same fun _ => Triple.pure fun m h => .inr ⟨by decide, h.stopped, fun ready => ?_⟩
      obtain ⟨_, _, _, start, -⟩ := ready.starts
      rw [start.detected] at none
      cases none
    · next active detected =>
      refine (runUpdate_spec wet opened detected lost fun bad e m h => ⟨h, bad⟩).conseq (fun _ => id) (fun code m h => ?_)
        (fun _ _ => id) fun _ => id
      rcases h with zero | ⟨rfl, stopped⟩
      · exact .inl zero
      · exact .inr ⟨by decide, stopped⟩
  · refine Triple.bind (Q := fun _ => thrown e) (Triple.modify fun _ h => h) fun _ => Triple.pure fun m h => ?_
    exact .inr ⟨by decide, h⟩

variable (env m₀) in
/-- A run that is not cut off comes to an end. -/
theorem main_end {argv : List Text} (accepted : parseArgs argv = .args args) (wet : args.dryRun = false) :
    ∃ code, (main env argv ⟨none, m₀⟩).1 = .returned code ∧
      ((code = 0 ∧ Switched env args m₀ (main env argv ⟨none, m₀⟩).2.now) ∨
        (code ≠ 0 ∧ Stopped env args m₀ (main env argv ⟨none, m₀⟩).2.now.disk ∧ ¬ Ready env args m₀)) := by
  have run : Triple true (fun m => m = m₀) (main env argv) _ (fun _ _ => False) fun _ => True :=
    main_spec accepted wet fun _ _ => trivial
  rcases run.steady_end m₀ rfl with ended | ⟨_, _, no⟩
  · exact ended
  · exact no.elim

/-- A run in which nothing fails switches the boot config. -/
theorem main_ready {argv : List Text} (accepted : parseArgs argv = .args args) (wet : args.dryRun = false)
    (ready : Ready env args m₀) :
    (main env argv ⟨none, m₀⟩).1 = .returned 0 ∧ Switched env args m₀ (main env argv ⟨none, m₀⟩).2.now := by
  obtain ⟨code, ended, ⟨rfl, switched⟩ | ⟨_, _, bad⟩⟩ := main_end env m₀ accepted wet
  · exact ⟨ended, switched⟩
  · exact absurd ready bad

variable (env m₀) in
/-- What a run that may be cut off at any moment leaves. -/
theorem main_leaves {argv : List Text} (accepted : parseArgs argv = .args args) (wet : args.dryRun = false)
    (supply : Option Nat) :
    Stopped env args m₀ (main env argv ⟨supply, m₀⟩).2.now.disk ∨
      Switched env args m₀ (main env argv ⟨supply, m₀⟩).2.now := by
  have run : Triple false (fun m => m = m₀) (main env argv) _ (fun _ _ => False)
    fun m => Stopped env args m₀ m.disk ∨ Switched env args m₀ m := main_spec accepted wet fun _ => id
  rcases run.ends ⟨supply, m₀⟩ rfl with ⟨_, _, ⟨_, switched⟩ | ⟨_, stopped, _⟩⟩ | ⟨_, _, no⟩ | ⟨_, cut⟩
  · exact .inr switched
  · exact .inl stopped
  · exact no.elim
  · exact cut

/-- A run that reads no slot from the command line ends without a write. -/
theorem main_undetected {argv : List Text} (none : detectActiveSlotFromCmdline (env.cmdline.cut m₀.cmdline) = none)
    (lost : ∀ m, m.disk = m₀.disk → C m) :
    Triple steady (fun m => m = m₀) (main env argv)
      (fun code m => m.disk = m₀.disk ∧ (parseArgs argv ≠ .exit → code ≠ 0)) X C := by
  have lostEarly : ∀ m, Same m₀ m → C m := fun m h => lost m h.disk
  refine Triple.tryCatch (Triple.strengthen (P := Same m₀) (X := fun _ m => m.disk = m₀.disk) ?_
    fun _ e => ⟨congrArg _ e, congrArg _ e⟩) fun e => ?_
  · unfold mainBody
    split
    · exact Triple.bind say_same fun _ => Triple.pure fun m h => ⟨h.disk, fun _ => by decide⟩
    split
    · next exit => exact Triple.pure fun m h => ⟨h.disk, fun no => absurd exit no⟩
    · exact Triple.throw fun m h => h.disk
    refine Triple.bind_fact (readTextFile_spec lostEarly fun _ _ m h => h.disk) fun cmdline read => ?_
    obtain ⟨opened, text, content, rfl⟩ := read
    obtain rfl : m₀.cmdline = text := Except.ok.inj ((if_pos rfl).symm.trans content)
    rw [none]
    exact Triple.bind say_same fun _ => Triple.pure fun m h => ⟨h.disk, fun _ => by decide⟩
  · refine Triple.bind (Q := fun _ m => m.disk = m₀.disk) (Triple.modify fun _ h => h) fun _ =>
      Triple.pure fun m h => ⟨h, fun _ => by decide⟩

end Main

end OtaBridge.Apply
