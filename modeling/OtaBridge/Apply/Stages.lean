import OtaBridge.Apply.Copy

/-!
# The stages of a run

Everything a run of `ota-apply` may leave on the disk, said once. Until the rename the disk is
`Pending`: the target holds a part of the image, or all of it and the temporary file a part of the
new boot config. From the rename on it is `Committed`, up to flushes that change nothing a reader
sees. `install_spec` follows the run through these stages, and `main_spec` is the same for `main`.
-/

namespace OtaBridge.Apply

open Logic.Crash

/-- What a run starts from and what it writes where. -/
structure Course where
  disk : Disk
  target : Ino
  image : List Byte
  conf : Path
  updated : Text

/-- Reached from `d` by flushing. -/
inductive Flushed (d : Disk) : Disk → Prop where
  | refl : Flushed d d
  | fsync {d' : Disk} (i : Ino) (h : Flushed d d') : Flushed d (d'.fsync i)
  | fsyncDir {d' : Disk} (h : Flushed d d') : Flushed d d'.fsyncDir
  | sync {d' : Disk} (h : Flushed d d') : Flushed d d'.sync

namespace Course

variable (c : Course)

/-- The image is on the target, and flushed. -/
def installed : Disk := ((c.disk.put c.target 0 c.image).fsync c.target).sync

/-- The inode of the temporary file. -/
def temp : Ino := (c.installed.creat (tempPath c.conf)).1

def created : Disk := (c.installed.creat (tempPath c.conf)).2

/-- The new boot config is in the temporary file, and flushed. -/
def staged : Disk := (c.created.put c.temp 0 c.updated).fsync c.temp

def committed : Disk := c.staged.rename (tempPath c.conf) c.conf c.temp

/-- The disk before the rename. -/
inductive Pending : Disk → Prop where
  | copying (n : Nat) (le : n ≤ c.image.length) (fits : c.disk.Fits c.target n) :
    Pending (c.disk.put c.target 0 (c.image.take n))
  | copied (fits : c.disk.Fits c.target c.image.length) :
    Pending ((c.disk.put c.target 0 c.image).fsync c.target)
  | installed (fits : c.disk.Fits c.target c.image.length) : Pending c.installed
  | writing (n : Nat) (fits : c.disk.Fits c.target c.image.length) :
    Pending (c.created.put c.temp 0 (c.updated.take n))
  | staged (fits : c.disk.Fits c.target c.image.length) : Pending c.staged

/-- The machine after the rename. -/
structure Committed (env : Env) (m : Machine) : Prop where
  disk : Flushed c.committed m.disk
  said : writeComplete ∈ m.err
  fits : c.disk.Fits c.target c.image.length
  drained : readError env.reads = none

theorem Pending.untouched : c.Pending c.disk := by
  have start := Pending.copying (c := c) 0 (Nat.zero_le _) fun _ => Nat.zero_le _
  rwa [List.take_zero, Disk.put_nil] at start

end Course

/-- The target has room for the image, and the temporary file for the new boot config. -/
structure Course.Fitting (c : Course) : Prop where
  target : c.disk.Fits c.target c.image.length
  temp : c.created.Fits c.temp c.updated.length

/-- Nothing that `install` asks for fails. -/
structure Env.Smooth (env : Env) : Prop where
  openImage : env.openImage = none
  openTarget : env.openTarget = none
  reads : readError env.reads = none
  targetWrites : Sound env.targetWrites
  fsyncTarget : env.fsyncTarget = none
  openTemp : env.openTemp = none
  tempWrites : Sound env.tempWrites
  fsyncTemp : env.fsyncTemp = none
  renameTemp : env.renameTemp = none

section Stages

variable {steady : Bool} {env : Env} {c : Course} {X : Error → Machine → Prop} {C : Machine → Prop}
variable {said : List Text}

/-- The copy to the target, up to and with the final `sync`. -/
theorem streamWriteImageToBlock_spec {imagePath devPath : Path} (found : c.disk.lookup devPath = some c.target)
    (image : delivered env.reads = c.image) (lost : ∀ m, c.Pending m.disk → C m)
    (failed : ¬ (env.Smooth ∧ c.Fitting) → ∀ e m, c.Pending m.disk → X e m) :
    Triple steady (Now c.disk said) (streamWriteImageToBlock env imagePath devPath)
      (fun _ m => Now c.installed said m ∧ c.disk.Fits c.target c.image.length ∧ readError env.reads = none) X C := by
  have start : ∀ m, Now c.disk said m → c.Pending m.disk := by
    intro m now
    rw [now.disk]
    exact .untouched c
  have partway : ∀ {G : Machine → Prop}, (∀ m, c.Pending m.disk → G m) →
      Partway c.disk c.target said [] c.image G := by
    intro G h n le fits m now
    apply h m
    rw [now.disk]
    exact .copying n le (by rwa [List.length_nil, Nat.zero_add] at fits)
  unfold streamWriteImageToBlock
  refine Triple.bind (Q := fun _ => Now c.disk said) ?_ fun _ =>
    Triple.bind (Q := fun out m => Now c.disk said m ∧ out = c.target) ?_ fun out => ?_
  · refine query_spec (fun m now => lost m (start m now)) (fun m now _ _ _ => now) fun m now e h => ?_
    refine failed (fun smooth => ?_) _ m (start m now)
    rcases h with h | h
    · rw [smooth.1.openImage] at h
      cases h
    · cases h
  · refine query_spec (fun m now => lost m (start m now)) (fun m now _ i h => ⟨now, ?_⟩) fun m now e h => ?_
    · rw [Machine.inode, now.disk, found] at h
      exact (Except.ok.inj h).symm
    · refine failed (fun smooth => ?_) _ m (start m now)
      rcases h with h | h
      · rw [smooth.1.openTarget] at h
        cases h
      · rw [Machine.inode, now.disk, found] at h
        cases h
  refine Triple.assume (φ := out = c.target) (fun m h => h.2) ?_
  rintro rfl
  have copy := @copyLoop_spec steady X C c.disk c.target said _ env.reads env.targetWrites []
    (fun _ => Nat.zero_le _) (image ▸ partway lost)
    (by
      intro cause e
      refine image ▸ partway (failed (fun smooth => cause ⟨smooth.1.reads, smooth.1.targetWrites, ?_⟩) e)
      rw [List.length_nil, Nat.zero_add, image]
      exact smooth.2.target)
  simp only [Disk.put_nil, List.length_nil, Nat.zero_add, List.nil_append, image] at copy
  refine Triple.bind (copy.strengthen fun _ h => h.1) fun written => ?_
  refine Triple.assume (φ := c.disk.Fits c.target c.image.length ∧ readError env.reads = none)
    (fun m h => ⟨h.2.1, h.2.2.1⟩) ?_
  rintro ⟨fits, drained⟩
  have whole : ∀ m, Now (c.disk.put c.target 0 c.image) said m → c.Pending m.disk := by
    intro m now
    have full := Course.Pending.copying (c := c) _ le_rfl fits
    rwa [List.take_length, ← now.disk] at full
  have flush : Triple steady (Now (c.disk.put c.target 0 c.image) said)
      (attempt (effect env.fsyncTarget fun d => d.fsync c.target) .fsyncTarget)
      (fun _ => Now ((c.disk.put c.target 0 c.image).fsync c.target) said) X C := by
    refine (effect_spec (fun m now => lost m (whole m now)) fun e m h now => ?_).conseq (fun _ => id)
      (fun _ _ h => h.1) (fun _ _ => id) fun _ => id
    refine failed (fun smooth => ?_) _ m (whole m now)
    rw [smooth.1.fsyncTarget] at h
    cases h
  refine Triple.bind (flush.strengthen fun _ h => h.1) fun _ => ?_
  refine Triple.call (fun m now => lost m ?_) fun m now => ⟨⟨congrArg Disk.sync now.disk, now.said⟩, fits, drained⟩
  rw [now.disk]
  exact .copied fits

/-- A call that flushes something or does nothing. -/
theorem flush_spec {error : Option Errno} {f : Disk → Disk}
    (flush : ∀ d, Flushed c.committed d → Flushed c.committed (f d)) (lost : ∀ m, c.Committed env m → C m) :
    Triple steady (c.Committed env) (Prog.call (effect error f)) (fun _ => c.Committed env) X C := by
  refine Triple.call lost fun m h => ?_
  cases error with
  | none => exact ⟨flush _ h.disk, h.said, h.fits, h.drained⟩
  | some e => exact h

theorem look_spec {α : Type} {error : Option Errno} {answer : Machine → Except Errno α}
    (lost : ∀ m, c.Committed env m → C m) :
    Triple steady (c.Committed env) (Prog.call (query error answer)) (fun _ => c.Committed env) X C := by
  refine Triple.call lost fun m h => ?_
  cases error with
  | none => exact h
  | some e => exact h

theorem fsyncFile_spec {path : Path} (lost : ∀ m, c.Committed env m → C m) :
    Triple steady (c.Committed env) (fsyncFile env path) (fun _ => c.Committed env) X C := by
  refine Triple.bind (look_spec lost) ?_
  rintro (e | fd)
  · exact Triple.pure fun _ => id
  · exact Triple.bind (flush_spec (fun _ h => h.fsync fd) lost) fun _ => Triple.pure fun _ => id

theorem syncParentDir_spec {path : Path} (lost : ∀ m, c.Committed env m → C m) :
    Triple steady (c.Committed env) (syncParentDir env path) (fun _ => c.Committed env) X C := by
  unfold syncParentDir
  split
  · exact Triple.pure fun _ => id
  · refine Triple.bind (look_spec lost) ?_
    rintro (e | _)
    · exact Triple.pure fun _ => id
    · exact Triple.bind (flush_spec (fun _ h => h.fsyncDir) lost) fun _ => Triple.pure fun _ => id

/-- The atomic rewrite of the boot config, after the image. -/
theorem atomicWriteFile_spec (complete : writeComplete ∈ said) (fits : c.disk.Fits c.target c.image.length)
    (drained : readError env.reads = none) (lost : ∀ m, c.Pending m.disk ∨ c.Committed env m → C m)
    (failed : ¬ (env.Smooth ∧ c.Fitting) → ∀ e m, c.Pending m.disk → X e m) :
    Triple steady (Now c.installed said) (atomicWriteFile env c.conf c.updated) (fun _ => c.Committed env) X C := by
  have partway : ∀ {G : Machine → Prop}, (∀ m, c.Pending m.disk → G m) →
      Partway c.created c.temp said [] c.updated G := by
    intro G h n le _ m now
    apply h m
    rw [now.disk]
    exact .writing n fits
  have lostPending : ∀ m, c.Pending m.disk → C m := fun m h => lost m (.inl h)
  unfold atomicWriteFile
  refine Triple.bind (Q := fun fd m => Now c.created said m ∧ fd = c.temp) ?_ fun fd => ?_
  · refine attempt_spec (fun m now => lostPending m ?_) ?_ ?_
    · rw [now.disk]
      exact .installed fits
    · intro m now a h
      unfold openTemp at h ⊢
      cases open_ : env.openTemp with
      | some e => simp [open_] at h
      | none =>
        simp only [open_, now.disk] at h ⊢
        exact ⟨⟨rfl, now.said⟩, (Except.ok.inj h).symm⟩
    · intro m now e h
      unfold openTemp at h ⊢
      cases open_ : env.openTemp with
      | none => simp [open_] at h
      | some e' =>
        simp only [open_] at h ⊢
        refine failed (fun smooth => ?_) _ m ?_
        · rw [smooth.1.openTemp] at open_
          cases open_
        · rw [now.disk]
          exact .installed fits
  refine Triple.assume (φ := fd = c.temp) (fun m h => h.2) ?_
  rintro rfl
  have loop := @writeLoop_spec steady X C c.created c.temp said (.writeTemp (tempPath c.conf)) env.tempWrites [] _
    (fun _ => Nat.zero_le _) (partway lostPending)
    (by
      refine fun cause e => partway (failed (fun smooth => cause ⟨smooth.1.tempWrites, ?_⟩) _)
      rw [List.length_nil, Nat.zero_add]
      exact smooth.2.temp)
  simp only [Disk.put_nil, List.length_nil, Nat.zero_add, List.nil_append] at loop
  refine Triple.bind (loop.strengthen fun _ h => h.1) fun _ => ?_
  have whole : ∀ m, Now (c.created.put c.temp 0 c.updated) said m → c.Pending m.disk := by
    intro m now
    have full := Course.Pending.writing (c := c) c.updated.length fits
    rwa [List.take_length, ← now.disk] at full
  have stagedPending : ∀ m, Now c.staged said m → c.Pending m.disk := by
    intro m now
    rw [now.disk]
    exact .staged fits
  refine Triple.bind (Q := fun _ => Now c.staged said) ?_ fun _ => ?_
  · refine (effect_spec (fun m now => lostPending m (whole m now)) fun e m h now => ?_).conseq (fun _ h => h.1)
      (fun _ _ h => h.1) (fun _ _ => id) fun _ => id
    refine failed (fun smooth => ?_) _ m (whole m now)
    rw [smooth.1.fsyncTemp] at h
    cases h
  have found : ∀ m, Now c.staged said m → m.inode (tempPath c.conf) = .ok c.temp := by
    intro m now
    have here : c.staged.lookup (tempPath c.conf) = some c.temp := by
      show c.created.lookup _ = _
      rw [Course.created, Disk.lookup_creat, Function.update_self]
      rfl
    rw [Machine.inode, now.disk, here]
  refine Triple.bind (Q := fun _ => c.Committed env) ?_ fun _ => syncParentDir_spec fun m h => lost m (.inr h)
  refine attempt_spec (fun m now => lostPending m (stagedPending m now)) ?_ ?_
  · intro m now a h
    unfold renameTemp at h ⊢
    rw [found m now] at h ⊢
    cases rename : env.renameTemp with
    | some e => simp [rename] at h
    | none =>
      simp only [now.disk]
      exact ⟨.refl, now.said complete, fits, drained⟩
  · intro m now e h
    unfold renameTemp at h ⊢
    rw [found m now] at h ⊢
    cases rename : env.renameTemp with
    | none => simp [rename] at h
    | some e' =>
      refine failed (fun smooth => ?_) _ m (stagedPending m now)
      rw [smooth.1.renameTemp] at rename
      cases rename

/-- Steps 4 and 5 of `main`. -/
theorem install_spec {args : Args} {plan : Plan} (found : c.disk.lookup plan.targetDev = some c.target)
    (image : delivered env.reads = c.image) (conf : args.bootconf = c.conf)
    (lost : ∀ m, c.Pending m.disk ∨ c.Committed env m → C m)
    (failed : ¬ (env.Smooth ∧ c.Fitting) → ∀ e m, c.Pending m.disk → X e m) :
    Triple steady (Now c.disk said) (install env args plan c.updated) (fun _ => c.Committed env) X C := by
  have say_committed : ∀ line, Triple steady (c.Committed env) (say line) (fun _ => c.Committed env) X C :=
    fun line => Triple.modify fun m h => ⟨h.disk, List.mem_append_left _ h.said, h.fits, h.drained⟩
  have lostCommitted : ∀ m, c.Committed env m → C m := fun m h => lost m (.inr h)
  unfold install
  rw [conf]
  refine Triple.bind say_keeps fun _ => ?_
  refine Triple.bind (streamWriteImageToBlock_spec found image (fun m h => lost m (.inl h)) failed) fun _ => ?_
  refine Triple.assume (φ := c.disk.Fits c.target c.image.length ∧ readError env.reads = none) (fun m h => h.2) ?_
  rintro ⟨fits, drained⟩
  refine Triple.bind (say_spec.strengthen fun _ h => h.1) fun _ => ?_
  refine Triple.bind say_keeps fun _ => ?_
  refine Triple.bind (atomicWriteFile_spec List.mem_cons_self fits drained lost failed) fun _ => ?_
  refine Triple.bind (fsyncFile_spec lostCommitted) fun _ => ?_
  refine Triple.bind (Q := fun _ => c.Committed env) ?_ fun _ => Triple.bind (say_committed _) fun _ => say_committed _
  exact Triple.call lostCommitted fun m h => ⟨h.disk.sync, h.said, h.fits, h.drained⟩

end Stages

end OtaBridge.Apply
