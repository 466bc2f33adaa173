import OtaBridge.Apply.Layout

/-!
# Crash consistency of a run

Whatever is left after a run that failed or lost power anywhere, the boot config is the old text
or the edited one, and if it is the edited one, the image is on the target, durably. The one way
around this is the read of the boot config: `readTextFile` takes a read error for the end of the
file, so a front part of the old text can be edited and committed (`crash_consistent_iff`).
-/

namespace OtaBridge.Apply

open Logic.Crash Logic.Journal Logic.Substring

/-! ## What survives at each stage -/

namespace Disk

theorem survives_view (d : Disk) : d.Survives d.lookup d.data :=
  ⟨d.dir.survives_view, fun i => (d.node i).data.survives_view⟩

variable {d : Disk} {dir : Dir} {data : Ino → List Byte}

/-- A flush takes possibilities away. -/
theorem survives_fsync {i : Ino} (h : (d.fsync i).Survives dir data) : d.Survives dir data := by
  refine ⟨h.dir, fun j => ?_⟩
  have survives := h.data j
  by_cases e : j = i
  · subst e
    rw [fsync, node_onNode_self] at survives
    rw [Cell.survives_sync survives]
    exact (d.node j).data.survives_view
  · rwa [fsync, node_onNode_ne d e] at survives

theorem survives_fsyncDir (h : d.fsyncDir.Survives dir data) : d.Survives dir data :=
  ⟨Cell.survives_sync h.dir ▸ d.dir.survives_view, h.data⟩

theorem survives_sync (h : d.sync.Survives dir data) : d.Survives dir data :=
  ⟨Cell.survives_sync h.dir ▸ d.dir.survives_view,
    fun i => Cell.survives_sync (h.data i) ▸ (d.node i).data.survives_view⟩

/-- A name survives the creation of a file under another one. -/
theorem survives_creat {p q : Path} {i : Ino} (ne : q ≠ p) (before : ∀ dir, d.dir.Survives dir → dir q = some i)
    {dir : Dir} (h : (d.creat p).2.dir.Survives dir) : dir q = some i := by
  cases found : d.lookup p with
  | some j =>
    rw [creat_of_some found] at h
    exact before dir h
  | none =>
    rw [creat_of_none found] at h
    refine Cell.survives_issue (I := fun dir => dir q = some i) before (fun op mem dir same => ?_) h
    obtain rfl := List.mem_singleton.1 mem
    exact (Function.update_of_ne ne _ _).trans same

end Disk

theorem Flushed.survives {d d' : Disk} {dir : Dir} {data : Ino → List Byte} (h : Flushed d d')
    (survives : d'.Survives dir data) : d.Survives dir data := by
  induction h with
  | refl => exact survives
  | fsync i _ ih => exact ih (Disk.survives_fsync survives)
  | fsyncDir _ ih => exact ih (Disk.survives_fsyncDir survives)
  | sync _ ih => exact ih (Disk.survives_sync survives)

/-- The boot config is `old`, durably. -/
structure Durable (d : Disk) (conf : Path) (boot : Ino) (old : Text) : Prop where
  name : ∀ dir, d.dir.Survives dir → dir conf = some boot
  content : (d.node boot).data.Settled old

namespace Durable

variable {d : Disk} {conf : Path} {boot : Ino} {old : Text}

theorem of_node {d' : Disk} (h : Durable d conf boot old) (dir : d'.dir = d.dir) (node : d'.node boot = d.node boot) :
    Durable d' conf boot old := by
  constructor
  · rw [dir]
    exact h.name
  · rw [node]
    exact h.content

theorem put (h : Durable d conf boot old) {i : Ino} (ne : boot ≠ i) (pos : Nat) (bytes : List Byte) :
    Durable (d.put i pos bytes) conf boot old := h.of_node rfl (d.node_onNode_ne ne _)

theorem fsync (h : Durable d conf boot old) (i : Ino) : Durable (d.fsync i) conf boot old := by
  by_cases e : boot = i
  · subst e
    refine ⟨h.name, ?_⟩
    rw [Disk.fsync, Disk.node_onNode_self]
    exact h.content.sync
  · exact h.of_node rfl (d.node_onNode_ne e _)

theorem sync (h : Durable d conf boot old) : Durable d.sync conf boot old where
  name _ survives := Cell.survives_sync survives ▸ h.name _ d.dir.survives_view
  content := h.content.sync

theorem creat (h : Durable d conf boot old) {p : Path} (ne : conf ≠ p) (ne' : boot ≠ (d.creat p).1) :
    Durable (d.creat p).2 conf boot old where
  name _ := Disk.survives_creat ne h.name
  content := by
    rw [Disk.node_creat_ne ne']
    exact h.content

end Durable

section Stages

variable {c : Course} {boot : Ino} {dev : Slot → Ino} {old : Text} {d : Disk} {dir : Dir} {data : Ino → List Byte}

theorem Durable.created (start : Durable c.disk c.conf boot old) (layout : Layout c.disk c.conf boot dev)
    (target : boot ≠ c.target) : Durable c.created c.conf boot old :=
  (((start.put target 0 c.image).fsync c.target).sync).creat (tempPath_ne _).symm layout.temp_ne_boot.symm

/-- Before the rename the old boot config stays durable. -/
theorem Course.Pending.durable (h : c.Pending d) (layout : Layout c.disk c.conf boot dev) (target : boot ≠ c.target)
    (start : Durable c.disk c.conf boot old) : Durable d c.conf boot old := by
  have temp := layout.temp_ne_boot.symm
  cases h with
  | copying n le fits => exact start.put target _ _
  | copied fits => exact (start.put target _ _).fsync _
  | installed fits => exact ((start.put target _ _).fsync _).sync
  | writing n fits => exact (start.created layout target).put temp _ _
  | staged fits => exact ((start.created layout target).put temp _ _).fsync _

/-- After the rename the boot config is the old one or the new one, and the image is there. -/
theorem Course.survives_committed (h : c.committed.Survives dir data) (layout : Layout c.disk c.conf boot dev)
    (target : boot ≠ c.target) (apart : c.target ≠ c.temp) (start : Durable c.disk c.conf boot old) :
    ((dir c.conf).map data = some old ∨ (dir c.conf).map data = some c.updated) ∧
      data c.target = overlay c.image (c.disk.data c.target) := by
  have temp := layout.temp_ne_boot.symm
  have staged : Durable c.staged c.conf boot old := ((start.created layout target).put temp _ _).fsync _
  have name : dir c.conf = some boot ∨ dir c.conf = some c.temp := by
    refine Cell.survives_issue (I := fun dir => dir c.conf = some boot ∨ dir c.conf = some c.temp)
      (fun dir survives => .inl (staged.name dir survives)) (fun op mem dir _ => .inr ?_) h.dir
    obtain rfl := List.mem_singleton.1 mem
    exact Function.update_self _ _ _
  have new : data c.temp = c.updated := by
    have flushed := h.data c.temp
    change (((c.created.put c.temp 0 c.updated).fsync c.temp).node c.temp).data.Survives _ at flushed
    rw [Disk.fsync, Disk.node_onNode_self] at flushed
    have view := c.data_staged_temp
    rw [Course.staged, Disk.data_fsync] at view
    exact (Cell.survives_sync flushed).trans view
  constructor
  · rcases name with e | e
    · rw [e, Option.map_some, staged.content _ (h.data boot)]
      exact .inl rfl
    · rw [e, Option.map_some, new]
      exact .inr rfl
  · have flushed := h.data c.target
    rw [node_committed_ne apart] at flushed
    exact (Cell.survives_sync flushed).trans c.data_installed_target

end Stages

/-! ## A run -/

/-- Where a run starts: slot `s` is running and detected, the durable boot config `old` names it, and
`new` is its edit for the other slot. A temporary file may be left from earlier runs. -/
structure Prepared (m : Machine) (conf : Path) (boot : Ino) (dev : Slot → Ino) (s : Slot) (old new : Text) : Prop where
  layout : Layout m.disk conf boot dev
  detected : detectActiveSlotFromCmdline m.cmdline = some s
  durable : Durable m.disk conf boot old
  named : Names old s
  edited : updateExtlinuxRootPartlabel old s.other.label = .ok new
  blocks : ∀ s, (m.disk.node (dev s)).kind = .block
  leftover : ∀ i, m.disk.lookup (tempPath conf) = some i → (m.disk.node i).kind = .regular

/-- What must be found after a run for the image `img`. -/
structure CrashSafe (m : Machine) (conf : Path) (dev : Slot → Ino) (s : Slot) (old new : Text) (img : List Byte)
    (dir : Dir) (data : Ino → List Byte) : Prop where
  config : (dir conf).map data = some old ∨ (dir conf).map data = some new
  image : (dir conf).map data = some new → data (dev s.other) = overlay img (m.disk.data (dev s.other))

/-- Every run that reads the command line as `r₁` and the boot config as `r₂`, with any image, other
answers and loss of power, is safe. -/
def CrashConsistent (m : Machine) (conf : Path) (dev : Slot → Ino) (s : Slot) (old new : Text) (r₁ r₂ : TextRead) :
    Prop :=
  ∀ env argv args supply img dir data, env.cmdline = r₁ → env.bootconf = r₂ → parseArgs argv = .args args →
    args.dryRun = false → args.bootconf = conf → Unchanged env img →
    (main env argv ⟨supply, m⟩).2.now.disk.Survives dir data → CrashSafe m conf dev s old new img dir data

/-- If what is read of the command line gives a slot and what is read of the boot config has an
entry, then the boot config was read to its end, and the slot was the right one or makes no change. -/
def Faithful (r₁ r₂ : TextRead) (cmdline old : Text) (s : Slot) : Prop :=
  r₁.openError = none → r₂.openError = none → ∀ active, detectActiveSlotFromCmdline (r₁.cut cmdline) = some active →
    Names (r₂.cut old) .A ∨ Names (r₂.cut old) .B → r₂.cut old = old ∧ (active = s ∨ ¬ Names old s.other)

/-- The edits for the two slots of a text that names both differ. -/
theorem replaceFirst_ne_other {t : Text} {s : Slot} (named : Names t s) :
    replaceFirst t s.other.rootArg s.rootArg ≠ replaceFirst t s.rootArg s.other.rootArg := by
  obtain ⟨i, stands⟩ := named
  obtain ⟨j, found, first, -⟩ := exists_find (rootArg_ne_nil _) stands
  intro same
  have kept := at_replaceFirst s.other_ne.symm first s
  have moved : At (rootArgs.word s.other) (replaceFirst t s.rootArg s.other.rootArg) j := by
    rw [replaceFirst_of_find found]
    exact (Code.at_replaceAt (c := rootArgs) (stands_of_find found) s.other).2 (.inl ⟨rfl, rfl⟩)
  rw [same] at kept
  exact s.other_ne (rootArgs.at_unique moved kept)

section Prepared

variable {m : Machine} {conf : Path} {boot : Ino} {dev : Slot → Ino} {s : Slot} {old new : Text} {r₁ r₂ : TextRead}

theorem Prepared.new_eq (h : Prepared m conf boot dev s old new) : new = replaceFirst old s.rootArg s.other.rootArg := by
  obtain ⟨-, e⟩ := update_ok_iff.1 h.edited
  rwa [Slot.other_other] at e

theorem Prepared.new_ne (h : Prepared m conf boot dev s old new) : new ≠ old := by
  rw [h.new_eq]
  exact replaceFirst_ne h.named s.other_ne

/-- The text that a faithful run commits. -/
theorem Faithful.updated (faithful : Faithful r₁ r₂ m.cmdline old s) (h : Prepared m conf boot dev s old new)
    (open₁ : r₁.openError = none) (open₂ : r₂.openError = none) {active : Slot} {u : Text}
    (detected : detectActiveSlotFromCmdline (r₁.cut m.cmdline) = some active)
    (edited : updateExtlinuxRootPartlabel (r₂.cut old) active.other.label = .ok u) :
    (active = s ∧ u = new) ∨ u = old := by
  obtain ⟨named, e⟩ := update_ok_iff.1 edited
  obtain ⟨whole, right | unnamed⟩ := faithful open₁ open₂ active detected named
  · subst right
    rw [whole, h.edited] at edited
    exact .inl ⟨rfl, (Except.ok.inj edited).symm⟩
  · by_cases right : active = s
    · subst right
      rw [whole, h.edited] at edited
      exact .inl ⟨rfl, (Except.ok.inj edited).symm⟩
    · obtain rfl := Slot.eq_other_of_ne right
      rw [Slot.other_other, whole, replaceFirst_of_not_names unnamed] at e
      exact .inr e

/-- What a run that is not faithful commits is neither text. -/
theorem Prepared.faithful_of_updated (h : Prepared m conf boot dev s old new) {active : Slot} {u : Text}
    (edited : updateExtlinuxRootPartlabel (r₂.cut old) active.other.label = .ok u) (safe : u = old ∨ u = new) :
    r₂.cut old = old ∧ (active = s ∨ ¬ Names old s.other) := by
  obtain ⟨-, e⟩ := update_ok_iff.1 edited
  rw [Slot.other_other] at e
  have whole : r₂.cut old = old := by
    have len : (r₂.cut old).length = old.length := by
      rw [← length_replaceFirst (r₂.cut old) active active.other, ← e]
      rcases safe with rfl | rfl
      · rfl
      · rw [h.new_eq, length_replaceFirst]
    obtain ⟨n, cut⟩ := r₂.cut_eq_take old
    rw [cut] at len ⊢
    exact List.take_of_length_le (by rw [List.length_take] at len; omega)
  refine ⟨whole, ?_⟩
  by_contra wrong
  obtain ⟨ne, named⟩ := not_or.1 wrong
  obtain rfl := Slot.eq_other_of_ne ne
  rw [whole, Slot.other_other] at e
  rcases safe with same | edited'
  · exact replaceFirst_ne (not_not.1 named) s.other_ne.symm (e.symm.trans same)
  · exact replaceFirst_ne_other h.named (e.symm.trans (edited'.trans h.new_eq))

/-- A run on a machine on which nothing fails shows what it read. -/
theorem CrashConsistent.faithful (h : Prepared m conf boot dev s old new)
    (safe : CrashConsistent m conf dev s old new r₁ r₂) : Faithful r₁ r₂ m.cmdline old s := by
  intro open₁ open₂ active detected named
  let env : Env := { cmdline := r₁, bootconf := r₂, statImage := .ok ⟨true, 0⟩, reads := [] }
  have content : m.disk.data boot = old := h.durable.content.view
  have edited := update_of_names active.other ((names_cases _).2 ((names_cases active.other).1 named))
  have ready : Ready env (confArgs conf) m :=
    h.layout.ready ⟨⟨rfl, rfl, rfl, nofun, rfl, rfl, nofun, rfl, rfl⟩, rfl, open₁, rfl, rfl, open₂⟩ detected
      (h.blocks _) h.leftover rfl rfl (Nat.zero_le _) (Nat.zero_le _) (by rw [content]; exact edited)
  obtain ⟨-, switched⟩ := main_ready (parse_confArgv conf) rfl ready
  have unchanged : Unchanged env [] := ⟨fun st e => Except.ok.inj e ▸ rfl, List.prefix_rfl, fun _ => rfl⟩
  have found := (safe env _ _ none [] _ _ rfl rfl (parse_confArgv conf) rfl rfl unchanged
    (Disk.survives_view _)).config
  generalize (main env (confArgv conf) ⟨none, m⟩).2.now = m' at switched found
  obtain ⟨active', text, c, start, committed⟩ := switched
  obtain rfl := Option.some.inj (detected.symm.trans start.detected)
  obtain ⟨here, target, read⟩ := start.layout h.layout
  have shown := (Course.after_of_flushed committed.disk).switched here target
  have updated := start.updated
  rw [read, content] at updated
  apply h.faithful_of_updated updated
  change m'.disk.text conf = _ ∨ m'.disk.text conf = _ at found
  have conf' : c.conf = conf := start.conf
  have committed' : m'.disk.text conf = some c.updated := conf' ▸ shown.1
  rwa [committed', Option.some.injEq, Option.some.injEq] at found

theorem Faithful.crashConsistent (h : Prepared m conf boot dev s old new) (faithful : Faithful r₁ r₂ m.cmdline old s) :
    CrashConsistent m conf dev s old new r₁ r₂ := by
  rintro env argv args supply img dir data rfl rfl accepted wet rfl image survives
  have content : m.disk.data boot = old := h.durable.content.view
  -- whatever keeps the old boot config durable is safe
  have keep : ∀ d, Durable d args.bootconf boot old → d.Survives dir data →
      CrashSafe m args.bootconf dev s old new img dir data := by
    intro d durable survives
    have found : (dir args.bootconf).map data = some old := by
      rw [durable.name dir survives.dir, Option.map_some, durable.content _ (survives.data boot)]
    exact ⟨.inl found, fun e => absurd (Option.some.inj (e.symm.trans found)) h.new_ne⟩
  rcases main_leaves env m accepted wet supply with
    (same | ⟨active, text, c, start, pending⟩) | ⟨active, text, c, start, committed⟩
  · exact keep _ h.durable (same ▸ survives)
  · obtain ⟨here, target, -⟩ := start.layout h.layout
    have apart : boot ≠ c.target := by
      rw [target]
      exact (h.layout.boot_ne _).symm
    refine keep _ ?_ survives
    have durable := pending.durable here apart (start.disk ▸ start.conf ▸ h.durable)
    rwa [start.conf] at durable
  · obtain ⟨here, target, read⟩ := start.layout h.layout
    have apart : boot ≠ c.target := by
      rw [target]
      exact (h.layout.boot_ne _).symm
    have apart' : c.target ≠ c.temp := by
      rw [target]
      exact (here.ne_temp _).symm
    obtain ⟨found, written⟩ := Course.survives_committed (committed.disk.survives survives) here apart apart'
      (start.disk ▸ start.conf ▸ h.durable)
    rw [start.conf] at found
    rw [start.image, image.whole committed.drained, start.disk, target] at written
    have edited := start.updated
    rw [read, content] at edited
    rcases faithful.updated h start.opened.1 start.opened.2 start.detected edited with ⟨rfl, e⟩ | e
    · rw [e] at found
      exact ⟨found, fun _ => written⟩
    · rw [e, or_self] at found
      exact ⟨.inl found, fun e => absurd (Option.some.inj (e.symm.trans found)) h.new_ne⟩

/-- **When a run is crash consistent.** -/
theorem crash_consistent_iff (h : Prepared m conf boot dev s old new) (r₁ r₂ : TextRead) :
    CrashConsistent m conf dev s old new r₁ r₂ ↔ Faithful r₁ r₂ m.cmdline old s :=
  ⟨fun safe => safe.faithful h, fun faithful => faithful.crashConsistent h⟩

end Prepared

theorem durable_flashed (conf : Text) (dev : Slot → List Byte) :
    Durable (Disk.flashed conf dev) bootconfPath 0 conf where
  name dir survives := by
    rw [Cell.settled_flushed flashedDir dir survives]
    exact (layout_flashed conf dev).boots
  content := Cell.settled_flushed conf

/-- The boot config of `machineOld`: an entry, and a line end. -/
def oldConf : Text := Slot.A.rootArg ++ [10]

/-- A machine that runs from slot A. -/
def machineOld : Machine := ⟨Slot.A.rootArg, Disk.flashed oldConf fun _ => [0, 0], []⟩

theorem prepared_machineOld :
    Prepared machineOld bootconfPath 0 Slot.ino .A oldConf (Slot.B.rootArg ++ [10]) where
  layout := layout_flashed oldConf fun _ => [0, 0]
  detected := detect_rootArg .A
  durable := durable_flashed oldConf fun _ => [0, 0]
  named := by decide
  edited := by decide
  blocks s := by cases s <;> rfl
  leftover := leftover_flashed _ _

/-- A read error after the entry cuts the boot config short. -/
theorem not_crash_consistent_cut :
    ¬ ∀ m conf boot dev s old new, Prepared m conf boot dev s old new →
      ∀ r₁ r₂, CrashConsistent m conf dev s old new r₁ r₂ := by
  intro safe
  have faithful := (safe _ _ _ _ _ _ _ prepared_machineOld {} { failsAt := some 22 }).faithful prepared_machineOld
  have whole := (faithful rfl rfl .A (detect_rootArg .A) (by decide)).1
  exact absurd whole (by decide)

/-- From the same machine a run that reads both texts whole. -/
theorem crash_consistent_iff_machineOld :
    CrashConsistent machineOld bootconfPath Slot.ino .A oldConf (Slot.B.rootArg ++ [10]) {} {} ↔
      Faithful {} {} machineOld.cmdline oldConf .A :=
  crash_consistent_iff prepared_machineOld {} {}

end OtaBridge.Apply
