import Mathlib.Data.Set.Basic
import OtaBridge.Logic.Systems
import OtaBridge.Apply.Crash
import OtaBridge.Apply.History

/-!
# Updates through power losses

A machine goes through runs of `ota-apply`, which may fail or be killed anywhere, and through restarts
that find any survivor of what was not flushed. Seen from outside it is a `Device`: two slots, what they
hold for certain, and the slots that the next start may come up in. `simulates` shows that the machine
follows the device as long as no run starts while the boot config names another slot than the running
one, so every restart at any moment comes up with a completely written slot (`starts_complete`).
-/

namespace OtaBridge.Apply

open Logic.Journal Logic.Systems

/-! ## The device -/

/-- A device with two slots, as its owner sees it. -/
structure Device where
  running : Slot
  /-- The slots that the next start may come up in. -/
  next : Set Slot
  /-- What a slot holds, if it is known. -/
  holds : Slot → Option (List Byte)

namespace Device

/-- A device does not write to the slot it runs from, nor after it has asked for another slot. -/
inductive Step : Device → Device → Prop where
  | spoil (a : Device) (settled : a.next = {a.running}) :
    Step a { a with holds := Function.update a.holds a.running.other none }
  | switch (a : Device) (content : List Byte) (settled : a.next = {a.running}) :
    Step a { a with holds := Function.update a.holds a.running.other (some content), next := Set.univ }
  | restart (a : Device) (s : Slot) (mem : s ∈ a.next) : Step a { a with running := s, next := {s} }

/-- Every slot that the next start may come up in is complete. -/
def Safe (a : Device) : Prop := ∀ s, s ∈ a.next → (a.holds s).isSome

theorem holds_running (a : Device) (v : Option (List Byte)) :
    Function.update a.holds a.running.other v a.running = a.holds a.running :=
  Function.update_of_ne a.running.other_ne.symm _ _

theorem keeps_safe : Keeps Step Safe := by
  rintro a b safe step s mem
  have own : a.next = {a.running} → (a.holds a.running).isSome := fun settled => safe _ (settled ▸ rfl)
  cases step with
  | spoil settled =>
    obtain rfl : s = a.running := by rwa [settled] at mem
    show (Function.update a.holds a.running.other none a.running).isSome
    rw [a.holds_running]
    exact own settled
  | switch content settled =>
    show (Function.update a.holds a.running.other (some content) s).isSome
    by_cases e : s = a.running
    · rw [e, a.holds_running]
      exact own settled
    · rw [Slot.eq_other_of_ne e, Function.update_self]
      rfl
  | restart s' mem' =>
    obtain rfl : s = s' := mem
    exact safe s mem'

end Device

/-! ## What a run keeps, whatever survives -/

namespace Disk

/-- The disk with these names, and no others on their way. -/
def named (d : Disk) (dir : Dir) : Disk := { d with dir := ⟨dir, []⟩ }

/-- The disk after a restart that found these names and contents. -/
def restart (d : Disk) (dir : Dir) (data : Ino → List Byte) : Disk :=
  { d with dir := ⟨dir, []⟩, node := fun i => { d.node i with data := ⟨data i, []⟩ } }

/-- What survives of the inode is in `I`, whatever it is. -/
def Always (d : Disk) (i : Ino) (I : List Byte → Prop) : Prop := ∀ x, (d.node i).data.Survives x → I x

namespace Always

variable {d d' : Disk} {i j : Ino} {I : List Byte → Prop}

theorem view (h : d.Always i I) : I (d.data i) := h _ (d.node i).data.survives_view

theorem of_node (h : d.Always i I) (node : d'.node i = d.node i) : d'.Always i I := by
  unfold Always
  rwa [node]

theorem put (h : d.Always i I) {pos : Nat} {bytes : List Byte}
    (keep : i = j → ∀ op, op ∈ puts pos bytes → ∀ x, I x → I (Update.apply op x)) : (d.put j pos bytes).Always i I := by
  by_cases e : i = j
  · subst e
    intro x survives
    rw [Disk.put, node_onNode_self] at survives
    exact Cell.survives_issue h (keep rfl) survives
  · exact h.of_node (d.node_onNode_ne e _)

theorem fsync (h : d.Always i I) (j : Ino) : (d.fsync j).Always i I := by
  by_cases e : i = j
  · subst e
    intro x survives
    rw [Disk.fsync, node_onNode_self] at survives
    rw [Cell.survives_sync survives]
    exact h.view
  · exact h.of_node (d.node_onNode_ne e _)

theorem sync (h : d.Always i I) : d.sync.Always i I := fun _ survives => Cell.survives_sync survives ▸ h.view

theorem creat (h : d.Always i I) {p : Path} (ne : i ≠ (d.creat p).1) : (d.creat p).2.Always i I :=
  h.of_node (node_creat_ne ne)

end Always

/-- The inode holds `x`, whatever survives. -/
def Holds (d : Disk) (i : Ino) (x : List Byte) : Prop := d.Always i (· = x)

theorem holds_sync (d : Disk) (i : Ino) : d.sync.Holds i (d.data i) := Cell.settled_sync _

/-- A creation leaves the inodes there are what they are. -/
theorem kind_creat {d : Disk} {p : Path} {i : Ino} (lt : i < d.fresh) :
    ((d.creat p).2.node i).kind = (d.node i).kind := by
  cases found : d.lookup p with
  | some j =>
    rw [creat_of_some found]
    exact d.kind_truncate j i
  | none =>
    rw [creat_of_none found]
    exact congrArg Node.kind (Function.update_of_ne (Nat.ne_of_lt lt) _ _)

/-- What is true of the names that survive a creation. -/
theorem names_creat {d : Disk} {p : Path} {I : Dir → Prop} (before : ∀ dir, d.dir.Survives dir → I dir)
    (link : ∀ dir, I dir → I (Function.update dir p (some (d.creat p).1))) {dir : Dir}
    (h : (d.creat p).2.dir.Survives dir) : I dir := by
  cases found : d.lookup p with
  | some i =>
    rw [creat_of_some found] at h
    exact before dir h
  | none =>
    rw [creat_of_none found] at h link
    refine Cell.survives_issue before (fun op mem dir same => ?_) h
    obtain rfl := List.mem_singleton.1 mem
    exact link dir same

end Disk

/-- The files are apart, and a run can write to them. -/
structure Updatable (d : Disk) (conf : Path) (boot : Ino) (dev : Slot → Ino) : Prop
    extends Layout d conf boot dev where
  blocks : ∀ s, (d.node (dev s)).kind = .block
  leftover : ∀ i, d.lookup (tempPath conf) = some i → (d.node i).kind = .regular

/-- Whatever names survive, they lead to the same files. -/
def Rooted (d : Disk) (conf : Path) (boot : Ino) (dev : Slot → Ino) : Prop :=
  ∀ dir, d.dir.Survives dir → Updatable (d.named dir) conf boot dev

section Rooted

variable {d d' : Disk} {conf : Path} {boot : Ino} {dev : Slot → Ino} {dir : Dir}

/-- More inodes, with other contents, make no difference. -/
theorem Updatable.grow (h : Updatable d conf boot dev) (names : d'.lookup = d.lookup) (fresh : d.fresh ≤ d'.fresh)
    (kind : ∀ i, i < d.fresh → (d'.node i).kind = (d.node i).kind) : Updatable d' conf boot dev where
  onDisk := h.onDisk
  boots := names ▸ h.boots
  devices s := names ▸ h.devices s
  dev_ne := h.dev_ne
  boot_ne := h.boot_ne
  temp_ne i found := h.temp_ne i (names ▸ found)
  boot_lt := h.boot_lt.trans_le fresh
  dev_lt s := (h.dev_lt s).trans_le fresh
  temp_lt i found := (h.temp_lt i (names ▸ found)).trans_le fresh
  blocks s := (kind _ (h.dev_lt s)).trans (h.blocks s)
  leftover i found := (kind i (h.temp_lt i (names ▸ found))).trans (h.leftover i (names ▸ found))

theorem Rooted.updatable (h : Rooted d conf boot dev) : Updatable d conf boot dev :=
  (h _ d.dir.survives_view).grow rfl le_rfl fun _ _ => rfl

theorem Rooted.put (h : Rooted d conf boot dev) (i : Ino) (pos : Nat) (bytes : List Byte) :
    Rooted (d.put i pos bytes) conf boot dev :=
  fun dir survives => (h dir survives).grow rfl le_rfl fun j _ => d.kind_put i j pos bytes

theorem Rooted.fsync (h : Rooted d conf boot dev) (i : Ino) : Rooted (d.fsync i) conf boot dev :=
  fun dir survives => (h dir survives).grow rfl le_rfl fun j _ => d.kind_fsync i j

theorem Rooted.sync (h : Rooted d conf boot dev) : Rooted d.sync conf boot dev := by
  intro dir survives
  have same : dir = d.lookup := Cell.survives_sync survives
  exact (h dir (same ▸ d.dir.survives_view)).grow rfl le_rfl fun _ _ => rfl

end Rooted

section Course

variable {c : Course} {boot : Ino} {dev : Slot → Ino} {d d' : Disk} {dir : Dir} {i : Ino} {I : List Byte → Prop}

theorem Rooted.installed (h : Rooted c.disk c.conf boot dev) : Rooted c.installed c.conf boot dev :=
  ((h.put _ _ _).fsync _).sync

theorem Rooted.created (h : Rooted c.disk c.conf boot dev) : Rooted c.created c.conf boot dev := by
  have here := h.updatable
  have linked : (c.created.node c.temp).kind = .regular :=
    Disk.kind_creat_self fun i found => (Course.kind_installed i).trans (here.leftover i found)
  intro dir survives
  refine Disk.names_creat (I := fun dir => Updatable (c.created.named dir) c.conf boot dev) (fun dir old => ?_)
    (fun dir same => ?_) survives
  · exact (h.installed dir old).grow rfl (Disk.le_creat_fresh (d := c.installed)) fun i lt =>
      Disk.kind_creat (d := c.installed) lt
  · have other : ∀ p, p ≠ tempPath c.conf →
        Function.update dir (tempPath c.conf) (some c.temp) p = dir p := fun p ne => Function.update_of_ne ne _ _
    have only : ∀ i, Function.update dir (tempPath c.conf) (some c.temp) (tempPath c.conf) = some i → c.temp = i := by
      intro i found
      rw [Function.update_self] at found
      exact Option.some.inj found
    exact
      { onDisk := same.onDisk
        boots := (other _ (tempPath_ne _).symm).trans same.boots
        devices := fun s => (other _ (here.temp_ne_dev s)).trans (same.devices s)
        dev_ne := same.dev_ne
        boot_ne := same.boot_ne
        temp_ne := fun i found => only i found ▸ ⟨here.temp_ne_boot, here.ne_temp⟩
        boot_lt := same.boot_lt
        dev_lt := same.dev_lt
        temp_lt := fun i found => only i found ▸ here.temp_lt_fresh
        blocks := same.blocks
        leftover := fun i found => only i found ▸ linked }

theorem Rooted.staged (h : Rooted c.disk c.conf boot dev) : Rooted c.staged c.conf boot dev :=
  (h.created.put _ _ _).fsync _

/-- Before the rename the names stay where they are. -/
theorem Course.Pending.rooted (pending : c.Pending d) (h : Rooted c.disk c.conf boot dev) :
    Rooted d c.conf boot dev := by
  cases pending with
  | copying n le fits => exact h.put _ _ _
  | copied fits => exact (h.put _ _ _).fsync _
  | installed fits => exact h.installed
  | writing n fits => exact h.created.put _ _ _
  | staged fits => exact h.staged

/-- Before the rename only the target and the temporary file change, the target by what is written there. -/
theorem Course.Pending.always (pending : c.Pending d) (h : c.disk.Always i I)
    (target : i = c.target → ∀ op, op ∈ puts 0 c.image → ∀ x, I x → I (Update.apply op x)) (temp : i ≠ c.temp) :
    d.Always i I := by
  have installed : c.installed.Always i I := ((h.put target).fsync _).sync
  cases pending with
  | copying n le fits => exact h.put fun e op mem => target e op (puts_subset (c.image.take_prefix n) mem)
  | copied fits => exact (h.put target).fsync _
  | installed fits => exact installed
  | writing n fits => exact (installed.creat temp).put fun e => absurd e temp
  | staged fits => exact ((installed.creat temp).put fun e => absurd e temp).fsync _

theorem Course.always_committed (h : c.disk.Always i I)
    (target : i = c.target → ∀ op, op ∈ puts 0 c.image → ∀ x, I x → I (Update.apply op x)) (temp : i ≠ c.temp) :
    c.committed.Always i I := by
  have installed : c.installed.Always i I := ((h.put target).fsync _).sync
  exact ((installed.creat temp).put fun e => absurd e temp).fsync _

/-- After the rename the boot config is the old file or the new one, among the same other files. -/
theorem Rooted.committed (h : Rooted c.disk c.conf boot dev) (survives : c.committed.dir.Survives dir) :
    Updatable (c.committed.named dir) c.conf boot dev ∨ Updatable (c.committed.named dir) c.conf c.temp dev := by
  have here := h.updatable
  refine Cell.survives_issue (I := fun dir => Updatable (c.committed.named dir) c.conf boot dev ∨
    Updatable (c.committed.named dir) c.conf c.temp dev) (fun dir old => ?_) (fun op mem dir same => ?_) survives
  · exact .inl ((h.staged dir old).grow rfl le_rfl fun _ _ => rfl)
  · obtain rfl := List.mem_singleton.1 mem
    have other : ∀ p, p ≠ tempPath c.conf → p ≠ c.conf → NameOp.apply (.rename (tempPath c.conf) c.conf c.temp) dir p = dir p :=
      fun p ne ne' => (Function.update_of_ne ne' _ _).trans (Function.update_of_ne ne _ _)
    have moved : NameOp.apply (.rename (tempPath c.conf) c.conf c.temp) dir (tempPath c.conf) = none :=
      (Function.update_of_ne (tempPath_ne _) _ _).trans (Function.update_self _ _ _)
    have devices : ∀ s, dir s.dev = some (dev s) := fun s => by
      rcases same with same | same <;> exact same.devices s
    have blocks : ∀ s, (c.committed.node (dev s)).kind = .block := fun s => by
      rcases same with same | same <;> exact same.blocks s
    exact .inr
      { onDisk := here.onDisk
        boots := Function.update_self _ _ _
        devices := fun s => (other _ (here.temp_ne_dev s) (here.conf_ne_dev s)).trans (devices s)
        dev_ne := here.dev_ne
        boot_ne := fun s => (here.ne_temp s).symm
        temp_ne := fun i found => by cases moved.symm.trans found
        boot_lt := here.temp_lt_fresh
        dev_lt := fun s => (here.dev_lt s).trans_le (Disk.le_creat_fresh (d := c.installed))
        temp_lt := fun i found => by cases moved.symm.trans found
        blocks := blocks
        leftover := fun i found => by cases moved.symm.trans found }

theorem Course.holds_committed (ne : i ≠ c.temp) : c.committed.Holds i (c.installed.data i) := by
  unfold Disk.Holds
  refine Disk.Always.of_node ?_ (node_committed_ne ne)
  exact Disk.holds_sync _ i

/-- The new boot config was flushed before the rename. -/
theorem Course.holds_temp : c.committed.Holds c.temp c.updated := by
  have flushed : c.staged.Holds c.temp (c.staged.data c.temp) := by
    unfold Disk.Holds Disk.Always staged Disk.data Disk.fsync
    rw [Disk.node_onNode_self]
    exact Cell.settled_sync ((c.created.put c.temp 0 c.updated).node c.temp).data
  rwa [data_staged_temp] at flushed

theorem Flushed.always (flushed : Flushed d d') (h : d.Always i I) : d'.Always i I := by
  induction flushed with
  | refl => exact h
  | fsync j _ ih => exact ih.fsync j
  | fsyncDir _ ih => exact ih
  | sync _ ih => exact ih.sync

end Course

/-! ## The machine -/

/-- A machine with everything it has on its disk flushed, and ready for runs. -/
structure Site.Started (conf : Path) (x : Site) : Prop extends x.Fresh conf where
  names : x.disk.dir.pending = []
  contents : ∀ i, (x.disk.node i).data.pending = []
  updatable : ∃ boot dev, Updatable x.disk conf boot dev

/-- A restart finds any survivor, and comes up in the slot that the boot config then names. -/
inductive Restart (conf : Path) (x : Site) : Site → Prop where
  | restart {dir : Dir} {data : Ino → List Byte} (survives : x.disk.Survives dir data) (c : Text) (s : Slot) (t : Text)
    (found : (dir conf).map data = some t) (named : Configured t s) (detected : detectActiveSlotFromCmdline c = some s) :
    Restart conf x { x with cmdline := c, disk := x.disk.restart dir data, running := s }

/-- A run starts only while the boot config names the running slot. -/
def OutageStep (conf : Path) (x y : Site) : Prop :=
  (RunStep conf x y ∧ x.BootsInto conf x.running) ∨ Restart conf x y

/-- The surviving names lead to a boot config for slot `s`, which is flushed. -/
def Selects (d : Disk) (conf : Path) (dev : Slot → Ino) (dir : Dir) (s : Slot) : Prop :=
  ∃ boot t, Updatable (d.named dir) conf boot dev ∧ d.Holds boot t ∧ Configured t s

/-- The boot config is for slot `s`, whatever survives. -/
def Anchored (d : Disk) (conf : Path) (dev : Slot → Ino) (s : Slot) : Prop :=
  ∃ boot t, Rooted d conf boot dev ∧ d.Holds boot t ∧ Configured t s

/-- The machine `x` is what its owner sees as `a`. -/
structure Mirrors (conf : Path) (dev : Slot → Ino) (x : Site) (a : Device) : Prop where
  running : a.running = x.running
  detected : detectActiveSlotFromCmdline x.cmdline = some x.running
  next : ∀ dir, x.disk.dir.Survives dir → ∃ s, s ∈ a.next ∧ Selects x.disk conf dev dir s
  settled : x.BootsInto conf x.running → a.next = {x.running} ∧ Anchored x.disk conf dev x.running
  holds : ∀ s content, a.holds s = some content → x.disk.Holds (dev s) content ∧ content ∈ x.complete

section Machine

variable {conf : Path} {dev : Slot → Ino} {x y : Site} {a : Device} {dir : Dir} {data : Ino → List Byte} {s : Slot}

/-- What a restart finds under the name of the boot config. -/
theorem Selects.found (h : Selects x.disk conf dev dir s) (survives : x.disk.Survives dir data) :
    ∃ t, (dir conf).map data = some t ∧ Configured t s := by
  obtain ⟨boot, t, files, holds, configured⟩ := h
  refine ⟨t, ?_, configured⟩
  have boots : dir conf = some boot := files.boots
  rw [boots, Option.map_some, holds _ (survives.data boot)]

theorem Anchored.selects {d : Disk} (h : Anchored d conf dev s) (survives : d.dir.Survives dir) :
    Selects d conf dev dir s := by
  obtain ⟨boot, t, rooted, holds, configured⟩ := h
  exact ⟨boot, t, rooted dir survives, holds, configured⟩

/-- After a restart there is nothing on its way. -/
theorem Selects.anchored (h : Selects x.disk conf dev dir s) (survives : x.disk.Survives dir data) :
    Anchored (x.disk.restart dir data) conf dev s := by
  obtain ⟨boot, t, files, holds, configured⟩ := h
  refine ⟨boot, t, fun dir' survives' => ?_, ?_, configured⟩
  · rw [Cell.settled_flushed dir dir' survives']
    exact files.grow rfl le_rfl fun _ _ => rfl
  · rw [← holds _ (survives.data boot)]
    exact Cell.settled_flushed _

theorem Disk.Always.restart {i : Ino} {I : List Byte → Prop} (h : x.disk.Always i I) (survives : x.disk.Survives dir data) :
    (x.disk.restart dir data).Always i I := by
  intro v found
  rw [Cell.settled_flushed _ v found]
  exact h _ (survives.data i)

/-- A restart is into the slot that the boot config then names. -/
theorem Restart.named (step : Restart conf x y) : y.BootsInto conf y.running := by
  obtain ⟨-, c, s, t, found, named, -⟩ := step
  exact ⟨t, found, named⟩

theorem Mirrors.of_anchored (running : a.running = x.running) (detected : detectActiveSlotFromCmdline x.cmdline = some x.running)
    (next : a.next = {x.running}) (anchored : Anchored x.disk conf dev x.running)
    (holds : ∀ s content, a.holds s = some content → x.disk.Holds (dev s) content ∧ content ∈ x.complete) :
    Mirrors conf dev x a where
  running := running
  detected := detected
  next dir survives := ⟨x.running, by rw [next]; rfl, anchored.selects survives⟩
  settled _ := ⟨next, anchored⟩
  holds := holds

theorem Mirrors.restart (h : Mirrors conf dev x a) (step : Restart conf x y) :
    ∃ b, Relation.ReflTransGen Device.Step a b ∧ Mirrors conf dev y b := by
  obtain ⟨survives, c, s, t, found, named, detected⟩ := step
  obtain ⟨s', mem, selects⟩ := h.next _ survives.dir
  obtain ⟨t', found', named'⟩ := selects.found survives
  obtain rfl := Option.some.inj (found.symm.trans found')
  obtain rfl : s = s' := named'.eq_of_names named.names
  refine ⟨_, .single (.restart a s mem), .of_anchored rfl detected rfl (selects.anchored survives) fun s' v known => ?_⟩
  obtain ⟨holds, complete⟩ := h.holds s' v known
  exact ⟨holds.restart survives, complete⟩

/-- A run that leaves the disk as it was. -/
theorem Mirrors.same (h : Mirrors conf dev x a) {img : List Byte} {m : Machine} (same : m.disk = x.disk) :
    Mirrors conf dev (x.after img m) a := by
  have disk : (x.after img m).disk = x.disk := same
  refine ⟨h.running, h.detected, ?_, fun named => ?_, fun s v known => ?_⟩
  · rw [disk]
    exact h.next
  · rw [disk]
    exact h.settled (by rwa [Site.BootsInto, disk] at named)
  · obtain ⟨holds, complete⟩ := h.holds s v known
    rw [disk]
    exact ⟨holds, Site.subset_after complete⟩

/-- A run that stops before the rename may have written to the other slot. -/
theorem Mirrors.pending (h : Mirrors conf dev x a) {env : Env} {args : Args} {text : Text} {c : Course} {img : List Byte}
    {m : Machine} (named : x.BootsInto args.bootconf x.running) (conf' : args.bootconf = conf)
    (start : Starts env args ⟨x.cmdline, x.disk, []⟩ x.running text c) (pending : c.Pending m.disk) :
    ∃ b, Relation.ReflTransGen Device.Step a b ∧ Mirrors conf dev (x.after img m) b := by
  subst conf'
  obtain ⟨next, boot, t, rooted, config, configured⟩ := h.settled named
  obtain ⟨here, target, -⟩ := start.layout rooted.updatable.toLayout
  have same : c.disk = x.disk := start.disk
  rw [← same, ← start.conf] at rooted
  have running := h.running
  refine ⟨_, .single (.spoil a (by rw [next, running])), .of_anchored running h.detected next ?_ fun s v known => ?_⟩
  · refine ⟨boot, t, start.conf ▸ pending.rooted rooted, pending.always (same ▸ config) (fun e => absurd e ?_) here.temp_ne_boot.symm, configured⟩
    rw [target]
    exact (here.boot_ne _).symm
  · -- only what the running slot holds is still known
    have own : s = x.running := by
      by_contra other
      rw [← running] at other
      change Function.update a.holds a.running.other none s = some v at known
      rw [Slot.eq_other_of_ne other, Function.update_self] at known
      cases known
    subst own
    change Function.update a.holds a.running.other none x.running = some v at known
    rw [← running, a.holds_running, running] at known
    obtain ⟨holds, complete⟩ := h.holds _ v known
    refine ⟨pending.always (same ▸ holds) (fun e => absurd e ?_) (here.ne_temp _).symm, Site.subset_after complete⟩
    rw [target]
    exact here.dev_ne _

/-- A run that gets past the rename has written the other slot, and asked for it. -/
theorem Mirrors.switched (h : Mirrors conf dev x a) {env : Env} {args : Args} {img : List Byte} {m : Machine}
    (named : x.BootsInto args.bootconf x.running) (conf' : args.bootconf = conf) (whole : env.cmdline.failsAt = none)
    (image : Unchanged env img) (switched : Switched env args ⟨x.cmdline, x.disk, []⟩ m) :
    ∃ b, Relation.ReflTransGen Device.Step a b ∧ Mirrors conf dev (x.after img m) b := by
  subst conf'
  obtain ⟨next, boot, t, rooted, config, configured⟩ := h.settled named
  have layout := rooted.updatable.toLayout
  have updated := Site.updated layout h.detected whole image switched
  have complete := Site.complete_after img updated.said (layout.text_dev x.running.other)
  obtain ⟨active, text, c, start, committed⟩ := switched
  obtain rfl := Site.own h.detected whole start
  obtain ⟨here, target, read⟩ := start.layout layout
  have same : c.disk = x.disk := start.disk
  have flushed := committed.disk
  have kept : ∀ i v, x.disk.Holds i v → i ≠ c.target → i ≠ c.temp → m.disk.Holds i v := by
    intro i v holds ne ne'
    rw [← same] at holds
    exact flushed.always (Course.always_committed holds (fun e => absurd e ne) ne')
  have boot_ne : boot ≠ c.target := target ▸ (here.boot_ne _).symm
  have apart : c.target ≠ c.temp := target ▸ (here.ne_temp _).symm
  -- the boot config that was committed names the other slot
  have edited : Configured c.updated x.running.other := by
    obtain ⟨n, cut⟩ := env.bootconf.cut_eq_take text
    have edit := start.updated
    have old : text = t := read.trans config.view
    rw [cut, old] at edit
    exact configured.update edit
  refine ⟨_, .single (.switch a (overlay img (x.disk.data c.target)) (by rw [next, h.running])),
    h.running, h.detected, fun dir survives => ?_, fun named' => ?_, fun s v known => ?_⟩
  · have old : c.committed.dir.Survives dir := (flushed.survives ⟨survives, m.disk.survives_view.data⟩).dir
    rw [← same, ← start.conf] at rooted
    rcases rooted.committed old with files | files
    · refine ⟨_, Set.mem_univ _, boot, t, ?_, kept _ _ config boot_ne here.temp_ne_boot.symm, configured⟩
      rw [← start.conf]
      exact files.grow rfl flushed.fresh.ge fun i _ => flushed.kind i
    · refine ⟨_, Set.mem_univ _, c.temp, c.updated, ?_, flushed.always Course.holds_temp, edited⟩
      rw [← start.conf]
      exact files.grow rfl flushed.fresh.ge fun i _ => flushed.kind i
  · obtain ⟨u, found, other⟩ := updated.named named
    exact absurd (named'.unique (x := x.after img m) ⟨u, found, other⟩) x.running.other_ne.symm
  · change Function.update a.holds a.running.other (some (overlay img (x.disk.data c.target))) s = some v at known
    by_cases own : s = x.running
    · subst own
      rw [← h.running, a.holds_running, h.running] at known
      obtain ⟨holds, old⟩ := h.holds _ v known
      exact ⟨kept _ _ holds (target ▸ here.dev_ne _) (here.ne_temp _).symm, Site.subset_after old⟩
    · obtain rfl := Slot.eq_other_of_ne own
      rw [h.running, Function.update_self, Option.some.injEq] at known
      rw [complete, ← known, target]
      refine ⟨?_, List.mem_cons_self⟩
      have written := flushed.always (Course.holds_committed apart)
      rwa [Course.data_installed_target, start.image, image.whole committed.drained, same, target] at written

theorem Mirrors.run (h : Mirrors conf dev x a) (step : RunStep conf x y) (named : x.BootsInto conf x.running) :
    ∃ b, Relation.ReflTransGen Device.Step a b ∧ Mirrors conf dev y b := by
  obtain @⟨env, argv, args, img, supply, accepted, wet, rfl, image, whole⟩ := step
  have leaves := main_leaves env ⟨x.cmdline, x.disk, []⟩ accepted wet supply
  generalize (main env argv ⟨supply, ⟨x.cmdline, x.disk, []⟩⟩).2.now = m at leaves ⊢
  rcases leaves with (same | ⟨active, text, c, start, pending⟩) | switched
  · exact ⟨a, .refl, h.same same⟩
  · obtain rfl := Site.own h.detected whole start
    exact h.pending named rfl start pending
  · exact h.switched named rfl whole image switched

variable (conf dev) in
/-- **The machine follows the device.** -/
theorem simulates : Simulates (OutageStep conf) Device.Step (Mirrors conf dev) := by
  rintro x y a related (⟨run, named⟩ | restart)
  · exact related.run run named
  · exact related.restart restart

/-! ## Histories -/

/-- What the owner of a machine that has just started sees. -/
def Site.device (x : Site) : Device where
  running := x.running
  next := {x.running}
  holds s := if s = x.running then x.disk.text s.dev else none

theorem Site.device_running (x : Site) : x.device.holds x.running = x.disk.text x.running.dev := if_pos rfl

theorem Site.device_other {x : Site} {s : Slot} (ne : s ≠ x.running) : x.device.holds s = none := if_neg ne

theorem Site.Started.mirrors (h : x.Started conf) : ∃ dev, Mirrors conf dev x x.device := by
  obtain ⟨boot, dev, files⟩ := h.updatable
  obtain ⟨t, found, configured⟩ := h.named
  rw [files.toLayout.text, Option.some.injEq] at found
  have flushed : ∀ i, x.disk.Holds i (x.disk.data i) := fun i v survives => by
    obtain ⟨kept, sub, rfl⟩ := survives
    rw [h.contents i, List.sublist_nil] at sub
    rw [sub, Disk.data, Cell.view, h.contents i]
  refine ⟨dev, .of_anchored rfl h.detected rfl ⟨boot, t, fun dir survives => ?_, found ▸ flushed boot, configured⟩ ?_⟩
  · obtain ⟨kept, sub, rfl⟩ := survives
    rw [h.names, List.sublist_nil] at sub
    refine files.grow ?_ le_rfl fun _ _ => rfl
    show replay kept x.disk.dir.durable = x.disk.dir.view
    rw [sub, Cell.view, h.names]
  · intro s v known
    obtain ⟨content, mem, there⟩ := h.complete
    by_cases own : s = x.running
    · subst own
      rw [x.device_running] at known
      obtain rfl := Option.some.inj (there.symm.trans known)
      rw [files.toLayout.text_dev, Option.some.injEq] at there
      exact ⟨there ▸ flushed _, mem⟩
    · rw [Site.device_other own] at known
      cases known

theorem Site.Started.safe (h : x.Started conf) : x.device.Safe := by
  intro s mem
  obtain rfl : s = x.running := mem
  obtain ⟨content, -, there⟩ := h.complete
  rw [x.device_running, there]
  rfl

/-- **A history is one of the device.** -/
theorem history_of_device (started : x.Started conf) (history : Relation.ReflTransGen (OutageStep conf) x y) :
    ∃ dev b, Relation.ReflTransGen Device.Step x.device b ∧ Mirrors conf dev y b := by
  obtain ⟨dev, mirrors⟩ := started.mirrors
  exact ⟨dev, (simulates conf dev).run mirrors history⟩

/-- **Every start finds a complete slot**: whatever survives a power loss at any moment, the boot config
names one slot, and what that slot holds was completely written. -/
theorem starts_complete (started : x.Started conf) (history : Relation.ReflTransGen (OutageStep conf) x y)
    (survives : y.disk.Survives dir data) :
    ∃ t s content, (dir conf).map data = some t ∧ Configured t s ∧ (dir s.dev).map data = some content ∧
      content ∈ y.complete := by
  obtain ⟨dev, mirrors⟩ := started.mirrors
  obtain ⟨a, mirrors, safe⟩ := (simulates conf dev).invariant Device.keeps_safe mirrors started.safe history
  obtain ⟨s, mem, selects⟩ := mirrors.next dir survives.dir
  obtain ⟨t, found, configured⟩ := selects.found survives
  obtain ⟨content, known⟩ := Option.isSome_iff_exists.1 (safe s mem)
  obtain ⟨holds, complete⟩ := mirrors.holds s content known
  obtain ⟨boot, -, files, -, -⟩ := selects
  have device : dir s.dev = some (dev s) := files.devices s
  refine ⟨t, s, content, found, configured, ?_, complete⟩
  rw [device, Option.map_some, holds _ (survives.data _)]

end Machine

/-! ## A run that loses power -/

theorem updatable_flashed (conf : Text) (dev : Slot → List Byte) :
    Updatable (Disk.flashed conf dev) bootconfPath 0 Slot.ino where
  toLayout := layout_flashed conf dev
  blocks s := by cases s <;> rfl
  leftover := leftover_flashed conf dev

theorem started_siteA : siteA.Started bootconfPath where
  toFresh := fresh_siteA
  names := rfl
  contents i := by rcases i with _ | _ | i <;> rfl
  updatable := ⟨0, Slot.ino, updatable_flashed Slot.A.rootArg fun _ => [0, 0]⟩

/-- The machine `siteA` after a run that was cut off. -/
def siteCut : Site :=
  siteA.after [1, 1] (main wholeEnv (confArgv bootconfPath) ⟨some 12, ⟨siteA.cmdline, siteA.disk, []⟩⟩).2.now

theorem reached_siteCut : Relation.ReflTransGen (OutageStep bootconfPath) siteA siteCut :=
  .single (.inl ⟨.run [1, 1] (some 12) (parse_confArgv bootconfPath) rfl rfl unchanged_whole rfl, fresh_siteA.named⟩)

theorem history_of_device_cut :
    ∃ dev b, Relation.ReflTransGen Device.Step siteA.device b ∧ Mirrors bootconfPath dev siteCut b :=
  history_of_device started_siteA reached_siteCut

theorem starts_complete_cut :
    ∃ t s content, (siteCut.disk.lookup bootconfPath).map siteCut.disk.data = some t ∧ Configured t s ∧
      (siteCut.disk.lookup s.dev).map siteCut.disk.data = some content ∧ content ∈ siteCut.complete :=
  starts_complete started_siteA reached_siteCut siteCut.disk.survives_view

end OtaBridge.Apply
