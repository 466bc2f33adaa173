import OtaBridge.Apply.Outage
import OtaBridge.Apply.Preflight

/-!
# What `ota-apply` leaves alone

`Spares names d₀ d` says that a power loss on `d` leaves of everything but `names` only what it could
have left on `d₀`. It composes, each disk operation on one of the names has it, so each stage of a run
has it, and with them every history of runs and restarts (`rest_survives`): whatever the arguments, the
answers and the moment the power goes, a run adds, moves and changes no file but its boot config, the
temporary file beside it and the two devices.
-/

namespace OtaBridge.Apply

open Logic.Crash Logic.Journal Logic.Systems

namespace Disk

/-- A power loss may leave the inode under one of the names. -/
def Linked (d : Disk) (names : Set Path) (i : Ino) : Prop :=
  ∃ dir p, d.dir.Survives dir ∧ p ∈ names ∧ dir p = some i

/-- The inode may have one of the names, or is not there yet. -/
def Open (d : Disk) (names : Set Path) (i : Ino) : Prop := d.Linked names i ∨ d.fresh ≤ i

/-- The names lead to inodes that are there. -/
def Sound (d : Disk) : Prop := ∀ dir p i, d.dir.Survives dir → dir p = some i → i < d.fresh

variable {d : Disk} {names : Set Path} {p : Path} {i : Ino}

theorem linked_of_lookup (mem : p ∈ names) (found : d.lookup p = some i) : d.Linked names i :=
  ⟨_, p, d.dir.survives_view, mem, found⟩

/-- A created file was there under its name, or is new. -/
theorem open_creat (mem : p ∈ names) : d.Open names (d.creat p).1 := by
  cases found : d.lookup p with
  | some i =>
    rw [creat_of_some found]
    exact .inl (linked_of_lookup mem found)
  | none =>
    rw [creat_of_none found]
    exact .inr le_rfl

end Disk

/-! ## Disks that differ in a few names -/

/-- Beside `names` the directory is a survivor of `d₀`, and `names` lead to no other inodes. -/
structure Traces (names : Set Path) (d₀ : Disk) (dir : Dir) : Prop where
  others : ∃ dir₀, d₀.dir.Survives dir₀ ∧ ∀ p, p ∉ names → dir p = dir₀ p
  inodes : ∀ p, p ∈ names → ∀ i, dir p = some i → d₀.Open names i

structure Spares (names : Set Path) (d₀ d : Disk) : Prop where
  dir : ∀ dir, d.dir.Survives dir → Traces names d₀ dir
  data : ∀ i, ¬ d₀.Open names i → ∀ v, (d.node i).data.Survives v → (d₀.node i).data.Survives v
  fresh : d₀.fresh ≤ d.fresh

section Traces

variable {names : Set Path} {d₀ d : Disk} {dir : Dir} {p : Path}

theorem Traces.of_survives (survives : d.dir.Survives dir) : Traces names d dir where
  others := ⟨dir, survives, fun _ _ => rfl⟩
  inodes p mem _ found := .inl ⟨dir, p, survives, mem, found⟩

theorem Traces.update (h : Traces names d₀ dir) (mem : p ∈ names) {v : Option Ino}
    (inode : ∀ i, v = some i → d₀.Open names i) : Traces names d₀ (Function.update dir p v) where
  others := by
    obtain ⟨dir₀, survives, same⟩ := h.others
    refine ⟨dir₀, survives, fun q other => ?_⟩
    have ne : q ≠ p := fun e => other (e.symm ▸ mem)
    exact (Function.update_of_ne ne _ _).trans (same q other)
  inodes q mem' i found := by
    by_cases e : q = p
    · rw [e, Function.update_self] at found
      exact inode i found
    · rw [Function.update_of_ne e] at found
      exact h.inodes q mem' i found

end Traces

namespace Spares

variable {names : Set Path} {d₀ d d' : Disk} {p q : Path} {i : Ino}

theorem of_open (h : Spares names d₀ d) (isOpen : d.Open names i) : d₀.Open names i := by
  rcases isOpen with ⟨dir, p, survives, mem, found⟩ | new
  · exact (h.dir dir survives).inodes p mem i found
  · exact .inr (h.fresh.trans new)

theorem trans (h : Spares names d₀ d) (h' : Spares names d d') : Spares names d₀ d' where
  dir dir survives := by
    obtain ⟨⟨dir', survives', same'⟩, inodes⟩ := h'.dir dir survives
    obtain ⟨dir₀, survives₀, same⟩ := (h.dir dir' survives').others
    exact ⟨⟨dir₀, survives₀, fun p other => (same' p other).trans (same p other)⟩,
      fun p mem i found => h.of_open (inodes p mem i found)⟩
  data i closed v survives := h.data i closed v (h'.data i (fun isOpen => closed (h.of_open isOpen)) v survives)
  fresh := h.fresh.trans h'.fresh

/-- Whatever takes possibilities away. -/
theorem of_survives (less : ∀ dir data, d.Survives dir data → d₀.Survives dir data) (fresh : d.fresh = d₀.fresh) :
    Spares names d₀ d where
  dir dir survives := .of_survives (less dir d.data ⟨survives, d.survives_view.data⟩).dir
  data i _ v survives := by
    have all : d.Survives d.lookup (Function.update d.data i v) := by
      refine ⟨d.survives_view.dir, fun j => ?_⟩
      by_cases e : j = i
      · subst e
        rwa [Function.update_self]
      · rw [Function.update_of_ne e]
        exact d.survives_view.data j
    have there := (less _ _ all).data i
    rwa [Function.update_self] at there
  fresh := fresh.ge

theorem flushed (h : Flushed d₀ d) : Spares names d₀ d := of_survives (fun _ _ => h.survives) h.fresh

theorem restart {dir : Dir} {data : Ino → List Byte} (survives : d.Survives dir data) :
    Spares names d (d.restart dir data) := by
  refine of_survives (fun dir' data' found => ⟨?_, fun i => ?_⟩) rfl
  · rw [Cell.settled_flushed dir dir' found.dir]
    exact survives.dir
  · rw [Cell.settled_flushed (data i) (data' i) (found.data i)]
    exact survives.data i

/-- A write to a file that has one of the names. -/
theorem put (isOpen : d.Open names i) (pos : Nat) (bytes : List Byte) : Spares names d (d.put i pos bytes) where
  dir _ survives := .of_survives (d := d) survives
  data j closed v survives := by
    have ne : j ≠ i := fun e => closed (e.symm ▸ isOpen)
    rwa [Disk.put, Disk.node_onNode_ne _ ne] at survives
  fresh := le_rfl

theorem creat (mem : p ∈ names) : Spares names d (d.creat p).2 where
  dir _ := Disk.names_creat (fun _ => .of_survives) fun dir traces =>
    traces.update mem fun i e => Option.some.inj e ▸ Disk.open_creat mem
  data i closed v survives := by
    have ne : i ≠ (d.creat p).1 := fun e => closed (e.symm ▸ Disk.open_creat mem)
    rwa [Disk.node_creat_ne ne] at survives
  fresh := Disk.le_creat_fresh

theorem rename (src : p ∈ names) (dst : q ∈ names) (linked : d.Linked names i) : Spares names d (d.rename p q i) where
  dir _ := Cell.survives_issue (fun _ => .of_survives) fun op mem dir traces => by
    obtain rfl := List.mem_singleton.1 mem
    have moved : Traces names d (Function.update dir p none) := traces.update src fun i e => by cases e
    exact moved.update dst fun j e => .inl (Option.some.inj e ▸ linked)
  data _ _ _ := id
  fresh := le_rfl

end Spares

/-! ## The stages of a run -/

namespace Course

variable {c : Course} {names : Set Path} {d : Disk}

/-- The run finds and creates its files under these names. -/
structure Uses (c : Course) (names : Set Path) : Prop where
  conf : c.conf ∈ names
  temp : tempPath c.conf ∈ names
  target : c.disk.Linked names c.target

namespace Uses

theorem copied (h : c.Uses names) (bytes : List Byte) : Spares names c.disk (c.disk.put c.target 0 bytes) :=
  .put (.inl h.target) 0 bytes

theorem installed (h : c.Uses names) : Spares names c.disk c.installed :=
  (h.copied c.image).trans (.flushed (.sync (.fsync _ .refl)))

theorem created (h : c.Uses names) : Spares names c.disk c.created := h.installed.trans (.creat h.temp)

/-- The temporary file is found under its name. -/
theorem linked_temp (h : c.Uses names) : c.created.Linked names c.temp := by
  refine Disk.linked_of_lookup h.temp ?_
  rw [lookup_created, Function.update_self]

theorem written (h : c.Uses names) (bytes : List Byte) : Spares names c.disk (c.created.put c.temp 0 bytes) :=
  h.created.trans (.put (.inl h.linked_temp) 0 bytes)

theorem staged (h : c.Uses names) : Spares names c.disk c.staged :=
  (h.written c.updated).trans (.flushed (.fsync _ .refl))

theorem committed (h : c.Uses names) : Spares names c.disk c.committed :=
  h.staged.trans (.rename h.temp h.conf h.linked_temp)

end Uses

theorem Pending.spares (pending : c.Pending d) (h : c.Uses names) : Spares names c.disk d := by
  cases pending with
  | copying n le fits => exact h.copied _
  | copied fits => exact (h.copied _).trans (.flushed (.fsync _ .refl))
  | installed fits => exact h.installed
  | writing n fits => exact h.written _
  | staged fits => exact h.staged

end Course

/-! ## Runs -/

/-- The names that runs for these boot configs use. -/
def usedNames (confs : Set Path) : Set Path :=
  {p | p ∈ confs ∨ (∃ conf, conf ∈ confs ∧ p = tempPath conf) ∨ ∃ s : Slot, p = s.dev}

/-- If the arguments are accepted at all, they name one of these boot configs. -/
def Concerns (confs : Set Path) (argv : List Text) : Prop := ∀ args, parseArgs argv = .args args → args.bootconf ∈ confs

section Runs

variable {confs : Set Path} {env : Env} {args : Args} {argv : List Text} {m m' : Machine}

theorem Starts.uses {active : Slot} {text : Text} {c : Course} (start : Starts env args m active text c)
    (mem : args.bootconf ∈ confs) : c.Uses (usedNames confs) where
  conf := start.conf ▸ .inl mem
  temp := start.conf ▸ .inr (.inl ⟨_, mem, rfl⟩)
  target := Disk.linked_of_lookup (.inr (.inr ⟨active.other, rfl⟩)) (start.disk ▸ start.target)

/-- A run whose arguments are not accepted ends without a write. -/
theorem main_refused {steady : Bool} (refused : ∀ args, parseArgs argv ≠ .args args) :
    Triple steady (fun m' => m' = m) (main env argv) (fun _ m' => m'.disk = m.disk) (fun _ _ => False)
      (fun m' => m'.disk = m.disk) := by
  refine Triple.tryCatch (Triple.strengthen (P := Same m) (X := fun _ m' => m'.disk = m.disk) ?_
    fun _ e => ⟨congrArg _ e, congrArg _ e⟩) fun e => ?_
  · unfold mainBody
    split
    · exact Triple.bind say_same fun _ => Triple.pure fun _ h => h.disk
    split
    · exact Triple.pure fun _ h => h.disk
    · exact Triple.throw fun _ h => h.disk
    · next args accepted => exact absurd accepted (refused args)
  · exact Triple.bind (Q := fun _ m' => m'.disk = m.disk) (Triple.modify fun _ h => h) fun _ => Triple.pure fun _ h => h

variable (env m) in
/-- **What a run leaves alone**, whatever its arguments and wherever it stops. -/
theorem main_spares (named : Concerns confs argv) (supply : Option Nat) :
    Spares (usedNames confs) m.disk (main env argv ⟨supply, m⟩).2.now.disk := by
  have untouched : ∀ {d : Disk}, d = m.disk → Spares (usedNames confs) m.disk d := fun same => same ▸ .flushed .refl
  by_cases accepted : ∃ args, parseArgs argv = .args args
  · obtain ⟨args, accepted⟩ := accepted
    have mem := named args accepted
    cases dry : args.dryRun with
    | true =>
      rcases (@main_dry false env _ m _ accepted dry).ends ⟨supply, m⟩ rfl with ⟨_, _, same, -⟩ | ⟨_, _, no⟩ | ⟨_, same⟩
      · exact untouched same
      · exact no.elim
      · exact untouched same
    | false =>
      rcases main_leaves env m accepted dry supply with (same | ⟨_, _, c, start, pending⟩) | ⟨_, _, c, start, committed⟩
      · exact untouched same
      · exact start.disk ▸ pending.spares (start.uses mem)
      · exact start.disk ▸ (start.uses mem).committed.trans (.flushed committed.disk)
  · have refused : ∀ args, parseArgs argv ≠ .args args := fun args yes => accepted ⟨args, yes⟩
    rcases (@main_refused env _ m false refused).ends ⟨supply, m⟩ rfl with ⟨_, _, same⟩ | ⟨_, _, no⟩ | ⟨_, same⟩
    · exact untouched same
    · exact no.elim
    · exact untouched same

/-! ## Histories -/

/-- Any run for one of the boot configs, or a restart that finds any survivor. -/
inductive Service (confs : Set Path) (m : Machine) : Machine → Prop where
  | run (env : Env) (argv : List Text) (supply : Option Nat) (named : Concerns confs argv) :
    Service confs m (main env argv ⟨supply, m⟩).2.now
  | restart {dir : Dir} {data : Ino → List Byte} (survives : m.disk.Survives dir data) (cmdline : Text) :
    Service confs m ⟨cmdline, m.disk.restart dir data, []⟩

theorem keeps_spares (d₀ : Disk) : Keeps (Service confs) fun m => Spares (usedNames confs) d₀ m.disk := by
  rintro m _ spares (⟨env, argv, supply, named⟩ | ⟨survives, cmdline⟩)
  · exact spares.trans (main_spares env m named supply)
  · exact spares.trans (.restart survives)

/-- Among the names and contents that a power loss may leave of `d₀`, these are the same but for `names`,
and for files that one of `names` leads to as well. -/
def SameRest (names : Set Path) (d₀ : Disk) (dir : Dir) (data : Ino → List Byte) : Prop :=
  ∃ dir₀ data₀, d₀.Survives dir₀ data₀ ∧ ∀ p, p ∉ names →
    dir p = dir₀ p ∧ ((∀ i, dir p = some i → ¬ d₀.Linked names i) → (dir p).map data = (dir₀ p).map data₀)

theorem Spares.sameRest {names : Set Path} {d₀ d : Disk} {dir : Dir} {data : Ino → List Byte} (h : Spares names d₀ d)
    (sound : d₀.Sound) (survives : d.Survives dir data) : SameRest names d₀ dir data := by
  classical
  obtain ⟨dir₀, survives₀, same⟩ := (h.dir dir survives.dir).others
  refine ⟨dir₀, fun i => if d₀.Open names i then d₀.data i else data i, ⟨survives₀, fun i => ?_⟩, fun p other =>
    ⟨same p other, fun apart => ?_⟩⟩
  · show (d₀.node i).data.Survives (if d₀.Open names i then d₀.data i else data i)
    split
    · exact d₀.survives_view.data i
    · next closed => exact h.data i closed _ (survives.data i)
  · rw [← same p other]
    cases found : dir p with
    | none => rfl
    | some i =>
      have closed : ¬ d₀.Open names i := by
        rintro (linked | new)
        · exact apart i found linked
        · exact absurd (sound dir₀ p i survives₀ ((same p other).symm.trans found)) (Nat.not_lt.2 new)
      simp only [Option.map_some, if_neg closed]

/-- **The rest of the disk**: whatever survives a power loss after a history of runs and restarts, beside the
boot configs, their temporary files and the devices it is what could have survived before. -/
theorem rest_survives (sound : m.disk.Sound) (history : Relation.ReflTransGen (Service confs) m m') {dir : Dir}
    {data : Ino → List Byte} (survives : m'.disk.Survives dir data) : SameRest (usedNames confs) m.disk dir data :=
  (invariant_run (keeps_spares m.disk) (.flushed .refl) history).sameRest sound survives

end Runs

/-! ## A machine with another file -/

def hostsPath : Path := ascii "/etc/hosts"

/-- The machine `siteA` with one more file. -/
def hostsMachine : Machine := ⟨siteA.cmdline, ((siteA.disk.creat hostsPath).2.put 3 0 (ascii "localhost")).sync, []⟩

theorem sound_hosts : hostsMachine.disk.Sound := by
  intro dir p i survives found
  have view : dir = Function.update flashedDir hostsPath (some 3) :=
    (Cell.survives_sync survives).trans (siteA.disk.lookup_creat hostsPath)
  rw [view] at found
  show i < 4
  by_cases e : p = hostsPath
  · rw [e, Function.update_self, Option.some.injEq] at found
    exact found ▸ Nat.lt_succ_self 3
  · rw [Function.update_of_ne e, flashedDir] at found
    split_ifs at found <;> cases found <;> decide

/-- A run that loses power, and a restart. -/
theorem rest_survives_hosts :
    ∃ m, Relation.ReflTransGen (Service {bootconfPath}) hostsMachine m ∧
      SameRest (usedNames {bootconfPath}) hostsMachine.disk m.disk.lookup m.disk.data := by
  have named : Concerns {bootconfPath} (confArgv bootconfPath) := fun args accepted => by
    rw [parse_confArgv, Parsed.args.injEq] at accepted
    exact accepted ▸ rfl
  have history := (Relation.ReflTransGen.single (Service.run wholeEnv _ (some 12) named)).tail
    (.restart (m := (main wholeEnv (confArgv bootconfPath) ⟨some 12, hostsMachine⟩).2.now) (Disk.survives_view _) siteA.cmdline)
  exact ⟨_, history, rest_survives sound_hosts history (Disk.survives_view _)⟩

end OtaBridge.Apply
