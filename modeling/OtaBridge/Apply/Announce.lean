import OtaBridge.Apply.History

/-!
# What is announced

While it copies, `streamWriteImageToBlock` prints a line where the number of bytes written is less than a
buffer behind a multiple of 256 MiB. The reads may be short, so the numbers that it tests lie anywhere. Still
no multiple of 256 MiB goes by without a line, and no line names more than has been written, wherever the run
stops (`copy_announces`).
-/

namespace OtaBridge.Apply

open Logic.Crash

/-- `256ULL * 1024 * 1024` -/
def stretch : Nat := 256 * 1024 * 1024

/-! ## The numbers -/

/-- Numbers up to `n`, with one for every multiple of `stretch` up to `due`. -/
structure Counts (k n due : Nat) (counts : List Nat) : Prop where
  increasing : counts.Pairwise (· < ·)
  reached : ∀ c, c ∈ counts → c ≤ n
  told : ∀ j, 0 < j → j * stretch ≤ due → ∃ c, c ∈ counts ∧ j * stretch ≤ c ∧ c < j * stretch + k

namespace Counts

variable {k n due r : Nat} {counts : List Nat}

theorem nil (k : Nat) : Counts k 0 0 [] where
  increasing := .nil
  reached c mem := by cases mem
  told j pos le := by
    unfold stretch at le
    omega

theorem mono {n' due' : Nat} (h : Counts k n due counts) (more : n ≤ n') (less : due' ≤ due) : Counts k n' due' counts where
  increasing := h.increasing
  reached c mem := (h.reached c mem).trans more
  told j pos le := h.told j pos (le.trans less)

/-- Of a block that crosses a multiple, the end is less than a buffer behind it. -/
theorem mod_lt (small : k ≤ stretch) (le : r ≤ k) {j : Nat} (before : n < j * stretch) (behind : j * stretch ≤ n + r) :
    (n + r) % stretch < k := by
  obtain ⟨x, split⟩ := Nat.exists_eq_add_of_le behind
  have short : x < k := by omega
  rw [split, Nat.add_comm, Nat.add_mul_mod_self_right, Nat.mod_eq_of_lt (short.trans_le small)]
  exact short

theorem block (h : Counts k n n counts) (small : k ≤ stretch) (more : 0 < r) (le : r ≤ k) :
    Counts k (n + r) (n + r) (if (n + r) % stretch < k then counts ++ [n + r] else counts) := by
  split
  · refine ⟨?_, fun c mem => ?_, fun j pos passed => ?_⟩
    · refine List.pairwise_append.2 ⟨h.increasing, List.pairwise_singleton _ _, fun c mem c' new => ?_⟩
      obtain rfl := List.mem_singleton.1 new
      have old := h.reached c mem
      omega
    · rcases List.mem_append.1 mem with old | new
      · exact (h.reached c old).trans (Nat.le_add_right n r)
      · exact (List.mem_singleton.1 new).le
    · by_cases before : n < j * stretch
      · exact ⟨n + r, List.mem_append_right _ List.mem_cons_self, passed, by omega⟩
      · obtain ⟨c, mem, here⟩ := h.told j pos (Nat.le_of_not_lt before)
        exact ⟨c, List.mem_append_left _ mem, here⟩
  · next far =>
    refine ⟨h.increasing, fun c mem => (h.reached c mem).trans (Nat.le_add_right n r), fun j pos passed => ?_⟩
    refine h.told j pos (Nat.le_of_not_lt fun before => far ?_)
    exact mod_lt small le before passed

end Counts

/-! ## The lines of the copy loop -/

/-- The lines behind `before` are those for such numbers. -/
def Announced (k : Nat) (before : List Text) (n due : Nat) (err : List Text) : Prop :=
  ∃ counts, err = before ++ counts.map progressLine ∧ Counts k n due counts

/-- The bytes `pre` have been copied and announced. -/
structure Copying (d : Disk) (out : Ino) (k : Nat) (before : List Text) (pre : List Byte) (m : Machine) : Prop where
  disk : m.disk = d.put out 0 pre
  lines : Announced k before pre.length pre.length m.err

/-- Wherever the copy stops, some of `image` is on the device, and was announced but for the last block. -/
def CopyStops (d : Disk) (out : Ino) (k : Nat) (before : List Text) (image : List Byte) (m : Machine) : Prop :=
  ∃ n, n ≤ image.length ∧ m.disk = d.put out 0 (image.take n) ∧ Announced k before n (n - k) m.err

section Loop

variable {steady : Bool} {d : Disk} {out : Ino} {k : Nat} {before : List Text} {pre : List Byte}

/-- The write loop prints nothing. -/
theorem writeLoop_silent {fail : Errno → Error} (I : List Text → Prop) (as : List WriteAnswer) (pos : Nat)
    (bytes : List Byte) :
    Triple steady (fun m => I m.err) (writeLoop fail out as pos bytes) (fun _ m => I m.err) (fun _ m => I m.err)
      fun m => I m.err := by
  have one : ∀ pos bytes a, Triple steady (fun m => I m.err) (attempt (write out pos bytes a) fail)
      (fun _ m => I m.err) (fun _ m => I m.err) fun m => I m.err := fun pos bytes a =>
    attempt_spec (fun _ => id) (fun _ same _ _ => same) fun _ same _ _ => same
  induction as generalizing pos bytes with
  | nil =>
    rw [writeLoop]
    split
    · exact Triple.pure fun _ => id
    · exact (one _ _ _).bind fun _ => Triple.pure fun _ => id
  | cons a as ih =>
    rw [writeLoop]
    split
    · exact Triple.pure fun _ => id
    · exact (one _ _ _).bind fun n => ih _ _

/-- A block that is on its way has not been announced. -/
theorem CopyStops.block {bytes rest : List Byte} (small : bytes.length ≤ k) {n : Nat} (le : n ≤ bytes.length) {m : Machine}
    (disk : m.disk = d.put out 0 (pre ++ bytes.take n)) (lines : Announced k before pre.length pre.length m.err) :
    CopyStops d out k before (pre ++ (bytes ++ rest)) m := by
  obtain ⟨counts, err, numbers⟩ := lines
  refine ⟨pre.length + n, ?_, ?_, counts, err, numbers.mono (Nat.le_add_right _ _) (by omega)⟩
  · rw [List.length_append, List.length_append]
    omega
  · rw [List.take_length_add_append, List.take_append_of_le_length le]
    exact disk

theorem Copying.stops {m : Machine} (h : Copying d out k before pre m) (rest : List Byte) :
    CopyStops d out k before (pre ++ rest) m := by
  have none : m.disk = d.put out 0 (pre ++ ([] : List Byte).take 0) := by
    rw [List.take_nil, List.append_nil]
    exact h.disk
  exact .block (Nat.zero_le k) (Nat.le_refl 0) none h.lines

theorem writeLoop_announces (as : List WriteAnswer) {bytes : List Byte} (rest : List Byte) (small : bytes.length ≤ k)
    (room : d.Fits out pre.length) :
    Triple steady (Copying d out k before pre) (writeLoop .writeTarget out as pre.length bytes)
      (fun _ m => (m.disk = d.put out 0 (pre ++ bytes) ∧ Announced k before pre.length pre.length m.err) ∧
        d.Fits out (pre.length + bytes.length))
      (fun _ => CopyStops d out k before (pre ++ (bytes ++ rest))) (CopyStops d out k before (pre ++ (bytes ++ rest))) := by
  let here : Machine → Prop := fun m => ∃ n, n ≤ bytes.length ∧ m.disk = d.put out 0 (pre ++ bytes.take n)
  have stops : ∀ m, here m ∧ Announced k before pre.length pre.length m.err →
      CopyStops d out k before (pre ++ (bytes ++ rest)) m := fun m ⟨⟨_, le, disk⟩, lines⟩ => .block small le disk lines
  have disks := @writeLoop_spec steady (fun _ => here) here d out [] .writeTarget as pre bytes room
    (fun n le _ m now => ⟨n, le, now.disk⟩) fun _ e n le _ m now => ⟨n, le, now.disk⟩
  refine (Triple.and disks (writeLoop_silent (Announced k before pre.length pre.length) as pre.length bytes)).conseq
    (fun m h => ⟨⟨h.disk, List.nil_subset _⟩, h.lines⟩) (fun left m h => ?_) (fun _ => stops) stops
  obtain ⟨⟨now, fits, -⟩, lines⟩ := h
  exact ⟨⟨now.disk, lines⟩, fits⟩

/-- The line behind a block. -/
theorem Announced.say {n r : Nat} (small : k ≤ stretch) (more : 0 < r) (le : r ≤ k) {said : List Text}
    (lines : Announced k before n n said) :
    Announced k before (n + r) (n + r) (if (n + r) % stretch < k then said ++ [progressLine (n + r)] else said) := by
  obtain ⟨counts, err, numbers⟩ := lines
  refine ⟨_, ?_, numbers.block small more le⟩
  split
  · rw [err, List.map_append, List.append_assoc]
    rfl
  · exact err

/-- The copy loop goes on where `pre` has been copied and announced. -/
theorem copyLoop_announces (small : k ≤ stretch) (reads : List (ReadAnswer k)) (writes : List WriteAnswer) {pre : List Byte}
    (room : d.Fits out pre.length) :
    Triple steady (Copying d out k before pre) (copyLoop out reads writes pre.length)
      (fun written m => written = (pre ++ delivered reads).length ∧ Copying d out k before (pre ++ delivered reads) m)
      (fun _ => CopyStops d out k before (pre ++ delivered reads)) (CopyStops d out k before (pre ++ delivered reads)) := by
  induction reads generalizing writes pre with
  | nil =>
    refine Triple.pure fun m h => ?_
    rw [delivered, List.append_nil]
    exact ⟨rfl, h⟩
  | cons r reads ih =>
    cases r with
    | fail e => exact query_spec (fun _ h => h.stops _) (fun m h no => by cases no) fun _ h _ _ => h.stops _
    | bytes bs le =>
      rw [copyLoop]
      refine Triple.bind (query_spec (fun _ h => h.stops _) (fun _ h _ _ _ => h) fun _ h _ _ => h.stops _) fun _ => ?_
      split
      · next none =>
        refine Triple.pure fun m h => ?_
        rw [delivered, if_pos none, List.append_nil]
        exact ⟨rfl, h⟩
      · next some =>
        rw [delivered, if_neg some]
        have size : (pre ++ bs).length = pre.length + bs.length := List.length_append
        refine Triple.bind_fact (writeLoop_announces writes (delivered reads) le room) fun left fits => ?_
        have next := @ih left (pre ++ bs) (size ▸ fits)
        rw [size, List.append_assoc] at next
        have announced := fun said => @Announced.say k before pre.length bs.length small (List.length_pos_iff.2 some) le said
        dsimp only
        split
        · next near =>
          change (pre.length + bs.length) % stretch < k at near
          refine Triple.bind (Triple.modify fun m h => ⟨h.1, ?_⟩) fun _ => next
          rw [size]
          have lines := announced _ h.2
          rwa [if_pos near] at lines
        · next far =>
          change ¬ (pre.length + bs.length) % stretch < k at far
          refine next.strengthen fun m h => ⟨h.1, ?_⟩
          rw [size]
          have lines := announced _ h.2
          rwa [if_neg far] at lines

end Loop

/-! ## A whole copy -/

/-- `n` bytes of `image` are on the device, and the lines tell of them. -/
structure Told (k : Nat) (image old : List Byte) (before : List Text) (out : Ino) (n due : Nat) (m : Machine) : Prop where
  le : n ≤ image.length
  device : m.disk.data out = overlay (image.take n) old
  lines : Announced k before n due m.err

/-- All but the last buffer has been announced. -/
def ToldSoFar (image old : List Byte) (before : List Text) (out : Ino) (m : Machine) : Prop :=
  ∃ n, Told kBuf image old before out n (n - kBuf) m

def ToldAll (image old : List Byte) (before : List Text) (out : Ino) (m : Machine) : Prop :=
  Told kBuf image old before out image.length image.length m

section Copy

variable {image old : List Byte} {before : List Text} {out : Ino} {m : Machine}

theorem Told.flushed {k n due : Nat} (h : Told k image old before out n due m) {d : Disk}
    (same : d.data out = m.disk.data out) : Told k image old before out n due { m with disk := d } :=
  ⟨h.le, same.trans h.device, h.lines⟩

theorem ToldAll.soFar (h : ToldAll image old before out m) : ToldSoFar image old before out m := by
  obtain ⟨le, device, counts, err, numbers⟩ := h
  exact ⟨_, le, device, counts, err, numbers.mono le_rfl (Nat.sub_le _ _)⟩

theorem CopyStops.soFar {d : Disk} (h : CopyStops d out kBuf before image m) :
    ToldSoFar image (d.data out) before out m := by
  obtain ⟨n, le, disk, lines⟩ := h
  exact ⟨n, le, by rw [disk, Disk.data_put_start], lines⟩

theorem toldSoFar_start (image : List Byte) (out : Ino) (m : Machine) :
    ToldSoFar image (m.disk.data out) m.err out m :=
  ⟨0, Nat.zero_le _, rfl, [], (List.append_nil _).symm, .nil kBuf⟩

theorem streamWriteImageToBlock_tells {env : Env} {imagePath devPath : Path} {m₀ : Machine}
    (found : m₀.disk.lookup devPath = some out) :
    Triple false (fun m => m = m₀) (streamWriteImageToBlock env imagePath devPath)
      (fun _ => ToldAll (delivered env.reads) (m₀.disk.data out) m₀.err out)
      (fun _ => ToldSoFar (delivered env.reads) (m₀.disk.data out) m₀.err out)
      (ToldSoFar (delivered env.reads) (m₀.disk.data out) m₀.err out) := by
  have start : ∀ m, m = m₀ → ToldSoFar (delivered env.reads) (m₀.disk.data out) m₀.err out m := by
    rintro m rfl
    exact toldSoFar_start _ _ _
  unfold streamWriteImageToBlock
  refine Triple.bind (query_spec start (fun m h _ _ _ => h) fun m h _ _ => start m h) fun _ => ?_
  refine Triple.bind_fact (φ := fun fd => fd = out) (query_spec start (fun m h _ fd answer => ⟨h, ?_⟩)
    fun m h _ _ => start m h) fun fd same => ?_
  · rw [Machine.inode, h, found] at answer
    exact (Except.ok.inj answer).symm
  subst same
  have copied := @copyLoop_announces false m₀.disk fd kBuf m₀.err (by decide) env.reads env.targetWrites []
    fun _ => Nat.zero_le _
  rw [List.nil_append] at copied
  refine Triple.bind (Q := fun _ => ToldAll (delivered env.reads) (m₀.disk.data fd) m₀.err fd)
    (copied.conseq (fun m h => ?_) (fun written m h => ?_) (fun _ _ => CopyStops.soFar) fun _ => CopyStops.soFar) fun _ => ?_
  · subst h
    exact ⟨(m.disk.put_nil fd 0).symm, [], (List.append_nil _).symm, .nil kBuf⟩
  · obtain ⟨-, disk, lines⟩ := h
    exact ⟨le_rfl, by rw [disk, Disk.data_put_start, List.take_length], lines⟩
  -- the flushes change neither what is read nor what was said
  · have flush : ∀ m, ToldAll (delivered env.reads) (m₀.disk.data fd) m₀.err fd m →
        ToldAll (delivered env.reads) (m₀.disk.data fd) m₀.err fd (effect env.fsyncTarget (fun d => d.fsync fd) m).2 := by
      intro m told
      unfold effect
      split
      · exact told
      · exact Told.flushed told (m.disk.data_fsync fd fd)
    refine Triple.bind (attempt_spec (fun _ => ToldAll.soFar) (fun m told _ _ => flush m told)
      fun m told _ _ => (flush m told).soFar) fun _ => ?_
    exact Triple.call (fun _ => ToldAll.soFar) fun m told => Told.flushed told (m.disk.data_sync fd)

/-- What the lines of a copy tell, when it has ended or was cut off. -/
structure Announces (image old : List Byte) (before : List Text) (out : Ino)
    (run : Outcome Error Unit × Powered Machine) : Prop where
  stopped : ToldSoFar image old before out run.2.now
  returned : run.1 = .returned () → ToldAll image old before out run.2.now

/-- **The lines keep up with the copy.** -/
theorem copy_announces (env : Env) (imagePath : Path) {devPath : Path} (supply : Option Nat) (m : Machine)
    (found : m.disk.lookup devPath = some out) :
    Announces (delivered env.reads) (m.disk.data out) m.err out
      (streamWriteImageToBlock env imagePath devPath ⟨supply, m⟩) := by
  rcases (@streamWriteImageToBlock_tells out env imagePath devPath m found).ends ⟨supply, m⟩ rfl with
    ⟨_, _, all⟩ | ⟨_, thrown, some⟩ | ⟨lost, some⟩
  · exact ⟨all.soFar, fun _ => all⟩
  · exact ⟨some, fun returned => by cases thrown.symm.trans returned⟩
  · exact ⟨some, fun returned => by cases lost.symm.trans returned⟩

end Copy

theorem copy_announces_siteA : Announces [1, 1] [0, 0] [] (Slot.ino .B)
    (streamWriteImageToBlock wholeEnv (ascii "rootfs.ext4") Slot.B.dev ⟨none, ⟨siteA.cmdline, siteA.disk, []⟩⟩) :=
  copy_announces wholeEnv (ascii "rootfs.ext4") none ⟨siteA.cmdline, siteA.disk, []⟩ (layout_siteA.devices .B)

end OtaBridge.Apply
