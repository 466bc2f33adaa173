import OtaBridge.Apply.Layout
import OtaBridge.Logic.Simulation

/-!
# The copy loop under every schedule

`streamWriteImageToBlock` once more, for a buffer of any size, with the buffer that every read goes to,
the offset `off` into it and the counter `written`, whose value comes with the result and with every
exception (`streamCounting_tracks`). However the reads and the writes are split, and wherever one of them
fails, the device holds exactly the first `written` bytes of the image over what it held before
(`copies_image`).
-/

namespace OtaBridge.Apply

open Logic.Crash

/-- Exceptions with the value of `written`. -/
abbrev Counted := Prog Machine (Error × Nat)

def counting {α : Type} (written : Nat) (m : Sys α) : Counted α := m.mapError fun e => (e, written)

/-- The loop `while (off < r)`: the answers left, and `written`. -/
def writeBlock (out : Ino) (buffer : List Byte) (r : Nat) :
    List WriteAnswer → Nat → Nat → Counted (List WriteAnswer × Nat)
  | [], off, written => do
    if off < r then
      let w ← counting written
        (attempt (write out written ((buffer.take r).drop off) (.wrote (r - off))) .writeTarget)
      pure ([], written + w)
    else pure ([], written)
  | a :: as, off, written => do
    if off < r then
      let w ← counting written (attempt (write out written ((buffer.take r).drop off) a) .writeTarget)
      writeBlock out buffer r as (off + w) (written + w)
    else pure (a :: as, written)

/-- The loop `while (true)`: `written`, and the answers left. -/
def copyBlocks {k : Nat} (out : Ino) : List Byte → List (ReadAnswer k) → List WriteAnswer → Nat →
    Counted (Nat × List WriteAnswer)
  | _, [], writes, written => pure (written, writes)
  | _, .fail e :: _, writes, written => do
    let written ← counting written (attempt (query (some e) fun _ => .ok written) .readImage)
    pure (written, writes)
  | buffer, .bytes bs _ :: reads, writes, written => do
    counting written (attempt (query none fun _ => .ok ()) .readImage)
    if bs = [] then pure (written, writes)
    else
      let buffer := bs ++ buffer.drop bs.length
      let (writes, written) ← writeBlock out buffer bs.length writes 0 written
      if written % (256 * 1024 * 1024) < k then counting written (say (progressLine written))
      copyBlocks out buffer reads writes written

def streamCounting {k : Nat} (env : Env) (reads : List (ReadAnswer k)) (imagePath devPath : Path) :
    Counted (Nat × List WriteAnswer) := do
  counting 0 (attempt (query env.openImage fun _ => .ok ()) (.openImage imagePath))
  let out ← counting 0 (attempt (query env.openTarget fun m => m.inode devPath) (.openTarget devPath))
  let (written, left) ← copyBlocks out (List.replicate k 0) reads env.targetWrites 0
  counting written (attempt (effect env.fsyncTarget fun d => d.fsync out) .fsyncTarget)
  counting written (Prog.call fun m => ((), { m with disk := m.disk.sync }))
  pure (written, left)

/-! ## The same function -/

section Tracking

variable {k : Nat} {out : Ino} {buffer : List Byte}

theorem attempt_returned {α : Type} {f : Machine → Except Errno α × Machine} {fail : Errno → Error}
    {s : Powered Machine} {a : α} (h : (attempt f fail s).1 = .returned a) : ∃ m, (f m).1 = .ok a := by
  have any : Triple false (fun _ => True) (attempt f fail) (fun b _ => ∃ m, (f m).1 = .ok b) (fun _ _ => True)
      (fun _ => True) :=
    attempt_spec (fun _ _ => trivial) (fun m _ b ok => ⟨m, ok⟩) fun _ _ _ _ => trivial
  rcases any.ends s trivial with ⟨b, e, found⟩ | ⟨e', e, -⟩ | ⟨e, -⟩ <;> rw [e] at h
  · cases h
    exact found
  · cases h
  · cases h

/-- What a write to the device returns. -/
theorem write_returned {pos : Nat} {bytes : List Byte} {a : WriteAnswer} {s : Powered Machine} {w : Nat}
    (h : (attempt (write out pos bytes a) .writeTarget s).1 = .returned w) :
    w ≤ bytes.length ∧ (a = .wrote bytes.length → w = bytes.length) := by
  obtain ⟨m, ok⟩ := attempt_returned h
  refine ⟨?_, ?_⟩
  · rw [Disk.writeResult_ok ok]
    exact Disk.accepted_le a
  · rintro rfl
    exact Disk.writeResult_full ok

/-- A counted call behaves as the call. -/
theorem counting_tracks {α : Type} (written : Nat) {m : Sys α} {φ : α → Prop}
    (fact : ∀ s a, (m s).1 = .returned a → φ a) : Tracks Prod.fst (fun a b => a = b ∧ φ a) (counting written m) m :=
  Tracks.mapError (fun _ => rfl) fact

theorem length_block {r off : Nat} (room : r ≤ buffer.length) : ((buffer.take r).drop off).length = r - off := by
  rw [List.length_drop, List.length_take, Nat.min_eq_left room]

theorem writeBlock_tracks {r : Nat} (room : r ≤ buffer.length) (as : List WriteAnswer) (off written : Nat) :
    Tracks Prod.fst (fun p left => p.1 = left ∧ p.2 = written + (r - off)) (writeBlock out buffer r as off written)
      (writeLoop .writeTarget out as written ((buffer.take r).drop off)) := by
  have size : ∀ off, ((buffer.take r).drop off).length = r - off := fun _ => length_block room
  have more : ∀ off, (buffer.take r).drop off = [] ↔ ¬ off < r := by
    intro off
    rw [← List.length_eq_zero_iff, size]
    omega
  induction as generalizing off written with
  | nil =>
    rw [writeBlock, writeLoop]
    by_cases lt : off < r
    · rw [if_pos lt, if_neg (mt (more off).1 (not_not.2 lt)), ← size off]
      refine Tracks.bind (counting_tracks _ fun s w => write_returned) ?_
      rintro w _ ⟨rfl, -, full⟩
      exact .pure ⟨rfl, by rw [full rfl]⟩
    · rw [if_neg lt, if_pos ((more off).2 lt)]
      exact .pure ⟨rfl, by omega⟩
  | cons a as ih =>
    rw [writeBlock, writeLoop]
    by_cases lt : off < r
    · rw [if_pos lt, if_neg (mt (more off).1 (not_not.2 lt))]
      refine Tracks.bind (counting_tracks _ fun s w => write_returned) ?_
      rintro w _ ⟨rfl, le, -⟩
      rw [size] at le
      have next := ih (off + w) (written + w)
      rw [← List.drop_drop] at next
      exact next.conseq fun p left same => ⟨same.1, by omega⟩
    · rw [if_neg lt, if_pos ((more off).2 lt)]
      exact .pure ⟨rfl, by omega⟩

/-- A counted call in front of what is tracked. -/
theorem counting_bind {α β γ : Type} {R : β → γ → Prop} (written : Nat) (m : Sys α) {f : α → Counted β} {g : α → Sys γ}
    (rest : ∀ a, Tracks Prod.fst R (f a) (g a)) : Tracks Prod.fst R (counting written m >>= f) (m >>= g) := by
  refine Tracks.bind (counting_tracks (φ := fun _ => True) written fun _ _ _ => trivial) ?_
  rintro a _ ⟨rfl, -⟩
  exact rest a

/-- A counted call at the end. -/
theorem counting_pure {α β : Type} {R : β → α → Prop} (written : Nat) (m : Sys α) {f : α → β} (related : ∀ a, R (f a) a) :
    Tracks Prod.fst R (counting written m >>= fun a => pure (f a)) m := by
  have tracked := counting_bind (g := pure) written m fun a => Tracks.pure (related a)
  rwa [Prog.bind_pure] at tracked

theorem copyBlocks_tracks (reads : List (ReadAnswer k)) (writes : List WriteAnswer) (written : Nat)
    (size : buffer.length = k) :
    Tracks Prod.fst (fun p n => p.1 = n) (copyBlocks out buffer reads writes written)
      (copyLoop out reads writes written) := by
  induction reads generalizing buffer writes written with
  | nil => exact .pure rfl
  | cons r reads ih =>
    cases r with
    | fail e =>
      rw [copyBlocks, copyLoop]
      exact counting_pure written _ fun _ => rfl
    | bytes bs le =>
      rw [copyBlocks, copyLoop]
      refine counting_bind written _ fun _ => ?_
      split
      · exact .pure rfl
      · have room : bs.length ≤ (bs ++ buffer.drop bs.length).length := by simp
        have size' : (bs ++ buffer.drop bs.length).length = k := by
          rw [List.length_append, List.length_drop]
          omega
        have block : ((bs ++ buffer.drop bs.length).take bs.length).drop 0 = bs := by simp
        have inner := @writeBlock_tracks out _ _ room writes 0 written
        rw [block, Nat.sub_zero] at inner
        refine Tracks.bind inner ?_
        rintro ⟨writes, _⟩ left ⟨rfl, rfl⟩
        dsimp only
        split
        · exact counting_bind _ _ fun _ => ih writes _ size'
        · exact ih writes _ size'

/-- `streamCounting` is `streamWriteImageToBlock`, but for what is counted. -/
theorem streamCounting_tracks (env : Env) (imagePath devPath : Path) :
    Tracks Prod.fst (fun _ _ => True) (streamCounting env env.reads imagePath devPath)
      (streamWriteImageToBlock env imagePath devPath) := by
  refine counting_bind 0 _ fun _ => counting_bind 0 _ fun out => ?_
  refine Tracks.bind (copyBlocks_tracks env.reads env.targetWrites 0 (List.length_replicate ..)) ?_
  rintro ⟨written, left⟩ _ rfl
  refine counting_bind written _ fun _ => ?_
  exact counting_pure written _ fun _ => trivial

end Tracking

/-! ## What the device holds -/

section Device

variable {k : Nat} {d : Disk} {out : Ino} {said : List Text} {pre bytes buffer : List Byte}
variable {X : Error × Nat → Machine → Prop}

/-- Where `written` counts `pre` and a part of `bytes`, and the device holds these. -/
def StopsAt (d : Disk) (out : Ino) (said : List Text) (pre bytes : List Byte) (X : Error × Nat → Machine → Prop) : Prop :=
  ∀ n, n ≤ bytes.length → ∀ e m, Now (d.put out 0 (pre ++ bytes.take n)) said m → X (e, pre.length + n) m

theorem StopsAt.start (h : StopsAt d out said pre bytes X) {e : Error} {m : Machine}
    (now : Now (d.put out 0 pre) said m) : X (e, pre.length) m :=
  h 0 (Nat.zero_le _) e m (by rwa [List.take_zero, List.append_nil])

theorem StopsAt.front {a b : List Byte} (h : StopsAt d out said pre (a ++ b) X) : StopsAt d out said pre a X := by
  intro n le e m now
  refine h n (by rw [List.length_append]; omega) e m ?_
  rwa [List.take_append_of_le_length le]

theorem StopsAt.back {a b : List Byte} (h : StopsAt d out said pre (a ++ b) X) : StopsAt d out said (pre ++ a) b X := by
  intro n le e m now
  rw [List.length_append, Nat.add_assoc]
  refine h (a.length + n) (by rw [List.length_append]; omega) e m ?_
  rwa [List.take_length_add_append, ← List.append_assoc]

/-- A write that fails leaves the device as it was. -/
theorem write_counted (a : WriteAnswer) (fits : d.Fits out (pre.length + bytes.length))
    (failed : (∃ e, a = .fail e) → StopsAt d out said pre bytes X) :
    Triple true (Now (d.put out 0 pre) said)
      (counting pre.length (attempt (write out pre.length bytes a) .writeTarget))
      (fun w m => Now (d.put out 0 (pre ++ bytes.take w)) said m ∧ w ≤ bytes.length ∧
        (a = .wrote bytes.length → w = bytes.length) ∧ ∀ e, a ≠ .fail e) X fun _ => True := by
  have room : d.Fits out pre.length := fits.mono (Nat.le_add_right _ _)
  refine Triple.mapError (attempt_spec (fun _ _ => trivial) (fun m now w ok => ?_) fun m now e error => ?_)
  · change m.disk.writeResult out pre.length bytes a = .ok w at ok
    have taken := Disk.writeResult_ok ok
    refine ⟨⟨?_, now.said⟩, taken ▸ Disk.accepted_le a, ?_, ?_⟩
    · show m.disk.put out pre.length (bytes.take (m.disk.accepted out pre.length bytes a)) = _
      rw [← taken, now.disk, ← d.put_put out 0, Nat.zero_add]
    · rintro rfl
      exact Disk.writeResult_full ok
    · rintro e rfl
      cases ok
  · have cause := Disk.writeResult_error error
    rw [now.disk, Disk.fits_put room] at cause
    obtain ⟨e', rfl⟩ := cause.resolve_right (not_not.2 fits)
    refine (failed ⟨e', rfl⟩).start ⟨?_, now.said⟩
    show m.disk.put out pre.length [] = _
    rw [Disk.put_nil, now.disk]

/-- The answers that were used are no failures. -/
def Used (writes left : List WriteAnswer) : Prop := ∃ used, writes = used ++ left ∧ Sound used

theorem Used.nil (writes : List WriteAnswer) : Used writes writes := ⟨[], rfl, fun _ mem => absurd mem List.not_mem_nil⟩

theorem Used.cons {a : WriteAnswer} {as left : List WriteAnswer} (sound : ∀ e, a ≠ .fail e) (h : Used as left) :
    Used (a :: as) left := by
  obtain ⟨used, rfl, rest⟩ := h
  refine ⟨a :: used, rfl, fun e mem => ?_⟩
  rcases List.mem_cons.1 mem with here | mem
  · exact sound e here.symm
  · exact rest e mem

theorem Used.trans {a b c : List WriteAnswer} (h : Used a b) (h' : Used b c) : Used a c := by
  obtain ⟨used, rfl, sound⟩ := h
  obtain ⟨used', rfl, sound'⟩ := h'
  refine ⟨used ++ used', (List.append_assoc ..).symm, fun e mem => ?_⟩
  exact (List.mem_append.1 mem).elim (sound e) (sound' e)

theorem Used.sound {writes left : List WriteAnswer} (h : Used writes left) (all : Sound writes) : Sound left := by
  obtain ⟨used, rfl, -⟩ := h
  exact fun e mem => all e (List.mem_append_right _ mem)

theorem writeBlock_spec {r off : Nat} (as : List WriteAnswer) (block : (buffer.take r).drop off = bytes)
    (room : r ≤ buffer.length) (fits : d.Fits out (pre.length + bytes.length))
    (failed : ¬ Sound as → StopsAt d out said pre bytes X) :
    Triple true (Now (d.put out 0 pre) said) (writeBlock out buffer r as off pre.length)
      (fun p m => Now (d.put out 0 (pre ++ bytes)) said m ∧ p.2 = pre.length + bytes.length ∧ Used as p.1)
      X fun _ => True := by
  induction as generalizing off pre bytes with
  | nil =>
    have size : bytes.length = r - off := block ▸ length_block room
    rw [writeBlock, block]
    split
    · rw [← size]
      refine Triple.bind (write_counted _ fits fun ⟨_, h⟩ => nomatch h) fun w => Triple.pure ?_
      rintro m ⟨now, -, full, -⟩
      rw [full rfl, List.take_length] at now
      exact ⟨now, by rw [full rfl], .nil _⟩
    · next done =>
      obtain rfl : bytes = [] := List.length_eq_zero_iff.1 (by omega)
      refine Triple.pure fun m now => ⟨?_, rfl, .nil _⟩
      rwa [List.append_nil]
  | cons a as ih =>
    have size : bytes.length = r - off := block ▸ length_block room
    rw [writeBlock, block]
    split
    · refine Triple.bind (write_counted a fits ?_) fun w => ?_
      · rintro ⟨e, rfl⟩
        exact failed fun sound => sound e List.mem_cons_self
      refine Triple.assume (φ := w ≤ bytes.length ∧ ∀ e, a ≠ .fail e) (fun m h => ⟨h.2.1, h.2.2.2⟩) ?_
      rintro ⟨le, sound⟩
      -- the loop goes on behind the `w` bytes just written
      have front : (pre ++ bytes.take w).length = pre.length + w := by
        rw [List.length_append, List.length_take, Nat.min_eq_left le]
      have whole : pre.length + w + (bytes.drop w).length = pre.length + bytes.length := by
        rw [List.length_drop]
        omega
      have next := @ih (pre ++ bytes.take w) (bytes.drop w) (off + w) (by rw [← List.drop_drop, block])
        (by rwa [front, whole])
        (by
          intro cause
          have stops := failed fun all => cause fun e mem => all e (List.mem_cons_of_mem _ mem)
          rw [← List.take_append_drop w bytes] at stops
          exact stops.back)
      rw [front, whole, List.append_assoc, List.take_append_drop] at next
      exact next.conseq (fun _ h => h.1) (fun p m h => ⟨h.1, h.2.1, h.2.2.cons sound⟩) (fun _ _ => id) fun _ => id
    · next done =>
      obtain rfl : bytes = [] := List.length_eq_zero_iff.1 (by omega)
      refine Triple.pure fun m now => ⟨?_, rfl, .nil _⟩
      rwa [List.append_nil]

/-- The device holds `image`, and the writes took no failing answer. -/
structure Copied (d : Disk) (out : Ino) (said : List Text) (image : List Byte) (writes : List WriteAnswer)
    (p : Nat × List WriteAnswer) (m : Machine) : Prop where
  now : Now (d.put out 0 image) said m
  written : p.1 = image.length
  used : Used writes p.2

theorem copyBlocks_spec (reads : List (ReadAnswer k)) (writes : List WriteAnswer) (size : buffer.length = k)
    (fits : d.Fits out (pre.length + (delivered reads).length))
    (failed : ¬ (readError reads = none ∧ Sound writes) → StopsAt d out said pre (delivered reads) X) :
    Triple true (Now (d.put out 0 pre) said) (copyBlocks out buffer reads writes pre.length)
      (fun p m => Copied d out said (pre ++ delivered reads) writes p m ∧ readError reads = none) X fun _ => True := by
  induction reads generalizing buffer pre writes with
  | nil =>
    refine Triple.pure fun m now => ?_
    rw [delivered, List.append_nil]
    exact ⟨⟨now, rfl, .nil _⟩, rfl⟩
  | cons r reads ih =>
    cases r with
    | fail e =>
      rw [copyBlocks]
      refine Triple.bind (Q := fun _ _ => False) (Triple.mapError ?_) fun _ => Triple.pure fun m no => no.elim
      have bad : ¬ (readError (.fail e :: reads) = none ∧ Sound writes) := fun smooth => by cases smooth.1
      refine query_spec (fun _ _ => trivial) (fun m now h => ?_) fun m now e' h => (failed bad).start now
      cases h
    | bytes bs le =>
      rw [copyBlocks]
      have read : Triple true (Now (d.put out 0 pre) said)
          (counting pre.length (attempt (query none fun _ => .ok ()) .readImage))
          (fun _ => Now (d.put out 0 pre) said) X fun _ => True :=
        Triple.mapError (query_spec (fun _ _ => trivial) (fun m now _ _ _ => now)
          (fun m now e h => by rcases h with h | h <;> cases h))
      refine Triple.bind read fun _ => ?_
      split
      · next none =>
        subst none
        refine Triple.pure fun m now => ?_
        simp only [delivered, if_true, List.append_nil]
        exact ⟨⟨now, rfl, .nil _⟩, by simp [readError]⟩
      · next some =>
        simp only [delivered, readError, if_neg some, List.length_append] at fits failed ⊢
        have block : ((bs ++ buffer.drop bs.length).take bs.length).drop 0 = bs := by simp
        have size' : (bs ++ buffer.drop bs.length).length = k := by
          rw [List.length_append, List.length_drop]
          omega
        refine Triple.bind (writeBlock_spec writes block (by simp) (fits.mono (by omega))
          fun cause => (failed fun smooth => cause smooth.2).front) fun p => ?_
        refine Triple.assume (φ := p.2 = pre.length + bs.length ∧ Used writes p.1) (fun m h => h.2) ?_
        obtain ⟨left, written⟩ := p
        rintro ⟨rfl, used⟩
        have next := @ih (pre ++ bs) (bs ++ buffer.drop bs.length) left size' (by rwa [List.length_append, Nat.add_assoc])
          (fun cause => (failed fun smooth => cause ⟨smooth.1, used.sound smooth.2⟩).back)
        rw [List.length_append, List.append_assoc] at next
        have rest := next.conseq (fun _ => id)
          (fun p m (h : Copied d out said _ left p m ∧ _) =>
            (⟨⟨h.1.now, h.1.written, used.trans h.1.used⟩, h.2⟩ : Copied d out said _ writes p m ∧ _))
          (fun _ _ => id) fun _ => id
        dsimp only
        split
        · exact Triple.bind ((Triple.mapError say_keeps).strengthen fun _ h => h.1) fun _ => rest
        · exact rest.strengthen fun _ h => h.1

/-- The image file as the reads find it: they deliver all of it, or a part before an error. -/
structure ReadsImage (reads : List (ReadAnswer k)) (image : List Byte) : Prop where
  part : delivered reads <+: image
  whole : readError reads = none → delivered reads = image

/-- A run of the copy onto a device that held `old`. -/
structure CopiesImage (image old : List Byte) (out : Ino) (reads : List (ReadAnswer k)) (writes : List WriteAnswer)
    (run : Outcome (Error × Nat) (Nat × List WriteAnswer) × Powered Machine) : Prop where
  terminates : run.1 ≠ .lost
  copied : ∀ written left, run.1 = .returned (written, left) →
    written = image.length ∧ run.2.now.disk.data out = overlay image old
  stopped : ∀ e written, run.1 = .thrown (e, written) →
    written ≤ image.length ∧ run.2.now.disk.data out = overlay (image.take written) old
  smooth : readError reads = none → Sound writes → ∃ p, run.1 = .returned p
  /-- A read or write that fails makes it throw. -/
  failing : ∀ written left, run.1 = .returned (written, left) → readError reads = none ∧ Used writes left

/-- Where the copy stops, and why. -/
structure Interrupted (image old : List Byte) (out : Ino) (reads : List (ReadAnswer k)) (writes : List WriteAnswer)
    (thrown : Error × Nat) (m : Machine) : Prop where
  cause : ¬ (readError reads = none ∧ Sound writes)
  written : thrown.2 ≤ image.length
  data : m.disk.data out = overlay (image.take thrown.2) old

theorem stopsAt_of_cause {reads : List (ReadAnswer k)} {writes : List WriteAnswer} {image : List Byte}
    (file : ReadsImage reads image) (cause : ¬ (readError reads = none ∧ Sound writes)) :
    StopsAt d out said [] (delivered reads) (Interrupted image (d.data out) out reads writes) := by
  intro n le e m now
  obtain ⟨rest, whole⟩ := file.part
  have part : (delivered reads).take n = image.take n := by
    rw [← whole, List.take_append_of_le_length le]
  rw [List.nil_append, part] at now
  rw [List.length_nil, Nat.zero_add]
  refine ⟨cause, le.trans ?_, ?_⟩
  · rw [← whole, List.length_append]
    omega
  · rw [now.disk, Disk.data_put_start]

theorem streamCounting_spec {env : Env} {reads : List (ReadAnswer k)} {image : List Byte} {imagePath devPath : Path}
    (found : d.lookup devPath = some out) (fits : image.length ≤ (d.data out).length) (file : ReadsImage reads image)
    (opensImage : env.openImage = none) (opensTarget : env.openTarget = none) (synced : env.fsyncTarget = none) :
    Triple true (Now d said) (streamCounting env reads imagePath devPath)
      (fun p m => p.1 = image.length ∧ m.disk.data out = overlay image (d.data out) ∧ readError reads = none ∧
        Used env.targetWrites p.2)
      (Interrupted image (d.data out) out reads env.targetWrites) fun _ => True := by
  have opened : Triple true (Now d said) (counting 0 (attempt (query env.openImage fun _ => .ok ()) (.openImage imagePath)))
      (fun _ => Now d said) (Interrupted image (d.data out) out reads env.targetWrites) fun _ => True := by
    refine Triple.mapError (query_spec (fun _ _ => trivial) (fun m now _ _ _ => now) fun m now e h => ?_)
    rw [opensImage] at h
    rcases h with h | h <;> cases h
  have target : Triple true (Now d said)
      (counting 0 (attempt (query env.openTarget fun m => m.inode devPath) (.openTarget devPath)))
      (fun i m => Now d said m ∧ i = out) (Interrupted image (d.data out) out reads env.targetWrites) fun _ => True := by
    refine Triple.mapError (query_spec (fun _ _ => trivial) (fun m now _ i h => ⟨now, ?_⟩) fun m now e h => ?_)
    · rw [Machine.inode, now.disk, found] at h
      exact (Except.ok.inj h).symm
    · rw [opensTarget, Machine.inode, now.disk, found] at h
      rcases h with h | h <;> cases h
  refine Triple.bind opened fun _ => Triple.bind_fact target fun i same => ?_
  rw [same]
  have room : d.Fits out (([] : List Byte).length + (delivered reads).length) := by
    intro _
    have le := file.part.length_le
    rw [List.length_nil]
    omega
  have zeros : (List.replicate k (0 : Byte)).length = k := List.length_replicate
  have copy : Triple true (Now (d.put out 0 []) said) _ _ _ _ :=
    copyBlocks_spec reads env.targetWrites zeros room (stopsAt_of_cause file)
  rw [Disk.put_nil, List.nil_append] at copy
  refine Triple.bind copy fun p => ?_
  refine Triple.assume (φ := readError reads = none ∧ p.1 = (delivered reads).length ∧ Used env.targetWrites p.2)
    (fun m h => ⟨h.2, h.1.written, h.1.used⟩) ?_
  rintro ⟨drained, written, used⟩
  rw [file.whole drained] at written ⊢
  have flush : Triple true (Now (d.put out 0 image) said)
      (counting p.1 (attempt (effect env.fsyncTarget fun d => d.fsync out) .fsyncTarget))
      (fun _ => Now ((d.put out 0 image).fsync out) said)
      (Interrupted image (d.data out) out reads env.targetWrites) fun _ => True := by
    refine Triple.mapError ((effect_spec (fun _ _ => trivial) fun e m h now => ?_).conseq (fun _ => id)
      (fun _ _ h => h.1) (fun _ _ => id) fun _ => id)
    rw [synced] at h
    cases h
  have sync : Triple true (Now ((d.put out 0 image).fsync out) said)
      (counting p.1 (Prog.call fun m => ((), { m with disk := m.disk.sync })))
      (fun _ m => m.disk.data out = overlay image (d.data out))
      (Interrupted image (d.data out) out reads env.targetWrites) fun _ => True := by
    refine Triple.mapError (Triple.call (fun _ _ => trivial) fun m now => ?_)
    rw [Disk.data_sync, now.disk, Disk.data_fsync, Disk.data_put_start]
  refine Triple.bind (flush.strengthen fun _ h => h.1.now) fun _ => Triple.bind sync fun _ => ?_
  exact Triple.pure fun m held => ⟨written, held, drained, used⟩

/-- **The copy loop writes exactly the image, under every schedule.** -/
theorem copies_image (env : Env) (reads : List (ReadAnswer k)) (image : List Byte) (imagePath devPath : Path)
    (m : Machine) (out : Ino) (found : m.disk.lookup devPath = some out) (fits : image.length ≤ (m.disk.data out).length)
    (file : ReadsImage reads image) (opensImage : env.openImage = none) (opensTarget : env.openTarget = none)
    (synced : env.fsyncTarget = none) :
    CopiesImage image (m.disk.data out) out reads env.targetWrites
      (streamCounting env reads imagePath devPath ⟨none, m⟩) := by
  have run : Triple true (Now m.disk []) (streamCounting env reads imagePath devPath) _ _ _ :=
    streamCounting_spec found fits file opensImage opensTarget synced
  rcases run.steady_end m ⟨rfl, List.nil_subset _⟩ with ⟨p, returned, written, held, drained, used⟩ | ⟨t, thrown, cut⟩
  · refine ⟨?_, ?_, ?_, fun _ _ => ⟨p, returned⟩, ?_⟩
    · rw [returned]
      exact fun h => nomatch h
    · intro w left same
      rw [returned] at same
      cases same
      exact ⟨written, held⟩
    · intro e w same
      rw [returned] at same
      cases same
    · intro w left same
      rw [returned] at same
      cases same
      exact ⟨drained, used⟩
  · refine ⟨?_, ?_, ?_, fun none sound => absurd ⟨none, sound⟩ cut.cause, ?_⟩
    · rw [thrown]
      exact fun h => nomatch h
    · intro w left same
      rw [thrown] at same
      cases same
    · intro e w same
      rw [thrown] at same
      cases same
      exact ⟨cut.written, cut.data⟩
    · intro w left same
      rw [thrown] at same
      cases same

/-- Three bytes, read as two and one. -/
def splitReads : List (ReadAnswer 2) := [.bytes [1, 2] (by decide), .bytes [3] (by decide)]

/-- The first write takes one byte. -/
def splitEnv : Env := { statImage := .ok ⟨true, 3⟩, reads := [], targetWrites := [.wrote 1] }

theorem copies_image_split :
    CopiesImage [1, 2, 3] [9, 9, 9, 9] 2 splitReads [.wrote 1]
      (streamCounting splitEnv splitReads (ascii "rootfs.ext4") kDevB
        ⟨none, ⟨[], Disk.flashed [] fun _ => [9, 9, 9, 9], []⟩⟩) :=
  copies_image splitEnv splitReads [1, 2, 3] (ascii "rootfs.ext4") kDevB
    ⟨[], Disk.flashed [] fun _ => [9, 9, 9, 9], []⟩ 2 (flashedDir_dev .B) (by decide)
    ⟨⟨[], rfl⟩, fun _ => rfl⟩ rfl rfl rfl

end Device

end OtaBridge.Apply
