import OtaBridge.Apply.System

/-!
# The two write loops

What one system call does, and from it what the write loop and the copy loop do: at every moment
the file holds a prefix of the bytes to be written, whatever the lengths of the single reads and
writes, and a loop that ends has written them all. The triples are stated with the postconditions
of failure (`X`) and of a loss of power (`C`) as parameters, so that each caller can add what it
knows of the rest of the machine.
-/

namespace OtaBridge.Apply

open Logic.Crash

/-- The machine has this disk, and these lines have been printed, among others. -/
structure Now (d : Disk) (said : List Text) (m : Machine) : Prop where
  disk : m.disk = d
  said : said ⊆ m.err

section Calls

variable {steady : Bool} {P : Machine → Prop} {X : Error → Machine → Prop} {C : Machine → Prop}

theorem attempt_spec {α : Type} {f : Machine → Except Errno α × Machine} {fail : Errno → Error}
    {Q : α → Machine → Prop} (lost : ∀ m, P m → C m)
    (done : ∀ m, P m → ∀ a, (f m).1 = .ok a → Q a (f m).2)
    (failed : ∀ m, P m → ∀ e, (f m).1 = .error e → X (fail e) (f m).2) :
    Triple steady P (attempt f fail) Q X C := by
  refine Triple.bind (Q := fun r m' => ∃ m, P m ∧ f m = (r, m')) (Triple.call lost fun m p => ⟨m, p, rfl⟩) ?_
  rintro (e | a)
  · apply Triple.throw
    rintro m' ⟨m, p, e'⟩
    have := failed m p e (by rw [e'])
    rwa [e'] at this
  · apply Triple.pure
    rintro m' ⟨m, p, e'⟩
    have := done m p a (by rw [e'])
    rwa [e'] at this

/-- A query leaves the machine as it was. -/
theorem query_spec {α : Type} {error : Option Errno} {answer : Machine → Except Errno α} {fail : Errno → Error}
    {Q : α → Machine → Prop} (lost : ∀ m, P m → C m)
    (done : ∀ m, P m → error = none → ∀ a, answer m = .ok a → Q a m)
    (failed : ∀ m, P m → ∀ e, error = some e ∨ answer m = .error e → X (fail e) m) :
    Triple steady P (attempt (query error answer) fail) Q X C := by
  apply attempt_spec lost
  · intro m p a
    cases error with
    | none => exact done m p rfl a
    | some e => intro h; cases h
  · intro m p e
    cases error with
    | none => exact fun h => failed m p e (.inr h)
    | some e' => intro h; cases h; exact failed m p _ (.inl rfl)

theorem effect_spec {error : Option Errno} {f : Disk → Disk} {fail : Errno → Error} {d : Disk} {said : List Text}
    (lost : ∀ m, Now d said m → C m) (failed : ∀ e m, error = some e → Now d said m → X (fail e) m) :
    Triple steady (Now d said) (attempt (effect error f) fail)
      (fun _ m => Now (f d) said m ∧ error = none) X C := by
  apply attempt_spec lost
  · intro m now a h
    cases error with
    | none => exact ⟨⟨congrArg f now.disk, now.said⟩, rfl⟩
    | some e => cases h
  · intro m now e h
    cases error with
    | none => cases h
    | some e' => cases h; exact failed _ _ rfl now

theorem say_spec {line : Text} {d : Disk} {said : List Text} :
    Triple steady (Now d said) (say line) (fun _ => Now d (line :: said)) X C := by
  refine Triple.modify fun m now => ⟨now.disk, ?_⟩
  intro l h
  rcases List.mem_cons.1 h with rfl | h
  · exact List.mem_append_right _ List.mem_cons_self
  · exact List.mem_append_left _ (now.said h)

/-- A line nobody asks about. -/
theorem say_keeps {line : Text} {d : Disk} {said : List Text} :
    Triple steady (Now d said) (say line) (fun _ => Now d said) X C :=
  say_spec.conseq (fun _ => id) (fun _ _ now => ⟨now.disk, fun _ h => now.said (List.mem_cons_of_mem _ h)⟩)
    (fun _ _ => id) fun _ => id

end Calls

/-! ## One write -/

namespace Disk

variable {d : Disk} {i : Ino} {pos : Nat} {bytes : List Byte}

theorem accepted_le (a : WriteAnswer) : d.accepted i pos bytes a ≤ bytes.length := by
  cases a with
  | fail e => exact Nat.zero_le _
  | wrote n =>
    rw [accepted]
    split
    · exact Nat.min_le_right _ _
    · exact Nat.min_le_left _ _

theorem fits_accepted (room : d.Fits i pos) (a : WriteAnswer) :
    d.Fits i (pos + d.accepted i pos bytes a) := by
  cases a with
  | fail e => exact room
  | wrote n =>
    rw [accepted]
    split
    · assumption
    · intro block
      have := room block
      omega

theorem writeResult_ok {a : WriteAnswer} {n : Nat} (h : d.writeResult i pos bytes a = .ok n) :
    n = d.accepted i pos bytes a := by
  cases a with
  | fail e => cases h
  | wrote k =>
    rw [writeResult] at h
    rw [accepted]
    split at h
    · next fits =>
      rw [if_pos fits]
      exact (Except.ok.inj h).symm
    · cases h

/-- A write answered in full takes everything, or fails. -/
theorem writeResult_full {n : Nat} (h : d.writeResult i pos bytes (.wrote bytes.length) = .ok n) :
    n = bytes.length := by
  rw [writeResult] at h
  split at h
  · rw [← Except.ok.inj h, Nat.min_self]
  · cases h

/-- Only a failing answer or a full device fails a write. -/
theorem writeResult_error {a : WriteAnswer} {e : Errno} (h : d.writeResult i pos bytes a = .error e) :
    (∃ e, a = .fail e) ∨ ¬ d.Fits i (pos + bytes.length) := by
  cases a with
  | fail e => exact .inl ⟨e, rfl⟩
  | wrote k =>
    rw [writeResult] at h
    split at h
    · cases h
    · next full => exact .inr fun fits => full (fits.mono (by omega))

end Disk

/-- No answer of the schedule is a failure. -/
def Sound (as : List WriteAnswer) : Prop := ∀ e, WriteAnswer.fail e ∉ as

section Loops

variable {steady : Bool} {X : Error → Machine → Prop} {C : Machine → Prop}
variable {d : Disk} {fd : Ino} {said : List Text}

/-- `G` holds wherever the file holds `pre` and a part of `bytes` that fits. -/
def Partway (d : Disk) (fd : Ino) (said : List Text) (pre bytes : List Byte) (G : Machine → Prop) : Prop :=
  ∀ n, n ≤ bytes.length → d.Fits fd (pre.length + n) → ∀ m, Now (d.put fd 0 (pre ++ bytes.take n)) said m → G m

section Partway

variable {pre a b : List Byte} {G : Machine → Prop}

theorem Partway.start (h : Partway d fd said pre a G) (room : d.Fits fd pre.length) {m : Machine}
    (now : Now (d.put fd 0 pre) said m) : G m :=
  h 0 (Nat.zero_le _) room m (by rwa [List.take_zero, List.append_nil])

theorem Partway.front (h : Partway d fd said pre (a ++ b) G) : Partway d fd said pre a G := by
  intro n le fits m now
  refine h n (by rw [List.length_append]; omega) fits m ?_
  rwa [List.take_append_of_le_length le]

theorem Partway.back (h : Partway d fd said pre (a ++ b) G) : Partway d fd said (pre ++ a) b G := by
  intro n le fits m now
  rw [List.length_append, Nat.add_assoc] at fits
  refine h (a.length + n) (by rw [List.length_append]; omega) fits m ?_
  rwa [List.take_length_add_append, ← List.append_assoc]

end Partway

/-- One `write` behind the bytes `pre` that are already there. -/
theorem write_spec {fail : Errno → Error} {pre bytes : List Byte} (a : WriteAnswer) (room : d.Fits fd pre.length)
    (lost : Partway d fd said pre bytes C)
    (failed : (∃ e, a = .fail e) ∨ ¬ d.Fits fd (pre.length + bytes.length) →
      ∀ e, Partway d fd said pre bytes (X (fail e))) :
    Triple steady (Now (d.put fd 0 pre) said) (attempt (write fd pre.length bytes a) fail)
      (fun k m => Now (d.put fd 0 (pre ++ bytes.take k)) said m ∧ k ≤ bytes.length ∧
        d.Fits fd (pre.length + k) ∧ (d.put fd 0 pre).writeResult fd pre.length bytes a = .ok k) X C := by
  have there : ∀ m, Now (d.put fd 0 pre) said m →
      Now (d.put fd 0 (pre ++ bytes.take ((d.put fd 0 pre).accepted fd pre.length bytes a))) said
        (write fd pre.length bytes a m).2 := by
    intro m now
    refine ⟨?_, now.said⟩
    show m.disk.put _ _ _ = _
    rw [now.disk, ← d.put_put fd 0, Nat.zero_add]
  have le : (d.put fd 0 pre).accepted fd pre.length bytes a ≤ bytes.length := Disk.accepted_le a
  have fits : d.Fits fd (pre.length + (d.put fd 0 pre).accepted fd pre.length bytes a) :=
    (Disk.fits_put room _).1 (Disk.fits_accepted ((Disk.fits_put room _).2 room) a)
  refine attempt_spec (fun m now => lost.start room now) ?_ ?_
  · intro m now k h
    change m.disk.writeResult fd pre.length bytes a = .ok k at h
    rw [now.disk] at h
    rw [Disk.writeResult_ok h]
    exact ⟨there m now, le, fits, Disk.writeResult_ok h ▸ h⟩
  · intro m now e h
    refine failed ?_ e _ le fits _ (there m now)
    have cause := Disk.writeResult_error h
    rwa [now.disk, Disk.fits_put room] at cause

theorem writeLoop_spec {fail : Errno → Error} (as : List WriteAnswer) {pre bytes : List Byte}
    (room : d.Fits fd pre.length) (lost : Partway d fd said pre bytes C)
    (failed : ¬ (Sound as ∧ d.Fits fd (pre.length + bytes.length)) →
      ∀ e, Partway d fd said pre bytes (X (fail e))) :
    Triple steady (Now (d.put fd 0 pre) said) (writeLoop fail fd as pre.length bytes)
      (fun left m => Now (d.put fd 0 (pre ++ bytes)) said m ∧ d.Fits fd (pre.length + bytes.length) ∧
        (Sound as → Sound left)) X C := by
  induction as generalizing pre bytes with
  | nil =>
    rw [writeLoop]
    split
    · next none =>
      subst none
      refine Triple.pure fun m now => ?_
      rw [List.append_nil]
      exact ⟨now, room, id⟩
    · refine Triple.bind (write_spec _ room lost ?_) fun k => Triple.pure ?_
      · rintro (⟨e, h⟩ | full)
        · cases h
        · exact failed fun smooth => full smooth.2
      · rintro m ⟨now, le, fits, h⟩
        rw [Disk.writeResult_full h, List.take_length] at now
        rw [Disk.writeResult_full h] at fits
        exact ⟨now, fits, id⟩
  | cons a as ih =>
    rw [writeLoop]
    split
    · next none =>
      subst none
      refine Triple.pure fun m now => ?_
      rw [List.append_nil]
      exact ⟨now, room, id⟩
    · refine Triple.bind (write_spec _ room lost ?_) fun k => ?_
      · rintro (⟨e, rfl⟩ | full)
        · exact failed fun smooth => smooth.1 e List.mem_cons_self
        · exact failed fun smooth => full smooth.2
      · refine Triple.assume (φ := k ≤ bytes.length ∧ d.Fits fd (pre.length + k)) (fun m h => ⟨h.2.1, h.2.2.1⟩) ?_
        rintro ⟨le, fits⟩
        -- the loop goes on behind `pre` and the `k` bytes just written
        have size : (pre ++ bytes.take k).length = pre.length + k := by
          rw [List.length_append, List.length_take, Nat.min_eq_left le]
        have rest : pre.length + k + (bytes.drop k).length = pre.length + bytes.length := by
          rw [List.length_drop]
          omega
        rw [← List.take_append_drop k bytes] at lost
        have next := @ih (pre ++ bytes.take k) (bytes.drop k) (by rwa [size]) lost.back
          (by
            intro cause e
            rw [size, rest] at cause
            have := failed (fun smooth => cause ⟨fun e h => smooth.1 e (List.mem_cons_of_mem _ h), smooth.2⟩) e
            rw [← List.take_append_drop k bytes] at this
            exact this.back)
        rw [size, rest, List.append_assoc, List.take_append_drop] at next
        refine next.conseq (fun _ h => h.1) (fun left m h => ⟨h.1, h.2.1, fun smooth => h.2.2 ?_⟩)
          (fun _ _ => id) fun _ => id
        exact fun e h => smooth e (List.mem_cons_of_mem _ h)

/-! ## The copy loop -/

/-- The bytes that the reads deliver before the end of the file or a failure. -/
def delivered {k : Nat} : List (ReadAnswer k) → List Byte
  | [] => []
  | .fail _ :: _ => []
  | .bytes bs _ :: reads => if bs = [] then [] else bs ++ delivered reads

/-- The failure that ends the reads, if it is not the end of the file. -/
def readError {k : Nat} : List (ReadAnswer k) → Option Errno
  | [] => none
  | .fail e :: _ => some e
  | .bytes bs _ :: reads => if bs = [] then none else readError reads

/-- The copy loop goes on where `written` bytes, the bytes `pre`, have been copied. -/
theorem copyLoop_spec {k : Nat} (reads : List (ReadAnswer k)) (writes : List WriteAnswer) {pre : List Byte}
    (room : d.Fits fd pre.length) (lost : Partway d fd said pre (delivered reads) C)
    (failed : ¬ (readError reads = none ∧ Sound writes ∧ d.Fits fd (pre.length + (delivered reads).length)) →
      ∀ e, Partway d fd said pre (delivered reads) (X e)) :
    Triple steady (Now (d.put fd 0 pre) said) (copyLoop fd reads writes pre.length)
      (fun written m => Now (d.put fd 0 (pre ++ delivered reads)) said m ∧
        d.Fits fd (pre.length + (delivered reads).length) ∧ readError reads = none ∧
        written = pre.length + (delivered reads).length) X C := by
  induction reads generalizing writes pre with
  | nil =>
    refine Triple.pure fun m now => ?_
    simp only [delivered, List.append_nil]
    exact ⟨now, room, rfl, rfl⟩
  | cons r reads ih =>
    cases r with
    | fail e =>
      refine query_spec (fun m now => lost.start room now) (fun m now h => nomatch h) fun m now e' h => ?_
      exact (failed (fun smooth => nomatch smooth.1) _).start room now
    | bytes bs le =>
      rw [copyLoop]
      have read : Triple steady (Now (d.put fd 0 pre) said) (attempt (query none fun _ => .ok ()) .readImage)
          (fun _ => Now (d.put fd 0 pre) said) X C :=
        query_spec (fun m now => lost.start room now) (fun m now _ _ _ => now)
          (fun m now e h => by rcases h with h | h <;> cases h)
      refine Triple.bind read fun _ => ?_
      split
      · next none =>
        subst none
        refine Triple.pure fun m now => ?_
        simp only [delivered, if_true, List.append_nil]
        exact ⟨now, room, by simp [readError], rfl⟩
      · next some =>
        simp only [delivered, readError, if_neg some, List.length_append] at lost failed ⊢
        refine Triple.bind (writeLoop_spec writes room lost.front ?_) fun left => ?_
        · exact fun cause e => (failed (fun smooth => cause ⟨smooth.2.1, smooth.2.2.mono (by omega)⟩) _).front
        refine Triple.assume (φ := d.Fits fd (pre.length + bs.length) ∧ (Sound writes → Sound left))
          (fun m h => h.2) ?_
        rintro ⟨fits, sound⟩
        have next := @ih left (pre ++ bs) (by rwa [List.length_append]) lost.back
          (by
            intro cause e
            rw [List.length_append, Nat.add_assoc] at cause
            exact (failed (fun smooth => cause ⟨smooth.1, sound smooth.2.1, smooth.2.2⟩) e).back)
        simp only [List.length_append, Nat.add_assoc, List.append_assoc] at next
        split
        · exact Triple.bind (say_keeps.strengthen fun _ h => h.1) fun _ => next
        · exact next.strengthen fun _ h => h.1

end Loops

end OtaBridge.Apply
