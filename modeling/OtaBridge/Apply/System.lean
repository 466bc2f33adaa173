import OtaBridge.Apply.Args
import OtaBridge.Apply.BootConfig
import OtaBridge.Apply.Disk
import OtaBridge.Logic.CrashHoare

/-!
# `ota-apply` on its machine

The functions of `ota-apply.cpp` that make system calls, and `main`. What the outside world
decides (which calls fail, how many bytes a read or a write takes, what the image file holds when
it is read) is an `Env` a run is given; the names and contents it changes are the `Disk`.
Descriptors that are only closed again leave no trace here.
-/

namespace OtaBridge.Apply

open Logic.Crash

def kBuf : Nat := 4 * 1024 * 1024

/-- What one read of a text file does: `readTextFile` tests that the file is open, but not whether
the copy of its buffer ended early. -/
structure TextRead where
  openError : Option Errno := none
  /-- The bytes delivered before a read error. -/
  failsAt : Option Nat := none
  deriving DecidableEq, Repr

/-- The part of `t` that is read. -/
def TextRead.cut (r : TextRead) (t : Text) : Text :=
  match r.failsAt with
  | none => t
  | some n => t.take n

theorem TextRead.cut_eq_take (r : TextRead) (t : Text) : ∃ n, r.cut t = t.take n := by
  unfold cut
  split
  · exact ⟨t.length, t.take_length.symm⟩
  · exact ⟨_, rfl⟩

structure Stat where
  regular : Bool
  size : Nat
  deriving DecidableEq, Repr

/-- One answer of `read(2)` into a buffer of `k` bytes; no bytes are the end of the file. -/
inductive ReadAnswer (k : Nat) where
  | fail (errno : Errno)
  | bytes (bs : List Byte) (le : bs.length ≤ k)

/-- The answers of the system to the calls of one run. A list of writes that is used up answers the
rest in full, a list of reads that is used up is at the end of the file. -/
structure Env where
  strerror : Errno → Text := fun _ => []
  euid : Nat := 0
  cmdline : TextRead := {}
  statImage : Except Errno Stat
  openSize : Option Errno := none
  ioctlSize : Option Errno := none
  bootconf : TextRead := {}
  openImage : Option Errno := none
  openTarget : Option Errno := none
  reads : List (ReadAnswer kBuf)
  targetWrites : List WriteAnswer := []
  fsyncTarget : Option Errno := none
  openTemp : Option Errno := none
  tempWrites : List WriteAnswer := []
  fsyncTemp : Option Errno := none
  renameTemp : Option Errno := none
  openDir : Option Errno := none
  fsyncDir : Option Errno := none
  openConf : Option Errno := none
  fsyncConf : Option Errno := none

structure Machine where
  /-- What `/proc/cmdline` holds. -/
  cmdline : Text
  disk : Disk
  /-- The lines printed to the standard error stream. -/
  err : List Text

abbrev Sys := Prog Machine Error

/-! ## System calls -/

def say (line : Text) : Sys Unit := Prog.modify fun m => { m with err := m.err ++ [line] }

/-- A call that may fail, and the exception its failure becomes. -/
def attempt {α : Type} (f : Machine → Except Errno α × Machine) (fail : Errno → Error) : Sys α := do
  match ← Prog.call f with
  | .ok a => pure a
  | .error e => throw (fail e)

/-- A call that answers `error`, or else reads `answer`. -/
def query {α : Type} (error : Option Errno) (answer : Machine → Except Errno α) (m : Machine) :
    Except Errno α × Machine :=
  match error with
  | some e => (.error e, m)
  | none => (answer m, m)

/-- A call that answers `error` and does nothing, or else does `f`. -/
def effect (error : Option Errno) (f : Disk → Disk) (m : Machine) : Except Errno Unit × Machine :=
  match error with
  | some e => (.error e, m)
  | none => (.ok (), { m with disk := f m.disk })

def Machine.inode (m : Machine) (path : Path) : Except Errno Ino :=
  match m.disk.lookup path with
  | some i => .ok i
  | none => .error ENOENT

/-- What reading the file from its beginning to its end delivers. -/
def Machine.content (m : Machine) (path : Path) : Except Errno Text :=
  if path = ascii "/proc/cmdline" then .ok m.cmdline else m.disk.data <$> m.inode path

/-- `ioctl(BLKGETSIZE64)` -/
def Machine.blockSize (m : Machine) (i : Ino) : Except Errno Nat :=
  match (m.disk.node i).kind with
  | .block => .ok (m.disk.data i).length
  | .regular => .error ENOTTY

def write (fd : Ino) (pos : Nat) (bytes : List Byte) (a : WriteAnswer) (m : Machine) :
    Except Errno Nat × Machine :=
  (m.disk.writeResult fd pos bytes a,
    { m with disk := m.disk.put fd pos (bytes.take (m.disk.accepted fd pos bytes a)) })

/-- The loop `while (off < r)` around `write`, from position `pos` of the file on: the answers left. -/
def writeLoop (fail : Errno → Error) (fd : Ino) : List WriteAnswer → Nat → List Byte → Sys (List WriteAnswer)
  | [], pos, bytes => do
    if bytes = [] then pure []
    else
      let _ ← attempt (write fd pos bytes (.wrote bytes.length)) fail
      pure []
  | a :: as, pos, bytes => do
    if bytes = [] then pure (a :: as)
    else
      let n ← attempt (write fd pos bytes a) fail
      writeLoop fail fd as (pos + n) (bytes.drop n)

/-! ## The functions of the source -/

def readTextFile (r : TextRead) (path : Path) : Sys Text := do
  let text ← attempt (query r.openError fun m => m.content path) (.openText path)
  pure (r.cut text)

def fileSizeBytes (env : Env) (path : Path) : Sys Nat := do
  let st ← attempt (query none fun _ => env.statImage) (.statImage path)
  if ¬ st.regular then throw (.notRegular path)
  else pure st.size

def blockDeviceSizeBytes (env : Env) (devPath : Path) : Sys Nat := do
  let fd ← attempt (query env.openSize fun m => m.inode devPath) (.openBlock devPath)
  attempt (query env.ioctlSize fun m => m.blockSize fd) (.ioctlSize devPath)

def fsyncFile (env : Env) (path : Path) : Sys Unit := do
  match ← Prog.call (query env.openConf fun m => m.inode path) with
  | .error _ => pure ()
  | .ok fd =>
    let _ ← Prog.call (effect env.fsyncConf fun d => d.fsync fd)
    pure ()

/-- `path.substr(0, path.find_last_of('/'))` -/
def parentDir (path : Path) : Option Path :=
  if (47 : Byte) ∈ path then some (path.reverse.dropWhile (· ≠ 47)).tail.reverse else none

def syncParentDir (env : Env) (path : Path) : Sys Unit :=
  match parentDir path with
  | none => pure ()
  | some dir => do
    match ← Prog.call (query env.openDir fun _ => if dir = [] then .error ENOENT else .ok ()) with
    | .error _ => pure ()
    | .ok () =>
      let _ ← Prog.call (effect env.fsyncDir Disk.fsyncDir)
      pure ()

def tempPath (path : Path) : Path := path ++ ascii ".tmp"

/-- `open(tmp, O_WRONLY | O_CREAT | O_TRUNC)` -/
def openTemp (env : Env) (tmp : Path) (m : Machine) : Except Errno Ino × Machine :=
  match env.openTemp with
  | some e => (.error e, m)
  | none => (.ok (m.disk.creat tmp).1, { m with disk := (m.disk.creat tmp).2 })

def renameTemp (env : Env) (tmp path : Path) (m : Machine) : Except Errno Unit × Machine :=
  match env.renameTemp, m.inode tmp with
  | none, .ok i => (.ok (), { m with disk := m.disk.rename tmp path i })
  | none, .error e => (.error e, m)
  | some e, _ => (.error e, m)

def atomicWriteFile (env : Env) (path : Path) (content : Text) : Sys Unit := do
  let tmp := tempPath path
  let fd ← attempt (openTemp env tmp) (.openTemp tmp)
  let _ ← writeLoop (.writeTemp tmp) fd env.tempWrites 0 content
  attempt (effect env.fsyncTemp fun d => d.fsync fd) (.fsyncTemp tmp)
  attempt (renameTemp env tmp path) (.renameTemp tmp path)
  syncParentDir env path

/-- A number as `operator<<` prints it. -/
def decimal (n : Nat) : Text := ascii (toString n)

def progressLine (written : Nat) : Text := ascii "Written " ++ decimal (written / (1024 * 1024)) ++ ascii " MiB...\n"

/-- The copy loop of `streamWriteImageToBlock`, for a buffer of `k` bytes; it ends with the value of `written`. -/
def copyLoop {k : Nat} (out : Ino) : List (ReadAnswer k) → List WriteAnswer → Nat → Sys Nat
  | [], _, written => pure written
  | .fail e :: _, _, written => attempt (query (some e) fun _ => .ok written) .readImage
  | .bytes bs _ :: reads, writes, written => do
    attempt (query none fun _ => .ok ()) .readImage
    if bs = [] then pure written
    else
      let writes ← writeLoop .writeTarget out writes written bs
      let written := written + bs.length
      if written % (256 * 1024 * 1024) < k then say (progressLine written)
      copyLoop out reads writes written

def streamWriteImageToBlock (env : Env) (imagePath devPath : Path) : Sys Unit := do
  attempt (query env.openImage fun _ => .ok ()) (.openImage imagePath)
  let out ← attempt (query env.openTarget fun m => m.inode devPath) (.openTarget devPath)
  let _ ← copyLoop out env.reads env.targetWrites 0
  attempt (effect env.fsyncTarget fun d => d.fsync out) .fsyncTarget
  Prog.call fun m => ((), { m with disk := m.disk.sync })

/-! ## `main` -/

def Slot.letter : Slot → Text
  | .A => ascii "A"
  | .B => ascii "B"

def writeComplete : Text := ascii "Write complete.\n"

/-- Steps 4 and 5 of `main`: the image, then the boot config. -/
def install (env : Env) (args : Args) (plan : Plan) (updated : Text) : Sys Unit := do
  say (ascii "Writing image to " ++ plan.targetDev ++ ascii "...\n")
  streamWriteImageToBlock env args.image plan.targetDev
  say writeComplete
  say (ascii "Updating boot config " ++ args.bootconf ++ ascii "...\n")
  atomicWriteFile env args.bootconf updated
  fsyncFile env args.bootconf
  Prog.call fun m => ((), { m with disk := m.disk.sync })
  say (ascii "Boot config updated.\n")
  say (ascii "SUCCESS: Update applied to inactive slot.\n")

/-- Steps 2 to 5 of `main`, for the slot that step 1 found. -/
def runUpdate (env : Env) (args : Args) (active : Slot) : Sys Nat := do
  let plan := buildPlan active
  say (ascii "Active slot: " ++ active.letter ++ ascii "  Target slot: " ++ plan.target.letter ++ ascii "\n")
  say (ascii "Target device: " ++ plan.targetDev ++ ascii "  Target label: " ++ plan.targetLabel ++ ascii "\n")
  let imgBytes ← fileSizeBytes env args.image
  let devBytes ← blockDeviceSizeBytes env plan.targetDev
  say (ascii "Image size: " ++ decimal (imgBytes / (1024 * 1024)) ++ ascii " MiB\n")
  say (ascii "Target size: " ++ decimal (devBytes / (1024 * 1024)) ++ ascii " MiB\n")
  if imgBytes > devBytes then
    say (ascii "ERROR: Image is larger than target partition.\n")
    pure 30
  else
    let extlinux ← readTextFile env.bootconf args.bootconf
    match updateExtlinuxRootPartlabel extlinux plan.targetLabel with
    | .error e => throw e
    | .ok updated =>
      if args.dryRun then
        say (ascii "DRY RUN: would write image to " ++ plan.targetDev ++ ascii " and update " ++ args.bootconf ++
          ascii "\n")
        pure 0
      else
        install env args plan updated
        pure 0

/-- The body of the `try` block. -/
def mainBody (env : Env) (argv : List Text) : Sys Nat := do
  if env.euid ≠ 0 then
    say (ascii "ERROR: ota-apply must run as root.\n")
    pure 10
  else
    match parseArgs argv with
    | .exit => pure 0
    | .throw e => throw e
    | .args args =>
      let cmdline ← readTextFile env.cmdline (ascii "/proc/cmdline")
      match detectActiveSlotFromCmdline cmdline with
      | none =>
        say (ascii "ERROR: Cannot determine active slot from /proc/cmdline\n")
        pure 20
      | some active => runUpdate env args active

def main (env : Env) (argv : List Text) : Sys Nat :=
  tryCatch (mainBody env argv) fun e => do
    say (ascii "FATAL: " ++ e.what env.strerror ++ ascii "\n")
    pure 50

end OtaBridge.Apply
