import Mathlib.Logic.Function.Basic
import OtaBridge.Logic.Journal
import OtaBridge.Apply.Error

/-!
# The disk under `ota-apply`

Names lead to inodes, an inode holds a file's or a block device's bytes, and both the directory
and every inode are journal cells: what a process reads is the view, what a power loss leaves is
any survivor. Writes are journaled byte by byte, so a write can survive in part.
-/

namespace OtaBridge.Apply

open Logic.Journal Logic.Substring

abbrev Path := Text

abbrev Ino := Nat

inductive Kind where
  | regular
  | block
  deriving DecidableEq, Repr

abbrev Dir := Path → Option Ino

/-- A change of the directory; a rename carries the inode it moves. -/
inductive NameOp where
  | link (p : Path) (i : Ino)
  | rename (src dst : Path) (i : Ino)

def NameOp.apply : NameOp → Dir → Dir
  | .link p i, dir => Function.update dir p (some i)
  | .rename src dst i, dir => Function.update (Function.update dir src none) dst (some i)

instance : Update NameOp Dir := ⟨NameOp.apply⟩

structure Node where
  kind : Kind
  data : Cell (Edit Byte) (List Byte)
  /-- How many bytes `write(2)` has put into it so far. -/
  written : Nat

structure Disk where
  dir : Cell NameOp Dir
  node : Ino → Node
  /-- The next inode `open(O_CREAT)` hands out. -/
  fresh : Ino

/-- One answer of `write(2)`: an error, or how many of the bytes asked for it takes at most. -/
inductive WriteAnswer where
  | fail (errno : Errno)
  | wrote (n : Nat)
  deriving DecidableEq, Repr

namespace Disk

def lookup (d : Disk) (p : Path) : Option Ino := d.dir.view p

def data (d : Disk) (i : Ino) : List Byte := (d.node i).data.view

def onNode (d : Disk) (i : Ino) (f : Node → Node) : Disk :=
  { d with node := Function.update d.node i (f (d.node i)) }

def truncate (d : Disk) (i : Ino) : Disk := d.onNode i fun x => { x with data := x.data.issue [.truncate] }

def put (d : Disk) (i : Ino) (pos : Nat) (bytes : List Byte) : Disk :=
  d.onNode i fun x =>
    { x with data := x.data.issue (puts pos bytes), written := x.written + bytes.length }

def fsync (d : Disk) (i : Ino) : Disk := d.onNode i fun x => { x with data := x.data.sync }

def fsyncDir (d : Disk) : Disk := { d with dir := d.dir.sync }

/-- `sync(2)`. -/
def sync (d : Disk) : Disk :=
  { d with dir := d.dir.sync, node := fun i => { d.node i with data := (d.node i).data.sync } }

/-- `open(path, O_WRONLY | O_CREAT | O_TRUNC)`: the inode and the disk after it. -/
def creat (d : Disk) (p : Path) : Ino × Disk :=
  match d.lookup p with
  | some i => (i, d.truncate i)
  | none => (d.fresh,
      { dir := d.dir.issue [.link p d.fresh]
        node := Function.update d.node d.fresh ⟨.regular, ⟨[], []⟩, 0⟩
        fresh := d.fresh + 1 })

/-- `rename(src, dst)`, where `src` leads to `i`. -/
def rename (d : Disk) (src dst : Path) (i : Ino) : Disk :=
  { d with dir := d.dir.issue [.rename src dst i] }

/-- `n` bytes have room in the inode: a block device does not grow. -/
def Fits (d : Disk) (i : Ino) (n : Nat) : Prop := (d.node i).kind = .block → n ≤ (d.data i).length

instance (d : Disk) (i : Ino) (n : Nat) : Decidable (d.Fits i n) :=
  inferInstanceAs (Decidable ((d.node i).kind = .block → n ≤ (d.data i).length))

/-- How many bytes `write(2)` takes at position `pos`. At the end of a device the kernel writes what
fits and fails the next call with `ENOSPC`; the two are one call here. -/
def accepted (d : Disk) (i : Ino) (pos : Nat) (bytes : List Byte) : WriteAnswer → Nat
  | .fail _ => 0
  | .wrote n =>
    if d.Fits i (pos + min n bytes.length) then min n bytes.length
    else min bytes.length ((d.data i).length - pos)

/-- What `write(2)` returns. -/
def writeResult (d : Disk) (i : Ino) (pos : Nat) (bytes : List Byte) : WriteAnswer → Except Errno Nat
  | .fail e => .error e
  | .wrote n =>
    if d.Fits i (pos + min n bytes.length) then .ok (min n bytes.length) else .error ENOSPC

/-- The names and contents a power loss may leave. -/
structure Survives (d : Disk) (dir : Dir) (data : Ino → List Byte) : Prop where
  dir : d.dir.Survives dir
  data : ∀ i, (d.node i).data.Survives (data i)

/-! ## Reading after each operation -/

section Views

variable (d : Disk) (i j : Ino) (p : Path)

@[simp] theorem lookup_put (pos : Nat) (bytes : List Byte) : (d.put i pos bytes).lookup = d.lookup := rfl

theorem lookup_rename (src dst : Path) :
    (d.rename src dst i).lookup = Function.update (Function.update d.lookup src none) dst (some i) := by
  funext p
  show (d.dir.issue [.rename src dst i]).view p = _
  rw [Cell.view_issue]
  rfl

@[simp] theorem node_onNode_self (f : Node → Node) : (d.onNode i f).node i = f (d.node i) :=
  Function.update_self i _ _

theorem node_onNode_ne {i j : Ino} (ne : j ≠ i) (f : Node → Node) : (d.onNode i f).node j = d.node j :=
  Function.update_of_ne ne _ _

/-- What an update of one node keeps, it keeps of every node. -/
theorem node_onNode_keep {β : Type} (g : Node → β) {f : Node → Node} (keep : ∀ x, g (f x) = g x) :
    g ((d.onNode i f).node j) = g (d.node j) := by
  by_cases e : j = i
  · subst e
    rw [node_onNode_self, keep]
  · rw [node_onNode_ne d e]

@[simp] theorem data_fsync : (d.fsync i).data j = d.data j :=
  d.node_onNode_keep i j (fun x => x.data.view) fun x => x.data.view_sync

@[simp] theorem data_sync : d.sync.data j = d.data j := rfl

@[simp] theorem written_fsync : ((d.fsync i).node j).written = (d.node j).written :=
  d.node_onNode_keep i j Node.written fun _ => rfl

@[simp] theorem kind_put (pos : Nat) (bytes : List Byte) :
    ((d.put i pos bytes).node j).kind = (d.node j).kind := d.node_onNode_keep i j Node.kind fun _ => rfl

@[simp] theorem kind_fsync : ((d.fsync i).node j).kind = (d.node j).kind :=
  d.node_onNode_keep i j Node.kind fun _ => rfl

@[simp] theorem kind_truncate : ((d.truncate i).node j).kind = (d.node j).kind :=
  d.node_onNode_keep i j Node.kind fun _ => rfl

@[simp] theorem data_truncate_self : (d.truncate i).data i = [] := by
  simp only [truncate, data, node_onNode_self, Cell.view_issue]
  rfl

theorem data_put_self {i : Ino} {pos : Nat} (h : pos ≤ (d.data i).length) (bytes : List Byte) :
    (d.put i pos bytes).data i = replaceAt (d.data i) pos bytes.length bytes := by
  simp only [put, data, node_onNode_self, Cell.view_issue]
  exact replay_puts h bytes

theorem data_put_ne {i j : Ino} (ne : j ≠ i) (pos : Nat) (bytes : List Byte) :
    (d.put i pos bytes).data j = d.data j := congrArg (fun x => x.data.view) (d.node_onNode_ne ne _)

end Views

/-! ## Consecutive writes -/

theorem onNode_onNode (d : Disk) (i : Ino) (f g : Node → Node) :
    (d.onNode i f).onNode i g = d.onNode i fun x => g (f x) := by
  simp [onNode]

theorem put_nil (d : Disk) (i : Ino) (pos : Nat) : d.put i pos [] = d := by
  simp [put, onNode, puts, Cell.issue]

theorem put_put (d : Disk) (i : Ino) (pos : Nat) (a b : List Byte) :
    (d.put i pos a).put i (pos + a.length) b = d.put i pos (a ++ b) := by
  simp [put, onNode_onNode, puts_append, Cell.issue_issue, Nat.add_assoc]

/-- Bytes that fit leave a device as long as it was. -/
theorem fits_put {d : Disk} {i : Ino} {bytes : List Byte} (h : d.Fits i bytes.length) (n : Nat) :
    (d.put i 0 bytes).Fits i n ↔ d.Fits i n := by
  unfold Fits
  rw [kind_put]
  refine forall_congr' fun block => ?_
  rw [data_put_self _ (Nat.zero_le _), length_replaceAt (by have := h block; omega) rfl]

theorem Fits.mono {d : Disk} {i : Ino} {m n : Nat} (h : d.Fits i n) (le : m ≤ n) : d.Fits i m :=
  fun block => le.trans (h block)

/-! ## Creating a file -/

theorem creat_of_some {d : Disk} {p : Path} {i : Ino} (h : d.lookup p = some i) :
    d.creat p = (i, d.truncate i) := by
  rw [creat, h]

theorem creat_of_none {d : Disk} {p : Path} (h : d.lookup p = none) :
    d.creat p = (d.fresh,
      { dir := d.dir.issue [.link p d.fresh]
        node := Function.update d.node d.fresh ⟨.regular, ⟨[], []⟩, 0⟩
        fresh := d.fresh + 1 }) := by
  rw [creat, h]

theorem lookup_creat (d : Disk) (p : Path) :
    (d.creat p).2.lookup = Function.update d.lookup p (some (d.creat p).1) := by
  cases found : d.lookup p with
  | some i =>
    rw [creat_of_some found]
    exact (Function.update_eq_self_iff.2 found.symm).symm
  | none =>
    rw [creat_of_none found]
    funext q
    show (d.dir.issue [.link p d.fresh]).view q = _
    rw [Cell.view_issue]
    rfl

theorem data_creat_self (d : Disk) (p : Path) : (d.creat p).2.data (d.creat p).1 = [] := by
  cases found : d.lookup p with
  | some i =>
    rw [creat_of_some found]
    exact d.data_truncate_self i
  | none =>
    rw [creat_of_none found]
    simp [data, Cell.view]

theorem node_creat_ne {d : Disk} {p : Path} {j : Ino} (ne : j ≠ (d.creat p).1) :
    (d.creat p).2.node j = d.node j := by
  cases found : d.lookup p with
  | some i =>
    rw [creat_of_some found] at ne ⊢
    have away : j ≠ i := ne
    rw [truncate, node_onNode_ne d away]
  | none =>
    rw [creat_of_none found] at ne ⊢
    exact Function.update_of_ne ne _ _

theorem kind_creat_self {d : Disk} {p : Path} (old : ∀ i, d.lookup p = some i → (d.node i).kind = .regular) :
    ((d.creat p).2.node (d.creat p).1).kind = .regular := by
  cases found : d.lookup p with
  | some i =>
    rw [creat_of_some found]
    exact (d.kind_truncate i i).trans (old i found)
  | none =>
    rw [creat_of_none found]
    simp

end Disk

end OtaBridge.Apply
