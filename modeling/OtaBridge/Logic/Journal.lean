import OtaBridge.Logic.Substring

/-!
# Durable values with unsynced updates

A `Cell` is a value on a storage medium: what is durable, and the updates issued since. A running
system sees all of them (`view`); after a power loss any subset of them may have reached the
medium (`Survives`); `sync` leaves nothing to chance. `Edit` is the update of one element of a
sequence or its truncation, so a write of several elements can survive in part.
-/

namespace Logic.Journal

open Logic.Substring (replaceAt)

/-- `ω` are updates of values `σ`. -/
class Update (ω : Type) (σ : outParam Type) where
  apply : ω → σ → σ

structure Cell (ω σ : Type) where
  durable : σ
  pending : List ω

def Cell.issue {ω σ : Type} (c : Cell ω σ) (ops : List ω) : Cell ω σ := { c with pending := c.pending ++ ops }

theorem Cell.issue_issue {ω σ : Type} (c : Cell ω σ) (a b : List ω) :
    (c.issue a).issue b = c.issue (a ++ b) := by
  simp [issue]

section Cell

variable {ω σ : Type} [Update ω σ]

def replay (ops : List ω) (x : σ) : σ := ops.foldl (fun x op => Update.apply op x) x

@[simp] theorem replay_nil (x : σ) : replay ([] : List ω) x = x := rfl

@[simp] theorem replay_cons (op : ω) (ops : List ω) (x : σ) :
    replay (op :: ops) x = replay ops (Update.apply op x) := rfl

theorem replay_append (a b : List ω) (x : σ) : replay (a ++ b) x = replay b (replay a x) :=
  List.foldl_append

namespace Cell

/-- What the running system reads. -/
def view (c : Cell ω σ) : σ := replay c.pending c.durable

def sync (c : Cell ω σ) : Cell ω σ := ⟨c.view, []⟩

/-- `x` may be found after a power loss. -/
def Survives (c : Cell ω σ) (x : σ) : Prop := ∃ kept, kept.Sublist c.pending ∧ replay kept c.durable = x

@[simp] theorem view_issue (c : Cell ω σ) (ops : List ω) : (c.issue ops).view = replay ops c.view :=
  replay_append _ _ _

@[simp] theorem view_sync (c : Cell ω σ) : c.sync.view = c.view := rfl

/-- Nothing lost is one of the possible outcomes. -/
theorem survives_view (c : Cell ω σ) : c.Survives c.view := ⟨c.pending, .refl _, rfl⟩

theorem survives_sync {c : Cell ω σ} {x : σ} (h : c.sync.Survives x) : x = c.view := by
  obtain ⟨kept, sub, rfl⟩ := h
  rw [List.sublist_nil.1 sub]
  rfl

/-- What is true whatever survives stays so under updates that preserve it. -/
theorem survives_issue {c : Cell ω σ} {ops : List ω} {I : σ → Prop} (before : ∀ x, c.Survives x → I x)
    (keep : ∀ op, op ∈ ops → ∀ x, I x → I (Update.apply op x)) {x : σ} (h : (c.issue ops).Survives x) :
    I x := by
  obtain ⟨kept, sub, rfl⟩ := h
  obtain ⟨old, new, rfl, subOld, subNew⟩ := List.sublist_append_iff.1 sub
  have start : I (replay old c.durable) := before _ ⟨old, subOld, rfl⟩
  show I (replay (old ++ new) c.durable)
  rw [replay_append]
  clear sub
  generalize replay old c.durable = y at start ⊢
  induction new generalizing y with
  | nil => exact start
  | cons op new ih =>
    have mem := subNew.subset
    exact ih ((List.sublist_cons_self op new).trans subNew) _ (keep op (mem List.mem_cons_self) y start)

/-- Nothing but `x` can be found after a power loss. -/
def Settled (c : Cell ω σ) (x : σ) : Prop := ∀ y, c.Survives y → y = x

theorem Settled.view {c : Cell ω σ} {x : σ} (h : c.Settled x) : c.view = x := h _ c.survives_view

theorem settled_sync (c : Cell ω σ) : c.sync.Settled c.view := fun _ => survives_sync

/-- A cell without pending updates. -/
theorem settled_flushed (x : σ) : (⟨x, []⟩ : Cell ω σ).Settled x := settled_sync ⟨x, []⟩

theorem Settled.sync {c : Cell ω σ} {x : σ} (h : c.Settled x) : c.sync.Settled x :=
  h.view ▸ c.settled_sync

end Cell

end Cell

/-- One change of a sequence. -/
inductive Edit (α : Type) where
  | truncate
  | put (i : Nat) (a : α)

/-- The puts of consecutive elements from position `i` on. -/
def puts {α : Type} (i : Nat) : List α → List (Edit α)
  | [] => []
  | a :: as => .put i a :: puts (i + 1) as

theorem puts_append {α : Type} (i : Nat) (a b : List α) :
    puts i (a ++ b) = puts i a ++ puts (i + a.length) b := by
  induction a generalizing i with
  | nil => rfl
  | cons x a ih =>
    simp only [List.cons_append, puts, ih, List.length_cons]
    rw [Nat.add_assoc, Nat.add_comm 1]

theorem puts_subset {α : Type} {i : Nat} {a b : List α} (front : a <+: b) : puts i a ⊆ puts i b := by
  obtain ⟨rest, rfl⟩ := front
  rw [puts_append]
  exact List.subset_append_left _ _

theorem exists_of_mem_puts {α : Type} {i : Nat} {as : List α} {op : Edit α} (mem : op ∈ puts i as) :
    ∃ j a, op = .put j a ∧ j < i + as.length := by
  induction as generalizing i with
  | nil => cases mem
  | cons b as ih =>
    rw [List.length_cons]
    rcases List.mem_cons.1 mem with rfl | mem
    · exact ⟨i, b, rfl, by omega⟩
    · obtain ⟨j, a, rfl, lt⟩ := ih mem
      exact ⟨j, a, rfl, by omega⟩

section Edit

variable {α : Type} [Inhabited α]

/-- A put beyond the end leaves a hole of default elements. -/
def Edit.apply : Edit α → List α → List α
  | .truncate, _ => []
  | .put i a, x => if i < x.length then x.set i a else x ++ List.replicate (i - x.length) default ++ [a]

instance : Update (Edit α) (List α) := ⟨Edit.apply⟩

theorem apply_put {x : List α} {i : Nat} (h : i ≤ x.length) (a : α) :
    Update.apply (Edit.put i a) x = x.take i ++ a :: x.drop (i + 1) := by
  show (if i < x.length then x.set i a else _) = _
  split
  · next inside => rw [List.set_eq_take_append_cons_drop, if_pos inside]
  · next outside =>
    have e : i = x.length := by omega
    subst e
    simp

/-- Consecutive puts overwrite a window, or extend the sequence. -/
theorem replay_puts {x : List α} {i : Nat} (h : i ≤ x.length) (as : List α) :
    replay (puts i as) x = replaceAt x i as.length as := by
  induction as generalizing x i with
  | nil => simp [puts, replaceAt]
  | cons a as ih =>
    have front : (x.take i).length = i := by rw [List.length_take]; omega
    rw [puts, replay_cons, apply_put h, ih (by simp; omega)]
    have take : (x.take i ++ a :: x.drop (i + 1)).take (i + 1) = x.take i ++ [a] := by
      rw [List.append_cons]
      exact List.take_left' (by simp [front])
    have drop : (x.take i ++ a :: x.drop (i + 1)).drop (i + 1 + as.length) = x.drop (i + (as.length + 1)) := by
      rw [← List.drop_drop, List.append_cons, List.drop_left' (by simp [front]), List.drop_drop]
      congr 1
      omega
    simp [replaceAt, take, drop]

end Edit

end Logic.Journal
