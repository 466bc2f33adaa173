import Mathlib.Init

/-!
# Programs that can throw and can lose power

A `Prog` runs on a machine that gets a number of system calls before the power goes
(`Powered.supply`; `none` is a machine that stays on). It returns, throws, or is lost in the
middle, and the state at that moment is kept in every case.

`Triple steady P m Q X C` is a Hoare triple with one postcondition for each of these ends: `Q`
where `m` returns, `X` where it throws, `C` where the power goes. With `steady = true` the
machine stays on, so a triple proved for both values of `steady` says at once what a crash can
leave and that without a crash the program comes to an end (`Triple.steady_end`).
-/

namespace Logic.Crash

variable {σ ε α β : Type}

structure Powered (σ : Type) where
  /-- System calls left before the power goes; `none`: it stays on. -/
  supply : Option Nat
  now : σ

/-- How a program ended. -/
inductive Outcome (ε α : Type) where
  | returned (a : α)
  | thrown (e : ε)
  | lost
  deriving DecidableEq, Repr

def Prog (σ ε α : Type) := Powered σ → Outcome ε α × Powered σ

namespace Prog

def pure (a : α) : Prog σ ε α := fun s => (.returned a, s)

def bind (m : Prog σ ε α) (f : α → Prog σ ε β) : Prog σ ε β := fun s =>
  match m s with
  | (.returned a, s') => f a s'
  | (.thrown e, s') => (.thrown e, s')
  | (.lost, s') => (.lost, s')

instance : Monad (Prog σ ε) where
  pure := pure
  bind := bind

instance : MonadExcept ε (Prog σ ε) where
  throw e := fun s => (.thrown e, s)
  tryCatch m handler := fun s =>
    match m s with
    | (.thrown e, s') => handler e s'
    | other => other

/-- One system call: it takes effect, or the power is gone before it does. -/
def call (f : σ → α × σ) : Prog σ ε α := fun s =>
  match s.supply with
  | some 0 => (.lost, s)
  | supply => (.returned (f s.now).1, ⟨supply.map (· - 1), (f s.now).2⟩)

/-- A change of the state that is no system call. -/
def modify (f : σ → σ) : Prog σ ε Unit := fun s => (.returned (), ⟨s.supply, f s.now⟩)

/-! Running a program step by step, on a machine that stays on. -/

@[simp] theorem pure_run (a : α) (s : Powered σ) : (Pure.pure a : Prog σ ε α) s = (.returned a, s) := rfl

@[simp] theorem throw_run (e : ε) (s : Powered σ) : (throw e : Prog σ ε α) s = (.thrown e, s) := rfl

@[simp] theorem bind_run (m : Prog σ ε α) (f : α → Prog σ ε β) (s : Powered σ) :
    (m >>= f) s = match m s with
      | (.returned a, s') => f a s'
      | (.thrown e, s') => (.thrown e, s')
      | (.lost, s') => (.lost, s') := rfl

@[simp] theorem tryCatch_run (m : Prog σ ε α) (handler : ε → Prog σ ε α) (s : Powered σ) :
    tryCatch m handler s = match m s with
      | (.thrown e, s') => handler e s'
      | other => other := rfl

@[simp] theorem call_run (f : σ → α × σ) (now : σ) :
    (call f : Prog σ ε α) ⟨none, now⟩ = (.returned (f now).1, ⟨none, (f now).2⟩) := rfl

@[simp] theorem modify_run (f : σ → σ) (s : Powered σ) :
    (modify f : Prog σ ε Unit) s = (.returned (), ⟨s.supply, f s.now⟩) := rfl

/-- A sequence that returns has returned from its first part. -/
theorem bind_returned {m : Prog σ ε α} {f : α → Prog σ ε β} {s : Powered σ} {b : β}
    (h : ((m >>= f) s).1 = .returned b) : ∃ a s', m s = (.returned a, s') ∧ (f a s').1 = .returned b := by
  rw [bind_run] at h
  generalize m s = run at h
  rcases run with ⟨a | e | _, s'⟩
  · exact ⟨a, s', rfl, h⟩
  · cases h
  · cases h

end Prog

/-- The three postconditions of an end, and that a steady machine is still on. -/
def Ends (steady : Bool) (Q : α → σ → Prop) (X : ε → σ → Prop) (C : σ → Prop) :
    Outcome ε α × Powered σ → Prop
  | (.returned a, s) => Q a s.now ∧ (steady = true → s.supply = none)
  | (.thrown e, s) => X e s.now ∧ (steady = true → s.supply = none)
  | (.lost, s) => C s.now ∧ steady = false

/-- From a state with `P`, `m` returns with `Q`, throws with `X`, or is lost with `C`. -/
def Triple (steady : Bool) (P : σ → Prop) (m : Prog σ ε α) (Q : α → σ → Prop) (X : ε → σ → Prop)
    (C : σ → Prop) : Prop :=
  ∀ s : Powered σ, (steady = true → s.supply = none) → P s.now → Ends steady Q X C (m s)

namespace Triple

variable {steady : Bool} {P P' : σ → Prop} {Q Q' : α → σ → Prop} {X X' : ε → σ → Prop} {C C' : σ → Prop}

theorem pure {a : α} (h : ∀ s, P s → Q a s) : Triple steady P (Pure.pure a : Prog σ ε α) Q X C :=
  fun s on p => ⟨h s.now p, on⟩

theorem throw {e : ε} (h : ∀ s, P s → X e s) : Triple steady P (throw e : Prog σ ε α) Q X C :=
  fun s on p => ⟨h s.now p, on⟩

theorem bind {m : Prog σ ε α} {f : α → Prog σ ε β} {R : β → σ → Prop}
    (first : Triple steady P m Q X C) (rest : ∀ a, Triple steady (Q a) (f a) R X C) :
    Triple steady P (m >>= f) R X C := by
  intro s on p
  have h := first s on p
  show Ends steady R X C (Prog.bind m f s)
  unfold Prog.bind
  generalize m s = run at h ⊢
  rcases run with ⟨a | e | _, s'⟩
  · exact rest a s' h.2 h.1
  · exact h
  · exact h

theorem conseq {m : Prog σ ε α} (h : Triple steady P m Q X C) (pre : ∀ s, P' s → P s)
    (post : ∀ a s, Q a s → Q' a s) (thrown : ∀ e s, X e s → X' e s) (lost : ∀ s, C s → C' s) :
    Triple steady P' m Q' X' C' := by
  intro s on p
  have stops := h s on (pre s.now p)
  generalize m s = run at stops ⊢
  rcases run with ⟨a | e | _, s'⟩
  · exact ⟨post _ _ stops.1, stops.2⟩
  · exact ⟨thrown _ _ stops.1, stops.2⟩
  · exact ⟨lost _ stops.1, stops.2⟩

/-- The rule of consequence for the precondition alone. -/
theorem strengthen {m : Prog σ ε α} (h : Triple steady P m Q X C) (pre : ∀ s, P' s → P s) :
    Triple steady P' m Q X C := h.conseq pre (fun _ _ => id) (fun _ _ => id) fun _ => id

theorem tryCatch {m : Prog σ ε α} {handler : ε → Prog σ ε α} (body : Triple steady P m Q X' C)
    (caught : ∀ e, Triple steady (X' e) (handler e) Q X C) :
    Triple steady P (MonadExcept.tryCatch m handler) Q X C := by
  intro s on p
  have h := body s on p
  show Ends steady Q X C (match m s with | (.thrown e, s') => handler e s' | other => other)
  generalize m s = run at h ⊢
  rcases run with ⟨a | e | _, s'⟩
  · exact h
  · exact caught e s' h.2 h.1
  · exact h

theorem call {f : σ → α × σ} (lost : ∀ s, P s → C s) (done : ∀ s, P s → Q (f s).1 (f s).2) :
    Triple steady P (Prog.call f) Q X C := by
  rintro ⟨supply, now⟩ on p
  rcases supply with _ | _ | n
  · exact ⟨done now p, fun _ => rfl⟩
  · refine ⟨lost now p, ?_⟩
    cases steady with
    | false => rfl
    | true => cases on rfl
  · refine ⟨done now p, ?_⟩
    intro stays
    cases on stays

theorem modify {f : σ → σ} {Q : Unit → σ → Prop} (h : ∀ s, P s → Q () (f s)) :
    Triple steady P (Prog.modify f) Q X C :=
  fun s on p => ⟨h s.now p, on⟩

/-- A fact the precondition gives may be used to prove the triple. -/
theorem assume {φ : Prop} {m : Prog σ ε α} (fact : ∀ s, P s → φ) (h : φ → Triple steady P m Q X C) :
    Triple steady P m Q X C :=
  fun s on p => h (fact s.now p) s on p

/-- The rule of sequence, where the first part keeps the assertion and finds out a fact. -/
theorem bind_fact {m : Prog σ ε α} {f : α → Prog σ ε β} {R : β → σ → Prop} {φ : α → Prop}
    (first : Triple steady P m (fun a s => P' s ∧ φ a) X C)
    (rest : ∀ a, φ a → Triple steady P' (f a) R X C) : Triple steady P (m >>= f) R X C :=
  first.bind fun a => assume (fun _ h => h.2) fun fact =>
    (rest a fact).strengthen fun _ h => h.1

/-- What holds of everything that a program returns may be added to what it finds out. -/
theorem with_fact {m : Prog σ ε α} {φ ψ : α → Prop} (h : Triple steady P m (fun a s => P' s ∧ φ a) X C)
    (fact : ∀ s a, (m s).1 = .returned a → ψ a) : Triple steady P m (fun a s => P' s ∧ φ a ∧ ψ a) X C := by
  intro s on p
  have stops := h s on p
  have found := fact s
  generalize m s = run at stops found ⊢
  rcases run with ⟨a | e | _, s'⟩
  · exact ⟨⟨stops.1.1, stops.1.2, found a rfl⟩, stops.2⟩
  · exact stops
  · exact stops

/-- What two triples say of the same program. -/
theorem and {m : Prog σ ε α} (h : Triple steady P m Q X C) (h' : Triple steady P' m Q' X' C') :
    Triple steady (fun s => P s ∧ P' s) m (fun a s => Q a s ∧ Q' a s) (fun e s => X e s ∧ X' e s) fun s => C s ∧ C' s := by
  intro s on p
  have stops := h s on p.1
  have stops' := h' s on p.2
  generalize m s = run at stops stops' ⊢
  rcases run with ⟨a | e | _, s'⟩
  · exact ⟨⟨stops.1, stops'.1⟩, stops.2⟩
  · exact ⟨⟨stops.1, stops'.1⟩, stops.2⟩
  · exact ⟨⟨stops.1, stops'.1⟩, stops.2⟩

/-- Nothing is said of a program that may lose power. -/
theorem any {m : Prog σ ε α} : Triple false P m (fun _ _ => True) (fun _ _ => True) fun _ => True := by
  intro s _ _
  generalize m s = run
  rcases run with ⟨a | e | _, s'⟩
  · exact ⟨trivial, fun stays => by cases stays⟩
  · exact ⟨trivial, fun stays => by cases stays⟩
  · exact ⟨trivial, rfl⟩

/-- What a triple says of one run, whatever its end. -/
theorem ends {m : Prog σ ε α} (h : Triple false P m Q X C) (s : Powered σ) (p : P s.now) :
    (∃ a, (m s).1 = .returned a ∧ Q a (m s).2.now) ∨ (∃ e, (m s).1 = .thrown e ∧ X e (m s).2.now) ∨
      ((m s).1 = .lost ∧ C (m s).2.now) := by
  have stops := h s (fun no => by cases no) p
  generalize m s = run at stops ⊢
  rcases run with ⟨a | e | _, s'⟩
  · exact .inl ⟨a, rfl, stops.1⟩
  · exact .inr (.inl ⟨e, rfl, stops.1⟩)
  · exact .inr (.inr ⟨rfl, stops.1⟩)

/-- On a machine that stays on, a program comes to an end: it returns or throws. -/
theorem steady_end {m : Prog σ ε α} (h : Triple true P m Q X C) (now : σ) (p : P now) :
    (∃ a, (m ⟨none, now⟩).1 = .returned a ∧ Q a (m ⟨none, now⟩).2.now) ∨
      ∃ e, (m ⟨none, now⟩).1 = .thrown e ∧ X e (m ⟨none, now⟩).2.now := by
  have stops := h ⟨none, now⟩ (fun _ => rfl) p
  generalize m ⟨none, now⟩ = run at stops ⊢
  rcases run with ⟨a | e | _, s'⟩
  · exact .inl ⟨a, rfl, stops.1⟩
  · exact .inr ⟨e, rfl, stops.1⟩
  · cases stops.2

end Triple

end Logic.Crash
