import OtaBridge.Logic.CrashHoare

/-!
# Programs that say more

`Tracks f R m n` says that `m` and `n` go through the same states and end alike, where `m` may return
and throw more than `n`: `R` relates what they return, and `f` forgets the rest of an exception. So a
local variable of `n` can be made visible in `m`, and what a triple says of `m` holds of `n`.
`Forecasts a m n` says that `n` does what `m` does unless `m` returns `a`.
-/

namespace Logic.Crash

variable {σ ε ε' α β γ δ : Type}

/-- The same program with other exceptions. -/
def Prog.mapError (f : ε → ε') (m : Prog σ ε α) : Prog σ ε' α := fun s =>
  match m s with
  | (.returned a, s') => (.returned a, s')
  | (.thrown e, s') => (.thrown (f e), s')
  | (.lost, s') => (.lost, s')

theorem Prog.bind_pure (m : Prog σ ε α) : m >>= Pure.pure = m := by
  funext s
  rw [bind_run]
  generalize m s = run
  rcases run with ⟨a | e | _, s'⟩ <;> rfl

theorem Triple.mapError {steady : Bool} {P : σ → Prop} {Q : α → σ → Prop} {X : ε' → σ → Prop} {C : σ → Prop}
    {f : ε → ε'} {m : Prog σ ε α} (h : Triple steady P m Q (fun e => X (f e)) C) :
    Triple steady P (m.mapError f) Q X C := by
  intro s on p
  have stops := h s on p
  unfold Prog.mapError
  generalize m s = run at stops ⊢
  rcases run with ⟨a | e | _, s'⟩ <;> exact stops

inductive EndsAlike (f : ε → ε') (R : α → β → Prop) : Outcome ε α → Outcome ε' β → Prop
  | returned {a b} : R a b → EndsAlike f R (.returned a) (.returned b)
  | thrown {e} : EndsAlike f R (.thrown e) (.thrown (f e))
  | lost : EndsAlike f R .lost .lost

def Tracks (f : ε → ε') (R : α → β → Prop) (m : Prog σ ε α) (n : Prog σ ε' β) : Prop :=
  ∀ s, (m s).2 = (n s).2 ∧ EndsAlike f R (m s).1 (n s).1

namespace Tracks

variable {f : ε → ε'} {R : α → β → Prop} {S : γ → δ → Prop}

theorem pure {a : α} {b : β} (h : R a b) :
    Tracks f R (Pure.pure a : Prog σ ε α) (Pure.pure b : Prog σ ε' β) := fun _ => ⟨rfl, .returned h⟩

theorem bind {m : Prog σ ε α} {n : Prog σ ε' β} {g : α → Prog σ ε γ} {h : β → Prog σ ε' δ}
    (first : Tracks f R m n) (rest : ∀ a b, R a b → Tracks f S (g a) (h b)) :
    Tracks f S (m >>= g) (n >>= h) := by
  intro s
  obtain ⟨state, alike⟩ := first s
  rw [Prog.bind_run, Prog.bind_run]
  generalize m s = run at state alike ⊢
  generalize n s = run' at state alike ⊢
  obtain ⟨_, s'⟩ := run
  obtain ⟨_, t'⟩ := run'
  obtain rfl : s' = t' := state
  cases alike with
  | returned related => exact rest _ _ related s'
  | thrown => exact ⟨rfl, .thrown⟩
  | lost => exact ⟨rfl, .lost⟩

/-- A call of both, with a fact about what it returns. -/
theorem mapError {g : ε' → ε} (undo : ∀ e, f (g e) = e) {m : Prog σ ε' α} {φ : α → Prop}
    (fact : ∀ s a, (m s).1 = .returned a → φ a) : Tracks f (fun a b => a = b ∧ φ a) (m.mapError g) m := by
  intro s
  have found := fact s
  unfold Prog.mapError
  generalize m s = run at found ⊢
  rcases run with ⟨a | e | _, s'⟩
  · exact ⟨rfl, .returned ⟨rfl, found a rfl⟩⟩
  · refine ⟨rfl, ?_⟩
    have thrown : EndsAlike f (fun a b : α => a = b ∧ φ a) (.thrown (g e)) (.thrown (f (g e))) := .thrown
    rwa [undo] at thrown
  · exact ⟨rfl, .lost⟩

theorem conseq {R' : α → β → Prop} {m : Prog σ ε α} {n : Prog σ ε' β} (h : Tracks f R m n)
    (weaken : ∀ a b, R a b → R' a b) : Tracks f R' m n := by
  intro s
  obtain ⟨state, alike⟩ := h s
  refine ⟨state, ?_⟩
  generalize (m s).1 = o at alike ⊢
  generalize (n s).1 = o' at alike ⊢
  cases alike with
  | returned related => exact .returned (weaken _ _ related)
  | thrown => exact .thrown
  | lost => exact .lost

end Tracks

/-! ## Programs that go together up to a point -/

/-- Where `m` does not end with `a`, `n` does what `m` does. -/
def Forecasts (a : α) (m n : Prog σ ε α) : Prop := ∀ s, (m s).1 = .returned a ∨ m s = n s

namespace Forecasts

variable {a : α}

theorem refl (m : Prog σ ε α) : Forecasts a m m := fun _ => .inr rfl

theorem bind (m : Prog σ ε β) {f g : β → Prog σ ε α} (rest : ∀ b, Forecasts a (f b) (g b)) :
    Forecasts a (m >>= f) (m >>= g) := by
  intro s
  rw [Prog.bind_run, Prog.bind_run]
  generalize m s = run
  rcases run with ⟨b | e | _, s'⟩
  · exact rest b s'
  · exact .inr rfl
  · exact .inr rfl

theorem tryCatch {m n : Prog σ ε α} (h : Forecasts a m n) (handler : ε → Prog σ ε α) :
    Forecasts a (tryCatch m handler) (tryCatch n handler) := by
  intro s
  rw [Prog.tryCatch_run, Prog.tryCatch_run]
  rcases h s with ended | same
  · left
    generalize m s = run at ended
    obtain ⟨o, s'⟩ := run
    obtain rfl : o = .returned a := ended
    rfl
  · rw [same]
    exact .inr rfl

end Forecasts

end Logic.Crash
