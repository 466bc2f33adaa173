import Mathlib.Logic.Relation
import Mathlib.Order.WellFounded

/-!
# Step relations

A system is a relation between a state and the states that one step leads to. The three kinds of
results about its runs: what every step keeps, every run keeps (`invariant_run`); what holds of an
abstract system holds of one that it can follow (`Simulates.invariant`); and a system whose steps
use something up comes to rest on every run, and where it rests nothing is left to do
(`Settles.of_measure`).
-/

namespace Logic.Systems

open Relation (ReflTransGen)

variable {σ τ : Type*}

/-- Every step from a state with `I` leads to one. -/
def Keeps (step : σ → σ → Prop) (I : σ → Prop) : Prop := ∀ s t, I s → step s t → I t

theorem invariant_run {step : σ → σ → Prop} {I : σ → Prop} {s t : σ} (keep : Keeps step I) (start : I s)
    (run : ReflTransGen step s t) : I t := by
  induction run with
  | refl => exact start
  | tail _ next ih => exact keep _ _ ih next

/-! ## Simulation -/

/-- From related states the abstract system can follow every step. -/
def Simulates (step : σ → σ → Prop) (abstract : τ → τ → Prop) (R : σ → τ → Prop) : Prop :=
  ∀ s t a, R s a → step s t → ∃ b, ReflTransGen abstract a b ∧ R t b

namespace Simulates

variable {step : σ → σ → Prop} {abstract : τ → τ → Prop} {R : σ → τ → Prop} {s t : σ} {a : τ}

theorem run (sim : Simulates step abstract R) (related : R s a) (run : ReflTransGen step s t) :
    ∃ b, ReflTransGen abstract a b ∧ R t b := by
  induction run with
  | refl => exact ⟨a, .refl, related⟩
  | tail _ next ih =>
    obtain ⟨b, before, related⟩ := ih
    obtain ⟨c, after, related⟩ := sim _ _ b related next
    exact ⟨c, before.trans after, related⟩

/-- An invariant of the abstract system says something of every state reached. -/
theorem invariant (sim : Simulates step abstract R) {I : τ → Prop} (keep : Keeps abstract I) (related : R s a)
    (start : I a) (run : ReflTransGen step s t) : ∃ b, R t b ∧ I b := by
  obtain ⟨b, abstractly, related⟩ := sim.run related run
  exact ⟨b, related, invariant_run keep start abstractly⟩

end Simulates

/-! ## Coming to rest -/

/-- No step is possible. -/
def Rests (step : σ → σ → Prop) (s : σ) : Prop := ∀ t, ¬ step s t

/-- Every run from `s` comes to rest, and where it rests `P` holds. -/
structure Settles (step : σ → σ → Prop) (P : σ → Prop) (s : σ) : Prop where
  /-- There is no endless run. -/
  ends : Acc (fun t s => step s t) s
  final : ∀ t, ReflTransGen step s t → Rests step t → P t

namespace Settles

variable {step : σ → σ → Prop} {P : σ → Prop} {s : σ}

/-- Steps that keep `I` and use up `μ`. -/
theorem of_measure {I : σ → Prop} {μ : σ → ℕ} (keep : Keeps step I) (less : ∀ s t, I s → step s t → μ t < μ s)
    (rest : ∀ s, I s → Rests step s → P s) (start : I s) : Settles step P s where
  ends := by
    induction n : μ s using Nat.strongRecOn generalizing s with
    | ind n ih =>
      refine Acc.intro s fun t next => ?_
      exact ih (μ t) (n ▸ less s t start next) (keep s t start next) rfl
  final t run := rest t (invariant_run keep start run)

end Settles

end Logic.Systems
