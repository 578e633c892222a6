import Mathlib.Logic.Relation

/-!
# Wcn.Lib.Runs

Runs of a transition relation, for an arbitrary state type.

* `Invariant.run` — what every step preserves holds along every run.
* `Run.matched` — related systems reach related states, if one can match every step of the other.
-/

namespace Wcn
namespace Lib

variable {σ : Type*} {step : σ → σ → Prop}

/-- `s'` is reached from `s` by finitely many steps. -/
abbrev Run (step : σ → σ → Prop) : σ → σ → Prop := Relation.ReflTransGen step

/-- Every step preserves `I`. -/
def Invariant (step : σ → σ → Prop) (I : σ → Prop) : Prop :=
  ∀ s s', I s → step s s' → I s'

theorem Invariant.run {I : σ → Prop} (h : Invariant step I) {s s' : σ} (hr : Run step s s')
    (hs : I s) : I s' := by
  induction hr with
  | refl => exact hs
  | tail _ hstep ih => exact h _ _ ih hstep

/-- Every step of one system is matched by steps of the other. -/
theorem Run.matched {τ : Type*} {step' : τ → τ → Prop} {R : σ → τ → Prop}
    (h : ∀ s s₁ t, R s t → step s s₁ → ∃ t₁, Run step' t t₁ ∧ R s₁ t₁) {s s₁ : σ} {t : τ}
    (hR : R s t) (hrun : Run step s s₁) : ∃ t₁, Run step' t t₁ ∧ R s₁ t₁ := by
  induction hrun with
  | refl => exact ⟨t, .refl, hR⟩
  | tail _ hstep ih =>
    obtain ⟨t₁, hrun₁, hR₁⟩ := ih
    obtain ⟨t₂, hrun₂, hR₂⟩ := h _ _ _ hR₁ hstep
    exact ⟨t₂, hrun₁.trans hrun₂, hR₂⟩

end Lib
end Wcn
