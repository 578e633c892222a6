import Mathlib.Data.List.Forall2

/-!
# Wcn.Lib.Simulations

Machines that answer one input after the other, for arbitrary states, inputs and outputs.

* `Simulates.outputs` — when related states answer related inputs with related outputs, and stay
  related, so do whole sequences.
-/

namespace Wcn
namespace Lib

variable {S T I J O P : Type}

/-- The outputs for a sequence of inputs. -/
def outputs (step : S → I → S × O) : S → List I → List O
  | _, [] => []
  | s, i :: is => (step s i).2 :: outputs step (step s i).1 is

/-- The state after a sequence of inputs. -/
def final (step : S → I → S × O) : S → List I → S
  | s, [] => s
  | s, i :: is => final step (step s i).1 is

/-- Related inputs take related states to related states, with related outputs. -/
def Simulates (R : S → T → Prop) (A : I → J → Prop) (Q : O → P → Prop) (step : S → I → S × O)
    (step' : T → J → T × P) : Prop :=
  ∀ s t i j, R s t → A i j → R (step s i).1 (step' t j).1 ∧ Q (step s i).2 (step' t j).2

theorem Simulates.outputs {R : S → T → Prop} {A : I → J → Prop} {Q : O → P → Prop}
    {step : S → I → S × O} {step' : T → J → T × P} (h : Simulates R A Q step step') {s : S} {t : T}
    (hR : R s t) {is : List I} {js : List J} (hA : List.Forall₂ A is js) :
    List.Forall₂ Q (outputs step s is) (outputs step' t js) := by
  induction hA generalizing s t with
  | nil => exact .nil
  | cons hhead _ ih =>
    obtain ⟨hstate, houtput⟩ := h _ _ _ _ hR hhead
    exact .cons houtput (ih hstate)

/-- Machines that agree on the inputs of some kind give the same outputs for them. -/
theorem Simulates.outputs_eq {R : S → T → Prop} {A : I → Prop} {step : S → I → S × O}
    {step' : T → I → T × O} (h : Simulates R (fun i j => A i ∧ i = j) Eq step step') {s : S} {t : T}
    (hR : R s t) {is : List I} (hA : ∀ i ∈ is, A i) :
    Lib.outputs step s is = Lib.outputs step' t is :=
  List.forall₂_eq_eq_eq ▸ h.outputs hR (List.forall₂_same.mpr fun i hi => ⟨hA i hi, rfl⟩)

/-! ## Related results -/

theorem rel_bind {R : S → T → Prop} {Q : O → P → Prop} {x : Option S} {y : Option T}
    (h : Option.Rel R x y) {f : S → Option O} {g : T → Option P}
    (hf : ∀ {a b}, R a b → Option.Rel Q (f a) (g b)) : Option.Rel Q (x.bind f) (y.bind g) := by
  cases h with
  | none => exact .none
  | some hab => exact hf hab

end Lib
end Wcn
