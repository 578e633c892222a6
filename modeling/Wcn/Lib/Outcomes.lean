import Mathlib

/-!
# Wcn.Lib.Outcomes

When a computation that can fail succeeds.
-/

namespace Wcn
namespace Lib

variable {ε ε' α β : Type}

theorem bind_eq_ok {x : Except ε α} {f : α → Except ε β} {b : β} :
    (x >>= f) = .ok b ↔ ∃ a, x = .ok a ∧ f a = .ok b := by
  cases x with
  | error e => simp [bind, Except.bind]
  | ok a => simp [bind, Except.bind]

theorem bind_ne_error {x : Except ε α} {f : α → Except ε β} {e : ε} (hx : x ≠ .error e)
    (hf : ∀ a, x = .ok a → f a ≠ .error e) : (x >>= f) ≠ .error e := by
  cases x with
  | error e' => exact fun h => hx (by cases h; rfl)
  | ok a => exact hf a rfl

theorem mapError_ne_error {x : Except ε α} {f : ε → ε'} {e : ε'} (hf : ∀ e', f e' ≠ e) :
    x.mapError f ≠ .error e := by
  cases x with
  | error e' => exact fun h => hf e' (Except.error.inj h)
  | ok a => exact fun h => by cases h

theorem mapError_eq_ok {x : Except ε α} {f : ε → ε'} {a : α} :
    x.mapError f = .ok a ↔ x = .ok a := by
  cases x <;> simp [Except.mapError]

/-- A check that passed. -/
theorem ite_error_eq_ok {p : Prop} [Decidable p] {e : ε} {x : Except ε α} {a : α} :
    (if p then .error e else x) = .ok a ↔ ¬ p ∧ x = .ok a := by
  split_ifs with h
  · exact iff_of_false (by simp) fun hnot => hnot.1 h
  · exact (and_iff_right h).symm

theorem map_eq_ok {x : Except ε α} {f : α → β} {b : β} :
    x.map f = .ok b ↔ ∃ a, x = .ok a ∧ f a = b := by
  cases x <;> simp [Except.map]

/-- Running a computation on every element. -/
theorem mapM_eq_ok {f : α → Except ε β} {l : List α} {r : List β} :
    l.mapM f = .ok r ↔ List.Forall₂ (fun a b => f a = .ok b) l r := by
  induction l generalizing r with
  | nil =>
    rw [List.mapM_nil, List.forall₂_nil_left_iff]
    constructor
    · intro h
      cases h
      rfl
    · rintro rfl
      rfl
  | cons a l ih =>
    rw [List.mapM_cons, bind_eq_ok, List.forall₂_cons_left_iff]
    constructor
    · rintro ⟨b, hb, h⟩
      obtain ⟨r', hr', heq⟩ := bind_eq_ok.mp h
      cases heq
      exact ⟨b, r', hb, ih.mp hr', rfl⟩
    · rintro ⟨b, r', hb, hr', rfl⟩
      exact ⟨b, hb, bind_eq_ok.mpr ⟨r', ih.mpr hr', rfl⟩⟩

theorem exists_mapM {f : α → Except ε β} {l : List α} (h : ∀ a ∈ l, ∃ b, f a = .ok b) :
    ∃ r, l.mapM f = .ok r := by
  induction l with
  | nil => exact ⟨[], rfl⟩
  | cons a l ih =>
    obtain ⟨b, hb⟩ := h a List.mem_cons_self
    obtain ⟨r, hr⟩ := ih fun a' ha' => h a' (List.mem_cons_of_mem a ha')
    exact ⟨b :: r, mapM_eq_ok.mpr (.cons hb (mapM_eq_ok.mp hr))⟩

theorem mapM_eq_error {f : α → Except ε β} {l : List α} {e : ε} (h : l.mapM f = .error e) :
    ∃ a ∈ l, f a = .error e := by
  induction l with
  | nil => cases h
  | cons a l ih =>
    rw [List.mapM_cons] at h
    cases ha : f a with
    | error e' =>
      rw [ha] at h
      cases h
      exact ⟨a, List.mem_cons_self, ha⟩
    | ok b =>
      rw [ha] at h
      cases hl : l.mapM f with
      | error e' =>
        rw [hl] at h
        cases h
        obtain ⟨a', ha', herr⟩ := ih hl
        exact ⟨a', List.mem_cons_of_mem a ha', herr⟩
      | ok r =>
        rw [hl] at h
        cases h

theorem getElem?_mapM {f : α → Except ε β} {l : List α} {r : List β} (h : l.mapM f = .ok r)
    {i : Nat} {a : α} (ha : l[i]? = some a) : ∃ b, r[i]? = some b ∧ f a = .ok b := by
  have hall := mapM_eq_ok.mp h
  clear h
  induction hall generalizing i with
  | nil => cases ha
  | @cons a' b' l r hab _ ih =>
    cases i with
    | zero =>
      cases ha
      exact ⟨b', rfl, hab⟩
    | succ i => exact ih ha

theorem mem_mapM {f : α → Except ε β} {l : List α} {r : List β} (h : l.mapM f = .ok r) {b : β}
    (hb : b ∈ r) : ∃ a ∈ l, f a = .ok b := by
  have hall := mapM_eq_ok.mp h
  clear h
  induction hall with
  | nil => cases hb
  | @cons a b' l r hab _ ih =>
    rcases List.mem_cons.mp hb with rfl | hb
    · exact ⟨a, List.mem_cons_self, hab⟩
    · obtain ⟨a', ha', hab'⟩ := ih hb
      exact ⟨a', List.mem_cons_of_mem a ha', hab'⟩

/-- Results with the same key come from the same element. -/
theorem nodup_map_mapM {κ : Type} {key : β → κ} {f : α → Except ε β} {l : List α} {r : List β}
    (h : l.mapM f = .ok r) (hl : l.Nodup)
    (hkey : ∀ {a a' b b'}, f a = .ok b → f a' = .ok b' → key b = key b' → a = a') :
    (r.map key).Nodup := by
  have hall := mapM_eq_ok.mp h
  clear h
  induction hall with
  | nil => exact List.nodup_nil
  | @cons a b l r hab hrest ih =>
    rw [List.nodup_cons] at hl
    rw [List.map_cons, List.nodup_cons]
    refine ⟨?_, ih hl.2⟩
    intro hmem
    obtain ⟨b', hb', heq⟩ := List.mem_map.mp hmem
    obtain ⟨a', ha', hab'⟩ := mem_mapM (mapM_eq_ok.mpr hrest) hb'
    rw [hkey hab hab' heq.symm] at hl
    exact hl.1 ha'

/-! ## Running a computation -/

/-- The result, with a default for failures. -/
def result (default : α) : Except ε α → α
  | .ok a => a
  | .error _ => default

def failure? : Except ε α → Option ε
  | .ok _ => none
  | .error e => some e

theorem eq_ok_result {x : Except ε α} (h : (failure? x).isNone = true) (default : α) :
    x = .ok (result default x) := by
  cases x with
  | ok a => rfl
  | error e => cases h

theorem eq_error_of_failure? {x : Except ε α} {e : ε} (h : failure? x = some e) : x = .error e := by
  cases x with
  | ok a => cases h
  | error e' => rw [Option.some.inj h]

theorem toOption_eq_some {x : Except ε α} {a : α} : x.toOption = some a ↔ x = .ok a := by
  cases x <;> simp [Except.toOption]

/-- How the second of two computations fails. -/
def failureAfter (x : Except ε α) (f : α → Except ε' β) : Option ε' :=
  match x with
  | .ok a => failure? (f a)
  | .error _ => none

theorem exists_of_failureAfter {x : Except ε α} {f : α → Except ε' β} {e : ε'}
    (h : failureAfter x f = some e) : ∃ a, x = .ok a ∧ f a = .error e := by
  cases x with
  | error e' => cases h
  | ok a =>
    rw [failureAfter] at h
    exact ⟨a, rfl, eq_error_of_failure? h⟩

end Lib
end Wcn
