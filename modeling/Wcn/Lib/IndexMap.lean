import Mathlib

/-!
# Wcn.Lib.IndexMap

A map that keeps the order of insertion, as a list of entries with distinct keys.

* `insert` replaces the value of a key in place or appends a new entry; `shiftRemove` drops an entry
  and keeps the order of the others.
* `get?_insert`, `get?_shiftRemove` — what a lookup returns afterwards.
* `len`, `valueAt?` — the entries by their position.
-/

namespace Wcn
namespace Lib

structure IndexMap (α β : Type) where
  entries : List (α × β)
  nodup : (entries.map Prod.fst).Nodup

namespace IndexMap

variable {α β : Type} [DecidableEq α]

def empty : IndexMap α β := ⟨[], List.nodup_nil⟩

def get? (m : IndexMap α β) (a : α) : Option β := (m.entries.find? (·.1 = a)).map (·.2)

omit [DecidableEq α] in
def len (m : IndexMap α β) : Nat := m.entries.length

omit [DecidableEq α] in
def valueAt? (m : IndexMap α β) (i : Nat) : Option β := (m.entries[i]?).map Prod.snd

omit [DecidableEq α] in
theorem map_fst_replace {entries : List (α × β)} (f : α × β → β) :
    (entries.map fun e => (e.1, f e)).map Prod.fst = entries.map Prod.fst := by
  rw [List.map_map]
  rfl

def insert (m : IndexMap α β) (a : α) (b : β) : IndexMap α β :=
  if h : a ∈ m.entries.map Prod.fst then
    ⟨m.entries.map fun e => (e.1, if e.1 = a then b else e.2), by
      rw [map_fst_replace]
      exact m.nodup⟩
  else
    ⟨m.entries ++ [(a, b)], by
      rw [List.map_append, List.map_singleton]
      exact List.concat_eq_append ▸ List.Nodup.concat h m.nodup⟩

def shiftRemove (m : IndexMap α β) (a : α) : IndexMap α β :=
  ⟨m.entries.filter (·.1 ≠ a), (List.filter_sublist.map Prod.fst).nodup m.nodup⟩

theorem get?_eq_some_iff {m : IndexMap α β} {a : α} {b : β} : m.get? a = some b ↔ (a, b) ∈ m.entries := by
  rw [get?, Option.map_eq_some_iff]
  constructor
  · rintro ⟨e, hfind, rfl⟩
    have hkey : e.1 = a := by simpa using List.find?_some hfind
    rw [← hkey]
    exact List.mem_of_find?_eq_some hfind
  · intro hmem
    obtain ⟨e, hfind⟩ : ∃ e, m.entries.find? (·.1 = a) = some e := by
      rw [← Option.isSome_iff_exists, List.find?_isSome]
      exact ⟨(a, b), hmem, by simp⟩
    have hkey : e.1 = a := by simpa using List.find?_some hfind
    have heq : e = (a, b) :=
      List.inj_on_of_nodup_map m.nodup (List.mem_of_find?_eq_some hfind) hmem hkey
    exact ⟨e, hfind, by rw [heq]⟩

@[simp] theorem get?_empty (a : α) : (empty : IndexMap α β).get? a = none := rfl

theorem get?_insert (m : IndexMap α β) (a : α) (b : β) (c : α) :
    (m.insert a b).get? c = if c = a then some b else m.get? c := by
  ext d
  rw [get?_eq_some_iff, insert]
  by_cases h : a ∈ m.entries.map Prod.fst
  · rw [dif_pos h]
    obtain ⟨e, he, rfl⟩ := List.mem_map.mp h
    simp only [List.mem_map, Prod.mk.injEq]
    by_cases hc : c = e.1
    · subst hc
      rw [if_pos rfl, Option.some.injEq]
      constructor
      · rintro ⟨e', _, hkey, hval⟩
        rw [if_pos hkey] at hval
        exact hval
      · rintro rfl
        exact ⟨e, he, rfl, if_pos rfl⟩
    · rw [if_neg hc, get?_eq_some_iff]
      constructor
      · rintro ⟨e', he', rfl, hval⟩
        rw [if_neg hc] at hval
        exact hval ▸ he'
      · intro hd
        exact ⟨(c, d), hd, rfl, if_neg hc⟩
  · rw [dif_neg h, List.mem_append, List.mem_singleton, Prod.mk.injEq]
    by_cases hc : c = a
    · subst hc
      have hnone : (c, d) ∉ m.entries := fun hd => h (List.mem_map_of_mem hd)
      simp only [hnone, false_or, true_and, if_true, Option.some.injEq]
      exact eq_comm
    · rw [if_neg hc, get?_eq_some_iff]
      simp [hc]

theorem get?_shiftRemove (m : IndexMap α β) (a c : α) :
    (m.shiftRemove a).get? c = if c = a then none else m.get? c := by
  ext d
  rw [get?_eq_some_iff, shiftRemove, List.mem_filter]
  by_cases hc : c = a
  · simp [hc]
  · simp [hc, get?_eq_some_iff]

theorem exists_get?_of_lt {m : IndexMap α β} {i : Nat} (h : i < m.len) :
    ∃ a b, m.valueAt? i = some b ∧ m.get? a = some b := by
  have hentry : m.entries[i]? = some (m.entries.get ⟨i, h⟩) := List.getElem?_eq_getElem h
  refine ⟨(m.entries.get ⟨i, h⟩).1, (m.entries.get ⟨i, h⟩).2, ?_, ?_⟩
  · rw [valueAt?, hentry, Option.map_some]
  · rw [get?_eq_some_iff]
    exact List.get_mem _ _

theorem exists_valueAt?_of_get? {m : IndexMap α β} {a : α} {b : β} (h : m.get? a = some b) :
    ∃ i < m.len, m.valueAt? i = some b := by
  obtain ⟨i, hi⟩ := List.mem_iff_getElem?.mp (get?_eq_some_iff.mp h)
  refine ⟨i, (List.getElem?_eq_some_iff.mp hi).1, ?_⟩
  rw [valueAt?, hi, Option.map_some]

end IndexMap

end Lib
end Wcn
