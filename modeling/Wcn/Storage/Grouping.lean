import Wcn.Storage.Context
import Mathlib.Logic.Relation

/-!
# Wcn.Storage.Grouping

RocksDB may replace any run of adjacent merge operands by their `partial_merge` before it calls
`full_merge`. `Regroup` is every way of doing so, and `regroup_same_iff` says exactly when none
of them changes the record.

Only the newest operand `m` matters: what stands after it is dropped in every grouping, and a
`Set` or `Del` overwrites everything before it. A `SetVal` or `SetExp` leaves one field of the
record to the operands before `m`, and there grouping shows: an operand that is stale against
the record is dropped when it is applied alone, but rides on `m` once the two are combined, and a
`Del` combined with `m` swallows it. `sources` lists the values such a field can end up with, one
for each operand that no later one overwrites; the groupings agree when the sources do.

* `sources_merge`: combining two adjacent operands only loses sources.
* `mem_outcomes`: the field `full_merge` computes is one of them, or the record's own.
* `read_foldl`: every source is what some grouping leaves in the field.
-/

namespace Wcn
namespace Storage

open Lib

variable {T β : Type}

/-- The operand lists RocksDB may hand to `full_merge` in place of `ops`. -/
inductive Regroup (ops : List (MergeOp T)) : List (MergeOp T) → Prop where
  | refl : Regroup ops ops
  | merge {left run right : List (MergeOp T)} {op : MergeOp T} :
      Regroup ops (left ++ run ++ right) → partialMerge run = some op →
      Regroup ops (left ++ op :: right)

/-! ## Reading a field of an operand -/

namespace MergeOpKind

/-- `Set` and `Del` write the whole record. -/
def replaces : MergeOpKind T → Bool
  | .set _ _ | .del _ => true
  | .setVal _ | .setExp _ => false

def payload? : MergeOpKind T → Option (Payload T)
  | .set value _ => some (.some value)
  | .setVal value => some (.some value)
  | .setExp _ => none
  | .del _ => some .none

def expiration? : MergeOpKind T → Option Nat
  | .set _ expiration => some expiration
  | .setVal _ => none
  | .setExp expiration => some expiration
  | .del expiration => some expiration

/-- The expiration of a `Del`, and of nothing else. -/
def tombstone? : MergeOpKind T → Option Nat
  | .del expiration => some expiration
  | _ => none

end MergeOpKind

/-- A field that operands write. `overwrites k r` says that an operand of kind `k` loses the
field when `r` is merged into it. A `Del` only loses to an operand that replaces the record. -/
structure Field (T β : Type) where
  read : MergeOpKind T → Option β
  overwrites : MergeOpKind T → MergeOpKind T → Bool
  keep : ∀ {k r : MergeOpKind T} {b : β}, read k = some b → overwrites k r = false →
    read (k.merge r) = some b ∧ overwrites (k.merge r) = overwrites k
  origin : ∀ {k r : MergeOpKind T} {b : β}, read (k.merge r) = some b →
    (read r = some b ∧ overwrites r = overwrites (k.merge r)) ∨
    (read k = some b ∧ overwrites k r = false ∧ overwrites k = overwrites (k.merge r))
  left : ∀ {o k r : MergeOpKind T}, overwrites o k = true → overwrites o (k.merge r) = true
  right : ∀ {o k r : MergeOpKind T}, overwrites o r = true → overwrites o (k.merge r) = true

namespace Field

def payload : Field T (Payload T) where
  read := MergeOpKind.payload?
  overwrites
    | .del _, r => r.replaces
    | _, r => r.payload?.isSome
  keep {k r b} h hr := by
    cases k <;> cases r <;> simp_all [MergeOpKind.merge, MergeOpKind.payload?, MergeOpKind.replaces]
  origin {k r b} h := by
    cases k <;> cases r <;> simp_all [MergeOpKind.merge, MergeOpKind.payload?, MergeOpKind.replaces]
  left {o k r} h := by
    cases o <;> cases k <;> cases r <;>
      simp_all [MergeOpKind.merge, MergeOpKind.payload?, MergeOpKind.replaces]
  right {o k r} h := by
    cases o <;> cases k <;> cases r <;>
      simp_all [MergeOpKind.merge, MergeOpKind.payload?, MergeOpKind.replaces]

def expiration : Field T Nat where
  read := MergeOpKind.expiration?
  overwrites
    | .del _, r => r.replaces
    | _, r => r.expiration?.isSome
  keep {k r b} h hr := by
    cases k <;> cases r <;>
      simp_all [MergeOpKind.merge, MergeOpKind.expiration?, MergeOpKind.replaces]
  origin {k r b} h := by
    cases k <;> cases r <;>
      simp_all [MergeOpKind.merge, MergeOpKind.expiration?, MergeOpKind.replaces]
  left {o k r} h := by
    cases o <;> cases k <;> cases r <;>
      simp_all [MergeOpKind.merge, MergeOpKind.expiration?, MergeOpKind.replaces]
  right {o k r} h := by
    cases o <;> cases k <;> cases r <;>
      simp_all [MergeOpKind.merge, MergeOpKind.expiration?, MergeOpKind.replaces]

def tombstone : Field T Nat where
  read := MergeOpKind.tombstone?
  overwrites _ r := r.replaces
  keep {k r b} h hr := by
    cases k <;> cases r <;>
      simp_all [MergeOpKind.merge, MergeOpKind.tombstone?, MergeOpKind.replaces]
  origin {k r b} h := by
    cases k <;> cases r <;>
      simp_all [MergeOpKind.merge, MergeOpKind.tombstone?, MergeOpKind.replaces]
  left {o k r} h := by
    cases k <;> cases r <;> simp_all [MergeOpKind.merge, MergeOpKind.replaces]
  right {o k r} h := by
    cases k <;> cases r <;> simp_all [MergeOpKind.merge, MergeOpKind.replaces]

/-- Whether an operand of `ops`, fed to something stamped `t`, overwrites the field of `k`. -/
def overwritten (f : Field T β) (k : MergeOpKind T) (t : Nat) (ops : List (MergeOp T)) : Bool :=
  (records MergeOp.timestamp t ops).any fun r => f.overwrites k r.kind

/-- The values the operands of `ops` can leave in the field: those of the operands that nothing
later in `ops` overwrites. -/
def sources (f : Field T β) : List (MergeOp T) → List β
  | [] => []
  | o :: ops =>
    (if f.overwritten o.kind o.timestamp ops then [] else (f.read o.kind).toList) ++ f.sources ops

section Sources

variable (f : Field T β)

theorem overwritten_append (k : MergeOpKind T) (t : Nat) (l₁ l₂ : List (MergeOp T)) :
    f.overwritten k t (l₁ ++ l₂) =
      (f.overwritten k t l₁ || f.overwritten k (latest MergeOp.timestamp t l₁) l₂) := by
  simp [overwritten, records_append]

/-- Combining two adjacent operands overwrites at least what the two did. -/
theorem overwritten_merge {k : MergeOpKind T} {t : Nat} {a b : MergeOp T} {r : List (MergeOp T)}
    (h : f.overwritten k t (a :: b :: r) = true) : f.overwritten k t (a.merge b :: r) = true := by
  simp only [overwritten] at h ⊢
  by_cases hab : b.timestamp ≤ a.timestamp
  · rw [MergeOp.merge_stale hab]
    by_cases hta : t < a.timestamp
    · rw [records_cons_new _ hta, records_cons_stale _ hab] at h
      rw [records_cons_new _ hta]
      exact h
    · rw [records_cons_stale _ (by omega), records_cons_stale _ (by omega)] at h
      rw [records_cons_stale _ (by omega)]
      exact h
  · have hlt : a.timestamp < b.timestamp := by omega
    rw [MergeOp.merge_fresh hlt]
    by_cases htb : t < b.timestamp
    · rw [records_cons_new _ (by exact htb)]
      by_cases hta : t < a.timestamp
      · rw [records_cons_new _ hta, records_cons_new _ hlt] at h
        simp only [List.any_cons, Bool.or_eq_true] at h ⊢
        rcases h with h | h | h
        · exact .inl (f.left h)
        · exact .inl (f.right h)
        · exact .inr h
      · rw [records_cons_stale _ (by omega), records_cons_new _ htb] at h
        simp only [List.any_cons, Bool.or_eq_true] at h ⊢
        rcases h with h | h
        · exact .inl (f.right h)
        · exact .inr h
    · rw [records_cons_stale _ (by omega), records_cons_stale _ (by omega)] at h
      rw [records_cons_stale _ (by show b.timestamp ≤ t; omega)]
      exact h

theorem overwritten_pair {k : MergeOpKind T} {t : Nat} {a b : MergeOp T} {l r : List (MergeOp T)}
    (h : f.overwritten k t (l ++ a :: b :: r) = true) :
    f.overwritten k t (l ++ a.merge b :: r) = true := by
  rw [overwritten_append, Bool.or_eq_true] at h ⊢
  rcases h with h | h
  · exact .inl h
  · exact .inr (f.overwritten_merge h)

theorem mem_sources_cons {b : β} {o : MergeOp T} {ops : List (MergeOp T)} :
    b ∈ f.sources (o :: ops) ↔
      (f.read o.kind = some b ∧ f.overwritten o.kind o.timestamp ops = false) ∨
        b ∈ f.sources ops := by
  cases hov : f.overwritten o.kind o.timestamp ops <;> simp [sources, hov, Option.mem_toList]

/-- Combining the first two operands of a list loses sources and gains none. -/
theorem sources_merge {b : β} {o o' : MergeOp T} {ops : List (MergeOp T)}
    (h : b ∈ f.sources (o.merge o' :: ops)) : b ∈ f.sources (o :: o' :: ops) := by
  by_cases hle : o'.timestamp ≤ o.timestamp
  · rw [MergeOp.merge_stale hle] at h
    rcases (f.mem_sources_cons).mp h with ⟨hr, hov⟩ | h
    · refine (f.mem_sources_cons).mpr (.inl ⟨hr, ?_⟩)
      rw [← hov]
      simp only [overwritten, records_cons_stale _ hle]
    · exact (f.mem_sources_cons).mpr (.inr ((f.mem_sources_cons).mpr (.inr h)))
  · have hlt : o.timestamp < o'.timestamp := by omega
    rw [MergeOp.merge_fresh hlt] at h
    rcases (f.mem_sources_cons).mp h with ⟨hr, hov⟩ | h
    · rcases f.origin hr with ⟨hr', hsame⟩ | ⟨hr', hno, hsame⟩
      · -- the value comes from the second operand
        refine (f.mem_sources_cons).mpr (.inr ((f.mem_sources_cons).mpr (.inl ⟨hr', ?_⟩)))
        simpa [overwritten, hsame] using hov
      · -- the value comes from the first operand, which the second does not overwrite
        refine (f.mem_sources_cons).mpr (.inl ⟨hr', ?_⟩)
        simp only [overwritten, records_cons_new _ hlt, List.any_cons, hno, Bool.false_or]
        simpa [overwritten, hsame] using hov
    · exact (f.mem_sources_cons).mpr (.inr ((f.mem_sources_cons).mpr (.inr h)))

theorem sources_pair {b : β} {o o' : MergeOp T} {l r : List (MergeOp T)}
    (h : b ∈ f.sources (l ++ o.merge o' :: r)) : b ∈ f.sources (l ++ o :: o' :: r) := by
  induction l with
  | nil => exact f.sources_merge h
  | cons x l ih =>
    rw [List.cons_append, mem_sources_cons] at h ⊢
    rcases h with ⟨hr, hov⟩ | h
    · refine .inl ⟨hr, ?_⟩
      cases hc : f.overwritten x.kind x.timestamp (l ++ o :: o' :: r) with
      | false => rfl
      | true => rw [f.overwritten_pair hc] at hov; cases hov
    · exact .inr (ih h)

/-- An operand that overwrites nothing can be dropped from the end. -/
theorem sources_dropLast {b : β} {o : MergeOp T} {l : List (MergeOp T)}
    (ho : ∀ k, f.overwrites k o.kind = false) (h : b ∈ f.sources l) :
    b ∈ f.sources (l ++ [o]) := by
  induction l with
  | nil => simp [sources] at h
  | cons x l ih =>
    rw [List.cons_append, mem_sources_cons]
    rcases (f.mem_sources_cons).mp h with ⟨hr, hov⟩ | h
    · refine .inl ⟨hr, ?_⟩
      rw [overwritten_append, hov, Bool.false_or]
      simp only [overwritten]
      cases hany : (records MergeOp.timestamp _ [o]).any fun r => f.overwrites x.kind r.kind with
      | false => rfl
      | true =>
        obtain ⟨r, hr', hw⟩ := List.any_eq_true.mp hany
        have : r = o := by simpa using (records_sublist _ _ _).subset hr'
        subst this
        rw [ho] at hw; cases hw
    · exact .inr (ih h)

theorem sources_split {b : β} {ops : List (MergeOp T)} (h : b ∈ f.sources ops) :
    ∃ pre o rest, ops = pre ++ o :: rest ∧ f.read o.kind = some b ∧
      f.overwritten o.kind o.timestamp rest = false := by
  induction ops with
  | nil => simp [sources] at h
  | cons x ops ih =>
    rcases (f.mem_sources_cons).mp h with ⟨hr, hov⟩ | h
    · exact ⟨[], x, ops, rfl, hr, hov⟩
    · obtain ⟨pre, o, rest, rfl, hr, hov⟩ := ih h
      exact ⟨x :: pre, o, rest, rfl, hr, hov⟩

/-- The last operand is always a source. -/
theorem last_mem_sources {b : β} {o : MergeOp T} {l : List (MergeOp T)}
    (h : f.read o.kind = some b) : b ∈ f.sources (l ++ [o]) := by
  induction l with
  | nil => exact (f.mem_sources_cons).mpr (.inl ⟨h, rfl⟩)
  | cons x l ih => exact (f.mem_sources_cons).mpr (.inr ih)

/-- A run starting with an operand that nothing in it overwrites keeps that operand's value. -/
theorem read_foldl {b : β} (rest : List (MergeOp T)) :
    ∀ (o : MergeOp T), f.read o.kind = some b → f.overwritten o.kind o.timestamp rest = false →
      f.read (rest.foldl MergeOp.merge o).kind = some b ∧
        f.overwrites (rest.foldl MergeOp.merge o).kind = f.overwrites o.kind := by
  induction rest with
  | nil => intro o hr _; exact ⟨hr, rfl⟩
  | cons x rest ih =>
    intro o hr hov
    rw [List.foldl_cons]
    by_cases hle : x.timestamp ≤ o.timestamp
    · rw [MergeOp.merge_stale hle]
      refine ih o hr ?_
      rw [← hov]
      simp only [overwritten, records_cons_stale _ hle]
    · have hlt : o.timestamp < x.timestamp := by omega
      simp only [overwritten, records_cons_new _ hlt, List.any_cons, Bool.or_eq_false_iff] at hov
      obtain ⟨hx, hrest⟩ := hov
      obtain ⟨hr', hsame⟩ := f.keep hr hx
      rw [MergeOp.merge_fresh hlt]
      have := ih ⟨o.kind.merge x.kind, x.timestamp⟩ hr' (by simpa [overwritten, hsame] using hrest)
      exact ⟨this.1, this.2.trans hsame⟩

end Sources

end Field

/-! ## The field `full_merge` computes -/

/-- A field together with the place of the record it is stored in. -/
structure Column (T β : Type) extends Field T β where
  get : DataContext T → β
  get_apply : ∀ (ctx : DataContext T) (op : MergeOp T),
    get (ctx.apply op) = (read op.kind).getD (get ctx)
  written : ∀ {k r : MergeOpKind T}, overwrites k r = true → (read r).isSome = true
  writes : ∀ r : MergeOpKind T, overwrites (.setExp 0) r = (read r).isSome

namespace Column

def payload : Column T (Payload T) where
  toField := .payload
  get := DataContext.payload
  get_apply ctx op := by
    obtain ⟨kind, ts⟩ := op
    cases kind <;> rfl
  written {k r} h := by
    cases k <;> cases r <;> simp_all [Field.payload, MergeOpKind.payload?, MergeOpKind.replaces]
  writes _ := rfl

def expiration : Column T Nat where
  toField := .expiration
  get := DataContext.expires
  get_apply ctx op := by
    obtain ⟨kind, ts⟩ := op
    cases kind <;> rfl
  written {k r} h := by
    cases k <;> cases r <;>
      simp_all [Field.expiration, MergeOpKind.expiration?, MergeOpKind.replaces]
  writes _ := rfl

/-- Whether some operand that gets through to `ctx` writes the column. -/
def touched (c : Column T β) (ctx : DataContext T) (ops : List (MergeOp T)) : Bool :=
  (records MergeOp.timestamp ctx.version ops).any fun r => (c.read r.kind).isSome

/-- The values that `ops` can leave in the column of `ctx`, over all groupings: those of the
operands nothing later overwrites, and the record's own as long as no operand that gets through
writes the column. -/
def outcomes (c : Column T β) (ctx : DataContext T) (ops : List (MergeOp T)) : List β :=
  (if c.touched ctx ops then [] else [c.get ctx]) ++ c.sources ops

variable (c : Column T β)

theorem get_untouched {ctx : DataContext T} {ops : List (MergeOp T)}
    (h : c.touched ctx ops = false) : c.get (ops.foldl DataContext.merge ctx) = c.get ctx := by
  induction ops generalizing ctx with
  | nil => rfl
  | cons o ops ih =>
    rw [List.foldl_cons]
    by_cases hle : o.timestamp ≤ ctx.version
    · rw [DataContext.merge_stale hle]
      exact ih (by simpa [touched, records_cons_stale _ hle] using h)
    · have hlt : ctx.version < o.timestamp := by omega
      simp only [touched, records_cons_new _ hlt, List.any_cons, Bool.or_eq_false_iff] at h
      rw [DataContext.merge_fresh hlt, ih (by simpa [touched] using h.2), c.get_apply]
      have hnone : c.read o.kind = none := by simpa using h.1
      rw [hnone, Option.getD_none]

/-- `full_merge` leaves one of the outcomes. -/
theorem mem_outcomes (ops : List (MergeOp T)) :
    ∀ ctx : DataContext T, c.get (ops.foldl DataContext.merge ctx) ∈ c.outcomes ctx ops := by
  induction ops with
  | nil => intro ctx; simp [outcomes, touched]
  | cons o ops ih =>
    intro ctx
    rw [List.foldl_cons]
    by_cases hle : o.timestamp ≤ ctx.version
    · rw [DataContext.merge_stale hle]
      have hsame : c.touched ctx (o :: ops) = c.touched ctx ops := by
        simp [touched, records_cons_stale _ hle]
      rcases List.mem_append.mp (ih ctx) with h | h
      · exact List.mem_append.mpr (.inl (by rw [hsame]; exact h))
      · exact List.mem_append.mpr (.inr ((c.mem_sources_cons).mpr (.inr h)))
    · have hlt : ctx.version < o.timestamp := by omega
      rw [DataContext.merge_fresh hlt]
      rcases List.mem_append.mp (ih (ctx.apply o)) with h | h
      · -- no later operand writes the column: it holds what `o` left in it
        have hno : c.touched (ctx.apply o) ops = false := by
          cases ht : c.touched (ctx.apply o) ops with
          | false => rfl
          | true => simp [ht] at h
        rw [c.get_untouched hno, c.get_apply]
        simp only [touched, DataContext.version_apply] at hno
        cases hr : c.read o.kind with
        | some b =>
          refine List.mem_append.mpr (.inr ((c.mem_sources_cons).mpr (.inl ⟨hr, ?_⟩)))
          cases hov : c.overwritten o.kind o.timestamp ops with
          | false => rfl
          | true =>
            obtain ⟨r, hmem, hw⟩ := List.any_eq_true.mp hov
            have := List.any_eq_false.mp hno r hmem
            exact absurd (c.written hw) this
        | none =>
          refine List.mem_append.mpr (.inl ?_)
          have : c.touched ctx (o :: ops) = false := by
            simp [touched, records_cons_new _ hlt, hr, hno]
          simp [this]
      · exact List.mem_append.mpr (.inr ((c.mem_sources_cons).mpr (.inr h)))

end Column

/-- All elements are the same. -/
def Agree (l : List β) : Prop := ∀ x ∈ l, ∀ y ∈ l, x = y

instance [DecidableEq β] (l : List β) : Decidable (Agree l) :=
  inferInstanceAs (Decidable (∀ x ∈ l, ∀ y ∈ l, x = y))

/-- Grouping the operands `before` the newest operand, of kind `newest`, cannot be seen in the
record. -/
def SafeBefore (ctx : DataContext T) (before : List (MergeOp T)) : MergeOpKind T → Prop
  | .set _ _ | .del _ => True
  | .setVal _ =>
    Field.tombstone.sources before = [] ∧ Agree (Column.expiration.outcomes ctx before)
  | .setExp expiration =>
    (∀ e ∈ Field.tombstone.sources before, e = expiration) ∧
      Agree (Column.payload.outcomes ctx before)

/-- Grouping `ops` cannot be seen in the record merged into `output`: none of them is newer than
it, or the newest one leaves no field to operands that disagree about it. -/
def GroupingSafe (output : Option (DataContext T)) (ops : List (MergeOp T)) : Prop :=
  match splitNewest MergeOp.timestamp (output.getD .default).version ops with
  | none => True
  | some (before, newest, _) => SafeBefore (output.getD .default) before newest.kind

instance [DecidableEq T] (ctx : DataContext T) (before : List (MergeOp T)) (k : MergeOpKind T) :
    Decidable (SafeBefore ctx before k) :=
  match k with
  | .set _ _ | .del _ => .isTrue trivial
  | .setVal _ => inferInstanceAs (Decidable (_ = _ ∧ Agree _))
  | .setExp _ => inferInstanceAs (Decidable ((∀ e ∈ _, e = _) ∧ Agree _))

theorem groupingSafe_newest {output : Option (DataContext T)} {before after : List (MergeOp T)}
    {m : MergeOp T} (h : Newest MergeOp.timestamp (output.getD .default).version before m after) :
    GroupingSafe output (before ++ m :: after) ↔
      SafeBefore (output.getD .default) before m.kind := by
  simp [GroupingSafe, h.split]

/-! ## Safe groupings agree -/

/-- Two adjacent operands are replaced by their merge. -/
def MergePair (ops ops' : List (MergeOp T)) : Prop :=
  ∃ l a b r, ops = l ++ a :: b :: r ∧ ops' = l ++ MergeOp.merge a b :: r

theorem mergePair_foldl (l rest r : List (MergeOp T)) (o : MergeOp T) :
    Relation.ReflTransGen MergePair (l ++ (o :: rest) ++ r)
      (l ++ rest.foldl MergeOp.merge o :: r) := by
  induction rest generalizing o with
  | nil => simpa using Relation.ReflTransGen.refl
  | cons x rest ih =>
    refine .head ⟨l, o, x, rest ++ r, by simp, rfl⟩ ?_
    simpa using ih (o.merge x)

/-- Every regrouping is a sequence of merges of adjacent operands. -/
theorem Regroup.mergePairs {ops ops' : List (MergeOp T)} (h : Regroup ops ops') :
    Relation.ReflTransGen MergePair ops ops' := by
  induction h with
  | refl => exact .refl
  | @merge left run right op _ hp ih =>
    cases run with
    | nil => cases hp
    | cons o rest =>
      cases hp
      exact ih.trans (mergePair_foldl left rest right o)

theorem Agree.mono {l l' : List β} (h : Agree l) (hsub : ∀ x ∈ l', x ∈ l) : Agree l' :=
  fun x hx y hy => h x (hsub x hx) y (hsub y hy)

theorem Column.touched_eq (c : Column T β) (ctx : DataContext T) (ops : List (MergeOp T)) :
    c.touched ctx ops = c.overwritten (.setExp 0) ctx.version ops := by
  simp [touched, Field.overwritten, c.writes]

theorem Column.outcomes_pair (c : Column T β) {ctx : DataContext T} {x : β} {a b : MergeOp T}
    {l r : List (MergeOp T)} (h : x ∈ c.outcomes ctx (l ++ a.merge b :: r)) :
    x ∈ c.outcomes ctx (l ++ a :: b :: r) := by
  rcases List.mem_append.mp h with h | h
  · refine List.mem_append.mpr (.inl ?_)
    cases ht : c.touched ctx (l ++ a :: b :: r) with
    | false =>
      split at h
      · cases h
      · simpa using h
    | true =>
      rw [c.touched_eq] at ht
      rw [c.touched_eq, c.overwritten_pair ht] at h
      simp at h
  · exact List.mem_append.mpr (.inr (c.sources_pair h))

theorem Column.outcomes_dropLast (c : Column T β) {ctx : DataContext T} {x : β} {o : MergeOp T}
    {l : List (MergeOp T)} (ho : ∀ k, c.overwrites k o.kind = false)
    (h : x ∈ c.outcomes ctx l) : x ∈ c.outcomes ctx (l ++ [o]) := by
  rcases List.mem_append.mp h with h | h
  · refine List.mem_append.mpr (.inl ?_)
    have hsame : c.touched ctx (l ++ [o]) = c.touched ctx l := by
      rw [c.touched_eq, c.touched_eq, c.overwritten_append]
      by_cases hlt : latest MergeOp.timestamp ctx.version l < o.timestamp
      · simp [Field.overwritten, records_cons_new _ hlt, ho]
      · simp [Field.overwritten, records_cons_stale _ (Nat.not_lt.mp hlt)]
    rw [hsame]
    exact h
  · exact List.mem_append.mpr (.inr (c.sources_dropLast ho h))

section Safe

variable {output : Option (DataContext T)} {before after l r : List (MergeOp T)} {m a b : MergeOp T}

/-- Grouping inside `before` keeps it safe. -/
theorem SafeBefore.pair {k : MergeOpKind T} {ctx : DataContext T}
    (h : SafeBefore ctx (l ++ a :: b :: r) k) : SafeBefore ctx (l ++ a.merge b :: r) k := by
  cases k with
  | set v e => trivial
  | del e => trivial
  | setVal v =>
    refine ⟨?_, h.2.mono fun x hx => Column.outcomes_pair _ hx⟩
    apply List.eq_nil_iff_forall_not_mem.mpr
    intro e he
    have := Field.tombstone.sources_pair he
    rw [h.1] at this
    cases this
  | setExp f =>
    exact ⟨fun e he => h.1 e (Field.tombstone.sources_pair he),
      h.2.mono fun x hx => Column.outcomes_pair _ hx⟩

/-- What `full_merge` leaves in a column the groupings agree about. -/
theorem Column.get_fullMerge (c : Column T β) {x : β} {ops : List (MergeOp T)}
    (h : Agree (c.outcomes (output.getD .default) ops))
    (hx : x ∈ c.outcomes (output.getD .default) ops) : x = c.get (fullMerge output ops) :=
  h x hx _ (c.mem_outcomes ops _)

/-- Safe groupings inside `before` leave the record as it was. -/
theorem SafeBefore.same_pair (h : SafeBefore (output.getD .default) (l ++ a :: b :: r) m.kind) :
    SameRecord ((fullMerge output (l ++ a.merge b :: r)).apply m)
      ((fullMerge output (l ++ a :: b :: r)).apply m) := by
  obtain ⟨k, ts⟩ := m
  cases k with
  | set v e => exact ⟨rfl, rfl, rfl⟩
  | del e => exact ⟨rfl, rfl, rfl⟩
  | setVal v =>
    have hexp := Column.expiration.mem_outcomes (l ++ a.merge b :: r) (output.getD .default)
    exact ⟨rfl, Column.expiration.get_fullMerge h.2 (Column.outcomes_pair _ hexp), rfl⟩
  | setExp f =>
    have hpay := Column.payload.mem_outcomes (l ++ a.merge b :: r) (output.getD .default)
    exact ⟨Column.payload.get_fullMerge h.2 (Column.outcomes_pair _ hpay), rfl, rfl⟩

/-- The newest operand may take in the one before it. -/
theorem SafeBefore.absorb {k : MergeOpKind T} {ctx : DataContext T}
    (h : SafeBefore ctx (l ++ [a]) k) : SafeBefore ctx l (a.kind.merge k) := by
  obtain ⟨ka, ta⟩ := a
  cases k with
  | set v e => cases ka <;> trivial
  | del e => cases ka <;> trivial
  | setVal v =>
    cases ka with
    | set w e => trivial
    | setExp e => trivial
    | del e => trivial
    | setVal w =>
      refine ⟨?_, h.2.mono fun x hx => Column.expiration.outcomes_dropLast (fun k => ?_) hx⟩
      · apply List.eq_nil_iff_forall_not_mem.mpr
        intro e he
        have := Field.tombstone.sources_dropLast (o := ⟨.setVal w, ta⟩) (fun _ => rfl) he
        rw [h.1] at this
        cases this
      · cases k <;> rfl
  | setExp f =>
    cases ka with
    | set w e => trivial
    | setVal w => trivial
    | del e => trivial
    | setExp e =>
      refine ⟨fun x hx => h.1 x (Field.tombstone.sources_dropLast (fun _ => rfl) hx),
        h.2.mono fun x hx => Column.payload.outcomes_dropLast (fun k => ?_) hx⟩
      cases k <;> rfl

theorem Column.last_mem_outcomes (c : Column T β) {ctx : DataContext T} {x : β}
    (h : c.read a.kind = some x) : x ∈ c.outcomes ctx (l ++ [a]) :=
  List.mem_append.mpr (.inr (c.last_mem_sources h))

theorem SafeBefore.same_absorb {k : MergeOpKind T} {ts : Nat}
    (h : SafeBefore (output.getD .default) (l ++ [a]) k) :
    SameRecord ((fullMerge output l).apply ⟨a.kind.merge k, ts⟩)
      ((fullMerge output (l ++ [a])).apply ⟨k, ts⟩) := by
  obtain ⟨ka, ta⟩ := a
  cases k with
  | set v e => cases ka <;> exact ⟨rfl, rfl, rfl⟩
  | del e => cases ka <;> exact ⟨rfl, rfl, rfl⟩
  | setVal v =>
    have hexp {x : Nat} (hx : x ∈ Column.expiration.outcomes (output.getD .default) _) :=
      Column.expiration.get_fullMerge h.2 hx
    cases ka with
    | set w e => exact ⟨rfl, hexp (Column.last_mem_outcomes _ rfl), rfl⟩
    | setExp e => exact ⟨rfl, hexp (Column.last_mem_outcomes _ rfl), rfl⟩
    | setVal w =>
      refine ⟨rfl, hexp ?_, rfl⟩
      exact Column.outcomes_dropLast _ (fun k => by cases k <;> rfl) (Column.mem_outcomes _ _ _)
    | del e =>
      -- a `Del` would swallow the value, but no `Del` is left before a `SetVal`
      have := Field.tombstone.last_mem_sources (l := l) (o := ⟨.del e, ta⟩) (b := e) rfl
      rw [h.1] at this
      cases this
  | setExp f =>
    have hpay {x : Payload T} (hx : x ∈ Column.payload.outcomes (output.getD .default) _) :=
      Column.payload.get_fullMerge h.2 hx
    cases ka with
    | set w e => exact ⟨hpay (Column.last_mem_outcomes _ rfl), rfl, rfl⟩
    | setVal w => exact ⟨hpay (Column.last_mem_outcomes _ rfl), rfl, rfl⟩
    | del e =>
      exact ⟨hpay (Column.last_mem_outcomes _ rfl),
        h.1 e (Field.tombstone.last_mem_sources rfl), rfl⟩
    | setExp e =>
      refine ⟨hpay ?_, rfl, rfl⟩
      exact Column.outcomes_dropLast _ (fun k => by cases k <;> rfl) (Column.mem_outcomes _ _ _)

/-- Any bound on the timestamps survives a merge of two adjacent operands. -/
theorem forall_timestamp_pair {P : Nat → Prop} (h : ∀ o ∈ l ++ a :: b :: r, P o.timestamp) :
    ∀ o ∈ l ++ a.merge b :: r, P o.timestamp := by
  intro o ho
  simp only [List.mem_append, List.mem_cons] at ho
  rcases ho with ho | rfl | ho
  · exact h o (by simp [ho])
  · have hmax := MergeOp.latest_merge.held_step a b
    rcases Nat.le_total a.timestamp b.timestamp with hle | hle
    · rw [hmax, Nat.max_eq_right hle]
      exact h b (by simp)
    · rw [hmax, Nat.max_eq_left hle]
      exact h a (by simp)
  · exact h o (by simp [ho])

theorem groupingSafe_stale {ops : List (MergeOp T)}
    (h : ∀ o ∈ ops, o.timestamp ≤ (output.getD .default).version) : GroupingSafe output ops := by
  unfold GroupingSafe
  split
  · trivial
  · rename_i hs
    obtain ⟨rfl, hn⟩ := splitNewest_some hs
    have hle := h _ (List.mem_append.mpr (.inr List.mem_cons_self))
    have hlt := hn.start
    omega

/-- The newest operand is the first of the pair: the second is dropped either way. -/
theorem groupingSafe_first
    (hn : Newest MergeOp.timestamp (output.getD .default).version before m (b :: r))
    (h : SafeBefore (output.getD .default) before m.kind) :
    GroupingSafe output (before ++ m.merge b :: r) ∧
      SameRecord (fullMerge output (before ++ m.merge b :: r))
        ((fullMerge output before).apply m) := by
  have hb : b.timestamp ≤ m.timestamp := hn.after b (by simp)
  have hn' : Newest MergeOp.timestamp (output.getD .default).version before m r :=
    ⟨hn.start, hn.before, fun o ho => hn.after o (by simp [ho])⟩
  rw [MergeOp.merge_stale hb]
  exact ⟨(groupingSafe_newest hn').mpr h, .of_eq (fullMerge_newest hn')⟩

/-- One merge of two adjacent operands of a safe list. -/
theorem GroupingSafe.step {ops ops' : List (MergeOp T)} (h : GroupingSafe output ops)
    (hp : MergePair ops ops') :
    GroupingSafe output ops' ∧ SameRecord (fullMerge output ops') (fullMerge output ops) := by
  obtain ⟨l, a, b, r, rfl, rfl⟩ := hp
  cases hs : splitNewest MergeOp.timestamp (output.getD .default).version (l ++ a :: b :: r) with
  | none =>
    -- every operand is stale against the record
    have hle := splitNewest_none hs
    have hle' := forall_timestamp_pair (P := (· ≤ (output.getD .default).version)) hle
    exact ⟨groupingSafe_stale hle', .of_eq ((fullMerge_stale hle').trans (fullMerge_stale hle).symm)⟩
  | some split =>
    obtain ⟨before, m, after⟩ := split
    obtain ⟨heq, hn⟩ := splitNewest_some hs
    rw [heq] at h ⊢
    rw [groupingSafe_newest hn] at h
    rw [fullMerge_newest hn]
    -- where the newest operand stands relative to the pair
    rcases List.append_eq_append_iff.mp heq with ⟨mid, rfl, hmid⟩ | ⟨mid, rfl, hmid⟩
    · match mid, hmid with
      | [], hmid =>
        simp only [List.nil_append, List.cons.injEq] at hmid
        obtain ⟨rfl, rfl⟩ := hmid
        simp only [List.append_nil] at h hn ⊢
        exact groupingSafe_first hn h
      | [x], hmid =>
        -- it is the second of the pair: it takes in the first
        simp only [List.singleton_append, List.cons.injEq] at hmid
        obtain ⟨rfl, rfl, rfl⟩ := hmid
        have ha : a.timestamp < b.timestamp := hn.before a (by simp)
        rw [MergeOp.merge_fresh ha]
        have hn' : Newest MergeOp.timestamp (output.getD .default).version l
            ⟨a.kind.merge b.kind, b.timestamp⟩ r :=
          ⟨hn.start, fun o ho => hn.before o (by simp [ho]), hn.after⟩
        rw [fullMerge_newest hn']
        exact ⟨(groupingSafe_newest hn').mpr h.absorb, h.same_absorb⟩
      | x :: y :: rest, hmid =>
        -- it stands after the pair
        simp only [List.cons_append, List.cons.injEq] at hmid
        obtain ⟨rfl, rfl, rfl⟩ := hmid
        have hn' : Newest MergeOp.timestamp (output.getD .default).version
            (l ++ a.merge b :: rest) m after :=
          ⟨hn.start, forall_timestamp_pair (P := (· < m.timestamp)) hn.before, hn.after⟩
        rw [show l ++ a.merge b :: (rest ++ m :: after) = (l ++ a.merge b :: rest) ++ m :: after by
          simp, fullMerge_newest hn']
        exact ⟨(groupingSafe_newest hn').mpr h.pair, h.same_pair⟩
    · match mid, hmid with
      | [], hmid =>
        simp only [List.nil_append, List.cons.injEq] at hmid
        obtain ⟨rfl, rfl⟩ := hmid
        rw [List.append_nil]
        exact groupingSafe_first hn h
      | x :: rest, hmid =>
        -- it stands before the pair, which is dropped
        simp only [List.cons_append, List.cons.injEq] at hmid
        obtain ⟨rfl, rfl⟩ := hmid
        have hn' : Newest MergeOp.timestamp (output.getD .default).version before m
            (rest ++ a.merge b :: r) :=
          ⟨hn.start, hn.before, forall_timestamp_pair (P := (· ≤ m.timestamp)) hn.after⟩
        rw [List.append_assoc, List.cons_append]
        exact ⟨(groupingSafe_newest hn').mpr h, .of_eq (fullMerge_newest hn')⟩

theorem GroupingSafe.regroup {ops ops' : List (MergeOp T)} (h : GroupingSafe output ops)
    (hr : Regroup ops ops') : SameRecord (fullMerge output ops') (fullMerge output ops) := by
  suffices GroupingSafe output ops' ∧ SameRecord (fullMerge output ops') (fullMerge output ops) from
    this.2
  have hsteps := hr.mergePairs
  clear hr
  induction hsteps with
  | refl => exact ⟨h, .of_eq rfl⟩
  | tail _ hp ih =>
    obtain ⟨hsafe, hsame⟩ := ih
    obtain ⟨hsafe', hsame'⟩ := hsafe.step hp
    exact ⟨hsafe', hsame'.trans hsame⟩

end Safe

/-! ## Every source is reached by some grouping -/

section Reached

variable {output : Option (DataContext T)} {before after : List (MergeOp T)} {m : MergeOp T}

/-- Grouping a source with everything up to the newest operand makes it ride on that operand. -/
theorem Field.grouped (f : Field T β) {x : β} (hx : x ∈ f.sources before)
    (hn : Newest MergeOp.timestamp (output.getD .default).version before m after) :
    ∃ pre k, f.read k = some x ∧
      Regroup (before ++ m :: after) (pre ++ ⟨k.merge m.kind, m.timestamp⟩ :: after) ∧
      fullMerge output (pre ++ ⟨k.merge m.kind, m.timestamp⟩ :: after) =
        (fullMerge output pre).apply ⟨k.merge m.kind, m.timestamp⟩ := by
  obtain ⟨pre, o, rest, rfl, hr, hov⟩ := f.sources_split hx
  obtain ⟨hread, -⟩ := f.read_foldl rest o hr hov
  have hlt : (rest.foldl MergeOp.merge o).timestamp < m.timestamp := by
    rw [MergeOp.latest_merge.held_foldl]
    exact latest_lt _ (hn.before o (by simp)) fun x hx => hn.before x (by simp [hx])
  refine ⟨pre, (rest.foldl MergeOp.merge o).kind, hread, ?_, ?_⟩
  · refine @Regroup.merge _ _ pre (o :: (rest ++ [m])) after _ (by simpa using Regroup.refl) ?_
    rw [partialMerge, List.foldl_append, List.foldl_cons, List.foldl_nil, MergeOp.merge_fresh hlt]
  · refine fullMerge_newest ⟨hn.start, fun x hx => hn.before x (by simp [hx]), hn.after⟩

theorem Column.agree_of_sources (c : Column T β)
    (h : ∀ x ∈ c.sources before, x = c.get (fullMerge output before)) :
    Agree (c.outcomes (output.getD .default) before) := by
  have hall : ∀ x ∈ c.outcomes (output.getD .default) before,
      x = c.get (fullMerge output before) := by
    intro x hx
    rcases List.mem_append.mp hx with hx | hx
    · split at hx
      · cases hx
      · rename_i ht
        rw [List.mem_singleton.mp hx, fullMerge, c.get_untouched (by simpa using ht)]
    · exact h x hx
  exact fun x hx y hy => (hall x hx).trans (hall y hy).symm

theorem groupingSafe_of_same {ops : List (MergeOp T)}
    (h : ∀ ops', Regroup ops ops' → SameRecord (fullMerge output ops') (fullMerge output ops)) :
    GroupingSafe output ops := by
  unfold GroupingSafe
  split
  · trivial
  · rename_i before m after hs
    obtain ⟨rfl, hn⟩ := splitNewest_some hs
    obtain ⟨km, tm⟩ := m
    rw [fullMerge_newest hn] at h
    cases km with
    | set v e => trivial
    | del e => trivial
    | setVal v =>
      refine ⟨List.eq_nil_iff_forall_not_mem.mpr fun e he => ?_,
        Column.expiration.agree_of_sources fun x hx => ?_⟩
      · obtain ⟨pre, k, hk, hr, heq⟩ := Field.tombstone.grouped he hn
        have hsame := (h _ hr).payload
        rw [heq] at hsame
        cases k <;> cases hk
        cases hsame
      · obtain ⟨pre, k, hk, hr, heq⟩ := Field.grouped _ hx hn
        have hsame := (h _ hr).expires
        rw [heq] at hsame
        cases k <;> cases hk <;> exact hsame
    | setExp f =>
      refine ⟨fun e he => ?_, Column.payload.agree_of_sources fun x hx => ?_⟩
      · obtain ⟨pre, k, hk, hr, heq⟩ := Field.tombstone.grouped he hn
        have hsame := (h _ hr).expires
        rw [heq] at hsame
        cases k <;> cases hk
        exact hsame
      · obtain ⟨pre, k, hk, hr, heq⟩ := Field.grouped _ hx hn
        have hsame := (h _ hr).payload
        rw [heq] at hsame
        cases k <;> cases hk <;> exact hsame

end Reached

/-- No grouping of the operands changes the record exactly when `GroupingSafe` holds of them. -/
theorem regroup_same_iff (output : Option (DataContext T)) (ops : List (MergeOp T)) :
    (∀ ops', Regroup ops ops' → SameRecord (fullMerge output ops') (fullMerge output ops)) ↔
      GroupingSafe output ops :=
  ⟨groupingSafe_of_same, fun h _ hr => h.regroup hr⟩

/-- A stale `Set` is dropped when it is applied alone, but rides on a newer `SetExp` once RocksDB
has combined the two. -/
theorem regroup_resurrects_stale_set :
    let output : DataContext Nat := ⟨.some 0, 100, some 7, 1⟩
    let ops : List (MergeOp Nat) := [.set 1 50 5, .setExp 60 10]
    ∃ ops', Regroup ops ops' ∧ (fullMerge (some output) ops).payload = .some 0 ∧
      (fullMerge (some output) ops').payload = .some 1 :=
  ⟨[.set 1 60 10], @Regroup.merge _ _ [] [.set 1 50 5, .setExp 60 10] [] _ .refl rfl, rfl, rfl⟩

end Storage
end Wcn
