import Wcn.Storage.Context
import Mathlib.Data.List.Nodup
import Mathlib.Data.List.Induction

/-!
# Wcn.Storage.Writes

The writes clients issue on one key, and what a replica holds once they were delivered to it in
some order, with repetitions. A replica turns a write into a merge operand when the write arrives:
the mark a `Del` leaves expires a day after the replica's own clock.

* `replica_newest`: a replica ends with the newest write applied to whatever came before it.
* `replicas_agree`: what two replicas that received the same writes agree about.
-/

namespace Wcn
namespace Storage

open Lib

inductive WriteKind (T : Type) where
  | set (value : T) (expiration : Nat)
  | setExp (expiration : Nat)
  | del
  deriving DecidableEq, Repr

structure Write (T : Type) where
  kind : WriteKind T
  timestamp : Nat
  deriving DecidableEq, Repr

/-- A write arriving at a replica whose local clock shows `now`. -/
structure Delivery (T : Type) where
  write : Write T
  now : Nat
  deriving DecidableEq, Repr

variable {T : Type}

/-- The operand `StringStorage::{set, set_exp, del}` and their map counterparts merge. -/
def Delivery.mergeOp (self : Delivery T) : MergeOp T :=
  match self.write.kind with
  | .set value expiration => .set value expiration self.write.timestamp
  | .setExp expiration => .setExp expiration self.write.timestamp
  | .del => .del self.now self.write.timestamp

/-- The record of a replica that started without the key, operands applied one by one. -/
def replica (deliveries : List (Delivery T)) : DataContext T :=
  fullMerge none (deliveries.map Delivery.mergeOp)

namespace WriteKind

def isSet : WriteKind T → Bool
  | .set _ _ => true
  | _ => false

def isSetExp : WriteKind T → Bool
  | .setExp _ => true
  | _ => false

def isDel : WriteKind T → Bool
  | .del => true
  | _ => false

end WriteKind

/-- Writes on one key: no two carry the same timestamp, and none carries zero. -/
structure WriteSet (T : Type) where
  writes : List (Write T)
  distinct : (writes.map Write.timestamp).Nodup
  positive : ∀ w ∈ writes, 0 < w.timestamp

/-- `m` is the write of `ws` with the greatest timestamp. -/
def IsNewest (m : Write T) (ws : List (Write T)) : Prop :=
  m ∈ ws ∧ ∀ w ∈ ws, w.timestamp ≤ m.timestamp

/-- The newest write sets an expiration only, and some write sets a value. -/
def LateSetExp (ws : List (Write T)) : Prop :=
  (∃ m, IsNewest m ws ∧ m.kind.isSetExp) ∧ ∃ w ∈ ws, w.kind.isSet

/-- No earlier delivery has the same write. -/
def Delivery.First (d : Delivery T) (deliveries : List (Delivery T)) : Prop :=
  ∃ before after, deliveries = before ++ d :: after ∧ ∀ x ∈ before, x.write ≠ d.write

/-- Every write arrives, in any order and possibly more than once. -/
def Delivers (ws : List (Write T)) (deliveries : List (Delivery T)) : Prop :=
  ∀ w, w ∈ deliveries.map Delivery.write ↔ w ∈ ws

@[simp] theorem Delivery.mergeOp_timestamp (d : Delivery T) :
    d.mergeOp.timestamp = d.write.timestamp := by
  unfold mergeOp
  split <;> rfl

theorem IsNewest.unique {S : WriteSet T} {m w : Write T} (h : IsNewest m S.writes)
    (hw : w ∈ S.writes) (hle : m.timestamp ≤ w.timestamp) : w = m := by
  have heq : w.timestamp = m.timestamp := Nat.le_antisymm (h.2 w hw) hle
  exact List.inj_on_of_nodup_map S.distinct hw h.1 heq

theorem exists_isNewest {ws : List (Write T)} (h : ws ≠ []) : ∃ m, IsNewest m ws := by
  induction ws with
  | nil => exact absurd rfl h
  | cons w ws ih =>
    by_cases hnil : ws = []
    · subst hnil
      exact ⟨w, by simp, by simp⟩
    · obtain ⟨m, hm, hmax⟩ := ih hnil
      by_cases hle : w.timestamp ≤ m.timestamp
      · refine ⟨m, by simp [hm], fun x hx => ?_⟩
        rcases List.mem_cons.mp hx with rfl | hx
        · exact hle
        · exact hmax x hx
      · refine ⟨w, by simp, fun x hx => ?_⟩
        rcases List.mem_cons.mp hx with rfl | hx
        · exact Nat.le_refl _
        · have := hmax x hx
          omega

/-! ## What a replica holds -/

theorem version_replica (ds : List (Delivery T)) :
    (replica ds).version = latest (fun d => d.write.timestamp) 0 ds := by
  rw [replica, version_fullMerge]
  simp [latest, List.foldl_map]

/-- The newest write gets through to the replica when it first arrives, on top of what was delivered
before it. -/
theorem replica_newest {S : WriteSet T} {m : Write T} {ds : List (Delivery T)}
    (hm : IsNewest m S.writes) (hsub : ∀ d ∈ ds, d.write ∈ S.writes)
    (hmem : m ∈ ds.map Delivery.write) :
    ∃ (before : List (Delivery T)) (d : Delivery T), d.write = m ∧ (∀ x ∈ before, x ∈ ds) ∧
      d.First ds ∧ replica ds = (replica before).apply d.mergeOp := by
  obtain ⟨dm, hdm, rfl⟩ := List.mem_map.mp hmem
  have hpos := S.positive _ hm.1
  cases hs : splitNewest (fun d : Delivery T => d.write.timestamp) 0 ds with
  | none =>
    have := splitNewest_none hs dm hdm
    omega
  | some split =>
    obtain ⟨before, d, after⟩ := split
    obtain ⟨rfl, hn⟩ := splitNewest_some hs
    have hle : dm.write.timestamp ≤ d.write.timestamp := by
      rcases List.mem_append.mp hdm with h | h
      · exact Nat.le_of_lt (hn.before dm h)
      · rcases List.mem_cons.mp h with rfl | h
        · exact Nat.le_refl _
        · exact hn.after dm h
    have hfirst : ∀ x ∈ before, x.write ≠ d.write := fun x hx heq =>
      absurd (hn.before x hx) (by rw [heq]; exact Nat.lt_irrefl _)
    refine ⟨before, d, hm.unique (hsub d (by simp)) hle, fun x hx => by simp [hx],
      ⟨before, after, rfl, hfirst⟩, ?_⟩
    rw [replica, List.map_append, List.map_cons]
    refine fullMerge_newest ⟨?_, ?_, ?_⟩
    · simpa using hn.start
    · simpa using hn.before
    · simpa using hn.after

theorem replica_append (l₁ l₂ : List (Delivery T)) :
    replica (l₁ ++ l₂) = (l₂.map Delivery.mergeOp).foldl DataContext.merge (replica l₁) := by
  rw [replica, List.map_append, fullMerge_append, replica]

/-- Without a `Set` there is never a value. -/
theorem replica_no_set {ds : List (Delivery T)} (h : ∀ d ∈ ds, d.write.kind.isSet = false) :
    (replica ds).payload = .none := by
  induction ds using List.reverseRecOn with
  | nil => rfl
  | append_singleton ds d ih =>
    have hds := ih fun x hx => h x (by simp [hx])
    have hd := h d (by simp)
    rw [replica_append, List.map_singleton, List.foldl_cons, List.foldl_nil]
    by_cases hle : d.mergeOp.timestamp ≤ (replica ds).version
    · rw [DataContext.merge_stale hle, hds]
    · rw [DataContext.merge_fresh (Nat.not_le.mp hle)]
      obtain ⟨⟨kind, ts⟩, now⟩ := d
      cases kind with
      | set v e => cases hd
      | setExp e => exact hds
      | del => rfl

theorem expires_apply {ctx ctx' : DataContext T} {d d' : Delivery T} (h : d.write = d'.write)
    (hdel : d.write.kind.isDel = false) :
    (ctx.apply d.mergeOp).expires = (ctx'.apply d'.mergeOp).expires := by
  obtain ⟨⟨kind, ts⟩, now⟩ := d
  obtain ⟨w, now'⟩ := d'
  cases h
  cases kind with
  | set v e => rfl
  | setExp e => rfl
  | del => cases hdel

theorem expires_apply_del {ctx : DataContext T} {d : Delivery T} (h : d.write.kind.isDel = true) :
    (ctx.apply d.mergeOp).expires = d.now + lingerSecs := by
  obtain ⟨⟨kind, ts⟩, now⟩ := d
  cases kind with
  | del => rfl
  | _ => cases h

theorem payload_apply {ctx ctx' : DataContext T} {d d' : Delivery T} (h : d.write = d'.write)
    (hexp : d.write.kind.isSetExp = true → ctx.payload = ctx'.payload) :
    (ctx.apply d.mergeOp).payload = (ctx'.apply d'.mergeOp).payload := by
  obtain ⟨⟨kind, ts⟩, now⟩ := d
  obtain ⟨w, now'⟩ := d'
  cases h
  cases kind with
  | set v e => rfl
  | setExp e => exact hexp rfl
  | del => simp only [Delivery.mergeOp, MergeOp.del, DataContext.apply]

/-! ## Agreement of replicas -/

/-- Two replicas that received the same writes hold the same version. They hold the same
expiration unless the newest write is a `Del`: then the record of each expires a day after its own
clock when the `Del` first arrived. They hold the same payload unless the newest write is a `SetExp`
and there is a `Set`. -/
theorem replicas_agree (S : WriteSet T) {l₁ l₂ : List (Delivery T)}
    (h₁ : Delivers S.writes l₁) (h₂ : Delivers S.writes l₂) :
    (replica l₁).version = (replica l₂).version ∧
      ((∀ m, IsNewest m S.writes → m.kind.isDel = false) →
        (replica l₁).expires = (replica l₂).expires) ∧
      (∀ m, IsNewest m S.writes → m.kind.isDel = true → ∀ l ∈ [l₁, l₂], ∃ d : Delivery T,
        d.write = m ∧ d.First l ∧ (replica l).expires = d.now + lingerSecs) ∧
      (¬ LateSetExp S.writes → (replica l₁).payload = (replica l₂).payload) := by
  have hsub₁ : ∀ d ∈ l₁, d.write ∈ S.writes :=
    fun d hd => (h₁ _).mp (List.mem_map_of_mem hd)
  have hsub₂ : ∀ d ∈ l₂, d.write ∈ S.writes :=
    fun d hd => (h₂ _).mp (List.mem_map_of_mem hd)
  by_cases hnil : S.writes = []
  · -- nothing was written
    have hl₁ : l₁ = [] := List.eq_nil_iff_forall_not_mem.mpr fun d hd => by
      simpa [hnil] using hsub₁ d hd
    have hl₂ : l₂ = [] := List.eq_nil_iff_forall_not_mem.mpr fun d hd => by
      simpa [hnil] using hsub₂ d hd
    rw [hl₁, hl₂]
    refine ⟨rfl, fun _ => rfl, fun m hm => ?_, fun _ => rfl⟩
    rw [hnil] at hm
    cases hm.1
  · obtain ⟨m, hm⟩ := exists_isNewest hnil
    obtain ⟨b₁, d₁, hd₁, hb₁, hfirst₁, heq₁⟩ := replica_newest hm hsub₁ ((h₁ m).mpr hm.1)
    obtain ⟨b₂, d₂, hd₂, hb₂, hfirst₂, heq₂⟩ := replica_newest hm hsub₂ ((h₂ m).mpr hm.1)
    have hsame : d₁.write = d₂.write := hd₁.trans hd₂.symm
    refine ⟨by simp [heq₁, heq₂, hsame], fun hdel => ?_, fun m' hm' hdel l hl => ?_, fun hlate => ?_⟩
    · rw [heq₁, heq₂]
      exact expires_apply hsame (by rw [hd₁]; exact hdel m hm)
    · obtain rfl : m' = m := hm.unique hm'.1 (hm'.2 m hm.1)
      rcases List.mem_cons.mp hl with rfl | hl
      · exact ⟨d₁, hd₁, hfirst₁, heq₁ ▸ expires_apply_del (hd₁ ▸ hdel)⟩
      · obtain rfl := List.mem_singleton.mp hl
        exact ⟨d₂, hd₂, hfirst₂, heq₂ ▸ expires_apply_del (hd₂ ▸ hdel)⟩
    · rw [heq₁, heq₂]
      refine payload_apply hsame fun hexp => ?_
      -- the newest write leaves the value alone, and no write sets one
      have hnoset : ∀ w ∈ S.writes, w.kind.isSet = false := by
        intro w hw
        by_contra hset
        exact hlate ⟨⟨m, hm, by rw [← hd₁]; exact hexp⟩, w, hw, by simpa using hset⟩
      rw [replica_no_set fun d hd => hnoset _ (hsub₁ d (hb₁ d hd)),
        replica_no_set fun d hd => hnoset _ (hsub₂ d (hb₂ d hd))]

/-- Two replicas that see the same three writes in opposite orders, one of them twice. The newest is a
`Del`, which reaches the first replica at its second 3, and the other one at its second 4. -/
theorem replicas_agree_reversed :
    let set : Write Nat := ⟨.set 1 50, 5⟩
    let del : Write Nat := ⟨.del, 9⟩
    let l₁ : List (Delivery Nat) := [⟨set, 1⟩, ⟨⟨.set 2 60, 7⟩, 2⟩, ⟨del, 3⟩]
    let l₂ : List (Delivery Nat) := [⟨del, 4⟩, ⟨⟨.set 2 60, 7⟩, 5⟩, ⟨set, 6⟩, ⟨del, 7⟩]
    (replica l₁).version = (replica l₂).version ∧ (replica l₁).payload = (replica l₂).payload ∧
      ∀ l ∈ [l₁, l₂], ∃ d : Delivery Nat,
        d.write = del ∧ d.First l ∧ (replica l).expires = d.now + lingerSecs := by
  intro set del l₁ l₂
  let S : WriteSet Nat := ⟨[set, ⟨.set 2 60, 7⟩, del], by decide, by decide⟩
  have h₁ : Delivers S.writes l₁ := fun w => by simp [S, l₁]
  have h₂ : Delivers S.writes l₂ := fun w => by simp [S, l₂]; tauto
  have hnewest : IsNewest del S.writes := by unfold IsNewest; decide
  obtain ⟨hversion, _, hmark, hpayload⟩ := replicas_agree S h₁ h₂
  refine ⟨hversion, hpayload ?_, hmark del hnewest rfl⟩
  rintro ⟨⟨m, hm, hexp⟩, _⟩
  rw [hnewest.unique hm.1 (hm.2 del hnewest.1)] at hexp
  cases hexp

/-- The marks of one `Del` delivered at two local times expire at different times, and a `SetExp`
that overtakes a `Set` loses its value. -/
theorem replicas_differ :
    (∃ S : WriteSet Nat, S.writes = [⟨.del, 5⟩] ∧ ∃ l₁ l₂, Delivers S.writes l₁ ∧
      Delivers S.writes l₂ ∧ (replica l₁).expires ≠ (replica l₂).expires) ∧
    (∃ S : WriteSet Nat, S.writes = [⟨.set 1 50, 5⟩, ⟨.setExp 60, 10⟩] ∧ ∃ l₁ l₂,
      Delivers S.writes l₁ ∧ Delivers S.writes l₂ ∧
      (replica l₁).payload ≠ (replica l₂).payload) := by
  refine ⟨⟨⟨[⟨.del, 5⟩], by decide, by decide⟩, rfl, [⟨⟨.del, 5⟩, 100⟩], [⟨⟨.del, 5⟩, 101⟩],
    fun w => by simp, fun w => by simp, ?_⟩, ⟨⟨[⟨.set 1 50, 5⟩, ⟨.setExp 60, 10⟩], by decide,
    by decide⟩, rfl, [⟨⟨.set 1 50, 5⟩, 0⟩, ⟨⟨.setExp 60, 10⟩, 0⟩],
    [⟨⟨.setExp 60, 10⟩, 0⟩, ⟨⟨.set 1 50, 5⟩, 0⟩], fun w => by simp, fun w => by simp; tauto, ?_⟩⟩
  · decide
  · decide

end Storage
end Wcn
