import Wcn.Lib.Ranking
import Wcn.Replication.Tally
import Mathlib.Data.List.Dedup
import Mathlib.Algebra.Order.Ring.Nat

/-!
# Wcn.Replication.Reconcile

What reconciliation computes, in terms of the replicas' responses alone. The coordinator hands it
distinct responses with weights; the results below only depend on the list of responses, one for
each replica, in any order.

* `reconciledPage`: the entries on a majority of the pages, by field.
* `reconciledCardinality`: the third smallest cardinality.
* `reconcile_eq`: the coordinator computes these, as long as no page repeats a field.
* `reconciledPage_spec`, `reconciledCardinality_spec`: both are majority votes.
-/

namespace Wcn
namespace Replication

open StorageApi Lib

variable {B Op : Type}

def page? : Response B → Option (MapPage B)
  | .ok (.mapPage page) => some page
  | _ => none

def cardinality? : Response B → Option Nat
  | .ok (.cardinality card) => some card
  | _ => none

section Spec

variable [LinearOrder B]

/-- The entries that occur on a majority of the pages, by field. -/
def reconciledPage (pages : List (MapPage B)) : Option (MapPage B) :=
  if pages.length < majorityQuorumThreshold then
    none
  else
    let entries := pages.flatMap MapPage.entries
    some {
      entries := (entries.dedup.filter (majorityQuorumThreshold ≤ entries.count ·)).insertionSort
        fun a b => a.field ≤ b.field
      hasNext := majorityQuorumThreshold ≤ pages.countP MapPage.hasNext }

/-- The cardinality in the middle of a replica set. -/
def reconciledCardinality (cards : List Nat) : Option Nat :=
  (cards.insertionSort (· ≤ ·))[majorityQuorumThreshold - 1]?

/-- The response a read without a quorum gets, from the responses of the replicas. -/
def reconciled (operation : Operation B) (responses : List (Response B)) : Option (Output B) :=
  match operation with
  | .hscan _ _ => (reconciledPage (responses.filterMap page?)).map .mapPage
  | .hcard => (reconciledCardinality (responses.filterMap cardinality?)).map .cardinality
  | _ => none

end Spec

/-! ## The weighted responses -/

variable {filled : List (Response B)}

/-- What a slice of the buffer and of the weights says about the responses. -/
theorem filterMap_slots {γ : Type} (hlen : filled.length ≤ rf) (w : Response B → Nat)
    (g : Option (Response B) × Nat → Option γ) (hg : g (none, 0) = none) :
    (((buffer filled).take rf).zip ((slotWeights filled w).take rf)).filterMap g =
      filled.filterMap fun r => g (some r, w r) := by
  have htake : ∀ {δ : Type} (l : List δ) (x : δ), l.length = filled.length →
      (l ++ List.replicate (rf * 2 - filled.length) x).take rf =
        l ++ List.replicate (rf - filled.length) x := by
    intro δ l x hl
    rw [List.take_append, hl, List.take_of_length_le (by omega), List.take_replicate]
    congr 2
    omega
  rw [buffer, slotWeights, htake _ _ (by simp), htake _ _ (by simp), List.zip_append (by simp),
    List.filterMap_append, List.zip_map', List.filterMap_map]
  have hnone : ((List.replicate (rf - filled.length) (none : Option (Response B))).zip
      (List.replicate (rf - filled.length) 0)).filterMap g = [] := by
    simp [hg]
  rw [hnone, List.append_nil]
  rfl

section Weighted

variable [DecidableEq B] {votes : List (Response B)}

theorem sum_map_filterMap {α γ : Type} (g : α → Option γ) (k : γ → Nat) (l : List α) :
    ((l.filterMap g).map k).sum = (l.map fun r => (g r).elim 0 k).sum := by
  induction l with
  | nil => rfl
  | cons r l ih =>
    cases hr : g r with
    | none => simp [hr, ih]
    | some x => simp [hr, ih]

/-- Sums over the weighted responses of some kind are sums over all responses of that kind. -/
theorem sum_weighted_filterMap {γ : Type} (hnd : filled.Nodup) (hmem : ∀ r, r ∈ filled ↔ r ∈ votes)
    (g : Response B → Option γ) (k : γ → Nat) :
    ((filled.filterMap fun r => (g r).map (·, votes.count r)).map fun x => x.2 * k x.1).sum =
      ((votes.filterMap g).map k).sum := by
  have hweight : ∀ r, ((g r).map (·, votes.count r)).elim 0 (fun x => x.2 * k x.1) =
      votes.count r * (g r).elim 0 k := by
    intro r
    cases g r with
    | none => rfl
    | some x => rfl
  simp only [sum_map_filterMap, hweight]
  exact sum_weighted hnd hmem _

/-- Expanding the weighted responses of some kind gives all responses of that kind. -/
theorem expand_weighted_filterMap {γ : Type} (hnd : filled.Nodup)
    (hmem : ∀ r, r ∈ filled ↔ r ∈ votes) (g : Response B → Option γ) :
    ((filled.filterMap fun r => (g r).map (·, votes.count r)).flatMap
      fun x => List.replicate x.2 x.1).Perm (votes.filterMap g) := by
  refine List.Perm.trans ?_ ((expand_perm hnd hmem).filterMap g)
  unfold expand
  rw [List.filterMap_flatMap]
  clear hnd hmem
  induction filled with
  | nil => exact .refl _
  | cons r filled ih =>
    cases hr : g r with
    | none => simpa [hr, List.filterMap_replicate] using ih
    | some x => simpa [hr, List.filterMap_replicate] using ih.append_left _

end Weighted

/-! ## Map pages -/

section Pages

variable [DecidableEq B]

/-- What the counters hold for an entry. -/
def weightOf (entry : MapEntry B) : List (MapEntry B × Nat) → Nat
  | [] => 0
  | (e, count) :: counters => if e = entry then count else weightOf entry counters

theorem weightOf_addWeight (entry e : MapEntry B) (weight : Nat)
    (counters : List (MapEntry B × Nat)) :
    weightOf entry (addWeight e weight counters) =
      weightOf entry counters + if e = entry then weight else 0 := by
  induction counters with
  | nil => simp [addWeight, weightOf]
  | cons counter counters ih =>
    obtain ⟨e', count⟩ := counter
    simp only [addWeight]
    by_cases he : e' = e
    · subst he
      simp only [if_pos, weightOf]
      split <;> simp_all
    · rw [if_neg he]
      simp only [weightOf, ih]
      by_cases hentry : e' = entry
      · have hne : ¬ e = entry := fun h => he (hentry.trans h.symm)
        simp [hentry, hne]
      · simp [hentry]

theorem keys_addWeight (e : MapEntry B) (weight : Nat) (counters : List (MapEntry B × Nat)) :
    (addWeight e weight counters).map (·.1) =
      if e ∈ counters.map (·.1) then counters.map (·.1) else counters.map (·.1) ++ [e] := by
  induction counters with
  | nil => rfl
  | cons counter counters ih =>
    obtain ⟨e', count⟩ := counter
    simp only [addWeight]
    by_cases he : e' = e
    · simp [he]
    · have he' : ¬ e = e' := fun h => he h.symm
      rw [if_neg he, List.map_cons, ih]
      by_cases hmem : e ∈ counters.map (·.1)
      · simp only [List.map_cons, List.mem_cons, hmem, or_true, if_true]
      · simp only [List.map_cons, List.mem_cons, hmem, he', or_self, if_false, List.cons_append]

theorem nodup_addWeight {e : MapEntry B} {weight : Nat} {counters : List (MapEntry B × Nat)}
    (h : (counters.map (·.1)).Nodup) : ((addWeight e weight counters).map (·.1)).Nodup := by
  rw [keys_addWeight]
  split
  · exact h
  · rename_i hmem
    rw [← List.concat_eq_append]
    exact h.concat hmem

theorem weightOf_addEntries (entry : MapEntry B) (weight : Nat) (entries : List (MapEntry B))
    (counters : List (MapEntry B × Nat)) :
    weightOf entry (entries.foldl (fun counters e => addWeight e weight counters) counters) =
      weightOf entry counters + weight * entries.count entry := by
  induction entries generalizing counters with
  | nil => rfl
  | cons e entries ih =>
    rw [List.foldl_cons, ih, weightOf_addWeight, List.count_cons]
    by_cases he : e = entry
    · simp [he, Nat.mul_add]
      omega
    · simp [he]

/-- The counters count every entry with the weights of its pages. -/
theorem weightOf_countEntries (pages : List (MapPage B × Nat)) (entry : MapEntry B) :
    weightOf entry (countEntries pages) =
      (pages.map fun page => page.2 * page.1.entries.count entry).sum := by
  suffices h : ∀ counters, weightOf entry (pages.foldl (fun counters page =>
      page.1.entries.foldl (fun counters entry => addWeight entry page.2 counters) counters)
      counters) = weightOf entry counters +
        (pages.map fun page => page.2 * page.1.entries.count entry).sum by
    rw [countEntries, h]
    simp [weightOf]
  induction pages with
  | nil => exact fun counters => rfl
  | cons page pages ih =>
    intro counters
    rw [List.foldl_cons, ih, weightOf_addEntries, List.map_cons, List.sum_cons]
    omega

theorem nodup_countEntries (pages : List (MapPage B × Nat)) :
    ((countEntries pages).map (·.1)).Nodup := by
  have hentries : ∀ (entries : List (MapEntry B)) (weight : Nat)
      (counters : List (MapEntry B × Nat)), (counters.map (·.1)).Nodup →
      ((entries.foldl (fun counters e => addWeight e weight counters) counters).map (·.1)).Nodup := by
    intro entries weight
    induction entries with
    | nil => exact fun counters h => h
    | cons e entries ih => exact fun counters h => ih _ (nodup_addWeight h)
  suffices h : ∀ counters : List (MapEntry B × Nat), (counters.map (·.1)).Nodup →
      ((pages.foldl (fun counters page => page.1.entries.foldl
        (fun counters entry => addWeight entry page.2 counters) counters) counters).map
        (·.1)).Nodup from h [] List.nodup_nil
  induction pages with
  | nil => exact fun counters h => h
  | cons page pages ih => exact fun counters h => ih _ (hentries _ _ _ h)

theorem weightOf_of_mem {counters : List (MapEntry B × Nat)} (h : (counters.map (·.1)).Nodup)
    {entry : MapEntry B} {count : Nat} (hmem : (entry, count) ∈ counters) :
    weightOf entry counters = count := by
  induction counters with
  | nil => cases hmem
  | cons counter counters ih =>
    obtain ⟨e, n⟩ := counter
    simp only [List.map_cons, List.nodup_cons] at h
    rcases List.mem_cons.mp hmem with heq | hmem
    · cases heq
      simp [weightOf]
    · have hne : ¬ e = entry := by
        rintro rfl
        exact h.1 (List.mem_map.mpr ⟨_, hmem, rfl⟩)
      simp only [weightOf, if_neg hne]
      exact ih h.2 hmem

theorem mem_of_weightOf {counters : List (MapEntry B × Nat)} {entry : MapEntry B}
    (h : 0 < weightOf entry counters) : (entry, weightOf entry counters) ∈ counters := by
  induction counters with
  | nil => simp [weightOf] at h
  | cons counter counters ih =>
    obtain ⟨e, n⟩ := counter
    by_cases he : e = entry
    · simp [weightOf, he]
    · simp only [weightOf, if_neg he] at h ⊢
      exact List.mem_cons_of_mem _ (ih h)

end Pages

section Page

variable [LinearOrder B] {votes : List (Response B)}
  {intoIter : List (MapEntry B × Nat) → List (MapEntry B × Nat)}

/-- No page lists a field twice. -/
def DistinctFields (pages : List (MapPage B)) : Prop :=
  ∀ page ∈ pages, (page.entries.map MapEntry.field).Nodup

/-- An entry occurs at most once on a page. -/
theorem count_entries {pages : List (MapPage B)} (hd : DistinctFields pages) (e : MapEntry B) :
    (pages.flatMap MapPage.entries).count e = pages.countP fun page => e ∈ page.entries := by
  induction pages with
  | nil => rfl
  | cons page pages ih =>
    have hrest := ih fun p hp => hd p (List.mem_cons_of_mem _ hp)
    have hone : page.entries.Nodup := (hd page List.mem_cons_self).of_map
    rw [List.flatMap_cons, List.count_append, List.countP_cons, hrest, Nat.add_comm]
    by_cases hmem : e ∈ page.entries
    · rw [List.count_eq_one_of_mem hone hmem, if_pos (decide_eq_true hmem)]
    · rw [List.count_eq_zero.mpr hmem, if_neg (by simpa using hmem)]

/-- Two entries on a majority of at most `rf` pages are on one page, so they differ in the field. -/
theorem majority_entry_unique {pages : List (MapPage B)} (hd : DistinctFields pages)
    (hlen : pages.length ≤ rf) {e e' : MapEntry B}
    (he : majorityQuorumThreshold ≤ (pages.flatMap MapPage.entries).count e)
    (he' : majorityQuorumThreshold ≤ (pages.flatMap MapPage.entries).count e')
    (hfield : e.field = e'.field) : e = e' := by
  rw [count_entries hd] at he he'
  obtain ⟨page, hpage, hmem, hmem'⟩ := exists_of_length_lt_countP (l := pages)
    (p := fun page => e ∈ page.entries) (q := fun page => e' ∈ page.entries) (by
      simp only [majorityQuorumThreshold, rf] at he he' hlen
      omega)
  simp only [decide_eq_true_eq] at hmem hmem'
  exact List.inj_on_of_nodup_map (hd page hpage) hmem hmem' hfield

theorem sorted_by_field_unique {l l' : List (MapEntry B)} (hperm : l.Perm l')
    (hinj : ∀ e ∈ l, ∀ e' ∈ l', e.field = e'.field → e = e') :
    l.insertionSort (fun a b => a.field ≤ b.field) =
      l'.insertionSort (fun a b => a.field ≤ b.field) := by
  have : Std.Total fun a b : MapEntry B => a.field ≤ b.field := ⟨fun a b => le_total _ _⟩
  have : IsTrans (MapEntry B) fun a b => a.field ≤ b.field := ⟨fun a b c => le_trans⟩
  refine List.Perm.eq_of_pairwise (fun a b ha hb hab hba => ?_)
    (List.pairwise_insertionSort _ l) (List.pairwise_insertionSort _ l') ?_
  · exact hinj a ((List.perm_insertionSort _ l).mem_iff.mp ha) b
      ((List.perm_insertionSort _ l').mem_iff.mp hb) (le_antisymm hab hba)
  · exact (List.perm_insertionSort _ l).trans (hperm.trans (List.perm_insertionSort _ l').symm)

/-- The entries counted at least as often as the threshold are selected, in whatever order the
counters come. -/
theorem mem_selected {counters : List (MapEntry B × Nat)} (hkeys : (counters.map (·.1)).Nodup)
    (hiter : (intoIter counters).Perm counters) (entry : MapEntry B) :
    entry ∈ ((intoIter counters).filter (majorityQuorumThreshold ≤ ·.2)).map (·.1) ↔
      majorityQuorumThreshold ≤ weightOf entry counters := by
  simp only [List.mem_map, List.mem_filter, hiter.mem_iff, decide_eq_true_eq]
  constructor
  · rintro ⟨⟨e, n⟩, ⟨hin, hn⟩, rfl⟩
    rw [weightOf_of_mem hkeys hin]
    exact hn
  · intro h
    have hpos : 0 < weightOf entry counters := Nat.lt_of_lt_of_le (by decide) h
    exact ⟨_, ⟨mem_of_weightOf hpos, h⟩, rfl⟩

/-- The pages of the buffer, each with the number of replicas that returned it. -/
theorem mapPages_eq (hlen : filled.length ≤ rf) :
    mapPages ((buffer filled).take rf) ((slotWeights filled (votes.count ·)).take rf) =
      filled.filterMap fun r => (page? r).map (·, votes.count r) := by
  rw [mapPages, filterMap_slots hlen _ _ rfl]
  refine List.filterMap_congr fun r _ => ?_
  cases r with
  | error e => rfl
  | ok output => cases output <;> rfl

theorem mem_majority_entries {entries : List (MapEntry B)} {e : MapEntry B} :
    e ∈ entries.dedup.filter (majorityQuorumThreshold ≤ entries.count ·) ↔
      majorityQuorumThreshold ≤ entries.count e := by
  rw [List.mem_filter, List.mem_dedup, decide_eq_true_iff, and_iff_right_iff_imp]
  intro h
  exact List.count_pos_iff.mp (Nat.lt_of_lt_of_le (by decide) h)

/-- Whatever the order of the buffer and of the hash map, the reconciled page is the same. -/
theorem reconcileMapPage_eq (hnd : filled.Nodup) (hmem : ∀ r, r ∈ filled ↔ r ∈ votes)
    (hlen : filled.length ≤ rf) (hvotes : votes.length ≤ rf) (hiter : ∀ l, (intoIter l).Perm l)
    (hd : DistinctFields (votes.filterMap page?)) :
    reconcileMapPage intoIter ((buffer filled).take rf)
        ((slotWeights filled (votes.count ·)).take rf) =
      reconciledPage (votes.filterMap page?) := by
  have hsum := sum_weighted_filterMap hnd hmem (page? (B := B))
  unfold reconcileMapPage reconciledPage
  rw [mapPages_eq hlen]
  have htotal : ((filled.filterMap fun r => (page? r).map (·, votes.count r)).map (·.2)).sum =
      (votes.filterMap page?).length := by
    simpa using hsum fun _ => 1
  have hnext : ((filled.filterMap fun r => (page? r).map (·, votes.count r)).map
      fun page => if page.1.hasNext then page.2 else 0).sum =
      (votes.filterMap page?).countP MapPage.hasNext := by
    have h := hsum fun page => if page.hasNext then 1 else 0
    simp only [mul_ite, mul_one, mul_zero] at h
    rw [h, List.sum_map_ite]
    simp [List.countP_eq_length_filter]
  simp only [htotal, hnext]
  split
  · rfl
  · -- both sides sort the same entries, and no two of them share a field
    congr 2
    have hweight : ∀ entry, weightOf entry
        (countEntries (filled.filterMap fun r => (page? r).map (·, votes.count r))) =
        ((votes.filterMap page?).flatMap MapPage.entries).count entry := by
      intro entry
      rw [weightOf_countEntries, hsum fun page => page.entries.count entry, List.count_flatMap]
      rfl
    have hkeys := nodup_countEntries (filled.filterMap fun r => (page? r).map (·, votes.count r))
    generalize countEntries (filled.filterMap fun r => (page? r).map (·, votes.count r)) = counters
      at hweight hkeys
    have hselected : ∀ entry,
        entry ∈ ((intoIter counters).filter (majorityQuorumThreshold ≤ ·.2)).map (·.1) ↔
          majorityQuorumThreshold ≤
            ((votes.filterMap page?).flatMap MapPage.entries).count entry := by
      intro entry
      rw [mem_selected hkeys (hiter counters), hweight]
    refine sorted_by_field_unique ((List.perm_ext_iff_of_nodup ?_ ?_).mpr fun entry => ?_) ?_
    · have hperm := ((hiter counters).filter (majorityQuorumThreshold ≤ ·.2)).map (·.1)
      exact hperm.nodup_iff.mpr (hkeys.sublist (List.filter_sublist.map _))
    · exact (List.nodup_dedup _).filter _
    · rw [hselected, mem_majority_entries]
    · intro e he e' he'
      refine majority_entry_unique hd ?_ ((hselected e).mp he) (mem_majority_entries.mp he')
      exact (List.length_filterMap_le _ _).trans hvotes

end Page

/-! ## Cardinalities -/

/-- Walking the weights up to a majority is indexing the list they stand for. -/
theorem weighCardinalities_eq (cards : List (Nat × Nat)) {totalWeight : Nat}
    (h : totalWeight < majorityQuorumThreshold) :
    weighCardinalities totalWeight cards =
      (cards.flatMap fun c => List.replicate c.2 c.1)[majorityQuorumThreshold - 1 - totalWeight]? := by
  induction cards generalizing totalWeight with
  | nil => rfl
  | cons c cards ih =>
    obtain ⟨card, weight⟩ := c
    simp only [weighCardinalities, List.flatMap_cons]
    split
    · rename_i hle
      rw [List.getElem?_append_left (by rw [List.length_replicate]; omega),
        List.getElem?_replicate, if_pos (by omega)]
    · rename_i hlt
      rw [ih (by omega), List.getElem?_append_right (by rw [List.length_replicate]; omega),
        List.length_replicate]
      congr 1
      omega

theorem pairwise_expand {cards : List (Nat × Nat)} (h : cards.Pairwise fun a b => a.1 ≤ b.1) :
    (cards.flatMap fun c => List.replicate c.2 c.1).Pairwise (· ≤ ·) := by
  induction cards with
  | nil => exact .nil
  | cons c cards ih =>
    obtain ⟨hc, hcards⟩ := List.pairwise_cons.mp h
    rw [List.flatMap_cons, List.pairwise_append]
    refine ⟨List.pairwise_replicate.mpr (.inr (Nat.le_refl _)), ih hcards, ?_⟩
    intro x hx y hy
    obtain ⟨c', hc', hy⟩ := List.mem_flatMap.mp hy
    rw [(List.mem_replicate.mp hx).2, (List.mem_replicate.mp hy).2]
    exact hc c' hc'

theorem reconcileMapCardinality_eq [DecidableEq B] {votes : List (Response B)} (hnd : filled.Nodup)
    (hmem : ∀ r, r ∈ filled ↔ r ∈ votes) (hlen : filled.length ≤ rf) :
    reconcileMapCardinality ((buffer filled).take rf)
        ((slotWeights filled (votes.count ·)).take rf) =
      reconciledCardinality (votes.filterMap cardinality?) := by
  have hcards : mapCardinalities ((buffer filled).take rf)
      ((slotWeights filled (votes.count ·)).take rf) =
      filled.filterMap fun r => (cardinality? r).map (·, votes.count r) := by
    rw [mapCardinalities, filterMap_slots hlen _ _ rfl]
    refine List.filterMap_congr fun r _ => ?_
    cases r with
    | error e => rfl
    | ok output => cases output <;> rfl
  have hperm := expand_weighted_filterMap hnd hmem (cardinality? (B := B))
  unfold reconcileMapCardinality reconciledCardinality
  rw [hcards]
  generalize (filled.filterMap fun r => (cardinality? r).map (·, votes.count r)) = cards at hperm
  have htotal : Std.Total fun a b : Nat × Nat => a.1 < b.1 ∨ (a.1 = b.1 ∧ a.2 ≤ b.2) :=
    ⟨fun a b => by omega⟩
  have htrans : IsTrans (Nat × Nat) fun a b => a.1 < b.1 ∨ (a.1 = b.1 ∧ a.2 ≤ b.2) :=
    ⟨fun a b c => by omega⟩
  rw [weighCardinalities_eq _ (by decide), Nat.sub_zero]
  -- both lists are sorted and hold the same cardinalities
  congr 1
  refine List.Perm.eq_of_pairwise (fun a b _ _ hab hba => Nat.le_antisymm hab hba)
    (pairwise_expand ?_) (List.pairwise_insertionSort _ _) ?_
  · refine (List.pairwise_insertionSort _ cards).imp fun hab => ?_
    omega
  · refine (((List.perm_insertionSort _ cards).flatMap_right _).trans hperm).trans ?_
    exact (List.perm_insertionSort _ _).symm

/-- The coordinator's reconciliation is a function of the responses alone. -/
theorem reconcile_eq [LinearOrder B] {votes : List (Response B)}
    {intoIter : List (MapEntry B × Nat) → List (MapEntry B × Nat)} (operation : Operation B)
    (hnd : filled.Nodup) (hmem : ∀ r, r ∈ filled ↔ r ∈ votes) (hlen : filled.length ≤ rf)
    (hvotes : votes.length ≤ rf) (hiter : ∀ l, (intoIter l).Perm l)
    (hd : DistinctFields (votes.filterMap page?)) :
    reconcile intoIter operation ((buffer filled).take rf)
        ((slotWeights filled (votes.count ·)).take rf) = reconciled operation votes := by
  unfold reconcile reconciled
  cases operation with
  | hscan count cursor => simp only [reconcileMapPage_eq hnd hmem hlen hvotes hiter hd]
  | hcard => simp only [reconcileMapCardinality_eq hnd hmem hlen]
  | _ => rfl

/-! ## Votes -/

section Votes

variable [LinearOrder B] {pages : List (MapPage B)}

theorem reconciledPage_eq_none :
    reconciledPage pages = none ↔ pages.length < majorityQuorumThreshold := by
  rw [reconciledPage]
  split
  · next h => exact iff_of_true rfl h
  · next h => exact iff_of_false (Option.some_ne_none _) h

theorem reconciledPage_spec (hd : DistinctFields pages) (hlen : pages.length ≤ rf)
    {page : MapPage B} (h : reconciledPage pages = some page) :
    page.entries.Pairwise (fun a b => a.field < b.field) ∧
    (∀ e, e ∈ page.entries ↔
      majorityQuorumThreshold ≤ pages.countP fun page => e ∈ page.entries) ∧
    (page.hasNext = true ↔ majorityQuorumThreshold ≤ pages.countP MapPage.hasNext) := by
  rw [reconciledPage] at h
  split at h
  · cases h
  have htotal : Std.Total fun a b : MapEntry B => a.field ≤ b.field := ⟨fun a b => le_total _ _⟩
  have htrans : IsTrans (MapEntry B) fun a b => a.field ≤ b.field := ⟨fun a b c => le_trans⟩
  let entries := pages.flatMap MapPage.entries
  let chosen := entries.dedup.filter (majorityQuorumThreshold ≤ entries.count ·)
  have hperm := List.perm_insertionSort (fun a b : MapEntry B => a.field ≤ b.field) chosen
  have hsorted := List.pairwise_insertionSort (fun a b : MapEntry B => a.field ≤ b.field) chosen
  have hmem : ∀ e, e ∈ chosen ↔ majorityQuorumThreshold ≤ entries.count e := fun e =>
    mem_majority_entries
  cases h
  refine ⟨?_, fun e => ?_, decide_eq_true_iff⟩
  · have hnodup := hperm.nodup_iff.mpr ((List.nodup_dedup entries).filter _)
    refine (hsorted.and hnodup).imp_of_mem fun {a b} ha hb hab => ?_
    refine lt_of_le_of_ne hab.1 fun hfield => hab.2 ?_
    exact majority_entry_unique hd hlen ((hmem a).mp (hperm.mem_iff.mp ha))
      ((hmem b).mp (hperm.mem_iff.mp hb)) hfield
  · rw [← count_entries hd, ← hmem e]
    exact hperm.mem_iff

theorem reconciledCardinality_eq_none {cards : List Nat} :
    reconciledCardinality cards = none ↔ cards.length < majorityQuorumThreshold := by
  rw [reconciledCardinality, List.getElem?_eq_none_iff, List.length_insertionSort]
  exact Nat.lt_iff_le_pred (by decide) |>.symm

theorem reconciledCardinality_spec {cards : List Nat} {card : Nat}
    (h : reconciledCardinality cards = some card) :
    card ∈ cards ∧ majorityQuorumThreshold ≤ cards.countP (· ≤ card) ∧
      ∀ c ∈ cards, majorityQuorumThreshold ≤ cards.countP (· ≤ c) → card ≤ c :=
  getElem?_insertionSort h

end Votes

end Replication
end Wcn
