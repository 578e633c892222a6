import Wcn.Storage.Grouping
import Wcn.Storage.Migration
import Mathlib.Data.List.Chain

/-!
# Wcn.Storage.Compaction

The compaction filter of both column families, as `crates/rocks/src/db/compaction/filters.rs` has
it, and what becomes of a deletion.

* `Cell` — what RocksDB has of a key: the value it stored last and the operands since then.
* `Cell.Step` — a compaction merges the operands into the stored value, and does not filter the
  result. Only a value that it finds without operands goes through the filter.
* `Cell.Marked` — the newest operand was a `Del`.

A `Del` leaves a record without payload that is to stay for a day (`lingerSecs`), so that writes with
older timestamps that come later are still seen to be stale. The filter does not wait for that:
it removes every record without payload. `deletion_holds_iff` says what a late write can do then.
-/

namespace Wcn
namespace Storage

open Lib

variable {K T : Type}

inductive Decision where
  | keep
  | remove
  deriving DecidableEq, Repr

/-- The longest time to live that the business logic has, with some leeway. -/
def maxTtlSecs : Nat := 86400 * 30 + 120

/-- 120 seconds in microseconds. -/
def updateTimestampLeeway : Nat := 120 * 1000 * 1000

/-- `ExpiredDataCompactionFilter::filter_internal`. The clock shows `now` in seconds, `nowMicros` in
microseconds. No value stands for bytes that do not deserialize. -/
def filterInternal (now nowMicros : Nat) : Option (DataContext T) → Decision
  | none => .remove
  | some value =>
    if value.expired now || value.payload.asOption.isNone then .remove
    else if maxTtlSecs < value.expires - now then .remove
    else if nowMicros + updateTimestampLeeway < value.version then .remove
    else .keep

def Database.get (db : Database K T) (now : Nat) (key : K) : Option (StorageApi.Record T) :=
  (db.record key).bind (·.readRecord now)

/-! ## Keys -/

/-- What RocksDB has of a key, in its memtables and files. -/
structure Cell (T : Type) where
  stored : Option (DataContext T)
  /-- Merged since the value was stored, the oldest first. -/
  operands : List (MergeOp T)
deriving DecidableEq

namespace Cell

inductive Event (T : Type) where
  | merge (op : MergeOp T)
  /-- With the clock in seconds and in microseconds. -/
  | compact (clock : Nat × Nat)

def Event.isCompact : Event T → Bool
  | .merge _ => false
  | .compact _ => true

def empty : Cell T := ⟨none, []⟩

/-- A compaction of the column family takes all that there is of the key, and groups the operands as
it likes. -/
inductive Step : Cell T → Event T → Cell T → Prop where
  | merge {stored : Option (DataContext T)} {operands : List (MergeOp T)} {op : MergeOp T} :
      Step ⟨stored, operands⟩ (.merge op) ⟨stored, operands ++ [op]⟩
  | merges {stored : Option (DataContext T)} {operands ops : List (MergeOp T)} {clock : Nat × Nat} :
      operands ≠ [] → Regroup operands ops →
      Step ⟨stored, operands⟩ (.compact clock) ⟨some (fullMerge stored ops), []⟩
  | filters {stored : Option (DataContext T)} {clock : Nat × Nat} :
      Step ⟨stored, []⟩ (.compact clock)
        ⟨stored.filter fun value => filterInternal clock.1 clock.2 (some value) = .keep, []⟩

inductive Runs : Cell T → List (Event T) → Cell T → Prop where
  | nil {cell : Cell T} : Runs cell [] cell
  | cons {cell next cell' : Cell T} {event : Event T} {events : List (Event T)} :
      Step cell event next → Runs next events cell' → Runs cell (event :: events) cell'

/-- What a read can answer. -/
inductive Reads (cell : Cell T) (now : Nat) : Option (StorageApi.Record T) → Prop where
  | absent : cell.stored = none → cell.operands = [] → Reads cell now none
  | merged {ops : List (MergeOp T)} : cell.stored ≠ none ∨ cell.operands ≠ [] →
      Regroup cell.operands ops → Reads cell now ((fullMerge cell.stored ops).readRecord now)

def OlderThan (cell : Cell T) (t : Nat) : Prop :=
  (cell.stored.getD .default).version < t ∧ ∀ op ∈ cell.operands, op.timestamp < t

/-- No two compactions in a row. -/
def Unfiltered (events : List (Event T)) : Prop :=
  events.IsChain fun e e' => ¬ (e.isCompact = true ∧ e'.isCompact = true)

section Runs

variable {cell cell' : Cell T} {events events' : List (Event T)}

theorem runs_append : Runs cell (events ++ events') cell' ↔
    ∃ next, Runs cell events next ∧ Runs next events' cell' := by
  induction events generalizing cell with
  | nil =>
    constructor
    · exact fun h => ⟨cell, .nil, h⟩
    · rintro ⟨next, hnil, h⟩
      cases hnil
      exact h
  | cons event events ih =>
    constructor
    · intro h
      obtain _ | ⟨hstep, hrest⟩ := h
      obtain ⟨next, hnext, hlast⟩ := ih.mp hrest
      exact ⟨next, .cons hstep hnext, hlast⟩
    · rintro ⟨next, hnext, hlast⟩
      obtain _ | ⟨hstep, hrest⟩ := hnext
      exact .cons hstep (ih.mpr ⟨next, hrest, hlast⟩)

theorem runs_singleton {event : Event T} : Runs cell [event] cell' ↔ Step cell event cell' := by
  constructor
  · intro h
    obtain _ | ⟨hstep, hnil⟩ := h
    cases hnil
    exact hstep
  · exact fun h => .cons h .nil

/-- Nothing stops a key from being merged into, compacted and read. -/
theorem exists_runs (cell : Cell T) (events : List (Event T)) : ∃ cell', Runs cell events cell' := by
  induction events generalizing cell with
  | nil => exact ⟨cell, .nil⟩
  | cons event events ih =>
    obtain ⟨next, hstep⟩ : ∃ next, Step cell event next := by
      obtain ⟨stored, operands⟩ := cell
      cases event with
      | merge op => exact ⟨_, .merge⟩
      | compact clock =>
        cases operands with
        | nil => exact ⟨_, .filters⟩
        | cons op operands => exact ⟨_, .merges (List.cons_ne_nil _ _) .refl⟩
    obtain ⟨cell', hruns⟩ := ih next
    exact ⟨cell', .cons hstep hruns⟩

theorem operands_of_compact {clock : Nat × Nat} (h : Step cell (.compact clock) cell') :
    cell'.operands = [] := by
  cases h <;> rfl

/-- A key that is gone stays so until it is written again. -/
theorem runs_empty {clocks : List (Nat × Nat)} (h : Runs empty (clocks.map .compact) cell') :
    cell' = empty := by
  induction clocks with
  | nil =>
    cases h
    rfl
  | cons clock clocks ih =>
    obtain _ | ⟨hstep, hrest⟩ := h
    cases hstep with
    | merges hne => exact absurd rfl hne
    | filters => exact ih hrest

end Runs

end Cell

theorem Regroup.eq_singleton {op : MergeOp T} {ops : List (MergeOp T)} (h : Regroup [op] ops) :
    ops = [op] := by
  rcases h.mergePairs.cases_head with heq | ⟨next, ⟨l, a, b, r, heq, -⟩, -⟩
  · exact heq.symm
  · have hlength := congrArg List.length heq
    simp only [List.length_append, List.length_cons, List.length_nil] at hlength
    omega

/-! ## Deletions -/

theorem filterInternal_of_payload_none {value : DataContext T} (h : value.payload = .none)
    (now nowMicros : Nat) : filterInternal now nowMicros (some value) = .remove := by
  rw [filterInternal, if_pos]
  rw [h]
  exact Bool.or_true _

/-- What an operand leaves on a key without a record. -/
theorem readRecord_fullMerge_none {op : MergeOp T} {now : Nat} :
    (fullMerge none [op]).readRecord now ≠ none ↔
      ∃ value expiration, op.kind = .set value expiration ∧ now < expiration ∧ 0 < op.timestamp := by
  rw [Ne, DataContext.readRecord_eq_none]
  obtain ⟨kind, timestamp⟩ := op
  rcases Nat.eq_zero_or_pos timestamp with rfl | hpos
  · have hstale : fullMerge none [(⟨kind, 0⟩ : MergeOp T)] = .default :=
      fullMerge_stale fun o ho => by
        rw [List.mem_singleton.mp ho]
        exact Nat.zero_le _
    rw [hstale]
    exact iff_of_false (not_not.mpr (.inr rfl)) fun ⟨_, _, _, _, hlt⟩ => Nat.lt_irrefl 0 hlt
  · have hfresh : fullMerge none [(⟨kind, timestamp⟩ : MergeOp T)] =
        (DataContext.default : DataContext T).apply ⟨kind, timestamp⟩ :=
      DataContext.merge_fresh hpos
    rw [hfresh]
    cases kind <;> simp [DataContext.apply, DataContext.default, hpos]

namespace Cell

/-- A `Del` with timestamp `t` is the newest that was merged into the key: it is among the operands, or
its mark is stored. -/
inductive Marked (t : Nat) : Cell T → Prop where
  | operand {stored : Option (DataContext T)} {before after : List (MergeOp T)} {s : Nat} :
      Newest MergeOp.timestamp (stored.getD .default).version before (.del s t) after →
      Marked t ⟨stored, before ++ .del s t :: after⟩
  | stored {ctx : DataContext T} {operands : List (MergeOp T)} : ctx.payload = .none →
      ctx.version = t → (∀ op ∈ operands, op.timestamp ≤ t) → Marked t ⟨some ctx, operands⟩

namespace Marked

variable {t : Nat} {cell cell' : Cell T}

/-- However the operands are grouped, no operand before the `Del` shows in the record. -/
theorem fullMerge (h : Marked t cell) {ops : List (MergeOp T)} (hops : Regroup cell.operands ops) :
    (fullMerge cell.stored ops).payload = .none ∧ (fullMerge cell.stored ops).version = t := by
  cases h with
  | operand hnewest =>
    have hsame := ((groupingSafe_newest hnewest).mpr trivial).regroup hops
    rw [hsame.payload, hsame.version, fullMerge_newest hnewest]
    exact ⟨rfl, DataContext.version_apply _ _⟩
  | @stored ctx operands hpayload hversion hstale =>
    have hold : ∀ op ∈ operands, op.timestamp ≤ ((some ctx).getD .default).version := fun op hop =>
      (hstale op hop).trans_eq hversion.symm
    have hsame := (groupingSafe_stale hold).regroup hops
    rw [hsame.payload, hsame.version, fullMerge_stale hold]
    exact ⟨hpayload, hversion⟩

theorem reads (h : Marked t cell) {now : Nat} {record : Option (StorageApi.Record T)}
    (hreads : cell.Reads now record) : record = none := by
  cases hreads with
  | absent => rfl
  | merged _ hops => exact DataContext.readRecord_eq_none.mpr (.inr (h.fullMerge hops).1)

theorem merge (h : Marked t cell) {op : MergeOp T} (hop : op.timestamp ≤ t)
    (hstep : Step cell (.merge op) cell') : Marked t cell' := by
  cases hstep
  cases h with
  | @operand stored before after s hnewest =>
    rw [List.append_assoc, List.cons_append]
    refine .operand ⟨hnewest.start, hnewest.before, fun op' hmem => ?_⟩
    rcases List.mem_append.mp hmem with hmem | hmem
    · exact hnewest.after op' hmem
    · rw [List.mem_singleton.mp hmem]
      exact hop
  | stored hpayload hversion hstale =>
    refine .stored hpayload hversion fun op' hmem => ?_
    rcases List.mem_append.mp hmem with hmem | hmem
    · exact hstale op' hmem
    · rw [List.mem_singleton.mp hmem]
      exact hop

/-- A compaction that finds operands leaves the mark. One that finds none removes it. -/
theorem compact (h : Marked t cell) {clock : Nat × Nat} (hstep : Step cell (.compact clock) cell') :
    (cell.operands ≠ [] → Marked t cell') ∧ (cell.operands = [] → cell' = empty) := by
  cases hstep with
  | merges hne hops =>
    refine ⟨fun _ => ?_, fun hnil => absurd hnil hne⟩
    obtain ⟨hpayload, hversion⟩ := h.fullMerge hops
    exact .stored hpayload hversion fun _ hmem => absurd hmem List.not_mem_nil
  | @filters stored clock =>
    refine ⟨fun hne => absurd rfl hne, fun _ => ?_⟩
    obtain ⟨ctx, rfl, hpayload⟩ : ∃ ctx, stored = some ctx ∧ ctx.payload = .none := by
      generalize hcell : (⟨stored, []⟩ : Cell T) = cell at h
      cases h with
      | operand => simp at hcell
      | stored hpayload =>
        cases hcell
        exact ⟨_, rfl, hpayload⟩
    rw [Option.filter_some, filterInternal_of_payload_none hpayload]
    rfl

/-- The mark stays as long as there are no two compactions in a row. -/
theorem runs {events : List (Event T)} (h : Marked t cell)
    (hstale : ∀ op, .merge op ∈ events → op.timestamp ≤ t) (hevents : Unfiltered events)
    (hfirst : cell.operands = [] → ∀ event ∈ events.head?, event.isCompact = false)
    (hruns : Runs cell events cell') : Marked t cell' := by
  induction hruns with
  | nil => exact h
  | @cons cell next cell' event events hstep _ ih =>
    obtain ⟨hnext, hevents'⟩ := List.isChain_cons.mp hevents
    have hstale' : ∀ op, .merge op ∈ events → op.timestamp ≤ t := fun op hmem =>
      hstale op (List.mem_cons_of_mem event hmem)
    cases event with
    | merge op =>
      refine ih (h.merge (hstale op List.mem_cons_self) hstep) hstale' hevents' fun hnil => ?_
      cases hstep
      exact absurd hnil (List.append_ne_nil_of_right_ne_nil _ (List.cons_ne_nil _ _))
    | compact clock =>
      have hne : cell.operands ≠ [] := fun hnil => by cases hfirst hnil (.compact clock) rfl
      refine ih ((h.compact hstep).1 hne) hstale' hevents' fun _ event hmem => ?_
      exact Bool.eq_false_iff.mpr fun hcompact => hnext event hmem ⟨rfl, hcompact⟩

/-- The first of two compactions in a row leaves no operands, and the second removes the mark. -/
theorem runs_filtered {after : List (Event T)} {clocks : List (Nat × Nat)} {start : Cell T}
    (hafter : Unfiltered after) (hruns : Runs start after cell) (h : Marked t cell)
    (hfiltered : ¬ Unfiltered (after ++ clocks.map .compact))
    (hclocks : Runs cell (clocks.map .compact) cell') : cell' = empty := by
  have hsettled : ∀ {cell : Cell T} {clock : Nat × Nat} {clocks : List (Nat × Nat)}, Marked t cell →
      cell.operands = [] → Runs cell ((clock :: clocks).map .compact) cell' → cell' = empty := by
    intro cell clock clocks h hnil hruns
    obtain _ | ⟨hstep, hrest⟩ := hruns
    rw [(h.compact hstep).2 hnil] at hrest
    exact runs_empty hrest
  cases clocks with
  | nil =>
    rw [List.map_nil, List.append_nil] at hfiltered
    exact absurd hafter hfiltered
  | cons clock clocks =>
    by_cases hnil : cell.operands = []
    · exact hsettled h hnil hclocks
    · obtain _ | ⟨hstep, hrest⟩ := hclocks
      have hnext := (h.compact hstep).1 hnil
      cases clocks with
      | cons clock' clocks => exact hsettled hnext (operands_of_compact hstep) hrest
      | nil =>
        -- the operands show that the last event was not a compaction
        refine absurd (List.isChain_append.mpr ⟨hafter, List.isChain_singleton _, ?_⟩) hfiltered
        rintro event hlast _ _ ⟨hcompact, -⟩
        obtain ⟨before, rfl⟩ : ∃ before, after = before ++ [event] :=
          ⟨_, (List.dropLast_append_getLast? event hlast).symm⟩
        obtain ⟨_, _, hlaststep⟩ := runs_append.mp hruns
        rw [runs_singleton] at hlaststep
        cases event with
        | merge => cases hcompact
        | compact => exact hnil (operands_of_compact hlaststep)

end Marked

/-- A key into which a `Del` was merged that is newer than everything before it, and since then only
operands that are not newer, with no two compactions in a row. It is compacted and then sent a write
older than the `Del`. It surely reads as deleted exactly when there still were no two compactions in a
row, or the write is not a `Set` that is readable by itself. -/
theorem deletion_holds_iff {cell : Cell T} {s t : Nat} (hnewest : cell.OlderThan t)
    {after : List (Event T)} (hstale : ∀ op, .merge op ∈ after → op.timestamp ≤ t)
    (hafter : Unfiltered after) (clocks : List (Nat × Nat)) {late : MergeOp T}
    (hlate : late.timestamp < t) (now : Nat) :
    (∀ cell' record,
      Runs cell (.merge (.del s t) :: (after ++ clocks.map .compact) ++ [.merge late]) cell' →
      cell'.Reads now record → record = none) ↔
      Unfiltered (after ++ clocks.map .compact) ∨ ¬ ∃ value expiration,
        late.kind = .set value expiration ∧ now < expiration ∧ 0 < late.timestamp := by
  have hdeleted : ∀ {next : Cell T}, Step cell (.merge (.del s t)) next →
      Marked t next ∧ next.operands ≠ [] := by
    rintro next ⟨⟩
    exact ⟨.operand ⟨hnewest.1, hnewest.2, fun _ hmem => absurd hmem List.not_mem_nil⟩, by simp⟩
  constructor
  · intro h
    by_contra hnot
    obtain ⟨hfiltered, hset⟩ := not_or.mp hnot
    obtain ⟨next, hstep⟩ : ∃ next, Step cell (.merge (.del s t)) next := ⟨_, .merge⟩
    obtain ⟨hmarked, hne⟩ := hdeleted hstep
    obtain ⟨held, hheld⟩ := exists_runs next after
    obtain ⟨compacted, hcompacted⟩ := exists_runs held (clocks.map .compact)
    have hgone : compacted = empty :=
      Marked.runs_filtered hafter hheld
        (hmarked.runs hstale hafter (fun hnil => absurd hnil hne) hheld) hfiltered hcompacted
    subst hgone
    have hruns : Runs cell (.merge (.del s t) :: (after ++ clocks.map .compact) ++ [.merge late])
        ⟨none, [late]⟩ :=
      runs_append.mpr ⟨_, .cons hstep (runs_append.mpr ⟨held, hheld, hcompacted⟩),
        runs_singleton.mpr .merge⟩
    exact readRecord_fullMerge_none.mpr (not_not.mp hset)
      (h _ _ hruns (.merged (.inr (List.cons_ne_nil _ _)) .refl))
  · intro h cell' record hruns hreads
    obtain ⟨compacted, hevents, hlast⟩ := runs_append.mp hruns
    obtain _ | ⟨hstep, hrest⟩ := hevents
    obtain ⟨hmarked, hne⟩ := hdeleted hstep
    rw [runs_singleton] at hlast
    by_cases hunfiltered : Unfiltered (after ++ clocks.map .compact)
    · have hall : ∀ op, .merge op ∈ after ++ clocks.map Event.compact → op.timestamp ≤ t := by
        intro op hmem
        rcases List.mem_append.mp hmem with hmem | hmem
        · exact hstale op hmem
        · simp at hmem
      have hkept := hmarked.runs hall hunfiltered (fun hnil => absurd hnil hne) hrest
      exact (hkept.merge (Nat.le_of_lt hlate) hlast).reads hreads
    · obtain ⟨held, hheld, hclocks⟩ := runs_append.mp hrest
      have hkept := hmarked.runs hstale hafter (fun hnil => absurd hnil hne) hheld
      rw [Marked.runs_filtered hafter hheld hkept hunfiltered hclocks] at hlast
      cases hlast
      cases hreads with
      | absent => rfl
      | merged _ hops =>
        rw [hops.eq_singleton]
        exact not_ne_iff.mp (readRecord_fullMerge_none.not.mpr (h.resolve_left hunfiltered))

/-- One compaction only merges the mark of a deletion: a late `Set` is still stale. -/
theorem deletion_holds_compactedOnce :
    ∃ (cell : Cell Nat) (record : Option (StorageApi.Record Nat)),
      Runs ⟨none, [.set 1 200000 5]⟩
        [.merge (.del 100 10), .compact (200, 200000000), .merge (.set 1 200000 7)] cell ∧
      cell.Reads 300 record ∧ record = none := by
  have hruns : Runs (⟨none, [.set 1 200000 5]⟩ : Cell Nat)
      [.merge (.del 100 10), .compact (200, 200000000), .merge (.set 1 200000 7)]
      ⟨some (fullMerge none [.set 1 200000 5, .del 100 10]), [.set 1 200000 7]⟩ :=
    .cons .merge (.cons (.merges (List.cons_ne_nil _ _) .refl) (.cons .merge .nil))
  have hreads : Reads (⟨some (fullMerge none [.set 1 200000 5, .del 100 10]), [.set 1 200000 7]⟩ :
      Cell Nat) 300 _ := .merged (.inr (List.cons_ne_nil _ _)) .refl
  refine ⟨_, _, hruns, hreads, ?_⟩
  exact (@deletion_holds_iff Nat ⟨none, [.set 1 200000 5]⟩ 100 10 ⟨by decide, by decide⟩ []
    (by simp) .nil [(200, 200000000)] (.set 1 200000 7) (by decide) 300).mpr
    (.inl (List.isChain_singleton _)) _ _ hruns hreads

/-- A key is deleted at second 100, compacted twice by second 200 and sent an older `Set`: at second 300
it has a value again, long before the day is over. -/
theorem deletion_undone :
    ∃ cell : Cell Nat,
      Runs empty [.merge (.set 1 200000 5), .merge (.del 100 10), .compact (150, 150000000),
        .compact (200, 200000000), .merge (.set 1 200000 7)] cell ∧
      cell.Reads 300 (some ⟨1, 200000, 7⟩) := by
  refine ⟨⟨none, [.set 1 200000 7]⟩, ?_, .merged (.inr (List.cons_ne_nil _ _)) .refl⟩
  exact .cons .merge (.cons .merge (.cons (.merges (List.cons_ne_nil _ _) .refl)
    (.cons .filters (.cons .merge .nil))))

end Cell

end Storage
end Wcn
