import Wcn.Storage.Writes
import Mathlib.Data.List.Perm.Subperm
import Mathlib.Logic.Function.Basic

/-!
# Wcn.Storage.Migration

Export and import of a range of keys, as `crates/rocks/src/db/migration.rs` has them.

The exporter sends the record of every key it scans and then a `Done` item with their number.
The importer turns each record into one merge operand carrying the record's version, collects the
operands into batches of `importerBatchSize`, and succeeds only at a `Done` item whose count is
right. `Importer.step` is the body of its loop; `merged` is the invariant: the database with the
open batch written out holds exactly the frames seen so far.

`pull_keeps_iff` says when a pull brings the source's record to a destination that has already
received some of the writes.
-/

namespace Wcn
namespace Storage

open Lib

variable {K T : Type}

/-- The records of a database. A key here is a column family with the bytes of a key in it. -/
structure Database (K T : Type) where
  record : K → Option (DataContext T)

namespace Database

def empty : Database K T := ⟨fun _ => none⟩

variable [DecidableEq K]

def merge (db : Database K T) (key : K) (op : MergeOp T) : Database K T :=
  ⟨Function.update db.record key (some (fullMerge (db.record key) [op]))⟩

@[simp] theorem record_merge_self (db : Database K T) (key : K) (op : MergeOp T) :
    (db.merge key op).record key = some (fullMerge (db.record key) [op]) :=
  Function.update_self ..

theorem record_merge_of_ne {key k : K} (h : key ≠ k) (db : Database K T) (op : MergeOp T) :
    (db.merge key op).record k = db.record k :=
  Function.update_of_ne h.symm ..

/-- `RocksBackend::write_batch`, for a batch of merges. -/
def writeBatch (db : Database K T) (batch : List (K × MergeOp T)) : Database K T :=
  batch.foldl (fun db entry => db.merge entry.1 entry.2) db

end Database

/-- `none` stands for bytes that do not deserialize to a record. -/
structure ExportFrame (K T : Type) where
  key : K
  value : Option (DataContext T)

inductive ExportItem (K T : Type) where
  | frame (frame : Except String (ExportFrame K T))
  | done (n : Nat)

inductive ImportError where
  | streamErrored (e : String)
  | exporterErrored (e : String)
  | doneMismatch (n totalItemsProcessed : Nat)
  | doneMissing
  | deserialize
  | backend
  deriving DecidableEq, Repr

def importerBatchSize : Nat := 1024

/-- What the importing host adds, by the number of items processed so far: the local clock, and
whether a batch written there goes through. -/
structure Host where
  clock : Nat → Nat
  writes : Nat → Bool

structure Importer (K T : Type) where
  db : Database K T
  batch : List (K × MergeOp T)
  totalItemsProcessed : Nat
  itemsProcessed : Nat

/-- The importer waits for the next item, or has returned. -/
inductive Progress (K T : Type) where
  | running (s : Importer K T)
  | returned (db : Database K T) (res : Except ImportError Unit)

namespace Importer

variable [DecidableEq K]

def start (db : Database K T) : Importer K T := ⟨db, [], 0, 0⟩

/-- One turn of the loop of `RocksBackend::import_all`. -/
def step (host : Host) (s : Importer K T) : Except String (ExportItem K T) → Progress K T
  | .error e => .returned s.db (.error (.streamErrored e))
  | .ok (.frame (.error e)) => .returned s.db (.error (.exporterErrored e))
  | .ok (.done n) =>
    if n ≠ s.totalItemsProcessed then
      .returned s.db (.error (.doneMismatch n s.totalItemsProcessed))
    else if host.writes s.totalItemsProcessed then
      .returned (s.db.writeBatch s.batch) (.ok ())
    else
      .returned s.db (.error .backend)
  | .ok (.frame (.ok frame)) =>
    match frame.value with
    | none => .returned s.db (.error .deserialize)
    | some ctx =>
      let batch := s.batch ++ [(frame.key, ctx.toMergeOp (host.clock s.totalItemsProcessed))]
      if importerBatchSize ≤ s.itemsProcessed + 1 then
        -- the batch is full: write it out and start a new one
        if host.writes s.totalItemsProcessed then
          .running ⟨s.db.writeBatch batch, [], s.totalItemsProcessed + 1, 0⟩
        else
          .returned s.db (.error .backend)
      else
        .running ⟨s.db, batch, s.totalItemsProcessed + 1, s.itemsProcessed + 1⟩

/-- `RocksBackend::import_all`, with the database it leaves behind. -/
def importAll (host : Host) (s : Importer K T) :
    List (Except String (ExportItem K T)) → Database K T × Except ImportError Unit
  | [] => (s.db, .error .doneMissing)
  | item :: items =>
    match s.step host item with
    | .running s' => s'.importAll host items
    | .returned db res => (db, res)

/-- The database once the open batch is written. -/
def merged (s : Importer K T) : Database K T := s.db.writeBatch s.batch

end Importer

/-- The records the exporter finds under `keys`, the keys of the range in iterator order. -/
def scan (db : Database K T) (keys : List K) : List (K × DataContext T) :=
  keys.filterMap fun key => (db.record key).map (key, ·)

def frameItem (entry : K × DataContext T) : ExportItem K T :=
  .frame (.ok ⟨entry.1, some entry.2⟩)

/-- `RocksBackend::export`, when the iterators do not fail. -/
def exportAll (db : Database K T) (keys : List K) : List (ExportItem K T) :=
  (scan db keys).map frameItem ++ [.done (scan db keys).length]

/-! ## Batches -/

/-- The operands of a batch for one key. -/
def opsFor [DecidableEq K] (k : K) (batch : List (K × MergeOp T)) : List (MergeOp T) :=
  (batch.filter (·.1 = k)).map (·.2)

/-- What operands leave of a record, or of no record. -/
def mergeOps (record : Option (DataContext T)) : List (MergeOp T) → Option (DataContext T)
  | [] => record
  | op :: ops => some (fullMerge record (op :: ops))

section Batch

variable [DecidableEq K]

theorem writeBatch_append (db : Database K T) (b₁ b₂ : List (K × MergeOp T)) :
    db.writeBatch (b₁ ++ b₂) = (db.writeBatch b₁).writeBatch b₂ := by
  simp [Database.writeBatch, List.foldl_append]

/-- A batch acts on each key separately. -/
theorem record_writeBatch (db : Database K T) (k : K) (batch : List (K × MergeOp T)) :
    (db.writeBatch batch).record k = mergeOps (db.record k) (opsFor k batch) := by
  induction batch generalizing db with
  | nil => rfl
  | cons entry batch ih =>
    obtain ⟨key, op⟩ := entry
    have hcons : db.writeBatch ((key, op) :: batch) = (db.merge key op).writeBatch batch := rfl
    rw [hcons, ih]
    by_cases hk : key = k
    · subst hk
      have hops : opsFor key ((key, op) :: batch) = op :: opsFor key batch := by
        simp [opsFor]
      rw [Database.record_merge_self, hops]
      cases opsFor key batch with
      | nil => rfl
      | cons op' ops => rfl
    · have hops : opsFor k ((key, op) :: batch) = opsFor k batch := by
        simp [opsFor, hk]
      rw [Database.record_merge_of_ne hk, hops]

end Batch

/-! ## The importer -/

/-- The operands that frames are imported as, from the `start`-th processed item on. -/
def frameOps (host : Host) (start : Nat) :
    List (K × DataContext T) → List (K × MergeOp T)
  | [] => []
  | entry :: frames =>
    (entry.1, entry.2.toMergeOp (host.clock start)) :: frameOps host (start + 1) frames

section Importer

variable [DecidableEq K] {host : Host} {s s' : Importer K T}

/-- What one turn can do: take in a readable frame, return `Ok` at a `Done` with the right count once the
open batch is written, or return an error with the open batch dropped. -/
theorem Importer.step_cases (host : Host) (s : Importer K T)
    (item : Except String (ExportItem K T)) :
    (∃ key ctx s', item = .ok (frameItem (key, ctx)) ∧ s.step host item = .running s' ∧
      s'.totalItemsProcessed = s.totalItemsProcessed + 1 ∧
      s'.merged = s.merged.writeBatch [(key, ctx.toMergeOp (host.clock s.totalItemsProcessed))] ∧
      (s'.db = s.db ∨ s'.db = s'.merged)) ∨
    (item = .ok (.done s.totalItemsProcessed) ∧ s.step host item = .returned s.merged (.ok ())) ∨
    ∃ e, s.step host item = .returned s.db (.error e) := by
  cases item with
  | error e => exact .inr (.inr ⟨_, rfl⟩)
  | ok item =>
    cases item with
    | done n =>
      simp only [step]
      split
      · exact .inr (.inr ⟨_, rfl⟩)
      · next hn =>
        split
        · exact .inr (.inl ⟨by rw [not_not.mp hn], rfl⟩)
        · exact .inr (.inr ⟨_, rfl⟩)
    | frame res =>
      cases res with
      | error e => exact .inr (.inr ⟨_, rfl⟩)
      | ok frame =>
        obtain ⟨key, value⟩ := frame
        cases value with
        | none => exact .inr (.inr ⟨_, rfl⟩)
        | some ctx =>
          simp only [step]
          split
          · split
            · refine .inl ⟨key, ctx, _, rfl, rfl, rfl, ?_, .inr rfl⟩
              simp [merged, Database.writeBatch]
            · exact .inr (.inr ⟨_, rfl⟩)
          · refine .inl ⟨key, ctx, _, rfl, rfl, rfl, ?_, .inl rfl⟩
            simp [merged, writeBatch_append]

/-- A turn that keeps the loop running took in one readable frame. The database changes by whole
batches only. -/
theorem Importer.step_running {item : Except String (ExportItem K T)}
    (h : s.step host item = .running s') :
    ∃ key ctx, item = .ok (frameItem (key, ctx)) ∧
      s'.totalItemsProcessed = s.totalItemsProcessed + 1 ∧
      s'.merged = s.merged.writeBatch [(key, ctx.toMergeOp (host.clock s.totalItemsProcessed))] ∧
      (s'.db = s.db ∨ s'.db = s'.merged) := by
  obtain ⟨key, ctx, t, hitem, hstep, hrest⟩ | ⟨-, hstep⟩ | ⟨e, hstep⟩ := step_cases host s item
  · rw [hstep] at h
    cases h
    exact ⟨key, ctx, hitem, hrest⟩
  · rw [hstep] at h
    cases h
  · rw [hstep] at h
    cases h

/-- A turn that returns `Ok` saw a `Done` with the right count and wrote the open batch. -/
theorem Importer.step_ok {item : Except String (ExportItem K T)} {db : Database K T}
    (h : s.step host item = .returned db (.ok ())) :
    item = .ok (.done s.totalItemsProcessed) ∧ db = s.merged := by
  obtain ⟨key, ctx, t, hitem, hstep, hrest⟩ | ⟨hitem, hstep⟩ | ⟨e, hstep⟩ := step_cases host s item
  · rw [hstep] at h
    cases h
  · rw [hstep] at h
    cases h
    exact ⟨hitem, rfl⟩
  · rw [hstep] at h
    cases h

/-- `import_all` succeeds only on frames followed by a `Done` with their number, and then it has
merged all of them. -/
theorem Importer.importAll_ok {items : List (Except String (ExportItem K T))} {db : Database K T}
    (h : s.importAll host items = (db, .ok ())) :
    ∃ frames rest,
      items = frames.map (.ok ∘ frameItem) ++
        .ok (.done (s.totalItemsProcessed + frames.length)) :: rest ∧
      db = s.merged.writeBatch (frameOps host s.totalItemsProcessed frames) := by
  induction items generalizing s with
  | nil => cases h
  | cons item items ih =>
    simp only [importAll] at h
    cases hs : s.step host item with
    | running s' =>
      rw [hs] at h
      obtain ⟨key, ctx, rfl, htotal, hmerged, -⟩ := step_running hs
      obtain ⟨frames, rest, rfl, rfl⟩ := ih h
      refine ⟨(key, ctx) :: frames, rest, ?_, ?_⟩
      · simp [htotal, Nat.add_assoc, Nat.add_comm 1]
      · rw [hmerged, ← writeBatch_append, htotal]
        rfl
    | returned db' res =>
      rw [hs] at h
      cases h
      obtain ⟨rfl, rfl⟩ := step_ok hs
      exact ⟨[], items, by simp, rfl⟩

/-- While batches go through, a readable frame keeps the loop running. -/
theorem Importer.step_frame (hw : ∀ i, host.writes i = true) (s : Importer K T)
    (entry : K × DataContext T) :
    ∃ s', s.step host (.ok (frameItem entry)) = .running s' := by
  simp only [step, frameItem]
  split
  · exact ⟨_, by rw [if_pos (hw _)]⟩
  · exact ⟨_, rfl⟩

/-- While batches go through, an exported stream is imported. Nothing after `Done` is looked at. -/
theorem Importer.importAll_frames (hw : ∀ i, host.writes i = true)
    (frames : List (K × DataContext T)) (rest : List (Except String (ExportItem K T)))
    (s : Importer K T) :
    s.importAll host (frames.map (.ok ∘ frameItem) ++
        .ok (.done (s.totalItemsProcessed + frames.length)) :: rest) =
      (s.merged.writeBatch (frameOps host s.totalItemsProcessed frames), .ok ()) := by
  induction frames generalizing s with
  | nil => simp [importAll, step, hw, merged, frameOps, Database.writeBatch]
  | cons entry frames ih =>
    obtain ⟨key, ctx⟩ := entry
    obtain ⟨s', hs⟩ := step_frame hw s (key, ctx)
    obtain ⟨_, _, hitem, htotal, hmerged, -⟩ := step_running hs
    cases hitem
    have hlen : s.totalItemsProcessed + ((key, ctx) :: frames).length =
        s'.totalItemsProcessed + frames.length := by
      rw [htotal, List.length_cons]
      omega
    simp only [List.map_cons, List.cons_append, Function.comp_apply, importAll, hs]
    rw [hlen, ih, hmerged, ← writeBatch_append, htotal]
    rfl

/-- A stream that ends or fails after some frames: what is left in the database is a part of these
frames, from the first one on. -/
theorem Importer.importAll_partial (host : Host) {tail : List (Except String (ExportItem K T))}
    (htail : ∀ entry rest, tail ≠ .ok (frameItem entry) :: rest) (frames : List (K × DataContext T))
    (s : Importer K T) :
    (s.importAll host (frames.map (.ok ∘ frameItem) ++ tail)).1 = s.db ∨
    ∃ done, done <+: frames ∧ (s.importAll host (frames.map (.ok ∘ frameItem) ++ tail)).1 =
      s.merged.writeBatch (frameOps host s.totalItemsProcessed done) := by
  induction frames generalizing s with
  | nil =>
    cases tail with
    | nil => exact .inl rfl
    | cons item tail =>
      rw [List.map_nil, List.nil_append, importAll]
      obtain ⟨key, ctx, s', rfl, -⟩ | ⟨-, hstep⟩ | ⟨e, hstep⟩ := step_cases host s item
      · exact absurd rfl (htail (key, ctx) tail)
      · rw [hstep]
        exact .inr ⟨[], List.prefix_refl [], rfl⟩
      · rw [hstep]
        exact .inl rfl
  | cons entry frames ih =>
    obtain ⟨key, ctx⟩ := entry
    rw [List.map_cons, List.cons_append, importAll]
    obtain ⟨_, _, s', hitem, hstep, htotal, hmerged, hdb⟩ | ⟨hitem, -⟩ | ⟨e, hstep⟩ :=
      step_cases host s ((.ok ∘ frameItem) (key, ctx))
    · cases hitem
      have hone : ∀ done, s'.merged.writeBatch (frameOps host s'.totalItemsProcessed done) =
          s.merged.writeBatch (frameOps host s.totalItemsProcessed ((key, ctx) :: done)) :=
        fun done => by
          rw [hmerged, ← writeBatch_append, htotal]
          rfl
      rw [hstep]
      dsimp only
      rcases ih s' with hkept | ⟨done, hdone, hrun⟩
      · rw [hkept]
        refine hdb.imp_right fun hfull => ⟨[(key, ctx)], ?_, ?_⟩
        · exact List.prefix_append [(key, ctx)] frames
        · rw [hfull, ← hone]
          rfl
      · exact .inr ⟨(key, ctx) :: done, (List.prefix_cons_inj _).mpr hdone, hrun.trans (hone done)⟩
    · cases hitem
    · rw [hstep]
      exact .inl rfl

end Importer

/-! ## Pulling a range -/

/-- A database that started empty, after the given writes arrived at it. -/
def applyWrites [DecidableEq K] (log : List (K × Delivery T)) : Database K T :=
  Database.empty.writeBatch (log.map fun entry => (entry.1, entry.2.mergeOp))

def deliveriesFor [DecidableEq K] (k : K) (log : List (K × Delivery T)) : List (Delivery T) :=
  (log.filter (·.1 = k)).map (·.2)

def writesFor [DecidableEq K] (k : K) (log : List (K × Delivery T)) : List (Write T) :=
  (deliveriesFor k log).map Delivery.write

/-- The records agree on the version, on whether there is a value and which, and on its
expiration if there is one. -/
def SameValue : Option (DataContext T) → Option (DataContext T) → Prop
  | none, none => True
  | some a, some b =>
    a.payload = b.payload ∧ a.version = b.version ∧ (b.payload ≠ .none → a.expires = b.expires)
  | _, _ => False

section Pull

variable [DecidableEq K]

theorem record_applyWrites (log : List (K × Delivery T)) (k : K) :
    (applyWrites log).record k = mergeOps none ((deliveriesFor k log).map Delivery.mergeOp) := by
  have hops : opsFor k (log.map fun entry => (entry.1, entry.2.mergeOp)) =
      (deliveriesFor k log).map Delivery.mergeOp := by
    induction log with
    | nil => rfl
    | cons entry log ih =>
      obtain ⟨key, d⟩ := entry
      by_cases hk : key = k
      · simpa [opsFor, deliveriesFor, hk] using ih
      · simpa [opsFor, deliveriesFor, hk] using ih
  rw [applyWrites, record_writeBatch, hops]
  rfl

/-- The frames of a scan hold at most one operand for a key, made from its record. -/
theorem opsFor_scan (host : Host) (db : Database K T) (k : K) {keys : List K} (hnd : keys.Nodup)
    (start : Nat) :
    ∃ now, opsFor k (frameOps host start (scan db keys)) =
      if k ∈ keys then ((db.record k).map fun ctx => ctx.toMergeOp now).toList else [] := by
  induction keys generalizing start with
  | nil => exact ⟨0, by simp [scan, frameOps, opsFor]⟩
  | cons key keys ih =>
    obtain ⟨hnot, hnd⟩ := List.nodup_cons.mp hnd
    cases hdb : db.record key with
    | none =>
      obtain ⟨now, hnow⟩ := ih hnd start
      refine ⟨now, ?_⟩
      have hscan : scan db (key :: keys) = scan db keys := by simp [scan, hdb]
      rw [hscan, hnow]
      by_cases hk : k = key
      · subst hk
        simp [hnot, hdb]
      · simp [hk]
    | some ctx =>
      obtain ⟨now, hnow⟩ := ih hnd (start + 1)
      have hscan : scan db (key :: keys) = (key, ctx) :: scan db keys := by simp [scan, hdb]
      rw [hscan]
      by_cases hk : k = key
      · subst hk
        refine ⟨host.clock start, ?_⟩
        have hnil : opsFor k (frameOps host (start + 1) (scan db keys)) = [] := by
          rw [hnow, if_neg hnot]
        simpa [frameOps, opsFor, hdb] using hnil
      · refine ⟨now, ?_⟩
        have hne : key ≠ k := fun h => hk h.symm
        simpa [frameOps, opsFor, hne, hk] using hnow

/-- An import that finds a record of the source's version changes nothing; otherwise the source's
record gets through. -/
theorem import_record {S : WriteSet T} {source shadow : List (Delivery T)} {m : Write T}
    (hm : IsNewest m S.writes) (hlate : ¬ LateSetExp S.writes)
    (hsource : source.map Delivery.write = S.writes)
    (hshadow : ∀ d ∈ shadow, d.write ∈ S.writes) (now : Nat) :
    SameValue (some ((replica shadow).merge ((replica source).toMergeOp now)))
      (some (replica source)) := by
  have hsrc : ∀ d ∈ source, d.write ∈ S.writes :=
    fun d hd => hsource ▸ List.mem_map_of_mem hd
  obtain ⟨b, d, rfl, hb, -, heq⟩ := replica_newest hm hsrc (hsource ▸ hm.1)
  have hversion : (replica source).version = d.write.timestamp := by rw [heq]; simp
  by_cases hmem : d.write ∈ shadow.map Delivery.write
  · -- the newest write was shadowed: the import is stale
    obtain ⟨b', d', hd', hb', -, heq'⟩ := replica_newest hm hshadow hmem
    have hstale : ((replica source).toMergeOp now).timestamp ≤ (replica shadow).version := by
      rw [DataContext.toMergeOp_timestamp, hversion, heq']
      simp [hd']
    rw [DataContext.merge_stale hstale, heq, heq']
    refine ⟨payload_apply hd' fun hexp => ?_, by simp [hd'], fun hvalue => expires_apply hd' ?_⟩
    · have hnoset : ∀ w ∈ S.writes, w.kind.isSet = false := by
        intro w hw
        by_contra hset
        exact hlate ⟨⟨d.write, hm, by rw [← hd']; exact hexp⟩, w, hw, by simpa using hset⟩
      rw [replica_no_set fun x hx => hnoset _ (hshadow x (hb' x hx)),
        replica_no_set fun x hx => hnoset _ (hsrc x (hb x hx))]
    · -- a `Del` leaves no value behind
      rw [hd']
      by_contra hdel
      obtain ⟨⟨kind, ts⟩, at_⟩ := d
      cases kind with
      | set v e => simp [WriteKind.isDel] at hdel
      | setExp e => simp [WriteKind.isDel] at hdel
      | del => simp [Delivery.mergeOp, MergeOp.del, DataContext.apply] at hvalue
  · -- everything shadowed is older than the newest write: the import gets through
    have hlt : (replica shadow).version < ((replica source).toMergeOp now).timestamp := by
      rw [DataContext.toMergeOp_timestamp, hversion, version_replica]
      refine latest_lt _ (S.positive _ hm.1) fun x hx => ?_
      refine Nat.lt_of_le_of_ne (hm.2 _ (hshadow x hx)) fun hts => hmem ?_
      rw [← hm.unique (hshadow x hx) (Nat.le_of_eq hts.symm)]
      exact List.mem_map_of_mem hx
    rw [DataContext.merge_fresh hlt]
    refine ⟨?_, by simp, fun hvalue => ?_⟩
    · cases hp : (replica source).payload with
      | none => simp [DataContext.toMergeOp, hp, MergeOp.del, DataContext.apply]
      | some v => simp [DataContext.toMergeOp, hp, MergeOp.set, DataContext.apply]
    · cases hp : (replica source).payload with
      | none => exact absurd hp hvalue
      | some v => simp [DataContext.toMergeOp, hp, MergeOp.set, DataContext.apply]

/-- A pull of a range holding `k`, into a destination that received `shadow`. -/
theorem pull_record (history shadow : List (K × Delivery T)) {keys : List K} {k : K} (host : Host)
    (hw : ∀ i, host.writes i = true) (hnd : keys.Nodup) (hk : k ∈ keys) :
    ∃ db now, (Importer.start (applyWrites shadow)).importAll host
        ((exportAll (applyWrites history) keys).map .ok) = (db, .ok ()) ∧
      db.record k = mergeOps ((applyWrites shadow).record k)
        (((applyWrites history).record k).map fun ctx => ctx.toMergeOp now).toList := by
  obtain ⟨now, hops⟩ := opsFor_scan host (applyWrites history) k hnd 0
  have himport := Importer.importAll_frames hw (scan (applyWrites history) keys) []
    (Importer.start (applyWrites shadow))
  have hitems : (exportAll (applyWrites history) keys).map .ok =
      (scan (applyWrites history) keys).map ((.ok : _ → Except String _) ∘ frameItem) ++
        [.ok (.done ((Importer.start (applyWrites shadow)).totalItemsProcessed +
          (scan (applyWrites history) keys).length))] := by
    simp [exportAll, Importer.start]
  refine ⟨_, now, by rw [hitems]; exact himport, ?_⟩
  rw [if_pos hk] at hops
  rw [record_writeBatch, ← hops]
  rfl

theorem mergeOps_import {source shadow : List (Delivery T)} (h : source ≠ []) (now : Nat) :
    mergeOps (mergeOps none (shadow.map Delivery.mergeOp))
        (((mergeOps none (source.map Delivery.mergeOp)).map fun ctx => ctx.toMergeOp now).toList) =
      some ((replica shadow).merge ((replica source).toMergeOp now)) := by
  cases source with
  | nil => exact absurd rfl h
  | cons d source =>
    cases shadow with
    | nil => rfl
    | cons d' shadow => rfl

/-- A pull that had to bring `k` over, into every destination that received some of the writes on
`k` before: it succeeds, and the destination then agrees with the source about `k`. -/
def PullKeeps (history : List (K × Delivery T)) (k : K) : Prop :=
  ∀ (shadow : List (K × Delivery T)) (keys : List K) (host : Host),
    (writesFor k shadow).Subperm (writesFor k history) → keys.Nodup → k ∈ keys →
    (∀ i, host.writes i = true) →
    ∃ db, (Importer.start (applyWrites shadow)).importAll host
        ((exportAll (applyWrites history) keys).map .ok) = (db, .ok ()) ∧
      SameValue (db.record k) ((applyWrites history).record k)

theorem pullKeeps_of_not_late {history : List (K × Delivery T)} {k : K} {S : WriteSet T}
    (hS : writesFor k history = S.writes) (hlate : ¬ LateSetExp S.writes) :
    PullKeeps history k := by
  intro shadow keys host hsub hnd hk hw
  obtain ⟨db, now, himport, hdb⟩ := pull_record history shadow host hw hnd hk
  refine ⟨db, himport, ?_⟩
  rw [hdb, record_applyWrites, record_applyWrites]
  have hshadow : ∀ d ∈ deliveriesFor k shadow, d.write ∈ S.writes := fun d hd =>
    hS ▸ hsub.subset (List.mem_map_of_mem hd)
  by_cases hsrc : deliveriesFor k history = []
  · -- nothing was written to the source, so nothing was shadowed either
    have hwrites : S.writes = [] := by rw [← hS, writesFor, hsrc, List.map_nil]
    have hnil : deliveriesFor k shadow = [] := List.eq_nil_iff_forall_not_mem.mpr fun d hd => by
      simpa [hwrites] using hshadow d hd
    rw [hsrc, hnil]
    trivial
  · have hne : S.writes ≠ [] := by
      rw [← hS, writesFor]
      simpa using hsrc
    obtain ⟨m, hm⟩ := exists_isNewest hne
    rw [mergeOps_import hsrc]
    have hkeep := import_record hm hlate hS hshadow now
    cases hd : deliveriesFor k history with
    | nil => exact absurd hd hsrc
    | cons d ds => rw [hd] at hkeep; exact hkeep

/-- Shadowing writes that end with the newest one fixes the destination's record. -/
theorem PullKeeps.payload_shadow {history : List (K × Delivery T)} {k : K} {S : WriteSet T}
    (h : PullKeeps history k) (hS : writesFor k history = S.writes) {m : Write T}
    (hm : IsNewest m S.writes) (ds : List (Delivery T))
    (hsub : (ds.map Delivery.write).Subperm S.writes) (hmem : m ∈ ds.map Delivery.write) :
    (replica ds).payload = (replica (deliveriesFor k history)).payload := by
  have hfor : deliveriesFor k (ds.map (k, ·)) = ds := by
    simp [deliveriesFor, List.filter_map, Function.comp_def]
  have hsrc : deliveriesFor k history ≠ [] := by
    intro hnil
    have hmem := hm.1
    rw [← hS, writesFor, hnil] at hmem
    cases hmem
  have hhist : ∀ d ∈ deliveriesFor k history, d.write ∈ S.writes :=
    fun d hd => hS ▸ List.mem_map_of_mem hd
  have hw : ∀ i, (⟨fun _ => 0, fun _ => true⟩ : Host).writes i = true := fun _ => rfl
  obtain ⟨db, himport, hsame⟩ := h (ds.map (k, ·)) [k] ⟨fun _ => 0, fun _ => true⟩
    (by rw [hS, writesFor, hfor]; exact hsub) (by simp) (by simp) hw
  obtain ⟨db', now, himport', hdb⟩ := pull_record history (ds.map (k, ·)) _ hw
    (List.nodup_singleton k) (List.mem_singleton_self k)
  rw [himport] at himport'
  cases himport'
  rw [hdb, record_applyWrites, record_applyWrites, hfor, mergeOps_import hsrc] at hsame
  -- both ends hold the newest write, so the import is stale
  obtain ⟨b, d, hd, -, -, heq⟩ := replica_newest hm
    (fun d hd => hsub.subset (List.mem_map_of_mem hd)) hmem
  obtain ⟨b', d', hd', -, -, heq'⟩ := replica_newest hm hhist (by rw [← writesFor, hS]; exact hm.1)
  have hstale : ((replica (deliveriesFor k history)).toMergeOp now).timestamp ≤
      (replica ds).version := by
    rw [DataContext.toMergeOp_timestamp, heq, heq']
    simp [hd, hd']
  rw [DataContext.merge_stale hstale] at hsame
  cases hl : deliveriesFor k history with
  | nil => exact absurd hl hsrc
  | cons x xs => rw [hl] at hsame; exact hsame.1

theorem not_late_of_pullKeeps {history : List (K × Delivery T)} {k : K} {S : WriteSet T}
    (hS : writesFor k history = S.writes) (h : PullKeeps history k) : ¬ LateSetExp S.writes := by
  rintro ⟨⟨m, hm, hexp⟩, w, hw, hset⟩
  have hne : w ≠ m := by
    rintro rfl
    cases hk : w.kind <;> simp [hk, WriteKind.isSet, WriteKind.isSetExp] at hset hexp
  have hlt : w.timestamp < m.timestamp := by
    refine Nat.lt_of_le_of_ne (hm.2 w hw) fun hts => hne (hm.unique hw (Nat.le_of_eq hts.symm))
  -- shadowing the `SetExp` alone leaves no value, shadowing the `Set` before it leaves one
  have hnone := h.payload_shadow hS hm [⟨m, 0⟩]
    (List.subperm_of_subset (by simp) (by simpa using hm.1)) (by simp)
  have hsome := h.payload_shadow hS hm [⟨w, 0⟩, ⟨m, 0⟩]
    (List.subperm_of_subset (by simpa using hne) (by simpa using ⟨hw, hm.1⟩)) (by simp)
  have hpos := S.positive w hw
  obtain ⟨km, tm⟩ := m
  obtain ⟨kw, tw⟩ := w
  cases km <;> cases hexp
  cases kw <;> cases hset
  rw [← hnone] at hsome
  simp only at hlt hpos
  simp [replica, fullMerge, Delivery.mergeOp, MergeOp.set, MergeOp.setExp, DataContext.merge,
    DataContext.version, DataContext.apply, DataContext.default, Nat.not_le.mpr hlt,
    Nat.pos_iff_ne_zero.mp hpos, show tm ≠ 0 by omega] at hsome

/-- A pull brings a key over, whatever part of its writes the destination has already seen,
exactly when the key's newest write is not a `SetExp` or nothing ever set a value. -/
theorem pull_keeps_iff (history : List (K × Delivery T)) (k : K)
    (hdistinct : ((writesFor k history).map Write.timestamp).Nodup)
    (hpositive : ∀ w ∈ writesFor k history, 0 < w.timestamp) :
    PullKeeps history k ↔ ¬ LateSetExp (writesFor k history) :=
  let S : WriteSet T := ⟨writesFor k history, hdistinct, hpositive⟩
  ⟨not_late_of_pullKeeps (S := S) rfl, pullKeeps_of_not_late (S := S) rfl⟩

/-- A key whose writes end with a `Set`, pulled over. -/
theorem pull_keeps_set :
    PullKeeps [((), (⟨⟨.del, 5⟩, 1⟩ : Delivery Nat)), ((), ⟨⟨.set 1 50, 9⟩, 2⟩)] () ↔
      ¬ LateSetExp (writesFor () [((), (⟨⟨.del, 5⟩, 1⟩ : Delivery Nat)), ((), ⟨⟨.set 1 50, 9⟩, 2⟩)]) :=
  pull_keeps_iff _ () (by decide) (by decide)

/-- The source holds a value; a destination that saw only the later `SetExp` drops the imported
record as stale and ends up without one. -/
theorem pull_loses_value :
    ∃ db, (Importer.start (applyWrites [((), (⟨⟨.setExp 60, 10⟩, 0⟩ : Delivery Nat))])).importAll
        ⟨fun _ => 0, fun _ => true⟩
        ((exportAll (applyWrites [((), (⟨⟨.set 1 50, 5⟩, 0⟩ : Delivery Nat)),
          ((), ⟨⟨.setExp 60, 10⟩, 0⟩)]) [()]).map .ok) = (db, .ok ()) ∧
      (db.record ()).map DataContext.payload = some .none ∧
      ((applyWrites [((), (⟨⟨.set 1 50, 5⟩, 0⟩ : Delivery Nat)),
        ((), ⟨⟨.setExp 60, 10⟩, 0⟩)]).record ()).map DataContext.payload = some (.some 1) :=
  ⟨_, rfl, rfl, rfl⟩

end Pull

end Storage
end Wcn
