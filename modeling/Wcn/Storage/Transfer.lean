import Wcn.Storage.Compaction
import Wcn.Storage.Export

/-!
# Wcn.Storage.Transfer

What an import leaves behind, over all attempts it takes.

* An import succeeds on frames followed by a `Done` with their number, and has merged each frame once.
* An attempt that ends early leaves a part of the frames merged. Merging them again does nothing: an
  imported record carries its version, and only the time until which the mark of a deletion stays
  depends on the clock (`SameValue`).
* A record that was written has a version above that of a missing record, so an import into an empty
  database takes it over.
-/

namespace Wcn
namespace Storage

open Lib

variable {K T : Type}

/-! ## Records that read the same -/

theorem SameValue.refl (record : Option (DataContext T)) : SameValue record record := by
  cases record with
  | none => trivial
  | some ctx => exact ⟨rfl, rfl, fun _ => rfl⟩

theorem SameValue.trans {a b c : Option (DataContext T)} (h : SameValue a b) (h' : SameValue b c) :
    SameValue a c := by
  cases a <;> cases b <;> cases c
  case some.some.some a b c =>
    obtain ⟨hpayload, hversion, hexpires⟩ := h
    obtain ⟨hpayload', hversion', hexpires'⟩ := h'
    refine ⟨hpayload.trans hpayload', hversion.trans hversion', fun hvalue => ?_⟩
    exact (hexpires (hpayload' ▸ hvalue)).trans (hexpires' hvalue)
  all_goals trivial

theorem SameValue.readRecord {a b : DataContext T} (h : SameValue (some a) (some b)) (now : Nat) :
    a.readRecord now = b.readRecord now := by
  obtain ⟨hpayload, hversion, hexpires⟩ := h
  by_cases hvalue : b.payload = .none
  · rw [DataContext.readRecord_eq_none.mpr (.inr (hpayload.trans hvalue)),
      DataContext.readRecord_eq_none.mpr (.inr hvalue)]
  · rw [DataContext.readRecord, DataContext.readRecord, DataContext.intoPayload,
      DataContext.intoPayload, DataContext.expired, DataContext.expired, hpayload, hversion,
      hexpires hvalue]

/-- A record imported at two readings of the clock, into records that read the same. -/
theorem SameValue.fullMerge {a b : Option (DataContext T)} (h : SameValue a b) (ctx : DataContext T)
    (now now' : Nat) :
    SameValue (some (fullMerge a [ctx.toMergeOp now])) (some (fullMerge b [ctx.toMergeOp now'])) := by
  have hdefault : SameValue (some (a.getD .default)) (some (b.getD .default)) := by
    cases a <;> cases b
    case none.none => exact .refl _
    case some.some => exact h
    all_goals exact h.elim
  obtain ⟨hpayload, hversion, hexpires⟩ := hdefault
  rcases Nat.lt_or_ge (b.getD .default).version ctx.version with hlt | hle
  · have hfresh : (a.getD .default).version < (ctx.toMergeOp now).timestamp := by
      rwa [DataContext.toMergeOp_timestamp, hversion]
    have hfresh' : (b.getD .default).version < (ctx.toMergeOp now').timestamp := by
      rwa [DataContext.toMergeOp_timestamp]
    rw [Storage.fullMerge, Storage.fullMerge, List.foldl_cons, List.foldl_cons,
      DataContext.merge_fresh hfresh, DataContext.merge_fresh hfresh']
    cases hctx : ctx.payload with
    | none =>
      simp [SameValue, DataContext.toMergeOp, hctx, DataContext.apply, MergeOp.del,
        DataContext.version]
    | some value =>
      simp [SameValue, DataContext.toMergeOp, hctx, DataContext.apply, MergeOp.set,
        DataContext.version]
  · have hstale : (ctx.toMergeOp now).timestamp ≤ (a.getD .default).version := by
      rwa [DataContext.toMergeOp_timestamp, hversion]
    have hstale' : (ctx.toMergeOp now').timestamp ≤ (b.getD .default).version := by
      rwa [DataContext.toMergeOp_timestamp]
    rw [Storage.fullMerge, Storage.fullMerge, List.foldl_cons, List.foldl_cons,
      DataContext.merge_stale hstale, DataContext.merge_stale hstale']
    exact ⟨hpayload, hversion, hexpires⟩

def SameReads (db db' : Database K T) : Prop := ∀ key, SameValue (db.record key) (db'.record key)

theorem SameReads.get {db db' : Database K T} (h : SameReads db db') (now : Nat) (key : K) :
    db.get now key = db'.get now key := by
  have hkey := h key
  rw [Database.get, Database.get]
  generalize db.record key = record at hkey ⊢
  generalize db'.record key = record' at hkey ⊢
  cases record <;> cases record'
  case none.none => rfl
  case some.some a b => exact hkey.readRecord now
  all_goals exact hkey.elim

/-! ## Attempts -/

section Attempts

variable [DecidableEq K]

/-- The same frames, imported at different times. -/
theorem SameReads.writeBatch {db db' : Database K T} (h : SameReads db db') (host host' : Host)
    (start start' : Nat) (frames : List (K × DataContext T)) :
    SameReads (db.writeBatch (frameOps host start frames))
      (db'.writeBatch (frameOps host' start' frames)) := by
  induction frames generalizing db db' start start' with
  | nil => exact h
  | cons entry frames ih =>
    obtain ⟨key, ctx⟩ := entry
    refine ih (fun k => ?_) (start + 1) (start' + 1)
    by_cases hk : key = k
    · subst hk
      rw [Database.record_merge_self, Database.record_merge_self]
      exact (h key).fullMerge ctx _ _
    · rw [Database.record_merge_of_ne hk, Database.record_merge_of_ne hk]
      exact h k

theorem opsFor_append (key : K) (b b' : List (K × MergeOp T)) :
    opsFor key (b ++ b') = opsFor key b ++ opsFor key b' := by
  rw [opsFor, List.filter_append, List.map_append]
  rfl

theorem mergeOps_replay (record : Option (DataContext T)) (done rest : List (MergeOp T)) :
    mergeOps (mergeOps record done) (done ++ rest) = mergeOps record (done ++ rest) := by
  cases done with
  | nil => rfl
  | cons op done =>
    exact congrArg some (DataContext.latest_context.foldl_replay (op :: done) rest _)

theorem writeBatch_replay (db : Database K T) (done rest : List (K × MergeOp T)) :
    (db.writeBatch done).writeBatch (done ++ rest) = db.writeBatch (done ++ rest) := by
  have hrecord : ((db.writeBatch done).writeBatch (done ++ rest)).record =
      (db.writeBatch (done ++ rest)).record := funext fun key => by
    rw [record_writeBatch, record_writeBatch, record_writeBatch, opsFor_append, mergeOps_replay]
  exact congrArg Database.mk hrecord

omit [DecidableEq K] in
theorem frameOps_append (host : Host) (start : Nat) (frames frames' : List (K × DataContext T)) :
    frameOps host start (frames ++ frames') =
      frameOps host start frames ++ frameOps host (start + frames.length) frames' := by
  induction frames generalizing start with
  | nil => rfl
  | cons entry frames ih =>
    rw [List.cons_append, frameOps, ih, frameOps, List.cons_append, List.length_cons]
    congr 3
    omega

/-- Frames on top of a first part of them. -/
theorem sameReads_replay (db : Database K T) {done frames : List (K × DataContext T)}
    (hdone : done <+: frames) (first retry once : Host) :
    SameReads ((db.writeBatch (frameOps first 0 done)).writeBatch (frameOps retry 0 frames))
      (db.writeBatch (frameOps once 0 frames)) := by
  obtain ⟨rest, rfl⟩ := hdone
  have hrefl : SameReads db db := fun key => .refl _
  have hsame := (hrefl.writeBatch first once 0 0 done).writeBatch retry once 0 0 (done ++ rest)
  rwa [frameOps_append once, writeBatch_replay, ← frameOps_append once] at hsame

/-- A stream that agrees with the complete one for some frames and then ends or fails. -/
def CutFrom (frames : List (K × DataContext T)) (items : List (Except String (ExportItem K T))) :
    Prop :=
  ∃ sent tail, sent <+: frames ∧ items = sent.map (.ok ∘ frameItem) ++ tail ∧
    ∀ entry rest, tail ≠ .ok (frameItem entry) :: rest

structure Attempt (K T : Type) where
  host : Host
  items : List (Except String (ExportItem K T))

/-- The database after an import, however it ended. -/
def Attempt.run (self : Attempt K T) (db : Database K T) : Database K T :=
  ((Importer.start db).importAll self.host self.items).1

def runAttempts (db : Database K T) (attempts : List (Attempt K T)) : Database K T :=
  attempts.foldl (fun db attempt => attempt.run db) db

theorem Attempt.run_eq (db : Database K T) {frames : List (K × DataContext T)}
    {attempt : Attempt K T} (hcut : CutFrom frames attempt.items) :
    ∃ done, done <+: frames ∧ attempt.run db = db.writeBatch (frameOps attempt.host 0 done) := by
  obtain ⟨sent, tail, hsent, hitems, htail⟩ := hcut
  rw [run, hitems]
  rcases Importer.importAll_partial attempt.host htail sent (.start db) with
    hkept | ⟨done, hdone, hrun⟩
  · exact ⟨[], List.nil_prefix, hkept⟩
  · exact ⟨done, hdone.trans hsent, hrun⟩

/-- Any number of attempts that end early, and then the frames. -/
theorem sameReads_attempts {frames : List (K × DataContext T)} {attempts : List (Attempt K T)}
    (hcut : ∀ attempt ∈ attempts, CutFrom frames attempt.items) (db : Database K T)
    (retry once : Host) :
    SameReads ((runAttempts db attempts).writeBatch (frameOps retry 0 frames))
      (db.writeBatch (frameOps once 0 frames)) := by
  induction attempts generalizing db with
  | nil =>
    have hrefl : SameReads db db := fun key => .refl _
    exact hrefl.writeBatch retry once 0 0 frames
  | cons attempt attempts ih =>
    have hrest := ih (fun a ha => hcut a (List.mem_cons_of_mem _ ha)) (attempt.run db)
    obtain ⟨done, hdone, hattempt⟩ := Attempt.run_eq db (hcut attempt List.mem_cons_self)
    have hreplay := sameReads_replay db hdone attempt.host once once
    rw [← hattempt] at hreplay
    exact fun key => (hrest key).trans (hreplay key)

/-- `import_all` succeeds on frames followed by their number, and on nothing else. -/
theorem importAll_eq_ok {host : Host} (hw : ∀ i, host.writes i = true) (db db' : Database K T)
    (items : List (Except String (ExportItem K T))) :
    (Importer.start db).importAll host items = (db', .ok ()) ↔
      ∃ frames rest, items = frames.map (.ok ∘ frameItem) ++ .ok (.done frames.length) :: rest ∧
        db' = db.writeBatch (frameOps host 0 frames) := by
  constructor
  · intro h
    obtain ⟨frames, rest, hitems, hdb⟩ := Importer.importAll_ok h
    rw [Importer.start, Nat.zero_add] at hitems
    exact ⟨frames, rest, hitems, hdb⟩
  · rintro ⟨frames, rest, rfl, rfl⟩
    have hrun := Importer.importAll_frames hw frames rest (.start db)
    rw [Importer.start, Nat.zero_add] at hrun
    exact hrun

end Attempts

/-! ## Databases -/

namespace Backend

/-- A compaction removes a record. -/
def remove (self : Backend) (name : ColumnFamilyName) (key : Bytes) : Backend :=
  ⟨Function.update self.cf name ((self.cf name).erase key)⟩

/-- Databases that come from merges and compactions. -/
inductive Reachable : Backend → Prop where
  | empty : Reachable empty
  | merge {db : Backend} (name : ColumnFamilyName) (key : Bytes) (op : MergeOp Bytes) :
      Reachable db → Reachable (db.merge name key op)
  | remove {db : Backend} (name : ColumnFamilyName) (key : Bytes) :
      Reachable db → Reachable (db.remove name key)

def writeBatch (self : Backend) (batch : List ((ColumnFamilyName × Bytes) × MergeOp Bytes)) :
    Backend :=
  batch.foldl (fun db entry => db.merge entry.1.1 entry.1.2 entry.2) self

theorem toDatabase_writeBatch (self : Backend)
    (batch : List ((ColumnFamilyName × Bytes) × MergeOp Bytes)) :
    (self.writeBatch batch).toDatabase = self.toDatabase.writeBatch batch := by
  induction batch generalizing self with
  | nil => rfl
  | cons entry batch ih =>
    rw [writeBatch, List.foldl_cons, ← writeBatch, ih, toDatabase_merge]
    rfl

theorem record_remove {db : Backend} {name : ColumnFamilyName} {key : Bytes}
    {k : ColumnFamilyName × Bytes} {ctx : DataContext Bytes}
    (h : (db.remove name key).toDatabase.record k = some ctx) : db.toDatabase.record k = some ctx := by
  obtain ⟨name', key'⟩ := k
  rw [record_toDatabase, remove] at h
  dsimp only at h
  by_cases hname : name' = name
  · subst hname
    rw [Function.update_self, Std.ExtTreeMap.getElem?_erase] at h
    split at h
    · cases h
    · exact h
  · rwa [Function.update_of_ne hname] at h

/-- A value in the database was written with a positive version. -/
theorem Reachable.version_pos {db : Backend} (h : db.Reachable) {k : ColumnFamilyName × Bytes}
    {ctx : DataContext Bytes} (hctx : db.toDatabase.record k = some ctx)
    (hvalue : ctx.payload ≠ .none) : 0 < ctx.version := by
  induction h generalizing ctx with
  | empty =>
    rw [toDatabase_empty] at hctx
    cases hctx
  | @merge db name key op _ ih =>
    rw [toDatabase_merge] at hctx
    by_cases hk : (name, key) = k
    · subst hk
      rw [Database.record_merge_self] at hctx
      cases hctx
      rcases Nat.lt_or_ge ((db.toDatabase.record (name, key)).getD .default).version op.timestamp with
        hlt | hle
      · have hfresh : fullMerge (db.toDatabase.record (name, key)) [op] =
            ((db.toDatabase.record (name, key)).getD .default).apply op :=
          DataContext.merge_fresh hlt
        rw [hfresh, DataContext.version_apply]
        exact Nat.zero_lt_of_lt hlt
      · have hstale : fullMerge (db.toDatabase.record (name, key)) [op] =
            (db.toDatabase.record (name, key)).getD .default :=
          DataContext.merge_stale hle
        rw [hstale] at hvalue ⊢
        cases hrecord : db.toDatabase.record (name, key) with
        | none =>
          rw [hrecord] at hvalue
          exact absurd rfl hvalue
        | some ctx =>
          rw [hrecord] at hvalue
          exact ih hrecord hvalue
    · rw [Database.record_merge_of_ne hk] at hctx
      exact ih hctx hvalue
  | remove name key _ ih => exact ih (record_remove hctx) hvalue

end Backend

/-! ## Exports into an empty database -/

/-- What an import makes of a record where there was none. -/
theorem readRecord_import {ctx : DataContext T} (hpos : ctx.payload ≠ .none → 0 < ctx.version)
    (now now' : Nat) :
    (fullMerge none [ctx.toMergeOp now']).readRecord now = ctx.readRecord now := by
  cases hctx : ctx.payload with
  | none =>
    rw [DataContext.readRecord_eq_none.mpr (.inr hctx), ← not_ne_iff, readRecord_fullMerge_none,
      DataContext.toMergeOp, hctx]
    rintro ⟨_, _, hset, -⟩
    cases hset
  | some value =>
    have hfresh : fullMerge none [ctx.toMergeOp now'] =
        (DataContext.default : DataContext T).apply (ctx.toMergeOp now') := by
      refine DataContext.merge_fresh ?_
      rw [DataContext.toMergeOp_timestamp]
      exact hpos (by simp [hctx])
    have hsame : SameValue (some ((DataContext.default : DataContext T).apply (ctx.toMergeOp now')))
        (some ctx) := by
      simp [SameValue, DataContext.toMergeOp, hctx, DataContext.apply, MergeOp.set,
        DataContext.version]
    rw [hfresh]
    exact hsame.readRecord now

variable {src : Backend} {range : UInt64 × UInt64}

theorem mem_tag {name name' : ColumnFamilyName} {entries : List (Bytes × DataContext Bytes)}
    {key : Bytes} {ctx : DataContext Bytes} :
    ((name', key), ctx) ∈ Backend.tag name entries ↔ name = name' ∧ (key, ctx) ∈ entries := by
  rw [Backend.tag, List.mem_map]
  constructor
  · rintro ⟨⟨key', ctx'⟩, hmem, heq⟩
    cases heq
    exact ⟨rfl, hmem⟩
  · rintro ⟨rfl, hmem⟩
    exact ⟨(key, ctx), hmem, rfl⟩

theorem mem_scanByPosition {cf : ColumnFamily} {left right : Option UInt64}
    {entry : Bytes × DataContext Bytes} (h : entry ∈ cf.scanByPosition left right) :
    cf[entry.1]? = some entry.2 :=
  Std.ExtTreeMap.mem_toList_iff_getElem?_eq_some.mp (List.mem_filter.mp h).1

theorem record_of_mem_scanRange {entry : (ColumnFamilyName × Bytes) × DataContext Bytes}
    (h : entry ∈ src.scanRange range) : src.toDatabase.record entry.1 = some entry.2 := by
  obtain ⟨⟨name, key⟩, ctx⟩ := entry
  rw [Backend.scanRange, List.mem_append, mem_tag, mem_tag] at h
  rcases h with ⟨rfl, hmem⟩ | ⟨rfl, hmem⟩ <;> exact mem_scanByPosition hmem

theorem scan_keys (src : Backend) (range : UInt64 × UInt64) :
    scan src.toDatabase ((src.scanRange range).map (·.1)) = src.scanRange range := by
  rw [scan, List.filterMap_map]
  calc (src.scanRange range).filterMap _
    _ = (src.scanRange range).filterMap some := by
        refine List.filterMap_congr fun entry hentry => ?_
        rw [Function.comp_apply, record_of_mem_scanRange hentry]
        rfl
    _ = src.scanRange range := List.filterMap_some

theorem nodup_scanRange (src : Backend) (range : UInt64 × UInt64) :
    ((src.scanRange range).map (·.1)).Nodup := by
  have hsub : (src.scanRange range).Sublist src.stored :=
    (List.filter_sublist.map _).append (List.filter_sublist.map _)
  refine List.Nodup.map_on (fun a ha b hb hkey => ?_) ((nodup_stored src).sublist hsub)
  have hctx := record_of_mem_scanRange ha
  rw [hkey, record_of_mem_scanRange hb] at hctx
  exact Prod.ext hkey (Option.some.inj hctx).symm

/-- All keys of the column families with a position in the range are exported. -/
theorem mem_scanRange {name : ColumnFamilyName} {key : Bytes} {position : UInt64}
    (hkey : key.take keyringPositionPrefixLength = positionBytes position)
    (hrange : range.1 ≤ position ∧ position ≤ range.2) {ctx : DataContext Bytes}
    (hctx : src.toDatabase.record (name, key) = some ctx) :
    (name, key) ∈ (src.scanRange range).map (·.1) := by
  have hscan : (key, ctx) ∈
      (src.cf name).scanByPosition (some range.1) (checkedSucc range.2) :=
    List.mem_filter.mpr ⟨Std.ExtTreeMap.mem_toList_iff_getElem?_eq_some.mpr hctx,
      (within_iff hkey range).mpr hrange⟩
  refine List.mem_map.mpr ⟨((name, key), ctx), ?_, rfl⟩
  rw [Backend.scanRange, List.mem_append, mem_tag, mem_tag]
  cases name with
  | genericString => exact .inl ⟨rfl, hscan⟩
  | genericMap => exact .inr ⟨rfl, hscan⟩

/-- What an import of the range leaves under a key of the range. -/
theorem record_import (src : Backend) (host : Host) (name : ColumnFamilyName) {key : Bytes}
    {position : UInt64}
    (hkey : key.take keyringPositionPrefixLength = positionBytes position)
    (hrange : range.1 ≤ position ∧ position ≤ range.2) :
    ∃ now, ((Database.empty.writeBatch (frameOps host 0 (src.scanRange range))).record (name, key)) =
      (src.toDatabase.record (name, key)).map fun ctx => fullMerge none [ctx.toMergeOp now] := by
  obtain ⟨now, hops⟩ :=
    opsFor_scan host src.toDatabase (name, key) (nodup_scanRange src range) 0
  refine ⟨now, ?_⟩
  rw [scan_keys] at hops
  rw [record_writeBatch, hops]
  cases hctx : src.toDatabase.record (name, key) with
  | none => split <;> rfl
  | some ctx =>
    rw [if_pos (mem_scanRange hkey hrange hctx)]
    rfl

/-- A full export of a range, imported into an empty database: requests in the range get the same
responses as at the source. -/
theorem exists_import (hsrc : src.Reachable) {host : Host} (hw : ∀ i, host.writes i = true)
    (range : UInt64 × UInt64) :
    ∃ dst : Backend,
      (Importer.start Backend.empty.toDatabase).importAll host
        ((src.exportRange range).map .ok) = (dst.toDatabase, .ok ()) ∧
      ∀ hash now request, range.1 ≤ hash request.key ∧ hash request.key ≤ range.2 →
        (execute hash now dst request).2 = (execute hash now src request).2 := by
  refine ⟨Backend.empty.writeBatch (frameOps host 0 (src.scanRange range)), ?_, ?_⟩
  · refine (importAll_eq_ok hw _ _ _).mpr ⟨src.scanRange range, [], ?_, ?_⟩
    · rw [Backend.exportRange, List.map_append, List.map_map]
      rfl
    · exact Backend.toDatabase_writeBatch _ _
  · intro hash now request hrange
    refine response_congr fun name k hk => ?_
    obtain ⟨now', hrecord⟩ := record_import src host name hk.position hrange
    rw [ColumnFamily.readAt, ColumnFamily.readAt, ← Backend.record_toDatabase,
      ← Backend.record_toDatabase, Backend.toDatabase_writeBatch, Backend.toDatabase_empty, hrecord]
    cases hctx : src.toDatabase.record (name, k) with
    | none => rfl
    | some ctx =>
      exact congrArg some (readRecord_import (fun hvalue => hsrc.version_pos hctx hvalue) now now')

/-- Imports of shards. An import succeeds exactly on frames followed by their number, and then it has
merged each frame once, in order. After any number of attempts that ended early, the import of the
complete stream leaves every key with what a single import leaves. A full export into an empty
database brings over every read in its range. -/
theorem import_restartable {host retry : Host} (hw : ∀ i, host.writes i = true)
    (hretry : ∀ i, retry.writes i = true) :
    (∀ (db db' : Database (ColumnFamilyName × Bytes) Bytes) items,
      (Importer.start db).importAll host items = (db', .ok ()) ↔
        ∃ frames rest, items = frames.map (.ok ∘ frameItem) ++ .ok (.done frames.length) :: rest ∧
          db' = db.writeBatch (frameOps host 0 frames)) ∧
    (∀ (db : Database (ColumnFamilyName × Bytes) Bytes) frames rest attempts,
      (∀ attempt ∈ attempts, CutFrom frames attempt.items) →
      ∃ db₁ db₂,
        (Importer.start (runAttempts db attempts)).importAll retry
          (frames.map (.ok ∘ frameItem) ++ .ok (.done frames.length) :: rest) = (db₁, .ok ()) ∧
        (Importer.start db).importAll host
          (frames.map (.ok ∘ frameItem) ++ .ok (.done frames.length) :: rest) = (db₂, .ok ()) ∧
        ∀ now key, db₁.get now key = db₂.get now key) ∧
    ∀ (src : Backend) (range : UInt64 × UInt64), src.Reachable →
      ∃ dst : Backend,
        (Importer.start Backend.empty.toDatabase).importAll host
          ((src.exportRange range).map .ok) = (dst.toDatabase, .ok ()) ∧
        ∀ hash now request, range.1 ≤ hash request.key ∧ hash request.key ≤ range.2 →
          (execute hash now dst request).2 = (execute hash now src request).2 := by
  refine ⟨importAll_eq_ok hw, ?_, fun src range hsrc => exists_import hsrc hw range⟩
  intro db frames rest attempts hcut
  have hsame := sameReads_attempts hcut db retry host
  exact ⟨_, _, (importAll_eq_ok hretry _ _ _).mpr ⟨frames, rest, rfl, rfl⟩,
    (importAll_eq_ok hw _ _ _).mpr ⟨frames, rest, rfl, rfl⟩, fun now key => hsame.get now key⟩

/-- A stream that breaks off after its first frame, and then comes complete. -/
theorem import_restartable_twice :
    ∃ db₁ db₂,
      (Importer.start (runAttempts (Database.empty : Database (ColumnFamilyName × Bytes) Bytes)
          [⟨⟨fun _ => 30, fun _ => true⟩,
            [.ok (frameItem ((.genericString, [1]), ⟨.some [7], 50, some 3, 0⟩)), .error "reset"]⟩]
          )).importAll
        ⟨fun _ => 40, fun _ => true⟩
        ([((.genericString, [1]), ⟨.some [7], 50, some 3, 0⟩),
          ((.genericMap, [2]), ⟨.none, 60, some 4, 0⟩)].map (.ok ∘ frameItem) ++ [.ok (.done 2)]) =
          (db₁, .ok ()) ∧
      (Importer.start (Database.empty : Database (ColumnFamilyName × Bytes) Bytes)).importAll
        ⟨fun _ => 20, fun _ => true⟩
        ([((.genericString, [1]), ⟨.some [7], 50, some 3, 0⟩),
          ((.genericMap, [2]), ⟨.none, 60, some 4, 0⟩)].map (.ok ∘ frameItem) ++ [.ok (.done 2)]) =
          (db₂, .ok ()) ∧
      ∀ now key, db₁.get now key = db₂.get now key :=
  (import_restartable (fun _ => rfl) (fun _ => rfl)).2.1 _
    [((.genericString, [1]), ⟨.some [7], 50, some 3, 0⟩), ((.genericMap, [2]), ⟨.none, 60, some 4, 0⟩)]
    [] _ fun attempt hattempt => ⟨[((.genericString, [1]), ⟨.some [7], 50, some 3, 0⟩)], [.error "reset"],
      ⟨[((.genericMap, [2]), ⟨.none, 60, some 4, 0⟩)], rfl⟩,
      by rw [List.mem_singleton.mp hattempt]; rfl, fun entry rest h => by cases h⟩

end Storage
end Wcn
