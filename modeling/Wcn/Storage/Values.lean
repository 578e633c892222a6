import Wcn.Storage.Refinement

/-!
# Wcn.Storage.Values

The database moves values around and never looks at them. Let `R` relate the values of two databases
that are otherwise the same. Requests that are the same up to related values keep the databases so,
and get responses that are the same up to related values (`server_like`).
-/

namespace Wcn
namespace Storage

open Lib StorageApi

variable {T : Type} {R : T → T → Prop}

/-! ## Records -/

inductive Payload.Like (R : T → T → Prop) : Payload T → Payload T → Prop where
  | none : Like R .none .none
  | some {a b : T} : R a b → Like R (.some a) (.some b)

theorem Payload.Like.asOption {a b : Payload T} (h : a.Like R b) :
    Option.Rel R a.asOption b.asOption := by
  cases h with
  | none => exact .none
  | some hvalue => exact .some hvalue

structure DataContext.Like (R : T → T → Prop) (a b : DataContext T) : Prop where
  payload : a.payload.Like R b.payload
  expires : a.expires = b.expires
  updated : a.updated = b.updated
  created : a.created = b.created

inductive MergeOpKind.Like (R : T → T → Prop) : MergeOpKind T → MergeOpKind T → Prop where
  | set {a b : T} (expiration : Nat) : R a b → Like R (.set a expiration) (.set b expiration)
  | setVal {a b : T} : R a b → Like R (.setVal a) (.setVal b)
  | setExp (expiration : Nat) : Like R (.setExp expiration) (.setExp expiration)
  | del (expiration : Nat) : Like R (.del expiration) (.del expiration)

structure MergeOp.Like (R : T → T → Prop) (a b : MergeOp T) : Prop where
  kind : a.kind.Like R b.kind
  timestamp : a.timestamp = b.timestamp

structure RecordLike (R : T → T → Prop) (a b : Record T) : Prop where
  value : R a.value b.value
  expiration : a.expiration = b.expiration
  version : a.version = b.version

namespace DataContext.Like

variable {a b : DataContext T} {op op' : MergeOp T}

theorem default : (DataContext.default : DataContext T).Like R .default := ⟨.none, rfl, rfl, rfl⟩

theorem version (h : a.Like R b) : a.version = b.version := by
  rw [DataContext.version, DataContext.version, h.updated, h.created]

theorem apply (h : a.Like R b) (hop : op.Like R op') : (a.apply op).Like R (b.apply op') := by
  obtain ⟨kind, timestamp⟩ := op
  obtain ⟨kind', timestamp'⟩ := op'
  obtain ⟨hkind, rfl⟩ := hop
  cases hkind with
  | set expiration hvalue => exact ⟨.some hvalue, rfl, rfl, h.created⟩
  | setVal hvalue => exact ⟨.some hvalue, h.expires, rfl, h.created⟩
  | setExp expiration => exact ⟨h.payload, rfl, rfl, h.created⟩
  | del expiration => exact ⟨.none, rfl, rfl, h.created⟩

theorem merge (h : a.Like R b) (hop : op.Like R op') : (a.merge op).Like R (b.merge op') := by
  rw [DataContext.merge, DataContext.merge, h.version, hop.timestamp]
  split
  · exact h
  · exact h.apply hop

theorem intoPayload (h : a.Like R b) (now : Nat) :
    Option.Rel R (a.intoPayload now) (b.intoPayload now) := by
  have hexpired : a.expired now = b.expired now := by
    rw [expired, expired, h.expires]
  rw [DataContext.intoPayload, DataContext.intoPayload, hexpired]
  split
  · exact .none
  · exact h.payload.asOption

theorem readRecord (h : a.Like R b) (now : Nat) :
    Option.Rel (RecordLike R) (a.readRecord now) (b.readRecord now) := by
  rw [DataContext.readRecord, DataContext.readRecord, Option.map_eq_bind, Option.map_eq_bind]
  exact rel_bind (h.intoPayload now) fun hvalue => .some ⟨hvalue, h.expires, h.version⟩

end DataContext.Like

theorem like_fullMerge {cell cell' : Option (DataContext T)} {op op' : MergeOp T}
    (h : Option.Rel (DataContext.Like R) cell cell') (hop : op.Like R op') :
    (fullMerge cell [op]).Like R (fullMerge cell' [op']) := by
  cases h with
  | none => exact DataContext.Like.default.merge hop
  | some hctx => exact hctx.merge hop

/-! ## Requests and responses -/

section Api

variable {R : Bytes → Bytes → Prop}

structure EntryLike (R : Bytes → Bytes → Prop) (a b : MapEntry Bytes) : Prop where
  field : a.field = b.field
  record : RecordLike R a.record b.record

inductive OperationLike (R : Bytes → Bytes → Prop) : Operation Bytes → Operation Bytes → Prop where
  | set {a b : Record Bytes} : RecordLike R a b → OperationLike R (.set a) (.set b)
  | hset {a b : MapEntry Bytes} : EntryLike R a b → OperationLike R (.hset a) (.hset b)
  | get : OperationLike R .get .get
  | del (version : Nat) : OperationLike R (.del version) (.del version)
  | getExp : OperationLike R .getExp .getExp
  | setExp (expiration version : Nat) :
      OperationLike R (.setExp expiration version) (.setExp expiration version)
  | hget (field : Bytes) : OperationLike R (.hget field) (.hget field)
  | hdel (field : Bytes) (version : Nat) : OperationLike R (.hdel field version) (.hdel field version)
  | hgetExp (field : Bytes) : OperationLike R (.hgetExp field) (.hgetExp field)
  | hsetExp (field : Bytes) (expiration version : Nat) :
      OperationLike R (.hsetExp field expiration version) (.hsetExp field expiration version)
  | hcard : OperationLike R .hcard .hcard
  | hscan (count : Nat) (cursor : Option Bytes) :
      OperationLike R (.hscan count cursor) (.hscan count cursor)

theorem OperationLike.fieldOf {a b : Operation Bytes} (h : OperationLike R a b) :
    fieldOf b = Storage.fieldOf a := by
  cases h with
  | hset hentry => exact congrArg some hentry.field.symm
  | _ => rfl

structure RequestLike (R : Bytes → Bytes → Prop) (a b : Nat × Request) : Prop where
  now : a.1 = b.1
  ns : a.2.ns = b.2.ns
  key : a.2.key = b.2.key
  operation : OperationLike R a.2.operation b.2.operation

theorem RequestLike.fits {a b : Nat × Request} (h : RequestLike R a b) (hfits : a.2.Fits) :
    b.2.Fits := by
  rw [Request.Fits, h.operation.fieldOf, ← h.key]
  exact hfits

inductive OutputLike (R : Bytes → Bytes → Prop) : Output Bytes → Output Bytes → Prop where
  | record {a b : Option (Record Bytes)} : Option.Rel (RecordLike R) a b →
      OutputLike R (.record a) (.record b)
  | mapPage {a b : List (MapEntry Bytes)} (hasNext : Bool) : List.Forall₂ (EntryLike R) a b →
      OutputLike R (.mapPage ⟨a, hasNext⟩) (.mapPage ⟨b, hasNext⟩)
  | expiration (expiration : Option Nat) : OutputLike R (.expiration expiration) (.expiration expiration)
  | cardinality (card : Nat) : OutputLike R (.cardinality card) (.cardinality card)
  | none : OutputLike R .none .none

inductive ResponseLike (R : Bytes → Bytes → Prop) : Response Bytes → Response Bytes → Prop where
  | ok {a b : Output Bytes} : OutputLike R a b → ResponseLike R (.ok a) (.ok b)
  | error (e : Error) : ResponseLike R (.error e) (.error e)

/-! ## Registers -/

def Store.Like (R : Bytes → Bytes → Prop) (a b : Store) : Prop :=
  ∀ slot, Option.Rel (DataContext.Like R) (a.record slot) (b.record slot)

namespace Store.Like

variable {a b : Store} {now : Nat}

theorem merge (h : a.Like R b) (slot : Slot) {op op' : MergeOp Bytes} (hop : op.Like R op') :
    (a.merge slot op).Like R (b.merge slot op') := by
  intro slot'
  by_cases heq : slot = slot'
  · subst heq
    rw [Store.merge, Store.merge, Database.record_merge_self, Database.record_merge_self]
    exact .some (like_fullMerge (h slot) hop)
  · rw [Store.merge, Store.merge, Database.record_merge_of_ne heq, Database.record_merge_of_ne heq]
    exact h slot'

theorem read (h : a.Like R b) (slot : Slot) :
    Option.Rel (RecordLike R) (a.read now slot) (b.read now slot) := by
  exact rel_bind (h slot) fun hctx => hctx.readRecord now

theorem expiration (h : a.Like R b) (slot : Slot) :
    (a.read now slot).map Record.expiration = (b.read now slot).map Record.expiration := by
  have hread : Option.Rel (RecordLike R) (a.read now slot) (b.read now slot) := h.read slot
  revert hread
  generalize a.read now slot = x, b.read now slot = y
  rintro (hrecord | _)
  · exact congrArg some hrecord.expiration
  · rfl

theorem fields (h : a.Like R b) (ns : Namespace) (key : Bytes) : a.fields ns key = b.fields ns key := by
  ext field
  rw [Store.mem_fields, Store.mem_fields]
  have hslot := h (.field ns key field)
  revert hslot
  generalize a.record (.field ns key field) = x, b.record (.field ns key field) = y
  rintro (_ | _) <;> simp

theorem entries (h : a.Like R b) (ns : Namespace) (key : Bytes) :
    List.Forall₂ (EntryLike R) (a.entries now ns key) (b.entries now ns key) := by
  rw [Store.entries, Store.entries, h.fields]
  refine List.rel_filterMap (R := Eq) ?_ (List.forall₂_refl _)
  rintro field _ rfl
  dsimp only
  rw [Option.map_eq_bind, Option.map_eq_bind]
  exact rel_bind (h.read _) fun hrecord => .some ⟨rfl, hrecord⟩

theorem page (h : a.Like R b) (ns : Namespace) (key : Bytes) (count : Nat) (cursor : Option Bytes) :
    OutputLike R (.mapPage (a.page now ns key count cursor))
      (.mapPage (b.page now ns key count cursor)) := by
  have hbehind : List.Forall₂ (EntryLike R)
      ((a.entries now ns key).filter fun entry => After fieldRank cursor entry.field)
      ((b.entries now ns key).filter fun entry => After fieldRank cursor entry.field) := by
    refine List.rel_filter (fun {x y} hxy => ?_) (h.entries ns key)
    dsimp only
    rw [hxy.field]
  rw [Store.page, Store.page, hbehind.length_eq]
  exact .mapPage _ (List.forall₂_take _ hbehind)

theorem execute (h : a.Like R b) {request request' : Nat × Request}
    (hlike : RequestLike R request request') :
    (a.execute request.1 request.2).1.Like R (b.execute request'.1 request'.2).1 ∧
      ResponseLike R (a.execute request.1 request.2).2 (b.execute request'.1 request'.2).2 := by
  obtain ⟨now, ns, key, operation⟩ := request
  obtain ⟨now', ns', key', operation'⟩ := request'
  obtain ⟨hnow, hns, hkey, hop⟩ := hlike
  dsimp only at hnow hns hkey hop
  subst hnow hns hkey
  cases hop with
  | @set x y hrecord =>
    refine ⟨h.merge _ ⟨?_, hrecord.version⟩, .ok .none⟩
    dsimp only [MergeOp.set]
    rw [hrecord.expiration]
    exact .set _ hrecord.value
  | @hset x y hentry =>
    obtain ⟨field, record⟩ := x
    obtain ⟨field', record'⟩ := y
    obtain ⟨hfield, hrecord⟩ := hentry
    dsimp only at hfield hrecord
    subst hfield
    refine ⟨h.merge _ ⟨?_, hrecord.version⟩, .ok .none⟩
    dsimp only [MergeOp.set]
    rw [hrecord.expiration]
    exact .set _ hrecord.value
  | get => exact ⟨h, .ok (.record (h.read _))⟩
  | del version => exact ⟨h.merge _ ⟨.del _, rfl⟩, .ok .none⟩
  | getExp =>
    simp only [Store.execute, h.expiration]
    exact ⟨h, .ok (.expiration _)⟩
  | setExp expiration version => exact ⟨h.merge _ ⟨.setExp _, rfl⟩, .ok .none⟩
  | hget field => exact ⟨h, .ok (.record (h.read _))⟩
  | hdel field version => exact ⟨h.merge _ ⟨.del _, rfl⟩, .ok .none⟩
  | hgetExp field =>
    simp only [Store.execute, h.expiration]
    exact ⟨h, .ok (.expiration _)⟩
  | hsetExp field expiration version => exact ⟨h.merge _ ⟨.setExp _, rfl⟩, .ok .none⟩
  | hcard =>
    simp only [Store.execute, (h.entries ns key).length_eq]
    exact ⟨h, .ok (.cardinality _)⟩
  | hscan count cursor =>
    simp only [Store.execute]
    split
    · exact ⟨h, .error _⟩
    · exact ⟨h, .ok (h.page ns key count cursor)⟩

end Store.Like

/-- The server answers requests that are alike with responses that are alike. -/
theorem server_like (hash : Bytes → UInt64) {requests requests' : List (Nat × Request)}
    (hfits : ∀ request ∈ requests, request.2.Fits)
    (hlike : List.Forall₂ (RequestLike R) requests requests') :
    List.Forall₂ (ResponseLike R) (outputs (serve hash) .empty requests)
      (outputs (serve hash) .empty requests') := by
  have hstore : Simulates (Store.Like R) (RequestLike R) (ResponseLike R) Store.serve Store.serve :=
    fun _ _ _ _ hR hA => hR.execute hA
  have hfits' : ∀ request ∈ requests', request.2.Fits := by
    induction hlike with
    | nil => exact hfits
    | cons hhead _ ih =>
      obtain ⟨hfirst, hrest⟩ := List.forall_mem_cons.mp hfits
      exact List.forall_mem_cons.mpr ⟨hhead.fits hfirst, ih hrest⟩
  rw [(simulates_serve hash).outputs_eq .empty hfits, (simulates_serve hash).outputs_eq .empty hfits']
  exact hstore.outputs (fun _ => .none) hlike

end Api

end Storage
end Wcn
