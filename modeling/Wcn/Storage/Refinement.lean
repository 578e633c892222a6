import Wcn.Lib.Simulations
import Wcn.Storage.Maps

/-!
# Wcn.Storage.Refinement

What the database is for, without column families, byte keys and iterators: a register for every key
of a namespace, and a map of registers by field for every key of a namespace. Operands are merged into
the record of their key one by one, as they come, and nothing is compacted.

* `Store` — the registers; only finitely many have ever been written. `Store.execute` answers a
  request by reading them.
* `Represents` — the database holds each register under a key of its own.
* `server_refines_store` — the server answers every sequence of requests as the registers do.
-/

namespace Wcn
namespace Storage

open Lib StorageApi

/-! ## Registers -/

inductive Slot where
  | string (ns : Namespace) (key : Bytes)
  | field (ns : Namespace) (key field : Bytes)
  deriving DecidableEq

structure Store extends Database Slot Bytes where
  finite : {slot | record slot ≠ none}.Finite

/-- The order in which a map is scanned. -/
def FieldLe (a b : Bytes) : Prop := fieldRank a ≤ fieldRank b

instance : DecidableRel FieldLe := fun a b => inferInstanceAs (Decidable (fieldRank a ≤ fieldRank b))

instance : IsTrans Bytes FieldLe := ⟨fun _ _ _ => le_trans (α := Bytes)⟩

instance : Std.Antisymm FieldLe := ⟨fun _ _ h h' => fieldRank_injective (le_antisymm (α := Bytes) h h')⟩

instance : Std.Total FieldLe := ⟨fun a b => le_total (fieldRank a) (fieldRank b)⟩

namespace Store

def empty : Store := ⟨.empty, by simp [Database.empty]⟩

def merge (self : Store) (slot : Slot) (op : MergeOp Bytes) : Store where
  toDatabase := self.toDatabase.merge slot op
  finite := by
    refine (self.finite.insert slot).subset fun slot' hslot' => ?_
    by_cases heq : slot = slot'
    · exact .inl heq.symm
    · refine .inr ?_
      rwa [Set.mem_ofPred_eq, Database.record_merge_of_ne heq] at hslot'

def read (self : Store) (now : Nat) (slot : Slot) : Option (Record Bytes) :=
  (self.record slot).bind (·.readRecord now)

/-- The fields of a map that have been written. -/
noncomputable def fields (self : Store) (ns : Namespace) (key : Bytes) : Finset Bytes :=
  (self.finite.preimage (f := Slot.field ns key) fun _ _ _ _ h => (Slot.field.inj h).2.2).toFinset

noncomputable def entries (self : Store) (now : Nat) (ns : Namespace) (key : Bytes) :
    List (MapEntry Bytes) :=
  ((self.fields ns key).sort FieldLe).filterMap fun field =>
    (self.read now (.field ns key field)).map fun record => ⟨field, record⟩

/-- The first entries behind the cursor, at least one. -/
noncomputable def page (self : Store) (now : Nat) (ns : Namespace) (key : Bytes) (count : Nat)
    (cursor : Option Bytes) : MapPage Bytes :=
  let behind := (self.entries now ns key).filter fun entry => After fieldRank cursor entry.field
  ⟨behind.take (max 1 count), max 1 count < behind.length⟩

noncomputable def execute (now : Nat) (self : Store) (request : Request) : Store × Response Bytes :=
  let string := Slot.string request.ns request.key
  let field := Slot.field request.ns request.key
  match request.operation with
  | .get => (self, .ok (.record (self.read now string)))
  | .set record =>
    (self.merge string (.set record.value record.expiration record.version), .ok .none)
  | .del version => (self.merge string (.del now version), .ok .none)
  | .getExp => (self, .ok (.expiration ((self.read now string).map Record.expiration)))
  | .setExp expiration version => (self.merge string (.setExp expiration version), .ok .none)
  | .hget f => (self, .ok (.record (self.read now (field f))))
  | .hset ⟨f, record⟩ =>
    (self.merge (field f) (.set record.value record.expiration record.version), .ok .none)
  | .hdel f version => (self.merge (field f) (.del now version), .ok .none)
  | .hgetExp f => (self, .ok (.expiration ((self.read now (field f)).map Record.expiration)))
  | .hsetExp f expiration version => (self.merge (field f) (.setExp expiration version), .ok .none)
  | .hcard => (self, .ok (.cardinality (self.entries now request.ns request.key).length))
  | .hscan count cursor =>
    if maxHscanCount < count then
      (self, .error Error.invalidArgument)
    else
      (self, .ok (.mapPage (self.page now request.ns request.key count cursor)))

end Store

section Entries

variable {store : Store} {now : Nat} {ns : Namespace} {key : Bytes}

theorem Store.mem_fields {field : Bytes} :
    field ∈ store.fields ns key ↔ store.record (.field ns key field) ≠ none := by
  rw [Store.fields, Set.Finite.mem_toFinset]
  rfl

theorem Store.mem_entries {entry : MapEntry Bytes} :
    entry ∈ store.entries now ns key ↔
      store.read now (.field ns key entry.field) = some entry.record := by
  obtain ⟨field, record⟩ := entry
  rw [Store.entries, List.mem_filterMap]
  constructor
  · rintro ⟨field', -, hentry⟩
    obtain ⟨record', hread, heq⟩ := Option.map_eq_some_iff.mp hentry
    cases heq
    exact hread
  · intro hread
    refine ⟨field, ?_, by rw [hread]; rfl⟩
    rw [Finset.mem_sort, Store.mem_fields]
    intro hnone
    rw [Store.read, hnone] at hread
    cases hread

theorem Store.ranked_entries : Ranked fieldRank MapEntry.field (store.entries now ns key) := by
  have hlt : ((store.fields ns key).sort FieldLe).Pairwise fun a b => fieldRank a < fieldRank b := by
    refine ((Finset.pairwise_sort _ FieldLe).and (Finset.sort_nodup _ FieldLe)).imp ?_
    rintro a b ⟨hle, hne⟩
    exact lt_of_le_of_ne hle fun heq => hne (fieldRank_injective heq)
  rw [Ranked, Store.entries, List.pairwise_filterMap]
  refine hlt.imp fun {a b} hab x hx y hy => ?_
  obtain ⟨_, -, rfl⟩ := Option.map_eq_some_iff.mp hx
  obtain ⟨_, -, rfl⟩ := Option.map_eq_some_iff.mp hy
  exact hab

end Entries

/-! ## Where the database keeps them -/

/-- The column family and the key of a register. -/
def Slot.stored (hash : Bytes → UInt64) : Slot → ColumnFamilyName × Bytes
  | .string ns bytes => (.genericString, storageKey (key hash ns bytes))
  | .field ns bytes f => (.genericMap, extKey (key hash ns bytes) f)

/-- Key and field are not too long for the length fields of the layout. -/
def Slot.Fits : Slot → Prop
  | .string _ bytes => bytes.length < 2 ^ 32 - 64
  | .field _ bytes f => bytes.length < 2 ^ 32 - 64 ∧ f.length < 2 ^ 64

/-- The field that an operation is about. -/
def fieldOf : Operation Bytes → Option Bytes
  | .hget field | .hdel field _ | .hgetExp field | .hsetExp field _ _ => some field
  | .hset entry => some entry.field
  | .get | .set _ | .del _ | .getExp | .setExp _ _ | .hcard | .hscan _ _ => none

def Request.Fits (request : Request) : Prop :=
  request.key.length < 2 ^ 32 - 64 ∧ ∀ field ∈ fieldOf request.operation, field.length < 2 ^ 64

instance (request : Request) : Decidable request.Fits := inferInstanceAs (Decidable (_ ∧ _))

section Layout

variable {hash : Bytes → UInt64} {ns ns' : Namespace} {bytes bytes' : Bytes}

theorem key_inj (h : key hash ns bytes = key hash ns' bytes') : ns = ns' ∧ bytes = bytes' := by
  have hdata : ns.asBytes ++ bytes = ns'.asBytes ++ bytes' := (List.cons.inj (congrArg GenericKey.data h)).2
  have hlen : ns.asBytes.length = ns'.asBytes.length := by
    rw [ns.length_asBytes, ns'.length_asBytes]
  obtain ⟨hns, hbytes⟩ := List.append_inj hdata hlen
  exact ⟨Namespace.asBytes_inj.mp hns, hbytes⟩

theorem length_data_key (h : bytes.length < 2 ^ 32 - 64) :
    (key hash ns bytes).data.length < 2 ^ 32 := by
  rw [key, length_privateKey]
  omega

/-- A register's key in the database is not the key of another one. -/
theorem Slot.stored_inj {slot slot' : Slot} (hfits : slot.Fits) (hfits' : slot'.Fits)
    (h : slot.stored hash = slot'.stored hash) : slot = slot' := by
  have hparse : ∀ {ns : Namespace} {bytes f : Bytes}, (Slot.field ns bytes f).Fits →
      parseExtKey (extKey (key hash ns bytes) f) = .ok (key hash ns bytes, f) :=
    fun {ns bytes f} hfits => parseExtKey_extKey (privateKey_ne_nil ns bytes)
      (length_data_key hfits.1) hfits.2
  have hread : ∀ {ns : Namespace} {bytes : Bytes}, (Slot.string ns bytes).Fits →
      GenericKey.fromBytes (key hash ns bytes).toBytes = some (key hash ns bytes) :=
    fun hfits => fromBytes_toBytes (length_data_key hfits)
  cases slot with
  | string ns bytes =>
    cases slot' with
    | string ns' bytes' =>
      have heq : (key hash ns bytes).toBytes = (key hash ns' bytes').toBytes := (Prod.ext_iff.mp h).2
      have hkey := hread hfits
      rw [heq, hread hfits', Option.some.injEq] at hkey
      obtain ⟨rfl, rfl⟩ := key_inj hkey
      rfl
    | field ns' bytes' f' => cases congrArg Prod.fst h
  | field ns bytes f =>
    cases slot' with
    | string ns' bytes' => cases congrArg Prod.fst h
    | field ns' bytes' f' =>
      have heq : extKey (key hash ns bytes) f = extKey (key hash ns' bytes') f' :=
        (Prod.ext_iff.mp h).2
      have hparsed := hparse hfits
      rw [heq, hparse hfits', Except.ok.injEq, Prod.mk.injEq] at hparsed
      obtain ⟨hkey, rfl⟩ := hparsed
      obtain ⟨rfl, rfl⟩ := key_inj hkey
      rfl

end Layout

/-- The database holds the registers, each under its key. -/
structure Represents (hash : Bytes → UInt64) (db : Backend) (store : Store) : Prop where
  record : ∀ slot, slot.Fits → db.toDatabase.record (slot.stored hash) = store.record slot
  fits : ∀ slot, store.record slot ≠ none → slot.Fits
  wellKeyed : db.WellKeyed

namespace Represents

variable {hash : Bytes → UInt64} {db : Backend} {store : Store} {now : Nat} {ns : Namespace}
  {bytes : Bytes}

theorem empty : Represents hash .empty .empty where
  record slot _ := by
    rw [Backend.toDatabase_empty]
    rfl
  fits slot h := absurd rfl h
  wellKeyed := Backend.keysIn_empty

theorem merge (h : Represents hash db store) {slot : Slot} (hfits : slot.Fits) (op : MergeOp Bytes) :
    Represents hash (db.merge (slot.stored hash).1 (slot.stored hash).2 op) (store.merge slot op) where
  record slot' hfits' := by
    rw [Backend.toDatabase_merge]
    by_cases heq : slot = slot'
    · subst heq
      exact (Database.record_merge_self ..).trans ((congrArg (fun r => some (fullMerge r [op]))
        (h.record slot hfits)).trans (Database.record_merge_self ..).symm)
    · exact (Database.record_merge_of_ne (fun hkey => heq (Slot.stored_inj hfits hfits' hkey)) ..).trans
        ((h.record slot' hfits').trans (Database.record_merge_of_ne heq ..).symm)
  fits slot' hsome := by
    by_cases heq : slot = slot'
    · exact heq ▸ hfits
    · refine h.fits slot' ?_
      rwa [show (store.merge slot op).record slot' = _ from Database.record_merge_of_ne heq ..] at hsome
  wellKeyed := by
    refine h.wellKeyed.merge (fun hname => ?_) op
    cases slot with
    | string ns bytes => cases hname
    | field ns bytes field =>
      exact ⟨key hash ns bytes, field, privateKey_ne_nil _ _, length_data_key hfits.1, hfits.2, rfl⟩

theorem read (h : Represents hash db store) {slot : Slot} (hfits : slot.Fits) :
    (db.cf (slot.stored hash).1).get now (slot.stored hash).2 = store.read now slot := by
  rw [Store.read, ← h.record slot hfits]
  rfl

theorem mapExpiration_read (h : Represents hash db store) {slot : Slot} (hfits : slot.Fits) :
    mapExpiration ((db.cf (slot.stored hash).1).expiration now (slot.stored hash).2) =
      .ok ((store.read now slot).map Record.expiration) := by
  rw [ColumnFamily.expiration_eq, h.read hfits]
  cases store.read now slot <;> rfl

/-- A map of the database has the entries of its registers, in the same order. -/
theorem mapEntries (h : Represents hash db store) (hlen : bytes.length < 2 ^ 32 - 64) :
    (db.cf .genericMap).mapEntries now (key hash ns bytes) = store.entries now ns bytes := by
  have hpos : (key hash ns bytes).data ≠ [] := privateKey_ne_nil ns bytes
  have hdata : (key hash ns bytes).data.length < 2 ^ 32 := length_data_key hlen
  have hirrefl : Std.Irrefl fun a b : MapEntry Bytes => fieldRank a.field < fieldRank b.field :=
    ⟨fun _ => lt_irrefl _⟩
  refine (ranked_mapEntries hpos hdata h.wellKeyed now).eq_of_mem_iff store.ranked_entries
    fun entry => ?_
  by_cases hfield : entry.field.length < 2 ^ 64
  · rw [mem_mapEntries h.wellKeyed hpos hdata, Store.mem_entries, Store.read,
      ← h.record (.field ns bytes entry.field) ⟨hlen, hfield⟩, Option.bind_eq_some_iff]
    rfl
  · -- neither side has fields of this length
    refine iff_of_false (fun hmem => hfield (length_field_lt h.wellKeyed hpos hdata now hmem))
      fun hmem => hfield ?_
    obtain ⟨ctx, hctx, -⟩ := Option.bind_eq_some_iff.mp (Store.mem_entries.mp hmem)
    have hslot : (Slot.field ns bytes entry.field).Fits := by
      refine h.fits _ ?_
      rw [hctx]
      exact Option.some_ne_none ctx
    exact hslot.2

theorem hcard (h : Represents hash db store) (hlen : bytes.length < 2 ^ 32 - 64) :
    (db.cf .genericMap).hcard now (key hash ns bytes) = (store.entries now ns bytes).length := by
  rw [← h.mapEntries hlen, length_mapEntries h.wellKeyed (privateKey_ne_nil ns bytes)
    (length_data_key hlen)]

theorem scan (h : Represents hash db store) (hlen : bytes.length < 2 ^ 32 - 64) (count : Nat)
    (cursor : Option Bytes) :
    (db.cf .genericMap).scan now (key hash ns bytes) count cursor =
      .ok (store.page now ns bytes count cursor) := by
  have hpage : ∀ {count}, 0 < count → (db.cf .genericMap).scan now (key hash ns bytes) count cursor =
      .ok (store.page now ns bytes count cursor) := fun {count} hcount => by
    rw [scan_eq_page h.wellKeyed (privateKey_ne_nil ns bytes) (length_data_key hlen) now hcount,
      h.mapEntries hlen, Store.page, max_eq_right hcount]
    rfl
  cases count with
  | zero =>
    -- the loop looks at the count when it has taken an item
    have hone : ∀ iter, collectItems 0 [] iter = collectItems 1 [] iter := fun iter => by
      cases iter with
      | nil => rfl
      | cons item iter => cases item <;> rfl
    rw [ColumnFamily.scan, hone]
    exact hpage Nat.one_pos
  | succ count => exact hpage (Nat.succ_pos count)

/-- One request. -/
theorem execute (h : Represents hash db store) {request : Request} (hfits : request.Fits) :
    Represents hash (execute hash now db request).1 (store.execute now request).1 ∧
      (Storage.execute hash now db request).2 = (store.execute now request).2 := by
  obtain ⟨ns, bytes, operation⟩ := request
  obtain ⟨hlen, hfield⟩ := hfits
  have hstring : (Slot.string ns bytes).Fits := hlen
  have hslot : ∀ f, fieldOf operation = some f → (Slot.field ns bytes f).Fits :=
    fun f hf => ⟨hlen, hfield f hf⟩
  cases operation with
  | get => exact ⟨h, congrArg (fun record => Except.ok (Output.record record)) (h.read hstring)⟩
  | set record => exact ⟨h.merge hstring _, rfl⟩
  | del version => exact ⟨h.merge hstring _, rfl⟩
  | getExp =>
    exact ⟨h, congrArg (fun result => respond (Except.map .expiration result))
      (h.mapExpiration_read hstring)⟩
  | setExp expiration version => exact ⟨h.merge hstring _, rfl⟩
  | hget f =>
    exact ⟨h, congrArg (fun record => Except.ok (Output.record record)) (h.read (hslot f rfl))⟩
  | hset entry => exact ⟨h.merge (hslot entry.field rfl) _, rfl⟩
  | hdel f version => exact ⟨h.merge (hslot f rfl) _, rfl⟩
  | hgetExp f =>
    exact ⟨h, congrArg (fun result => respond (Except.map .expiration result))
      (h.mapExpiration_read (hslot f rfl))⟩
  | hsetExp f expiration version => exact ⟨h.merge (hslot f rfl) _, rfl⟩
  | hcard => exact ⟨h, congrArg (fun card => Except.ok (Output.cardinality card)) (h.hcard hlen)⟩
  | hscan count cursor =>
    simp only [Storage.execute, Store.execute, h.scan hlen]
    split
    · exact ⟨h, rfl⟩
    · exact ⟨h, rfl⟩

end Represents

/-! ## Runs -/

/-- A request, with the time at which the server executes it. -/
def serve (hash : Bytes → UInt64) (db : Backend) (request : Nat × Request) :
    Backend × Response Bytes :=
  execute hash request.1 db request.2

noncomputable def Store.serve (store : Store) (request : Nat × Request) : Store × Response Bytes :=
  store.execute request.1 request.2

theorem simulates_serve (hash : Bytes → UInt64) :
    Simulates (Represents hash)
      (fun request request' : Nat × Request => request.2.Fits ∧ request = request') Eq
      (serve hash) Store.serve := by
  rintro db store request _ hR ⟨hfits, rfl⟩
  exact hR.execute hfits

/-- The server answers a sequence of requests, each at its time, as the registers do. -/
theorem server_refines_store (hash : Bytes → UInt64) {requests : List (Nat × Request)}
    (hfits : ∀ request ∈ requests, request.2.Fits) :
    outputs (serve hash) .empty requests = outputs Store.serve .empty requests :=
  (simulates_serve hash).outputs_eq .empty hfits

/-- A map of two fields, of which one expires between two scans. -/
theorem server_refines_store_expiry :
    let ns : Namespace := ⟨Vector.replicate 21 1⟩
    outputs Store.serve .empty
        [(40, ⟨ns, [5], .hset ⟨[2], [7], 50, 3⟩⟩), (41, ⟨ns, [5], .hset ⟨[1, 1], [8], 60, 4⟩⟩),
          (42, ⟨ns, [5], .hscan 1 none⟩), (55, ⟨ns, [5], .hscan 1 none⟩)] =
      [.ok .none, .ok .none, .ok (.mapPage ⟨[⟨[2], [7], 50, 3⟩], true⟩),
        .ok (.mapPage ⟨[⟨[1, 1], [8], 60, 4⟩], false⟩)] :=
  (server_refines_store (fun _ => 9) (by decide)).symm.trans (by decide +kernel)

end Storage
end Wcn
