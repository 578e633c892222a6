import Wcn.Storage.Engine

/-!
# Wcn.Storage.Namespaces

Requests of one namespace do not see those of another. The namespace stands at a fixed place of every
key (`ownerPart`), so each key belongs to at most one, whatever the rest of the key looks like. Two
databases that agree on the keys of a namespace answer its requests alike and agree after them;
requests of other namespaces change none of these keys.
-/

namespace Wcn
namespace Storage

open Lib StorageApi

/-- Kind and namespace of a key: the 22 bytes after the position and the length. -/
def ownerPart (key : Bytes) : Bytes := (key.drop (keyringPositionPrefixLength + 4)).take 22

def OwnedBy (ns : Namespace) (key : Bytes) : Prop := ownerPart key = kindPrivate :: ns.asBytes

theorem ownerPart_of_prefix {hash : Bytes → UInt64} {ns : Namespace} {bytes k : Bytes}
    (h : storageKey (key hash ns bytes) <+: k) : ownerPart k = kindPrivate :: ns.asBytes := by
  obtain ⟨rest, rfl⟩ := h
  have hlen : (kindPrivate :: ns.asBytes).length = 22 := by
    rw [List.length_cons, ns.length_asBytes]
  rw [ownerPart, storageKey, GenericKey.toBytes, ← List.append_assoc, List.append_assoc,
    List.drop_left' (by rw [List.length_append, length_toBe, length_toBe]), key, privateKey,
    ← List.cons_append, List.append_assoc, List.take_left' hlen]

/-- A key that starts with a key of one namespace belongs to no other. -/
theorem ownedBy_iff {hash : Bytes → UInt64} {ns ns' : Namespace} {bytes k : Bytes}
    (h : storageKey (key hash ns bytes) <+: k) : OwnedBy ns' k ↔ ns = ns' := by
  rw [OwnedBy, ownerPart_of_prefix h, List.cons_inj_right, Namespace.asBytes_inj]

/-- The databases hold the same records under the keys of a namespace. -/
def AgreeOn (ns : Namespace) (db db' : Backend) : Prop :=
  ∀ name k, OwnedBy ns k → db.toDatabase.record (name, k) = db'.toDatabase.record (name, k)

/-! ## Steps -/

variable {hash : Bytes → UInt64} {now : Nat} {ns : Namespace} {db db' : Backend}

theorem AgreeOn.merge (h : AgreeOn ns db db') (name : ColumnFamilyName) (key : Bytes)
    (op : MergeOp Bytes) : AgreeOn ns (db.merge name key op) (db'.merge name key op) := by
  intro name' k hk
  rw [Backend.toDatabase_merge, Backend.toDatabase_merge]
  by_cases heq : (name, key) = (name', k)
  · rw [heq, Database.record_merge_self, Database.record_merge_self, h name' k hk]
  · rw [Database.record_merge_of_ne heq, Database.record_merge_of_ne heq]
    exact h name' k hk

/-- The same request keeps two databases in agreement. -/
theorem AgreeOn.execute (h : AgreeOn ns db db') (request : Request) :
    AgreeOn ns (execute hash now db request).1 (execute hash now db' request).1 := by
  rcases execute_db hash now request with ⟨-, hread⟩ | ⟨name, bytes, op, -, hwrite⟩
  · rw [hread, hread]
    exact h
  · rw [hwrite, hwrite]
    exact h.merge name bytes op

/-- A request of another namespace leaves the keys of this one alone. -/
theorem AgreeOn.execute_other (h : AgreeOn ns db db') {request : Request} (hns : request.ns ≠ ns) :
    AgreeOn ns (Storage.execute hash now db request).1 db' := by
  rcases execute_db hash now request with ⟨-, hread⟩ | ⟨name, bytes, op, hwritten, hwrite⟩
  · rw [hread]
    exact h
  · intro name' k hk
    rw [hwrite, Backend.toDatabase_merge, Database.record_merge_of_ne]
    · exact h name' k hk
    · rintro heq
      obtain ⟨-, rfl⟩ := Prod.ext_iff.mp heq
      obtain ⟨value, rfl⟩ := (builtFrom_writtenKey hwritten).exists_value
      exact hns ((ownedBy_iff (List.prefix_append _ _)).mp hk)

/-- Databases in agreement answer the namespace's requests alike. -/
theorem AgreeOn.response (h : AgreeOn ns db db') {request : Request} (hns : request.ns = ns)
    (hlen : request.key.length < 2 ^ 32 - 64) :
    (Storage.execute hash now db request).2 = (Storage.execute hash now db' request).2 := by
  refine response_congr fun name k hk => ?_
  have howned : OwnedBy ns k := (ownedBy_iff (hk.isPrefix hlen)).mpr hns
  rw [ColumnFamily.readAt, ColumnFamily.readAt, ← Backend.record_toDatabase,
    ← Backend.record_toDatabase, h name k howned]

/-! ## Runs -/

/-- The responses to the requests of a namespace. -/
def responsesOf (ns : Namespace) (requests : List Request) (responses : List (Response Bytes)) :
    List (Response Bytes) :=
  ((requests.zip responses).filter fun exchange => exchange.1.ns = ns).map (·.2)

theorem AgreeOn.executeAll (h : AgreeOn ns db db') {requests : List Request}
    (hlen : ∀ request ∈ requests, request.key.length < 2 ^ 32 - 64) :
    responsesOf ns requests (executeAll hash now db requests).2 =
      (executeAll hash now db' (requests.filter (·.ns = ns))).2 := by
  induction requests generalizing db db' with
  | nil => rfl
  | cons request requests ih =>
    have hrest : ∀ request ∈ requests, request.key.length < 2 ^ 32 - 64 :=
      fun r hr => hlen r (List.mem_cons_of_mem _ hr)
    rw [List.filter_cons, Storage.executeAll, responsesOf, List.zip_cons_cons, List.filter_cons]
    by_cases hns : request.ns = ns
    · rw [if_pos (decide_eq_true hns), if_pos (decide_eq_true hns), List.map_cons, Storage.executeAll]
      exact congrArg₂ List.cons (h.response hns (hlen _ List.mem_cons_self)) (ih (h.execute request) hrest)
    · rw [if_neg (by simpa using hns), if_neg (by simpa using hns)]
      exact ih (h.execute_other hns) hrest

/-- A namespace gets the same responses as if no other namespace had sent anything. -/
theorem namespaces_isolated (hash : Bytes → UInt64) (now : Nat) (db : Backend) (ns : Namespace)
    {requests : List Request} (hlen : ∀ request ∈ requests, request.key.length < 2 ^ 32 - 64) :
    responsesOf ns requests (executeAll hash now db requests).2 =
      (executeAll hash now db (requests.filter (·.ns = ns))).2 :=
  AgreeOn.executeAll (fun _ _ _ => rfl) hlen

/-- A map of one namespace is empty although another one wrote to the same key, and to a key that
looks like the inside of the first one's. -/
theorem namespaces_isolated_imitation :
    responsesOf ⟨Vector.replicate 21 1⟩
        [⟨⟨Vector.replicate 21 2⟩, [5], .hset ⟨[7], [8], 50, 3⟩⟩,
          ⟨⟨Vector.replicate 21 2⟩, List.replicate 21 1 ++ [5], .hset ⟨[7], [8], 50, 3⟩⟩,
          ⟨⟨Vector.replicate 21 1⟩, [5], .hscan 10 none⟩]
        (executeAll (fun _ => 9) 40 Backend.empty
          [⟨⟨Vector.replicate 21 2⟩, [5], .hset ⟨[7], [8], 50, 3⟩⟩,
            ⟨⟨Vector.replicate 21 2⟩, List.replicate 21 1 ++ [5], .hset ⟨[7], [8], 50, 3⟩⟩,
            ⟨⟨Vector.replicate 21 1⟩, [5], .hscan 10 none⟩]).2 =
      [.ok (.mapPage ⟨[], false⟩)] :=
  (namespaces_isolated (fun _ => 9) 40 Backend.empty _ (by decide)).trans (by decide)

end Storage
end Wcn
