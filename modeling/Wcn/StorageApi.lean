import Mathlib.Order.Defs.LinearOrder

/-!
# Wcn.StorageApi

The operations of the Storage API on one key and what they return
(`crates/storage_api/src/{lib,operation}.rs`). Keys, fields and values are byte strings that are
only compared; `B` stands for them. The namespace, the key and the keyspace version are the same
for everything an operation does, and are left out.
-/

namespace Wcn
namespace StorageApi

inductive ErrorKind where
  | unauthorized
  | keyspaceVersionMismatch
  | timeout
  | internal
  | invalidArgument
  | transport
  | unknown
  deriving DecidableEq, Repr

structure Error where
  kind : ErrorKind
  message : Option String
  deriving DecidableEq, Repr

namespace Error

def new (kind : ErrorKind) : Error := ⟨kind, none⟩

def unauthorized : Error := new .unauthorized

def keyspaceVersionMismatch : Error := new .keyspaceVersionMismatch

def internal : Error := new .internal

def invalidArgument : Error := new .invalidArgument

def withMessage (self : Error) (message : String) : Error := { self with message := some message }

end Error

structure Record (B : Type) where
  value : B
  expiration : Nat
  version : Nat
  deriving DecidableEq, Repr

structure MapEntry (B : Type) where
  field : B
  record : Record B
  deriving DecidableEq, Repr

structure MapPage (B : Type) where
  entries : List (MapEntry B)
  hasNext : Bool
  deriving DecidableEq, Repr

/-- The cursor for the next page, if there is one. -/
def MapPage.nextPageCursor {B : Type} (self : MapPage B) : Option B :=
  if self.hasNext then self.entries.getLast?.map MapEntry.field else none

inductive Output (B : Type) where
  | record (record : Option (Record B))
  | expiration (expiration : Option Nat)
  | mapPage (page : MapPage B)
  | cardinality (card : Nat)
  | none
  deriving DecidableEq, Repr

/-- `storage_api::Result<operation::Output>`. -/
abbrev Response (B : Type) := Except Error (Output B)

instance {B : Type} [DecidableEq B] : DecidableEq (Response B)
  | .ok a, .ok b => decidable_of_iff (a = b) (by simp)
  | .error a, .error b => decidable_of_iff (a = b) (by simp)
  | .ok _, .error _ => .isFalse (by simp)
  | .error _, .ok _ => .isFalse (by simp)

inductive Operation (B : Type) where
  | get
  | set (record : Record B)
  | del (version : Nat)
  | getExp
  | setExp (expiration version : Nat)
  | hget (field : B)
  | hset (entry : MapEntry B)
  | hdel (field : B) (version : Nat)
  | hgetExp (field : B)
  | hsetExp (field : B) (expiration version : Nat)
  | hcard
  | hscan (count : Nat) (cursor : Option B)
  deriving DecidableEq, Repr

namespace Operation

variable {B : Type}

def isWrite : Operation B → Bool
  | .set _ | .del _ | .setExp _ _ | .hset _ | .hdel _ _ | .hsetExp _ _ _ => true
  | .get | .getExp | .hget _ | .hgetExp _ | .hcard | .hscan _ _ => false

end Operation

end StorageApi
end Wcn
