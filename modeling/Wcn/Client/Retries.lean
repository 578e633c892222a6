import Wcn.Client.Encryption

/-!
# Wcn.Client.Retries

The client repeats an operation after transient errors (`crates/client/src/client.rs`). It encrypts the
operation once, so that all attempts carry the same bytes and the same version.

What happens to an attempt is up to the environment: it may not get a connection, it may be lost, it
may be executed with the answer lost, and requests of other clients may be executed before it. The
database applies merges one by one and is not compacted.

* `execute_again` — executing a write again, however much later, changes nothing.
* `retries_harmless` — however often the attempts are executed, the database ends as if once at most.
-/

namespace Wcn

open Lib Storage StorageApi

def StorageApi.Error.isTransient (self : StorageApi.Error) : Bool :=
  match self.kind with
  | .unauthorized | .invalidArgument | .unknown => false
  | .keyspaceVersionMismatch | .timeout | .internal | .transport => true

/-! ## Executing a write again -/

namespace Storage

deriving instance DecidableEq for Request

/-- What a request merges into which key. -/
def written (hash : Bytes → UInt64) (now : Nat) (request : Request) :
    Option ((ColumnFamilyName × Bytes) × MergeOp Bytes) :=
  let key := key hash request.ns request.key
  match request.operation with
  | .set record =>
    some ((.genericString, storageKey key), .set record.value record.expiration record.version)
  | .del version => some ((.genericString, storageKey key), .del now version)
  | .setExp expiration version => some ((.genericString, storageKey key), .setExp expiration version)
  | .hset entry =>
    some ((.genericMap, extKey key entry.field),
      .set entry.record.value entry.record.expiration entry.record.version)
  | .hdel field version => some ((.genericMap, extKey key field), .del now version)
  | .hsetExp field expiration version =>
    some ((.genericMap, extKey key field), .setExp expiration version)
  | .get | .getExp | .hget _ | .hgetExp _ | .hcard | .hscan _ _ => none

theorem toDatabase_injective : Function.Injective Backend.toDatabase := by
  rintro ⟨cf⟩ ⟨cf'⟩ h
  refine congrArg Backend.mk (funext fun name => Std.ExtTreeMap.ext_getElem? fun key => ?_)
  exact congrFun (congrArg Database.record h) (name, key)

section Again

variable {hash : Bytes → UInt64} {now now' : Nat} {db : Backend} {request : Request}

theorem toDatabase_execute (hash : Bytes → UInt64) (now : Nat) (db : Backend) (request : Request) :
    (execute hash now db request).1.toDatabase =
      match written hash now request with
      | none => db.toDatabase
      | some (key, op) => db.toDatabase.merge key op := by
  obtain ⟨ns, bytes, operation⟩ := request
  cases operation with
  | get | getExp | hget _ | hgetExp _ | hcard => rfl
  | set _ | del _ | setExp _ _ | hset _ | hdel _ _ | hsetExp _ _ _ => exact Backend.toDatabase_merge ..
  | hscan count cursor =>
    simp only [execute]
    split <;> rfl

theorem written_time (hash : Bytes → UInt64) (now now' : Nat) (request : Request) :
    (written hash now request).map (fun w => (w.1, w.2.timestamp)) =
      (written hash now' request).map fun w => (w.1, w.2.timestamp) := by
  obtain ⟨ns, bytes, operation⟩ := request
  cases operation <;> simp only [written, MergeOp.del, Option.map_some, Option.map_none]

/-- The database has taken in the write, or something newer. -/
def Delivered (hash : Bytes → UInt64) (request : Request) (db : Backend) : Prop :=
  ∀ now key op, written hash now request = some (key, op) →
    ∃ ctx, db.toDatabase.record key = some ctx ∧ op.timestamp ≤ ctx.version

theorem version_le_merge {ctx : DataContext Bytes} (op : MergeOp Bytes) :
    ctx.version ≤ (ctx.merge op).version ∧ op.timestamp ≤ (ctx.merge op).version := by
  by_cases h : op.timestamp ≤ ctx.version
  · rw [DataContext.merge_stale h]
    exact ⟨Nat.le_refl _, h⟩
  · have hlt := Nat.lt_of_not_le h
    rw [DataContext.merge_fresh hlt, DataContext.version_apply]
    exact ⟨Nat.le_of_lt hlt, Nat.le_refl _⟩

theorem delivered_execute (hash : Bytes → UInt64) (now : Nat) (db : Backend) (request : Request) :
    Delivered hash request (execute hash now db request).1 := by
  intro now' key op hwritten
  have htime := written_time hash now now' request
  rw [hwritten] at htime
  obtain ⟨⟨key', op'⟩, hwritten', heq⟩ := Option.map_eq_some_iff.mp htime
  obtain ⟨rfl, htimestamp⟩ := Prod.mk.inj heq
  rw [toDatabase_execute, hwritten']
  refine ⟨_, Database.record_merge_self .., ?_⟩
  rw [← htimestamp]
  exact (version_le_merge op').2

/-- Records are never removed, and their versions never fall. -/
theorem Delivered.execute (h : Delivered hash request db) (now : Nat) (other : Request) :
    Delivered hash request (execute hash now db other).1 := by
  intro now' key op hwritten
  obtain ⟨ctx, hctx, hle⟩ := h now' key op hwritten
  rw [toDatabase_execute]
  cases hother : written hash now other with
  | none => exact ⟨ctx, hctx, hle⟩
  | some w =>
    obtain ⟨key', op'⟩ := w
    dsimp only
    by_cases heq : key' = key
    · subst heq
      refine ⟨_, Database.record_merge_self .., ?_⟩
      rw [hctx]
      exact hle.trans (version_le_merge op').1
    · exact ⟨ctx, (Database.record_merge_of_ne heq ..).trans hctx, hle⟩

/-- Executing a write again changes nothing. -/
theorem execute_again (h : Delivered hash request db) (now : Nat) :
    (execute hash now db request).1 = db := by
  refine toDatabase_injective ?_
  rw [toDatabase_execute]
  cases hwritten : written hash now request with
  | none => rfl
  | some w =>
    obtain ⟨key, op⟩ := w
    obtain ⟨ctx, hctx, hle⟩ := h now key op hwritten
    have hrecord : (db.toDatabase.merge key op).record = db.toDatabase.record := by
      funext key'
      by_cases heq : key = key'
      · subst heq
        rw [Database.record_merge_self, hctx]
        exact congrArg some (DataContext.merge_stale hle)
      · rw [Database.record_merge_of_ne heq]
    exact congrArg Database.mk hrecord

end Again

/-- The first delivery of a request, without the later ones. -/
def onlyFirst (request : Request) : List (Nat × Request) → List (Nat × Request)
  | [] => []
  | served :: rest =>
    if served.2 = request then
      served :: rest.filter (·.2 ≠ request)
    else
      served :: onlyFirst request rest

/-- The responses to everything but the request. -/
def responsesToOthers (hash : Bytes → UInt64) (request : Request) (db : Backend)
    (served : List (Nat × Request)) : List (Response Bytes) :=
  ((served.zip (outputs (serve hash) db served)).filter (·.1.2 ≠ request)).map (·.2)

section Runs

variable {hash : Bytes → UInt64} {db : Backend} {request : Request}

theorem responsesToOthers_cons_self {first : Nat × Request} (h : first.2 = request)
    (rest : List (Nat × Request)) :
    responsesToOthers hash request db (first :: rest) =
      responsesToOthers hash request (serve hash db first).1 rest := by
  rw [responsesToOthers, outputs, List.zip_cons_cons, List.filter_cons_of_neg (by simpa using h)]
  rfl

theorem responsesToOthers_cons {first : Nat × Request} (h : first.2 ≠ request)
    (rest : List (Nat × Request)) :
    responsesToOthers hash request db (first :: rest) =
      (serve hash db first).2 :: responsesToOthers hash request (serve hash db first).1 rest := by
  rw [responsesToOthers, outputs, List.zip_cons_cons, List.filter_cons_of_pos (by simpa using h)]
  rfl

/-- Once a request is delivered, it makes no difference whether it comes again. -/
theorem Delivered.filter (h : Delivered hash request db) (served : List (Nat × Request)) :
    final (serve hash) db (served.filter (·.2 ≠ request)) = final (serve hash) db served ∧
      responsesToOthers hash request db (served.filter (·.2 ≠ request)) =
        responsesToOthers hash request db served := by
  induction served generalizing db with
  | nil => exact ⟨rfl, rfl⟩
  | cons first rest ih =>
    by_cases hfirst : first.2 = request
    · have hagain : (serve hash db first).1 = db := by
        rw [serve, hfirst]
        exact execute_again h first.1
      rw [List.filter_cons_of_neg (by simpa using hfirst), responsesToOthers_cons_self hfirst, final,
        hagain]
      exact ih h
    · obtain ⟨hfinal, hothers⟩ := ih (h.execute first.1 first.2)
      rw [List.filter_cons_of_pos (by simpa using hfirst), final, final,
        responsesToOthers_cons hfirst, responsesToOthers_cons hfirst]
      exact ⟨hfinal, congrArg _ hothers⟩

theorem serve_onlyFirst (hash : Bytes → UInt64) (request : Request) (db : Backend)
    (served : List (Nat × Request)) :
    final (serve hash) db (onlyFirst request served) = final (serve hash) db served ∧
      responsesToOthers hash request db (onlyFirst request served) =
        responsesToOthers hash request db served := by
  induction served generalizing db with
  | nil => exact ⟨rfl, rfl⟩
  | cons first rest ih =>
    by_cases hfirst : first.2 = request
    · have hdelivered : Delivered hash request (serve hash db first).1 := by
        rw [serve, hfirst]
        exact delivered_execute hash first.1 db request
      rw [onlyFirst, if_pos hfirst, final, final, responsesToOthers_cons_self hfirst,
        responsesToOthers_cons_self hfirst]
      exact hdelivered.filter rest
    · obtain ⟨hfinal, hothers⟩ := ih (serve hash db first).1
      rw [onlyFirst, if_neg hfirst, final, final, responsesToOthers_cons hfirst,
        responsesToOthers_cons hfirst]
      exact ⟨hfinal, congrArg _ hothers⟩

end Runs

end Storage

/-! ## The loop -/

namespace Client

variable {K : Type}

/-- Which open connection a node has to have that an attempt looks for. -/
inductive Route where
  | any
  | privateOnly
  deriving DecidableEq, Repr

/-- What becomes of an attempt: a response, or no connection in time. -/
abbrev Outcome := Option (Response Bytes)

def executeInternal (aead : Aead K) (encryptionKey : Option K) (outcome : Outcome) :
    Except Error (Output Bytes) :=
  match outcome with
  | none => .error .noAvailableNodes
  | some response => received aead encryptionKey response

def routeOf (attempt : Nat) : Route := if attempt = 0 then .any else .privateOnly

/-- What an attempt has sent. -/
def sentBy (request : Request) : Outcome → List Request
  | none => []
  | some _ => [request]

/-- The loop of `execute_with_retries`, with the attempts that are left and the number of the next.
`world` is what becomes of an attempt, by its number and the route it asks for. -/
def executeWithRetries (aead : Aead K) (encryptionKey : Option K) (world : Nat → Route → Outcome)
    (request : Request) : Nat → Nat → List Request × Except Error (Output Bytes)
  | 0, _ => ([], .error .retriesExhausted)
  | left + 1, attempt =>
    let outcome := world attempt (routeOf attempt)
    match executeInternal aead encryptionKey outcome with
    | .ok data => (sentBy request outcome, .ok data)
    | .error (.coordinatorApi err) =>
      if err.isTransient then
        let (rest, result) := executeWithRetries aead encryptionKey world request left (attempt + 1)
        (sentBy request outcome ++ rest, result)
      else
        (sentBy request outcome, .error (.coordinatorApi err))
    | .error err => (sentBy request outcome, .error err)

/-- `Operation::encrypt`, if the client has a key. -/
def encryptRequest (aead : Aead K) (encryptionKey : Option K) (nonce : Bytes) (request : Request) :
    Except EncryptionError Request :=
  match encryptionKey with
  | none => .ok request
  | some key => do
    .ok { request with operation := ← encrypt aead key nonce request.operation }

/-- `BaseClient::execute`. -/
def execute (aead : Aead K) (encryptionKey : Option K) (maxAttempts : Nat) (nonce : Bytes)
    (world : Nat → Route → Outcome) (request : Request) :
    List Request × Except Error (Output Bytes) :=
  match encryptRequest aead encryptionKey nonce request with
  | .error err => ([], .error (.encryption err))
  | .ok request =>
    if 1 < maxAttempts then
      executeWithRetries aead encryptionKey world request maxAttempts 0
    else
      (sentBy request (world 0 .any), executeInternal aead encryptionKey (world 0 .any))

section Loop

variable {aead : Aead K} {encryptionKey : Option K} {world : Nat → Route → Outcome}
  {request : Request} {left attempt : Nat}

/-- The attempt fails with a transient error, so that another one follows if there is one left. -/
def Transient (aead : Aead K) (encryptionKey : Option K) (world : Nat → Route → Outcome)
    (attempt : Nat) : Prop :=
  ∃ err, err.isTransient = true ∧
    executeInternal aead encryptionKey (world attempt (routeOf attempt)) =
      .error (.coordinatorApi err)

theorem executeWithRetries_of_transient (h : Transient aead encryptionKey world attempt) (left : Nat) :
    executeWithRetries aead encryptionKey world request (left + 1) attempt =
      (request :: (executeWithRetries aead encryptionKey world request left (attempt + 1)).1,
        (executeWithRetries aead encryptionKey world request left (attempt + 1)).2) := by
  obtain ⟨err, htransient, herr⟩ := h
  have hsent : sentBy request (world attempt (routeOf attempt)) = [request] := by
    cases houtcome : world attempt (routeOf attempt) with
    | none =>
      rw [houtcome] at herr
      cases herr
    | some response => rfl
  rw [executeWithRetries]
  dsimp only
  rw [herr]
  dsimp only
  rw [if_pos htransient, hsent]
  rfl

theorem executeWithRetries_of_not_transient (h : ¬ Transient aead encryptionKey world attempt)
    (left : Nat) :
    executeWithRetries aead encryptionKey world request (left + 1) attempt =
      (sentBy request (world attempt (routeOf attempt)),
        executeInternal aead encryptionKey (world attempt (routeOf attempt))) := by
  rw [executeWithRetries]
  dsimp only
  cases hresult : executeInternal aead encryptionKey (world attempt (routeOf attempt)) with
  | ok data => rfl
  | error err =>
    cases err with
    | coordinatorApi err =>
      dsimp only
      rw [if_neg fun htransient => h ⟨err, htransient, hresult⟩]
    | _ => rfl

/-- Either all attempts fail with transient errors, or the loop ends with the first that does not. -/
inductive Ends (aead : Aead K) (encryptionKey : Option K) (world : Nat → Route → Outcome)
    (request : Request) (left attempt : Nat) : List Request × Except Error (Output Bytes) → Prop where
  | exhausted : (∀ i < left, Transient aead encryptionKey world (attempt + i)) →
      Ends aead encryptionKey world request left attempt
        (List.replicate left request, .error .retriesExhausted)
  | settled (n : Nat) : n < left → (∀ i < n, Transient aead encryptionKey world (attempt + i)) →
      ¬ Transient aead encryptionKey world (attempt + n) →
      Ends aead encryptionKey world request left attempt
        (List.replicate n request ++
            sentBy request (world (attempt + n) (routeOf (attempt + n))),
          executeInternal aead encryptionKey (world (attempt + n) (routeOf (attempt + n))))

theorem Ends.again {sent : List Request} {result : Except Error (Output Bytes)}
    (hfirst : Transient aead encryptionKey world attempt)
    (h : Ends aead encryptionKey world request left (attempt + 1) (sent, result)) :
    Ends aead encryptionKey world request (left + 1) attempt (request :: sent, result) := by
  have hall : ∀ {n}, (∀ i < n, Transient aead encryptionKey world (attempt + 1 + i)) →
      ∀ i < n + 1, Transient aead encryptionKey world (attempt + i) := by
    intro n hrest i hi
    cases i with
    | zero => exact hfirst
    | succ i =>
      have hi' := hrest i (Nat.lt_of_succ_lt_succ hi)
      rwa [Nat.add_assoc, Nat.add_comm 1 i] at hi'
  cases h with
  | exhausted hrest =>
    rw [← List.replicate_succ]
    exact .exhausted (hall hrest)
  | settled n hn hrest hlast =>
    rw [← List.cons_append, ← List.replicate_succ, Nat.add_assoc, Nat.add_comm 1 n]
    rw [Nat.add_assoc, Nat.add_comm 1 n] at hlast
    exact .settled (n + 1) (Nat.succ_lt_succ hn) (hall hrest) hlast

theorem ends_executeWithRetries (left attempt : Nat) :
    Ends aead encryptionKey world request left attempt
      (executeWithRetries aead encryptionKey world request left attempt) := by
  induction left generalizing attempt with
  | zero => exact .exhausted fun i hi => absurd hi (Nat.not_lt_zero i)
  | succ left ih =>
    by_cases hfirst : Transient aead encryptionKey world attempt
    · rw [executeWithRetries_of_transient hfirst]
      exact (ih (attempt + 1)).again hfirst
    · rw [executeWithRetries_of_not_transient hfirst]
      exact .settled 0 (Nat.succ_pos left) (fun i hi => absurd hi (Nat.not_lt_zero i)) hfirst

theorem sentBy_isPrefix (request : Request) (outcome : Outcome) : sentBy request outcome <+: [request] := by
  cases outcome with
  | none => exact List.nil_prefix
  | some response => exact List.prefix_refl _

/-- The attempts send the request one after the other, as long as they are made. -/
theorem Ends.sent {run : List Request × Except Error (Output Bytes)}
    (h : Ends aead encryptionKey world request left attempt run) :
    run.1 <+: List.replicate left request := by
  cases h with
  | exhausted _ => exact List.prefix_refl _
  | settled n hn _ _ =>
    obtain ⟨rest, rfl⟩ := Nat.exists_eq_add_of_lt hn
    have hlast : List.replicate (n + rest + 1) request =
        List.replicate n request ++ ([request] ++ List.replicate rest request) := by
      rw [List.singleton_append, ← List.replicate_succ, List.replicate_append_replicate, Nat.add_assoc]
    rw [hlast]
    exact (List.prefix_append_right_inj _).mpr
      ((sentBy_isPrefix request _).trans (List.prefix_append _ _))

theorem Ends.result {run : List Request × Except Error (Output Bytes)}
    (h : Ends aead encryptionKey world request left attempt run) {err : StorageApi.Error}
    (htransient : err.isTransient = true) : run.2 ≠ .error (.coordinatorApi err) := by
  cases h with
  | exhausted _ => exact nofun
  | settled n _ _ hlast => exact fun herr => hlast ⟨err, htransient, herr⟩

/-- An operation is sent with the same bytes every time, at most as often as the client may try.
However often and whenever a database executes it, it ends as if it had executed it at most once, and
answers others alike. With retries, a transient error never gets to the caller. -/
theorem retries_harmless (aead : Aead K) (encryptionKey : Option K) (maxAttempts : Nat) (nonce : Bytes)
    (world : Nat → Route → Outcome) (request : Request) :
    let run := execute aead encryptionKey maxAttempts nonce world request
    run.1.length ≤ max 1 maxAttempts ∧
    (1 < maxAttempts → ∀ e, e.isTransient = true → run.2 ≠ .error (.coordinatorApi e)) ∧
    ∃ sealed, (∀ sent ∈ run.1, sent = sealed) ∧ ∀ hash db served,
      final (serve hash) db (onlyFirst sealed served) = final (serve hash) db served ∧
      responsesToOthers hash sealed db (onlyFirst sealed served) =
        responsesToOthers hash sealed db served := by
  intro run
  cases hsealed : encryptRequest aead encryptionKey nonce request with
  | error err =>
    have hrun : run = ([], .error (.encryption err)) := by
      simp only [run, execute, hsealed]
    rw [hrun]
    exact ⟨Nat.zero_le _, nofun, request, nofun, fun hash => serve_onlyFirst hash request⟩
  | ok sealed =>
    have hsent : run.1 <+: List.replicate (max 1 maxAttempts) sealed := by
      simp only [run, execute, hsealed]
      split
      · next hmany =>
        rw [max_eq_right (Nat.le_of_lt hmany)]
        exact (ends_executeWithRetries maxAttempts 0).sent
      · next hone =>
        rw [max_eq_left (Nat.le_of_not_lt hone)]
        exact sentBy_isPrefix sealed _
    refine ⟨?_, ?_, sealed, ?_, fun hash => serve_onlyFirst hash sealed⟩
    · refine hsent.length_le.trans ?_
      rw [List.length_replicate]
    · intro hmany err htransient
      simp only [run, execute, hsealed, if_pos hmany]
      exact (ends_executeWithRetries maxAttempts 0).result htransient
    · intro sent hmem
      exact List.eq_of_mem_replicate (hsent.subset hmem)

end Loop

end Client
end Wcn
