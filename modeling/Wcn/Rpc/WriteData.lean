import Wcn.Lib.Runs
import Wcn.Storage.Migration
import Wcn.StorageApi

/-!
# Wcn.Rpc.WriteData

Transfer of one shard: `transfer_shard` picks a source node, and the `WriteData` RPC carries the
data stream to the local database (`crates/migration/src/manager/mod.rs`,
`crates/storage_api/src/rpc/{client,server}.rs`).

The client forwards its stream into the request sink, closes it, and returns. The server feeds
what arrives into `import_all` and answers once that returns; the client never reads the answer.
The wire delivers in order, any number of items can be in flight, and it may break at any time.

* `server_ok_imported`: when the server returns `Ok`, the whole shard is in the database.
* `transfer_ok_iff`: when the client's `Ok` implies the server's.
-/

namespace Wcn
namespace Rpc

open Lib Storage StorageApi

variable {K T : Type}

inductive DataItem (K T : Type) where
  | frame (frame : ExportFrame K T)
  | done (n : Nat)

/-- `export_item` of the database server. -/
def exportItem : DataItem K T → ExportItem K T
  | .frame frame => .frame (.ok frame)
  | .done n => .done n

/-- The items of a data stream. An item may be an error of the source. -/
abbrev DataStream (K T : Type) := List (Except ErrorKind (DataItem K T))

/-- The stream `transfer_shard` forwards, given the answer each node of the source operator would
give to `read_data`, in the order they are tried: transport errors move on to the next node. -/
def selectSource (res : Except ErrorKind (DataStream K T)) :
    List (Except ErrorKind (DataStream K T)) → Except ErrorKind (DataStream K T)
  | [] => res
  | .error .transport :: nodes => selectSource (.error .transport) nodes
  | answer :: _ => answer

/-- The client side of `write_data`: what it still has to forward, or what it returned. -/
inductive Client (K T : Type) where
  | sending (stream : DataStream K T)
  | returned (res : Except ErrorKind Unit)

structure State (K T : Type) where
  client : Client K T
  inFlight : List (DataItem K T)
  /-- The client has closed or dropped its end. -/
  ended : Bool
  broken : Bool
  server : Progress K T

/-- `transfer_shard` up to its first suspension: without a stream to forward it returns at once. -/
def transferShard (nodes : List (Except ErrorKind (DataStream K T))) (db : Database K T) :
    State K T :=
  match selectSource (.error .internal) nodes with
  | .error e => ⟨.returned (.error e), [], false, false, .running (.start db)⟩
  | .ok stream => ⟨.sending stream, [], false, false, .running (.start db)⟩

/-- The steps of the client, of the wire and of the server. -/
inductive Step [DecidableEq K] (host : Host) : State K T → State K T → Prop where
  | send {s : State K T} {item : DataItem K T} {stream : DataStream K T} :
      s.client = .sending (.ok item :: stream) →
      Step host s { s with client := .sending stream, inFlight := s.inFlight ++ [item] }
  | streamErr {s : State K T} {e : ErrorKind} {stream : DataStream K T} :
      s.client = .sending (.error e :: stream) →
      Step host s { s with client := .returned (.error e), ended := true }
  | sinkErr {s : State K T} {stream : DataStream K T} :
      s.client = .sending stream →
      Step host s { s with client := .returned (.error .transport), ended := true }
  | close {s : State K T} :
      -- the stream is exhausted: `forward` closes the sink and `write_data` returns
      s.client = .sending [] →
      Step host s { s with client := .returned (.ok ()), ended := true }
  | lose {s : State K T} : Step host s { s with broken := true }
  | recv {s : State K T} {i : Importer K T} {item : DataItem K T} {rest : List (DataItem K T)} :
      s.server = .running i → s.inFlight = item :: rest →
      Step host s { s with inFlight := rest, server := i.step host (.ok (exportItem item)) }
  | recvErr {s : State K T} {i : Importer K T} {e : String} :
      s.server = .running i → s.broken = true →
      Step host s { s with server := i.step host (.error e) }
  | recvEnd {s : State K T} {i : Importer K T} :
      s.server = .running i → s.inFlight = [] → s.ended = true →
      Step host s { s with server := .returned i.db (.error .doneMissing) }

/-- `db'` is `db` after the import of a whole stream: its frames, closed by their number. -/
def Imported [DecidableEq K] (host : Host) (db : Database K T) (stream : DataStream K T)
    (db' : Database K T) : Prop :=
  ∃ (frames : List (K × DataContext T)) (rest : DataStream K T),
    stream = frames.map (fun entry => .ok (.frame ⟨entry.1, some entry.2⟩)) ++
      .ok (.done frames.length) :: rest ∧
    db' = db.writeBatch (frameOps host 0 frames)

/-! ## What the server's answer is worth -/

section Server

variable [DecidableEq K] {host : Host} {db : Database K T} {stream : DataStream K T}

/-- The server has consumed `received`, a part of the stream in order, and is where `import_all`
is after these items. -/
def Serving (host : Host) (db : Database K T) (stream : DataStream K T) (s : State K T) : Prop :=
  ∃ (received : List (DataItem K T)) (rest : DataStream K T),
    stream = (received ++ s.inFlight).map .ok ++ rest ∧
    (∀ pending, s.client = .sending pending → rest = pending) ∧
    match s.server with
    | .running i => ∀ items, (Importer.start db).importAll host
        (received.map (.ok ∘ exportItem) ++ items) = i.importAll host items
    | .returned db' res => res = .ok () → (Importer.start db).importAll host
        (received.map (.ok ∘ exportItem)) = (db', .ok ())

theorem serving_step : Invariant (Step host) (Serving host db stream) := by
  rintro s s' ⟨received, rest, hstream, hrest, hserver⟩ hstep
  cases hstep with
  | @send item pending hc =>
    cases hrest _ hc
    refine ⟨received, pending, ?_, fun p hp => by cases hp; rfl, hserver⟩
    simp [hstream]
  | streamErr hc => exact ⟨received, rest, hstream, (fun _ hp => nomatch hp), hserver⟩
  | sinkErr hc => exact ⟨received, rest, hstream, (fun _ hp => nomatch hp), hserver⟩
  | close hc => exact ⟨received, rest, hstream, (fun _ hp => nomatch hp), hserver⟩
  | lose => exact ⟨received, rest, hstream, hrest, hserver⟩
  | @recv i item flight hs hf =>
    rw [hs] at hserver
    refine ⟨received ++ [item], rest, by simp [hstream, hf], hrest, ?_⟩
    cases hi : i.step host (.ok (exportItem item)) with
    | running i' =>
      intro items
      have := hserver (.ok (exportItem item) :: items)
      simpa [Importer.importAll, hi] using this
    | returned db' res =>
      rintro rfl
      have := hserver [.ok (exportItem item)]
      simpa [Importer.importAll, hi] using this
  | @recvErr i e hs hb =>
    refine ⟨received, rest, hstream, hrest, ?_⟩
    rintro hres
    cases hres
  | recvEnd hs hf he =>
    refine ⟨received, rest, hstream, hrest, ?_⟩
    rintro hres
    cases hres

/-- A stream that `import_all` accepts is a whole shard. -/
theorem imported_of_importAll {received : List (DataItem K T)} (rest : DataStream K T)
    {db' : Database K T}
    (h : (Importer.start db).importAll host (received.map (.ok ∘ exportItem)) = (db', .ok ())) :
    Imported host db (received.map .ok ++ rest) db' := by
  obtain ⟨frames, tail, heq, rfl⟩ := Importer.importAll_ok h
  simp only [Importer.start, Nat.zero_add] at heq
  -- read the frames back from the items the server was fed
  suffices hitems : ∃ items, received = frames.map (fun entry => .frame ⟨entry.1, some entry.2⟩) ++
      .done frames.length :: items by
    obtain ⟨items, rfl⟩ := hitems
    refine ⟨frames, items.map .ok ++ rest, by simp, ?_⟩
    simp [Importer.start, Importer.merged, Database.writeBatch]
  generalize frames.length = n at heq
  clear h
  induction frames generalizing received with
  | nil =>
    cases received with
    | nil => cases heq
    | cons item items =>
      simp only [List.map_cons, List.map_nil, List.nil_append, List.cons.injEq] at heq
      cases item with
      | frame f => simp [exportItem] at heq
      | done m =>
        refine ⟨items, ?_⟩
        have := heq.1
        simp only [Function.comp_apply, exportItem, Except.ok.injEq, ExportItem.done.injEq] at this
        simp [this]
  | cons entry frames ih =>
    cases received with
    | nil => cases heq
    | cons item items =>
      simp only [List.map_cons, List.cons_append, List.cons.injEq] at heq
      obtain ⟨hitem, htail⟩ := heq
      obtain ⟨more, rfl⟩ := ih htail
      cases item with
      | frame f =>
        simp only [Function.comp_apply, exportItem, frameItem, Except.ok.injEq,
          ExportItem.frame.injEq] at hitem
        exact ⟨more, by simp [hitem]⟩
      | done m => simp [exportItem, frameItem] at hitem

/-- In every run, once the server has returned `Ok` the database holds every frame of the shard,
and the stream had its `Done` item. -/
theorem server_ok_imported {s : State K T} {nodes : List (Except ErrorKind (DataStream K T))}
    {db' : Database K T} (hsource : selectSource (.error .internal) nodes = .ok stream)
    (hrun : Run (Step host) (transferShard nodes db) s)
    (hok : s.server = .returned db' (.ok ())) : Imported host db stream db' := by
  have hstart : Serving host db stream (transferShard nodes db) := by
    rw [transferShard, hsource]
    exact ⟨[], stream, rfl, fun p hp => by cases hp; rfl, fun items => rfl⟩
  obtain ⟨received, rest, hstream, -, hserver⟩ := serving_step.run hrun hstart
  rw [hok] at hserver
  have himp := imported_of_importAll (s.inFlight.map .ok ++ rest) (hserver rfl)
  rw [hstream]
  simpa using himp

end Server

/-! ## What the client's answer is worth -/

section Client

theorem exists_sent {stream : DataStream K T} (h : ∀ e, Except.error e ∉ stream) :
    ∃ sent : List (DataItem K T), stream = sent.map .ok := by
  induction stream with
  | nil => exact ⟨[], rfl⟩
  | cons item stream ih =>
    obtain ⟨sent, rfl⟩ := ih fun e he => h e (by simp [he])
    cases item with
    | error e => exact absurd (by simp) (h e)
    | ok item => exact ⟨item :: sent, rfl⟩

variable [DecidableEq K] {host : Host}

/-- Where the client is in the stream: everything before that point was an item. -/
def Forwarding (stream : DataStream K T) (s : State K T) : Prop :=
  match s.client with
  | .sending pending => ∃ sent : List (DataItem K T), stream = sent.map .ok ++ pending
  | .returned res => res = .ok () → ∃ sent : List (DataItem K T), stream = sent.map .ok

theorem forwarding_step {stream : DataStream K T} :
    Invariant (Step host) (Forwarding stream) := by
  intro s s' hinv hstep
  cases hstep with
  | @send item pending hc =>
    simp only [Forwarding, hc] at hinv ⊢
    obtain ⟨sent, rfl⟩ := hinv
    exact ⟨sent ++ [item], by simp⟩
  | streamErr hc => intro h; cases h
  | sinkErr hc => intro h; cases h
  | close hc =>
    simp only [Forwarding, hc] at hinv ⊢
    obtain ⟨sent, rfl⟩ := hinv
    exact fun _ => ⟨sent, by simp⟩
  | lose => exact hinv
  | recv hs hf => exact hinv
  | recvErr hs hb => exact hinv
  | recvEnd hs hf he => exact hinv

/-- The client can hand over its whole stream before the server takes its first item. -/
theorem run_send (host : Host) (sent : List (DataItem K T)) (pending : DataStream K T)
    (flight : List (DataItem K T)) (server : Progress K T) :
    Run (Step host) ⟨.sending (sent.map .ok ++ pending), flight, false, false, server⟩
      ⟨.sending pending, flight ++ sent, false, false, server⟩ := by
  induction sent generalizing flight with
  | nil => simpa using Relation.ReflTransGen.refl
  | cons item sent ih =>
    refine .head (.send rfl) ?_
    simpa using ih (flight ++ [item])

/-- In every run, the client's `Ok` comes after the server's, and with the whole shard in the
database, exactly when the forwarded stream holds an error, so that the client cannot return `Ok`
at all. -/
theorem transfer_ok_iff (nodes : List (Except ErrorKind (DataStream K T))) :
    (∀ (host : Host) (db : Database K T) (s : State K T),
      Run (Step host) (transferShard nodes db) s → s.client = .returned (.ok ()) →
      ∃ stream db', selectSource (.error .internal) nodes = .ok stream ∧
        s.server = .returned db' (.ok ()) ∧ Imported host db stream db') ↔
    ∀ stream, selectSource (.error .internal) nodes = .ok stream → ∃ e, Except.error e ∈ stream := by
  constructor
  · intro h stream hsource
    by_contra hno
    obtain ⟨sent, rfl⟩ := exists_sent (not_exists.mp hno)
    -- the client sends everything and closes; the server has not started
    have hrun : Run (Step ⟨fun _ => 0, fun _ => true⟩) (transferShard nodes .empty)
        ⟨.returned (.ok ()), sent, true, false, .running (.start .empty)⟩ := by
      rw [transferShard, hsource]
      have hsend := run_send ⟨fun _ => 0, fun _ => true⟩ sent [] []
        (.running (.start (.empty : Database K T)))
      simp only [List.append_nil, List.nil_append] at hsend
      exact hsend.tail (.close rfl)
    obtain ⟨_, _, _, hserver, _⟩ := h _ _ _ hrun rfl
    cases hserver
  · intro h host db s hrun hok
    cases hsource : selectSource (.error .internal) nodes with
    | error e =>
      -- no stream was reached, which is like forwarding the error
      have hstart : Forwarding [.error e] (transferShard nodes db) := by
        rw [transferShard, hsource]
        intro hres
        cases hres
      have hend := forwarding_step.run hrun hstart
      simp only [Forwarding, hok, forall_const] at hend
      obtain ⟨sent, hsent⟩ := hend
      cases sent <;> cases hsent
    | ok stream =>
      have hstart : Forwarding stream (transferShard nodes db) := by
        rw [transferShard, hsource]
        exact ⟨[], rfl⟩
      have hend := forwarding_step.run hrun hstart
      simp only [Forwarding, hok, forall_const] at hend
      obtain ⟨sent, rfl⟩ := hend
      obtain ⟨e, he⟩ := h _ hsource
      simp at he

/-- The client returns `Ok` for a shard whose import then fails. -/
theorem transfer_ok_import_failed :
    ∃ s : State Unit Nat, Run (Step ⟨fun _ => 0, fun _ => false⟩)
        (transferShard [.ok [.ok (.frame ⟨(), some ⟨.some 1, 50, none, 5⟩⟩), .ok (.done 1)]] .empty)
        s ∧
      s.client = .returned (.ok ()) ∧ ∃ db, s.server = .returned db (.error .backend) := by
  have hclient := run_send (K := Unit) (T := Nat) ⟨fun _ => 0, fun _ => false⟩
    [.frame ⟨(), some ⟨.some 1, 50, none, 5⟩⟩, .done 1] [] [] (.running (.start .empty))
  refine ⟨_, ((hclient.tail (.close rfl)).tail (.recv rfl rfl)).tail (.recv rfl rfl), rfl, ?_⟩
  exact ⟨_, rfl⟩

end Client

end Rpc
end Wcn
