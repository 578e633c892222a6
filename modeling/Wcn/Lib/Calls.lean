import Wcn.Lib.ByteStrings
import Wcn.Lib.Runs

/-!
# Wcn.Lib.Calls

Remote calls, each over a pair of byte streams of its own. The client writes the number of a procedure
and one message, the server answers with messages until it closes its stream. A message goes as a
frame: its length in four bytes, then the message. Bytes arrive in order but in any pieces, and either
side may stop anywhere, also in the middle of a frame.

* `next` — what the bytes that are there start with.
* `got_of_run` — the server performs the call that was made, at most once, and the client gets the first
  of its responses, unchanged.
* `exists_run` — and all of them, if nothing breaks and every frame is short enough.
-/

namespace Wcn
namespace Lib
namespace Calls

/-! ## Frames -/

inductive Next where
  /-- Part of a frame, or nothing at all. -/
  | more
  | tooLong
  | message (payload rest : Bytes)
deriving DecidableEq

def frame (payload : Bytes) : Bytes := toBe 4 payload.length ++ payload

def next (limit : Nat) (bytes : Bytes) : Next :=
  match readBe 4 bytes with
  | none => .more
  | some (len, rest) =>
    if limit < len then .tooLong
    else if len ≤ rest.length then .message (rest.take len) (rest.drop len)
    else .more

section Frames

variable {limit : Nat} {payload bytes rest : Bytes}

@[simp] theorem next_nil : next limit [] = .more := rfl

theorem next_frame (hlimit : limit < 2 ^ 32) (h : payload.length ≤ limit) (rest : Bytes) :
    next limit (frame payload ++ rest) = .message payload rest := by
  have hlen : payload.length % 256 ^ 4 = payload.length :=
    Nat.mod_eq_of_lt ((Nat.lt_of_le_of_lt h hlimit).trans_eq (by decide))
  have hle : payload.length ≤ (payload ++ rest).length := by
    rw [List.length_append]
    exact Nat.le_add_right _ _
  rw [next, frame, List.append_assoc, readBe_toBe, hlen]
  dsimp only
  rw [if_neg (Nat.not_lt.mpr h), if_pos hle, List.take_left' rfl, List.drop_left' rfl]

theorem readBe_append {w n : Nat} (h : readBe w bytes = some (n, rest)) (more : Bytes) :
    readBe w (bytes ++ more) = some (n, rest ++ more) := by
  rw [readBe] at h ⊢
  split_ifs at h with hle
  obtain ⟨rfl, rfl⟩ := Prod.ext_iff.mp (Option.some.inj h)
  rw [if_pos (by rw [List.length_append]; omega), List.take_append_of_le_length hle,
    List.drop_append_of_le_length hle]

/-- A whole message stays what it is when more bytes arrive. -/
theorem next_append (h : next limit bytes = .message payload rest) (more : Bytes) :
    next limit (bytes ++ more) = .message payload (rest ++ more) := by
  rw [next] at h ⊢
  cases hread : readBe 4 bytes with
  | none => rw [hread] at h; cases h
  | some read =>
    obtain ⟨len, tail⟩ := read
    rw [hread] at h
    rw [readBe_append hread more]
    dsimp only at h ⊢
    split_ifs at h with hlong hle
    obtain ⟨rfl, rfl⟩ := Next.message.inj h
    rw [if_neg hlong, if_pos (by rw [List.length_append]; omega), List.take_append_of_le_length hle,
      List.drop_append_of_le_length hle]

/-- Messages that fit in frames. -/
def Within (limit : Nat) (payloads : List Bytes) : Prop :=
  ∀ payload ∈ payloads, payload.length ≤ limit

variable {payloads : List Bytes}

/-- The first bytes of some frames start with the first of the messages, if with any. -/
theorem of_next_eq_message (hlimit : limit < 2 ^ 32) (hwithin : Within limit payloads) {unseen : Bytes}
    (hbytes : bytes ++ unseen = payloads.flatMap frame)
    (h : next limit bytes = .message payload rest) :
    ∃ payloads', payloads = payload :: payloads' ∧ rest ++ unseen = payloads'.flatMap frame := by
  have hnext := next_append h unseen
  rw [hbytes] at hnext
  cases payloads with
  | nil => cases hnext
  | cons first payloads =>
    rw [List.flatMap_cons, next_frame hlimit (hwithin first List.mem_cons_self)] at hnext
    obtain ⟨rfl, hrest⟩ := Next.message.inj hnext
    exact ⟨payloads, rfl, hrest.symm⟩

end Frames

/-! ## One call -/

/-- What a server does with calls: the procedures that it knows, by their numbers, each with how it
reads a message, and the responses to what was read. -/
structure Service (Job : Type*) where
  route : UInt8 → Option (Bytes → Option Job)
  responses : Job → List Bytes

inductive Server where
  | accepting
  | reading (id : UInt8)
  | responding (todo : List Bytes)
  | closed
deriving DecidableEq

/-- Why the client gets no further responses. -/
inductive Failure where
  | unsent
  | tooLong
  /-- The server has closed its stream after a whole frame. -/
  | ended
  | remaining
  | lost
deriving DecidableEq

structure State (Job : Type*) where
  toServer : Bytes
  /-- Bytes that the server has not read yet. -/
  inbox : Bytes
  server : Server
  performed : List Job
  toClient : Bytes
  /-- Bytes that the client has not read yet. -/
  buffer : Bytes
  got : List Bytes
  failure : Option Failure

variable {Job : Type*}

/-- The bytes of a request, if it can be sent. -/
def requestBytes (limit : Nat) (payload : Bytes) : Bytes :=
  if payload.length ≤ limit then frame payload else []

def start (limit : Nat) (id : UInt8) (payload : Bytes) : State Job where
  toServer := id :: requestBytes limit payload
  inbox := []
  server := .accepting
  performed := []
  toClient := []
  buffer := []
  got := []
  failure := if payload.length ≤ limit then none else some .unsent

/-- The server has read the message of the request. -/
def State.perform (service : Service Job) (s : State Job) (rest : Bytes) : Option Job → State Job
  | some job =>
    { s with inbox := rest, server := .responding (service.responses job)
             performed := s.performed ++ [job] }
  | none => { s with inbox := rest, server := .closed }

inductive Step (limit : Nat) (service : Service Job) : State Job → State Job → Prop where
  | arrive {s : State Job} {a b : Bytes} :
      s.toServer = a ++ b → Step limit service s { s with toServer := b, inbox := s.inbox ++ a }
  | readId {s : State Job} {id : UInt8} {rest : Bytes} :
      s.server = .accepting → s.inbox = id :: rest →
      Step limit service s { s with inbox := rest
                                    server := if (service.route id).isSome then .reading id
                                      else .closed }
  | readRequest {s : State Job} {id : UInt8} {decode : Bytes → Option Job} {payload rest : Bytes} :
      s.server = .reading id → service.route id = some decode →
      next limit s.inbox = .message payload rest →
      Step limit service s (s.perform service rest (decode payload))
  | respond {s : State Job} {payload : Bytes} {todo : List Bytes} :
      s.server = .responding (payload :: todo) → payload.length ≤ limit →
      Step limit service s { s with server := .responding todo
                                    toClient := s.toClient ++ frame payload }
  | cut {s : State Job} {payload sent : Bytes} {todo : List Bytes} :
      -- the server stops in the middle of a frame
      s.server = .responding (payload :: todo) → payload.length ≤ limit → sent <+: frame payload →
      Step limit service s { s with server := .closed, toClient := s.toClient ++ sent }
  | close {s : State Job} :
      -- after all responses, or before that for whatever reason
      Step limit service s { s with server := .closed }
  | receive {s : State Job} {a b : Bytes} :
      s.failure = none → s.toClient = a ++ b →
      Step limit service s { s with toClient := b, buffer := s.buffer ++ a }
  | read {s : State Job} {payload rest : Bytes} :
      s.failure = none → next limit s.buffer = .message payload rest →
      Step limit service s { s with buffer := rest, got := s.got ++ [payload] }
  | readTooLong {s : State Job} :
      s.failure = none → next limit s.buffer = .tooLong →
      Step limit service s { s with failure := some .tooLong }
  | finished {s : State Job} :
      s.failure = none → s.server = .closed → s.toClient = [] → next limit s.buffer = .more →
      Step limit service s { s with failure := some (if s.buffer = [] then .ended else .remaining) }
  | fail {s : State Job} {a b : Bytes} :
      -- what the client has not written by then is never sent
      s.failure = none → s.toServer = a ++ b →
      Step limit service s { s with toServer := a, failure := some .lost }

/-! ## What runs keep -/

section Runs

variable {limit : Nat} {service : Service Job} {id : UInt8} {payload : Bytes}
  {decode : Bytes → Option Job} {job : Job} {s : State Job}

/-- Where the server is with the request, and the responses that it has written but the client has not
read (`pending`). -/
def Stage (limit : Nat) (service : Service Job) (id : UInt8) (payload : Bytes) (job : Job)
    (s : State Job) : Server → Prop
  | .accepting => s.performed = [] ∧ s.got = [] ∧ s.buffer ++ s.toClient = [] ∧
      s.inbox ++ s.toServer <+: id :: requestBytes limit payload
  | .reading i => s.performed = [] ∧ s.got = [] ∧ s.buffer ++ s.toClient = [] ∧
      i = id ∧ s.inbox ++ s.toServer <+: requestBytes limit payload
  | .responding todo => s.performed = [job] ∧ ∃ pending,
      s.got ++ pending ++ todo = service.responses job ∧ Within limit pending ∧
      s.buffer ++ s.toClient = pending.flatMap frame
  | .closed => ∃ pending, Within limit pending ∧ s.buffer ++ s.toClient <+: pending.flatMap frame ∧
      (s.performed = [] ∧ s.got = [] ∧ pending = [] ∨
        s.performed = [job] ∧ s.got ++ pending <+: service.responses job)

theorem stage_start : Stage limit service id payload job (start limit id payload) .accepting :=
  ⟨rfl, rfl, rfl, List.prefix_rfl⟩

/-- The server may stop at any time. -/
theorem Stage.close (h : Stage limit service id payload job s s.server) :
    Stage limit service id payload job s .closed := by
  cases hserver : s.server with
  | accepting =>
    rw [hserver] at h
    obtain ⟨hperformed, hgot, hbytes, -⟩ := h
    exact ⟨[], List.forall_mem_nil _, hbytes ▸ List.prefix_rfl, .inl ⟨hperformed, hgot, rfl⟩⟩
  | reading i =>
    rw [hserver] at h
    obtain ⟨hperformed, hgot, hbytes, -⟩ := h
    exact ⟨[], List.forall_mem_nil _, hbytes ▸ List.prefix_rfl, .inl ⟨hperformed, hgot, rfl⟩⟩
  | responding todo =>
    rw [hserver] at h
    obtain ⟨hperformed, pending, hsplit, hwithin, hbytes⟩ := h
    exact ⟨pending, hwithin, hbytes ▸ List.prefix_rfl, .inr ⟨hperformed, todo, hsplit⟩⟩
  | closed => exact hserver ▸ h

/-- The client reads the first of the responses that were written. -/
theorem Stage.read (hlimit : limit < 2 ^ 32) (h : Stage limit service id payload job s s.server)
    {response rest : Bytes} (hnext : next limit s.buffer = .message response rest) :
    Stage limit service id payload job { s with buffer := rest, got := s.got ++ [response] }
      s.server := by
  cases hserver : s.server with
  | accepting =>
    rw [hserver] at h
    rw [(List.append_eq_nil_iff.mp h.2.2.1).1] at hnext
    cases hnext
  | reading i =>
    rw [hserver] at h
    rw [(List.append_eq_nil_iff.mp h.2.2.1).1] at hnext
    cases hnext
  | responding todo =>
    rw [hserver] at h
    obtain ⟨hperformed, pending, hsplit, hwithin, hbytes⟩ := h
    obtain ⟨pending, rfl, hrest⟩ := of_next_eq_message hlimit hwithin hbytes hnext
    refine ⟨hperformed, pending, ?_, (List.forall_mem_cons.mp hwithin).2, hrest⟩
    rw [← hsplit]
    simp only [List.append_assoc, List.cons_append, List.nil_append]
  | closed =>
    rw [hserver] at h
    obtain ⟨pending, hwithin, ⟨unseen, hunseen⟩, hstage⟩ := h
    rw [List.append_assoc] at hunseen
    obtain ⟨pending, rfl, hrest⟩ := of_next_eq_message hlimit hwithin hunseen hnext
    refine ⟨pending, (List.forall_mem_cons.mp hwithin).2, ⟨unseen, ?_⟩, ?_⟩
    · rw [List.append_assoc]
      exact hrest
    · rcases hstage with ⟨-, -, hnil⟩ | ⟨hperformed, hresponses⟩
      · cases hnil
      · refine .inr ⟨hperformed, ?_⟩
        rwa [List.append_assoc, List.singleton_append]

/-- The request is read as it was sent, if it is read at all. -/
theorem Stage.readRequest (hlimit : limit < 2 ^ 32) (hroute : service.route id = some decode)
    (hjob : decode payload = some job) (h : Stage limit service id payload job s s.server) {i : UInt8}
    {decode' : Bytes → Option Job} {message rest : Bytes} (hserver : s.server = .reading i)
    (hdecode : service.route i = some decode')
    (hnext : next limit s.inbox = .message message rest) : decode' message = some job := by
  rw [hserver] at h
  obtain ⟨-, -, -, rfl, unseen, hunseen⟩ := h
  cases hroute.symm.trans hdecode
  rw [requestBytes] at hunseen
  split_ifs at hunseen with hle
  · rw [List.append_assoc, ← List.append_nil (frame payload)] at hunseen
    have hrequest := next_append hnext (s.toServer ++ unseen)
    rw [hunseen, next_frame hlimit hle] at hrequest
    rw [← (Next.message.inj hrequest).1, hjob]
  · rw [(List.append_eq_nil_iff.mp (List.append_eq_nil_iff.mp hunseen).1).1] at hnext
    cases hnext

/-- Only the order of the bytes matters, not how far they are. The rest of the request may be cut off. -/
theorem Stage.congr {s' : State Job} {server : Server} (h : Stage limit service id payload job s server)
    (hperformed : s'.performed = s.performed) (hgot : s'.got = s.got)
    (hresponses : s'.buffer ++ s'.toClient = s.buffer ++ s.toClient)
    (hrequest : s'.inbox ++ s'.toServer <+: s.inbox ++ s.toServer) :
    Stage limit service id payload job s' server := by
  cases server with
  | accepting =>
    obtain ⟨h₁, h₂, h₃, h₄⟩ := h
    exact ⟨hperformed.trans h₁, hgot.trans h₂, hresponses.trans h₃, hrequest.trans h₄⟩
  | reading i =>
    obtain ⟨h₁, h₂, h₃, h₄, h₅⟩ := h
    exact ⟨hperformed.trans h₁, hgot.trans h₂, hresponses.trans h₃, h₄, hrequest.trans h₅⟩
  | responding todo =>
    rw [Stage, hperformed, hgot, hresponses]
    exact h
  | closed =>
    rw [Stage, hperformed, hgot, hresponses]
    exact h

theorem stage_invariant (hlimit : limit < 2 ^ 32) (hroute : service.route id = some decode)
    (hjob : decode payload = some job) :
    Invariant (Step limit service) fun s => Stage limit service id payload job s s.server := by
  intro s s' hstage hstep
  cases hstep with
  | arrive hbytes =>
    refine hstage.congr rfl rfl rfl ?_
    rw [hbytes, List.append_assoc]
  | @readId i rest hserver hinbox =>
    rw [hserver] at hstage
    obtain ⟨hperformed, hgot, hresponses, hrequest⟩ := hstage
    rw [hinbox, List.cons_append, List.cons_prefix_cons] at hrequest
    obtain ⟨rfl, hrequest⟩ := hrequest
    dsimp only
    rw [hroute, Option.isSome_some, if_pos rfl]
    exact ⟨hperformed, hgot, hresponses, rfl, hrequest⟩
  | readRequest hserver hdecode hnext =>
    rw [hstage.readRequest hlimit hroute hjob hserver hdecode hnext]
    rw [hserver] at hstage
    obtain ⟨hperformed, hgot, hresponses, -, -⟩ := hstage
    refine ⟨?_, [], ?_, List.forall_mem_nil _, hresponses⟩
    · dsimp only [State.perform]
      rw [hperformed, List.nil_append]
    · dsimp only [State.perform]
      rw [hgot]
      rfl
  | @respond response todo hserver hle =>
    rw [hserver] at hstage
    obtain ⟨hperformed, pending, hsplit, hwithin, hresponses⟩ := hstage
    refine ⟨hperformed, pending ++ [response], ?_, ?_, ?_⟩
    · rw [← hsplit, List.append_assoc, List.append_assoc, List.append_assoc, List.singleton_append]
    · exact List.forall_mem_append.mpr ⟨hwithin, List.forall_mem_singleton.mpr hle⟩
    · rw [← List.append_assoc, hresponses, List.flatMap_append, List.flatMap_singleton]
  | @cut response sent todo hserver hle hsent =>
    rw [hserver] at hstage
    obtain ⟨hperformed, pending, hsplit, hwithin, hresponses⟩ := hstage
    refine ⟨pending ++ [response], ?_, ?_, .inr ⟨hperformed, todo, ?_⟩⟩
    · exact List.forall_mem_append.mpr ⟨hwithin, List.forall_mem_singleton.mpr hle⟩
    · rw [← List.append_assoc, hresponses, List.flatMap_append, List.flatMap_singleton,
        List.prefix_append_right_inj]
      exact hsent
    · rw [← hsplit, List.append_assoc, List.append_assoc, List.append_assoc, List.singleton_append]
  | close => exact hstage.close
  | receive hnone hbytes =>
    refine hstage.congr rfl rfl ?_ List.prefix_rfl
    rw [hbytes, List.append_assoc]
  | read hnone hnext => exact hstage.read hlimit hnext
  | readTooLong hnone hnext => exact hstage.congr rfl rfl rfl List.prefix_rfl
  | finished hnone hserver hbytes hnext => exact hstage.congr rfl rfl rfl List.prefix_rfl
  | fail hnone hbytes =>
    refine hstage.congr rfl rfl rfl ?_
    rw [hbytes, ← List.append_assoc]
    exact List.prefix_append _ _

/-- The call is performed once or not at all, and no other one is. The client gets the first of its
responses. -/
theorem got_of_run (hlimit : limit < 2 ^ 32) (hroute : service.route id = some decode)
    (hjob : decode payload = some job) (hrun : Run (Step limit service) (start limit id payload) s) :
    s.performed = [] ∧ s.got = [] ∨ s.performed = [job] ∧ s.got <+: service.responses job := by
  have hlast := (stage_invariant hlimit hroute hjob).run hrun stage_start
  obtain ⟨pending, -, -, hstage⟩ := hlast.close
  rcases hstage with ⟨hperformed, hgot, -⟩ | ⟨hperformed, hresponses⟩
  · exact .inl ⟨hperformed, hgot⟩
  · exact .inr ⟨hperformed, (List.prefix_append _ _).trans hresponses⟩

/-! ## Runs without failures -/

theorem run_respond (todo : List Bytes) (hwithin : Within limit todo)
    (hserver : s.server = .responding todo) :
    Run (Step limit service) s
      { s with server := .closed, toClient := s.toClient ++ todo.flatMap frame } := by
  induction todo generalizing s with
  | nil =>
    rw [List.flatMap_nil, List.append_nil]
    exact .single .close
  | cons response todo ih =>
    obtain ⟨hle, hwithin⟩ := List.forall_mem_cons.mp hwithin
    refine .head (.respond hserver hle) ?_
    have hrest := ih (s := { s with server := .responding todo
                                    toClient := s.toClient ++ frame response }) hwithin rfl
    rwa [List.append_assoc] at hrest

theorem run_read (hlimit : limit < 2 ^ 32) (responses : List Bytes) (hwithin : Within limit responses)
    (hnone : s.failure = none) (hbuffer : s.buffer = responses.flatMap frame) :
    Run (Step limit service) s { s with buffer := [], got := s.got ++ responses } := by
  induction responses generalizing s with
  | nil =>
    rw [List.flatMap_nil] at hbuffer
    rw [List.append_nil, ← hbuffer]
  | cons response responses ih =>
    obtain ⟨hle, hwithin⟩ := List.forall_mem_cons.mp hwithin
    have hnext : next limit s.buffer = .message response (responses.flatMap frame) := by
      rw [hbuffer, List.flatMap_cons, next_frame hlimit hle]
    refine .head (.read hnone hnext) ?_
    have hrest := ih (s := { s with buffer := responses.flatMap frame
                                    got := s.got ++ [response] }) hwithin hnone rfl
    rwa [List.append_assoc] at hrest

/-- If nothing breaks, the client gets all responses. -/
theorem exists_run (hlimit : limit < 2 ^ 32) (hroute : service.route id = some decode)
    (hjob : decode payload = some job) (hle : payload.length ≤ limit)
    (hwithin : Within limit (service.responses job)) :
    ∃ s, Run (Step limit service) (start limit id payload) s ∧ s.performed = [job] ∧
      s.got = service.responses job ∧ s.failure = some .ended := by
  have hstart : (start limit id payload : State Job) =
      ⟨id :: frame payload, [], .accepting, [], [], [], [], none⟩ := by
    rw [start, requestBytes, if_pos hle, if_pos hle]
  have hnext : next limit (frame payload) = .message payload [] := by
    have hframe := next_frame hlimit hle []
    rwa [List.append_nil] at hframe
  let responses := service.responses job
  let sent : State Job := ⟨[], [], .responding responses, [job], [], [], [], none⟩
  have hsent : Run (Step limit service) (start limit id payload) sent := by
    rw [hstart]
    refine .head (.arrive (a := id :: frame payload) (b := []) (List.append_nil _).symm) ?_
    refine .head (.readId rfl rfl) ?_
    refine .head (.readRequest (show _ = Server.reading id from ?_) hroute hnext) ?_
    · rw [hroute]
      rfl
    · rw [hjob]
      exact .refl
  let answered : State Job := { sent with server := .closed, toClient := responses.flatMap frame }
  have hanswered : Run (Step limit service) sent answered := run_respond responses hwithin rfl
  let received : State Job := { answered with toClient := [], buffer := responses.flatMap frame }
  have hreceived : Step limit service answered received :=
    .receive (a := responses.flatMap frame) (b := []) rfl (List.append_nil _).symm
  have hread : Run (Step limit service) received { received with buffer := [], got := responses } :=
    run_read hlimit responses hwithin rfl rfl
  exact ⟨_, (((hsent.trans hanswered).tail hreceived).trans hread).tail (.finished rfl rfl rfl rfl),
    rfl, rfl, rfl⟩

end Runs

end Calls
end Lib
end Wcn
