import Wcn.Cluster.Stored

/-!
# Wcn.Cluster.CatchUp

How far a node's view can be behind the chain. The stream of events is no help here: it may end, skip
logs or repeat old ones. What counts is that the task reads the contract, when it subscribes again and
every ten minutes in between, and that what it reads is not too old.

* `RecentStep cfg v` — the steps of the chain and the task, where the task reads no state older than
  version `v`, with the number of reads that succeeded since the last failure.
* `Phase.readsLeft` — the reads until the task has a new snapshot, at most three.
* `view_catches_up` — after three of them the view is at least as new as `v`, and it stays so.
-/

namespace Wcn
namespace Cluster

open Lib
open Contract (Env Call transaction sixOperators after)

variable {S D : Type}

/-- What the chain may give to a task that never reads a state older than version `v`. -/
def Chain.Recent (chain : Chain) (v : Nat) : Input → Prop
  | .fetched view | .polled view =>
    ∃ s ∈ chain.states, v ≤ s.version ∧ view = .tryFrom (Contract.getView s)
  | .received log => log ∈ chain.logs
  | _ => True

/-- The reads that succeeded since the last failure. A view that cannot be decoded is a failure. -/
def Task.countReads (cfg : Config S D) (task : Task S D) (reads : Nat) : Input → Nat
  | .subscribed | .polled _ => reads + 1
  | .fetched view => if (task.updateView cfg view).phase = .streaming then reads + 1 else 0
  | .received _ => reads
  | .failed => 0

inductive World.RecentStep (cfg : Config S D) (v : Nat) :
    World S D × Nat → World S D × Nat → Prop where
  | transaction {w : World S D} {reads : Nat} {env : Env} {call : Call} {s : Contract.State}
      {event : Contract.Event} : Contract.exec env call w.chain.state = .ok (s, event) →
      RecentStep cfg v (w, reads) ({ w with chain := w.chain.append env s event }, reads)
  | input {chain : Chain} {task : Task S D} {delivered : List Log} {reads : Nat} {input : Input} :
      task.awaits input = true → chain.Recent v input →
      RecentStep cfg v (⟨chain, some task, delivered⟩, reads)
        (⟨chain, some (task.handle cfg input), delivered ++ input.log?.toList⟩,
          task.countReads cfg reads input)

/-- The reads until the task has fetched a snapshot. -/
def Phase.readsLeft : Phase → Nat
  | .fetching => 1
  | .subscribing => 2
  | .streaming => 3

/-- The view is new enough, or it takes some more reads. -/
def CatchingUp (v : Nat) (task : Task S D) (reads : Nat) : Prop :=
  v ≤ task.view.clusterVersion ∨ task.phase.readsLeft + reads ≤ 3

section Task

variable {cfg : Config S D} {v : Nat} {chain : Chain} {task : Task S D} {reads : Nat}

theorem Chain.Recent.offers {input : Input} (h : chain.Recent v input) : chain.Offers input := by
  cases input with
  | subscribed => trivial
  | fetched view => exact h.imp fun s hs => ⟨hs.1, hs.2.2⟩
  | polled view => exact h.imp fun s hs => ⟨hs.1, hs.2.2⟩
  | received log => exact h
  | failed => trivial

/-- Logs move the view forward or not at all. -/
theorem le_version_applyEvents (cfg : Config S D) (task : Task S D) (log : Log) :
    task.view.clusterVersion ≤ (task.applyEvents cfg log).view.clusterVersion := by
  rw [Task.applyEvents]
  split
  · exact Nat.le_refl _
  · split
    case h_1 e _ view happly =>
      rw [(sequenced_applyEvent cfg happly).2, (sequenced_applyEvent cfg happly).1]
      exact Nat.le_succ _
    case h_2 => exact Nat.le_refl _

/-- A fetched view is stored, the stored one is of the same version, or the task starts over. -/
theorem updateView_cases (cfg : Config S D) (task : Task S D) (s : Contract.State) :
    (task.updateView cfg (.tryFrom (Contract.getView s))).view.clusterVersion = s.version ∨
      task.updateView cfg (.tryFrom (Contract.getView s)) = { task with phase := .subscribing } := by
  rw [Task.updateView]
  split
  · cases hread : View.tryFromSc cfg (.tryFrom (Contract.getView s)) with
    | ok view => exact .inl (snapshot_ok hread).2
    | error e => exact .inr rfl
  case isFalse heq => exact .inl (not_not.mp heq)

theorem le_version_handle (h : v ≤ task.view.clusterVersion) {input : Input}
    (hrecent : chain.Recent v input) : v ≤ (task.handle cfg input).view.clusterVersion := by
  cases input with
  | subscribed => exact h
  | failed => exact h
  | received log => exact h.trans (le_version_applyEvents cfg task log)
  | fetched view =>
    obtain ⟨s, -, hversion, rfl⟩ := hrecent
    rw [Task.handle]
    rcases updateView_cases cfg task s with hs | hsame
    · exact hversion.trans_eq hs.symm
    · rw [hsame]
      exact h
  | polled view =>
    rw [Task.handle, Task.invalidationEvent]
    split <;> exact h

/-- Each read brings the task closer to a snapshot, and so does each failure before that. -/
theorem CatchingUp.handle (h : CatchingUp v task reads) {input : Input}
    (hawaits : task.awaits input = true) (hrecent : chain.Recent v input) :
    CatchingUp v (task.handle cfg input) (task.countReads cfg reads input) := by
  rcases h with h | h
  · exact .inl (le_version_handle h hrecent)
  · cases input with
    | subscribed =>
      have hphase : task.phase = .subscribing := eq_of_beq hawaits
      rw [hphase, Phase.readsLeft] at h
      refine .inr ?_
      rw [Task.handle, Task.countReads, Phase.readsLeft]
      omega
    | failed => exact .inr (Nat.le_succ 2)
    | received log =>
      have hphase : task.phase = .streaming := eq_of_beq hawaits
      rw [hphase, Phase.readsLeft] at h
      refine .inr ?_
      rw [Task.handle, Task.applyEvents, Task.countReads]
      split
      · rw [hphase, Phase.readsLeft]
        omega
      · split
        · rw [hphase, Phase.readsLeft]
          omega
        · rw [Phase.readsLeft]
          omega
    | fetched view =>
      obtain ⟨s, -, hversion, rfl⟩ := hrecent
      rw [Task.handle, Task.countReads]
      rcases updateView_cases cfg task s with hs | hsame
      · exact .inl (hversion.trans_eq hs.symm)
      · rw [hsame]
        exact .inr (Nat.le_succ 2)
    | polled view =>
      obtain ⟨s, -, hversion, rfl⟩ := hrecent
      have hphase : task.phase = .streaming := eq_of_beq hawaits
      rw [hphase, Phase.readsLeft] at h
      rw [Task.handle, Task.invalidationEvent, Task.countReads]
      split
      · refine .inr ?_
        rw [Phase.readsLeft]
        omega
      case isFalse heq => exact .inl (hversion.trans_eq (not_not.mp heq).symm)

end Task

namespace World

variable {cfg : Config S D} {v : Nat} {w w' : World S D}

theorem RecentStep.step {p p' : World S D × Nat} (h : RecentStep cfg v p p') : Step cfg p.1 p'.1 := by
  cases h with
  | transaction h => exact .transaction h
  | input hawaits hrecent => exact .input hawaits hrecent.offers

theorem step_of_recent {p p' : World S D × Nat} (h : Run (RecentStep cfg v) p p') :
    Run (Step cfg) p.1 p'.1 :=
  Relation.ReflTransGen.lift Prod.fst (fun _ _ => RecentStep.step) _ _ h

theorem catchingUp_step (cfg : Config S D) (v : Nat) : Invariant (RecentStep cfg v)
    fun p => ∀ task, p.1.task = some task → CatchingUp v task p.2 := by
  intro p p' hp h
  cases h with
  | transaction h => exact hp
  | input hawaits hrecent =>
    rintro _ ⟨⟩
    exact (hp _ rfl).handle hawaits hrecent

theorem le_version_step (cfg : Config S D) (v : Nat) : Invariant (RecentStep cfg v)
    fun p => ∀ task, p.1.task = some task → v ≤ task.view.clusterVersion := by
  intro p p' hp h
  cases h with
  | transaction h => exact hp
  | input hawaits hrecent =>
    rintro _ ⟨⟩
    exact le_version_handle (hp _ rfl) hrecent

/-- A task that never reads a state older than some version has a view of that version or a newer one
as soon as three reads in a row succeeded, whatever the stream of events delivers and whatever happens
on the chain meanwhile. It keeps such a view. If the chain has come to rest there, the view tracks its
state. -/
theorem view_catches_up (cfg : Config S D) (v : Nat) {env : Env} {settings : Contract.Settings}
    {operators : List Contract.NodeOperator} {s₀ : Contract.State}
    (hinit : Contract.initializeCluster env settings operators = .ok s₀)
    (hnonzero : ∀ op ∈ operators, op.addr ≠ 0)
    (hdistinct : (operators.map Contract.NodeOperator.addr).Nodup)
    (hrun : Run (Step cfg) ⟨⟨s₀, [], []⟩, none, []⟩ w) {reads : Nat} {task : Task S D}
    (hrecent : Run (RecentStep cfg v) (w, 0) (w', reads)) (htask : w'.task = some task)
    (hreads : 3 ≤ reads) :
    v ≤ task.view.clusterVersion ∧
    (∃ s ∈ w'.chain.states, Tracks cfg s task.view) ∧
    (w'.chain.state.version ≤ v → Tracks cfg w'.chain.state task.view) ∧
    ∀ later reads' task', Run (RecentStep cfg v) (w', reads) (later, reads') →
      later.task = some task' → v ≤ task'.view.clusterVersion := by
  have hstart : ∀ task, w.task = some task → CatchingUp v task 0 := fun task _ => by
    refine .inr ?_
    cases task.phase <;> decide
  have hversion : v ≤ task.view.clusterVersion := by
    have hcatching := (catchingUp_step cfg v).run hrecent hstart task htask
    refine hcatching.resolve_right fun hleft => ?_
    have hpos : 1 ≤ task.phase.readsLeft := by cases task.phase <;> decide
    dsimp only at hleft
    omega
  have hrun' := hrun.trans (step_of_recent hrecent)
  have hstores := stores_run hinit hnonzero hdistinct hrun'
  obtain ⟨s, hs, htracks⟩ := (hstores.stored task htask).tracks
  have hordered := (synced_step cfg).run hrun' ⟨.initial hinit, fun _ h => by cases h⟩
  refine ⟨hversion, ⟨s, hs, htracks⟩, fun hrest => ?_, fun later reads' task' hlater htask' => ?_⟩
  · have hle : s.version ≤ w'.chain.state.version := (hordered.ordered.states s hs).2
    have hshown := htracks.clusterVersion
    exact (hstores.stored task htask).tracks_state hstores.linked (by omega)
  · refine (le_version_step cfg v).run hlater (fun t ht => ?_) task' htask'
    cases htask.symm.trans ht
    exact hversion

/-- A node misses the event of a maintenance. It finds out with the next poll, and has the new version
two reads later. -/
theorem view_catches_up_missed : ∃ w task, Run (Step acceptAll) ⟨⟨sixOperators, [], []⟩, none, []⟩ w ∧
    w.task = some task ∧ w.delivered = [] ∧ 2 ≤ task.view.clusterVersion := by
  obtain ⟨view, hview, hnew⟩ := exists_new_sixOperators
  let maintained := (after (transaction 0 11) (.setMaintenance true) sixOperators).1
  have hexec := Contract.exec_after (transaction 0 11) (.setMaintenance true) sixOperators
    (by decide +kernel)
  have hversion : maintained.version = 2 := by decide +kernel
  obtain ⟨view', hview'⟩ : ∃ view', snapshot acceptAll maintained = .ok view' := by
    have hsome : (snapshot acceptAll maintained).toOption.isSome = true := by decide +kernel
    obtain ⟨view', hview'⟩ := Option.isSome_iff_exists.mp hsome
    exact ⟨view', toOption_eq_some.mp hview'⟩
  let fetched := SmartContract.ClusterView.tryFrom (Contract.getView maintained)
  have hbehind : view.clusterVersion ≠ fetched.clusterVersion := by
    rw [(snapshot_ok hview).2]
    decide +kernel
  have hpolled : Task.handle acceptAll ⟨view, .streaming⟩ (.polled fetched) = ⟨view, .subscribing⟩ := by
    rw [Task.handle, Task.invalidationEvent, if_pos hbehind]
  have hfetched : Task.updateView acceptAll ⟨view, .fetching⟩ fetched = ⟨view', .streaming⟩ := by
    rw [Task.updateView, if_pos hbehind, show View.tryFromSc acceptAll fetched = .ok view' from hview']
  let chain := Chain.append ⟨sixOperators, [], []⟩ (transaction 0 11) maintained
    (after (transaction 0 11) (.setMaintenance true) sixOperators).2
  have hrecent : chain.Recent 2 (.polled fetched) ∧ chain.Recent 2 (.fetched fetched) :=
    and_self_iff.mpr ⟨maintained, List.mem_cons_self, hversion.ge, rfl⟩
  have hrun : Run (Step acceptAll) ⟨⟨sixOperators, [], []⟩, none, []⟩
      ⟨chain, some ⟨view, .streaming⟩, []⟩ :=
    .tail (.single (.connect List.mem_cons_self hnew)) (.transaction hexec)
  have hreads : Run (RecentStep acceptAll 2) (⟨chain, some ⟨view, .streaming⟩, []⟩, 0)
      (⟨chain, some ⟨view', .streaming⟩, []⟩, 3) := by
    have hpoll : RecentStep acceptAll 2 (⟨chain, some ⟨view, .streaming⟩, []⟩, 0)
        (⟨chain, some (Task.handle acceptAll ⟨view, .streaming⟩ (.polled fetched)), []⟩, 1) :=
      .input rfl hrecent.1
    have hopen : chain.Recent 2 .subscribed := trivial
    have hsubscribe : RecentStep acceptAll 2 (⟨chain, some ⟨view, .subscribing⟩, []⟩, 1)
        (⟨chain, some ⟨view, .fetching⟩, []⟩, 2) := .input rfl hopen
    have hfetch : RecentStep acceptAll 2 (⟨chain, some ⟨view, .fetching⟩, []⟩, 2)
        (⟨chain, some (Task.updateView acceptAll ⟨view, .fetching⟩ fetched), []⟩,
          Task.countReads acceptAll ⟨view, .fetching⟩ 2 (.fetched fetched)) := .input rfl hrecent.2
    rw [hpolled] at hpoll
    rw [Task.countReads, hfetched, if_pos rfl] at hfetch
    exact .tail (.tail (.single hpoll) hsubscribe) hfetch
  exact ⟨_, _, hrun.trans (step_of_recent hreads), rfl, rfl,
    (view_catches_up acceptAll 2 Contract.initialize_sixOperators (by decide) (by decide) hrun hreads rfl
      (Nat.le_refl 3)).1⟩

end World

end Cluster
end Wcn
