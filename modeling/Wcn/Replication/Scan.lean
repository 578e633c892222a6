import Wcn.Replication.Reply
import Wcn.Storage.Maps

/-!
# Wcn.Replication.Scan

A client pages through a map: it asks the coordinator for a page, takes the cursor for the next page
from it (`MapPage::next_page_cursor`), and goes on until there is none. Every page comes from the
pages that the replicas return for the same cursor.

The coordinator shows the entries that are on the pages of three replicas (`mem_next`). An entry
that three replicas have need not be on three pages: entries that fewer replicas have take up room.
And unless three replicas return the same page, the coordinator sorts it by field, while the replicas
order fields by the bytes of their length first, so the cursor need not be behind all of the page.

* `InReach`, `More`, `Agreed` — what the maps of the replicas have behind a field.
* `Covered` — the maps can be cut into pages that three replicas fill alike.
* `scan_complete_iff` — the scan is right exactly for such maps.
-/

namespace Wcn
namespace Replication

open StorageApi Lib

variable {Op : Type}

/-- A replica's database and clock. Neither changes during a scan. -/
structure MapReplica where
  db : Storage.Backend
  now : Nat
  wellKeyed : db.WellKeyed

/-- A scan of one map. Responses may arrive in any order, and the coordinator's hash map may be in any
order, for each page anew. -/
structure MapScan (Op : Type) [DecidableEq Op] where
  hash : Bytes → UInt64
  ns : Storage.Namespace
  key : Bytes
  length_key : key.length < 2 ^ 32 - 64
  /-- The page size; larger ones are an error. -/
  count : Nat
  count_pos : 0 < count
  count_le : count ≤ Storage.maxHscanCount
  primary : ReplicaSet Op
  secondary : Option (ReplicaSet Op)
  replica : Op → MapReplica
  arrivals : Option Bytes → List Op
  arrivals_perm : ∀ cursor,
    (arrivals cursor).Perm (requests (.hscan count cursor) primary secondary)
  intoIter : Option Bytes → List (MapEntry Bytes × Nat) → List (MapEntry Bytes × Nat)
  intoIter_perm : ∀ cursor l, (intoIter cursor l).Perm l

namespace MapScan

variable [DecidableEq Op] (scan : MapScan Op)

/-- The entries of the map on a replica. -/
def entries (operator : Op) : List (MapEntry Bytes) :=
  ((scan.replica operator).db.cf .genericMap).mapEntries (scan.replica operator).now
    (Storage.key scan.hash scan.ns scan.key)

def response (cursor : Option Bytes) (operator : Op) : Response Bytes :=
  (Storage.execute scan.hash (scan.replica operator).now (scan.replica operator).db
    ⟨scan.ns, scan.key, .hscan scan.count cursor⟩).2

/-- The page a client gets for a cursor, with the cursor for the next page. -/
def next (cursor : Option Bytes) : List (MapEntry Bytes) × Option Bytes :=
  match executeCallback (scan.intoIter cursor) true (.hscan scan.count cursor) scan.primary
      scan.secondary ((scan.arrivals cursor).map fun o => (o, scan.response cursor o)) with
  | some (.ok (.mapPage page)) => (page.entries, page.nextPageCursor)
  | _ => ([], none)

/-- The entries that three replicas have. -/
def majority : List (MapEntry Bytes) :=
  ((scan.primary.operators.flatMap scan.entries).dedup).filter fun e =>
    majorityQuorumThreshold ≤ scan.primary.operators.countP fun o => e ∈ scan.entries o

/-- The entries of a replica behind a field. -/
def behind (cursor : Option Bytes) (operator : Op) : List (MapEntry Bytes) :=
  (scan.entries operator).filter fun e => After Storage.fieldRank cursor e.field

/-- Three replicas have the entry behind a field, with fewer than a page of others in between. -/
def InReach (cursor : Option Bytes) (e : MapEntry Bytes) : Prop :=
  majorityQuorumThreshold ≤ scan.primary.operators.countP fun o =>
    e ∈ scan.behind cursor o ∧ (scan.behind cursor o).countP (fun x =>
      Storage.fieldRank x.field < Storage.fieldRank e.field) < scan.count

/-- Three replicas have more than a page behind a field. -/
def More (cursor : Option Bytes) : Prop :=
  majorityQuorumThreshold ≤ scan.primary.operators.countP fun o =>
    scan.count < (scan.behind cursor o).length

/-- Three replicas have the same first entries behind a field, and all or none of them has more. -/
def Agreed (cursor : Option Bytes) : Prop :=
  ∃ o ∈ scan.primary.operators, majorityQuorumThreshold ≤ scan.primary.operators.countP fun o' =>
    (scan.behind cursor o').take scan.count = (scan.behind cursor o).take scan.count ∧
      (scan.count < (scan.behind cursor o').length ↔ scan.count < (scan.behind cursor o).length)

/-- The entries of three replicas behind a field can be cut into pages. -/
inductive Covered : Option Bytes → Prop where
  /-- They are on one page, and there is no other. -/
  | last {cursor : Option Bytes} :
      (∀ e ∈ scan.majority, After Storage.fieldRank cursor e.field →
        scan.InReach cursor e ∧ ¬ scan.More cursor) →
      Covered cursor
  /-- Those up to `e` are on one page, and `e` is the last of it: in the order of the replicas if they
  agree, otherwise in the order of the fields. -/
  | page {cursor : Option Bytes} {e : MapEntry Bytes} : e ∈ scan.majority →
      After Storage.fieldRank cursor e.field → scan.More cursor →
      (∀ x ∈ scan.majority, After Storage.fieldRank cursor x.field →
        (scan.InReach cursor x ↔ Storage.fieldRank x.field ≤ Storage.fieldRank e.field)) →
      (scan.Agreed cursor ∨ ∀ x ∈ scan.majority, After Storage.fieldRank cursor x.field →
        Storage.fieldRank x.field ≤ Storage.fieldRank e.field → x.field ≤ e.field) →
      Covered (some e.field) → Covered cursor

/-- The page of a replica. -/
def page (cursor : Option Bytes) (operator : Op) : List (MapEntry Bytes) :=
  pageAfter Storage.fieldRank MapEntry.field scan.count cursor (scan.entries operator)

/-- On how many replicas' pages an entry is. -/
def onPages (cursor : Option Bytes) (e : MapEntry Bytes) : Nat :=
  scan.primary.operators.countP fun o => e ∈ scan.page cursor o

/-! ## The replicas -/

theorem ranked_entries (operator : Op) :
    Ranked Storage.fieldRank MapEntry.field (scan.entries operator) :=
  Storage.ranked_mapEntries (Storage.privateKey_ne_nil _ _)
    (by rw [Storage.key, Storage.length_privateKey]; have := scan.length_key; omega)
    (scan.replica operator).wellKeyed _

theorem ranked_behind (cursor : Option Bytes) (operator : Op) :
    Ranked Storage.fieldRank MapEntry.field (scan.behind cursor operator) :=
  (scan.ranked_entries operator).filter _

theorem page_eq (cursor : Option Bytes) (operator : Op) :
    scan.page cursor operator = (scan.behind cursor operator).take scan.count := rfl

theorem inReach_iff {cursor : Option Bytes} {e : MapEntry Bytes} :
    scan.InReach cursor e ↔ majorityQuorumThreshold ≤ scan.onPages cursor e := by
  have hpage : ∀ o, e ∈ scan.page cursor o ↔ e ∈ scan.behind cursor o ∧
      (scan.behind cursor o).countP (fun x =>
        Storage.fieldRank x.field < Storage.fieldRank e.field) < scan.count := fun o =>
    (scan.ranked_behind cursor o).mem_take scan.count e
  rw [InReach, onPages]
  simp only [hpage]

theorem response_eq (cursor : Option Bytes) (operator : Op) :
    scan.response cursor operator = .ok (.mapPage ⟨scan.page cursor operator,
      scan.count < (scan.behind cursor operator).length⟩) := by
  have hlen : (Storage.key scan.hash scan.ns scan.key).data.length < 2 ^ 32 := by
    rw [Storage.key, Storage.length_privateKey]
    have := scan.length_key
    omega
  rw [response, Storage.execute]
  dsimp only
  rw [if_neg (Nat.not_lt.mpr scan.count_le),
    Storage.scan_eq_page (scan.replica operator).wellKeyed (Storage.privateKey_ne_nil _ _) hlen _
      scan.count_pos]
  rfl

theorem nodup_fields (cursor : Option Bytes) (operator : Op) :
    ((scan.page cursor operator).map MapEntry.field).Nodup := by
  have hranked : Ranked Storage.fieldRank MapEntry.field (scan.page cursor operator) :=
    (scan.ranked_behind cursor operator).sublist (List.take_sublist _ _)
  refine List.pairwise_map.mpr (hranked.imp fun hlt heq => ?_)
  rw [heq] at hlt
  exact lt_irrefl _ hlt

theorem response_inj {cursor : Option Bytes} {o o' : Op} :
    scan.response cursor o = scan.response cursor o' ↔ scan.page cursor o = scan.page cursor o' ∧
      (scan.count < (scan.behind cursor o).length ↔ scan.count < (scan.behind cursor o').length) := by
  rw [response_eq, response_eq, Except.ok.injEq, Output.mapPage.injEq, MapPage.mk.injEq, decide_eq_decide]

/-- Two majorities have a replica in common. -/
theorem exists_common {p q : Op → Bool}
    (hp : majorityQuorumThreshold ≤ scan.primary.operators.countP p)
    (hq : majorityQuorumThreshold ≤ scan.primary.operators.countP q) :
    ∃ o ∈ scan.primary.operators, p o = true ∧ q o = true := by
  refine exists_of_length_lt_countP ?_
  have hlen := scan.primary.length_operators
  simp only [majorityQuorumThreshold, rf] at hp hq hlen
  omega

/-! ## The coordinator -/

theorem pages_eq (cursor : Option Bytes) :
    (scan.primary.operators.map (scan.response cursor)).filterMap page? =
      scan.primary.operators.map fun o =>
        ⟨scan.page cursor o, scan.count < (scan.behind cursor o).length⟩ := by
  rw [List.filterMap_map, ← List.filterMap_eq_map]
  refine List.filterMap_congr fun o _ => ?_
  rw [Function.comp_apply, response_eq]
  rfl

theorem distinctFields (cursor : Option Bytes) :
    DistinctFields ((scan.primary.operators.map (scan.response cursor)).filterMap page?) := by
  intro p hp
  rw [pages_eq] at hp
  obtain ⟨o, -, rfl⟩ := List.mem_map.mp hp
  exact scan.nodup_fields cursor o

/-- The page of the coordinator: the entries on three pages, with a next page if three replicas have
one, in the order of the replicas if they agree, else in the order of the fields. -/
structure Voted (cursor : Option Bytes) (p : MapPage Bytes) : Prop where
  mem : ∀ e, e ∈ p.entries ↔ scan.InReach cursor e
  hasNext : p.hasNext = true ↔ scan.More cursor
  agreed : scan.Agreed cursor → Ranked Storage.fieldRank MapEntry.field p.entries
  divided : ¬ scan.Agreed cursor → p.entries.Pairwise fun a b => a.field < b.field

theorem agreed_of_quorum {cursor : Option Bytes} {r : Response Bytes} (hcount :
    majorityQuorumThreshold ≤ scan.primary.operators.countP (scan.response cursor · = r)) :
    ∃ o ∈ scan.primary.operators, r = scan.response cursor o ∧ scan.Agreed cursor := by
  obtain ⟨o, ho, hresponse⟩ := List.countP_pos_iff.mp (Nat.lt_of_lt_of_le (by decide) hcount)
  rw [decide_eq_true_iff] at hresponse
  refine ⟨o, ho, hresponse.symm, o, ho, hcount.trans (List.countP_mono_left fun o' _ h => ?_)⟩
  rw [decide_eq_true_iff] at h ⊢
  exact scan.response_inj.mp (h.trans hresponse.symm)

theorem exists_quorum {cursor : Option Bytes} (h : scan.Agreed cursor) :
    ∃ r, IsQuorum (.hscan scan.count cursor) scan.primary scan.secondary (scan.response cursor) r := by
  obtain ⟨o, -, hcount⟩ := h
  refine ⟨scan.response cursor o, hcount.trans (List.countP_mono_left fun o' _ h => ?_),
    fun rs hrs => by cases hrs⟩
  rw [decide_eq_true_iff] at h ⊢
  exact scan.response_inj.mpr h

/-- A page that three replicas returned. -/
theorem voted_of_quorum {cursor : Option Bytes} {r : Response Bytes} (hcount :
    majorityQuorumThreshold ≤ scan.primary.operators.countP (scan.response cursor · = r)) :
    ∃ p, r = .ok (.mapPage p) ∧ scan.Voted cursor p := by
  obtain ⟨o, -, rfl, hagreed⟩ := scan.agreed_of_quorum hcount
  refine ⟨_, scan.response_eq cursor o, fun e => ?_, ?_, fun _ => ?_, fun hnot => absurd hagreed hnot⟩
  · rw [inReach_iff]
    constructor
    · intro he
      refine hcount.trans (List.countP_mono_left fun o' _ h => ?_)
      rw [decide_eq_true_iff] at h ⊢
      rwa [(scan.response_inj.mp h).1]
    · intro he
      obtain ⟨o', -, hmem, h⟩ := scan.exists_common he hcount
      rw [decide_eq_true_iff] at hmem h
      rwa [(scan.response_inj.mp h).1] at hmem
  · rw [decide_eq_true_iff, More]
    constructor
    · intro hmore
      refine hcount.trans (List.countP_mono_left fun o' _ h => ?_)
      rw [decide_eq_true_iff] at h ⊢
      exact (scan.response_inj.mp h).2.mpr hmore
    · intro hmore
      obtain ⟨o', -, hmem, h⟩ := scan.exists_common hmore hcount
      rw [decide_eq_true_iff] at hmem h
      exact (scan.response_inj.mp h).2.mp hmem
  · exact (scan.ranked_behind cursor o).sublist (List.take_sublist _ _)

/-- The reconciled page. -/
theorem voted_of_fallback {cursor : Option Bytes} (hdivided : ¬ scan.Agreed cursor) :
    ∃ p, fallback (.hscan scan.count cursor) (scan.primary.operators.map (scan.response cursor)) =
      .ok (.mapPage p) ∧ scan.Voted cursor p := by
  have hpages := scan.pages_eq cursor
  have hlen : ((scan.primary.operators.map (scan.response cursor)).filterMap page?).length = rf := by
    rw [hpages, List.length_map, scan.primary.length_operators]
  cases hp : reconciledPage ((scan.primary.operators.map (scan.response cursor)).filterMap page?) with
  | none =>
    rw [reconciledPage_eq_none, hlen] at hp
    exact absurd hp (by decide)
  | some p =>
    obtain ⟨hsorted, hmem, hnext⟩ := reconciledPage_spec (scan.distinctFields cursor) hlen.le hp
    refine ⟨p, ?_, fun e => ?_, ?_, fun hagreed => absurd hagreed hdivided, fun _ => hsorted⟩
    · simp only [fallback, Operation.isWrite, Bool.false_eq_true, if_false, reconciled, hp,
        Option.map_some]
    · rw [hmem, hpages, List.countP_map, inReach_iff]
      rfl
    · rw [hnext, hpages, List.countP_map]
      rfl

/-- Whatever the order of the responses. -/
theorem exists_page (cursor : Option Bytes) :
    ∃ p : MapPage Bytes, scan.next cursor = (p.entries, p.nextPageCursor) ∧
      scan.Voted cursor p := by
  obtain ⟨r, hreply, hquorum, hfallback⟩ := exists_reply (.hscan scan.count cursor) scan.primary
    scan.secondary (scan.response cursor) (scan.distinctFields cursor) (scan.intoIter cursor)
    (scan.intoIter_perm cursor) (scan.arrivals cursor) (scan.arrivals_perm cursor)
  have hvoted : ∃ p, r = .ok (.mapPage p) ∧ scan.Voted cursor p := by
    by_cases hagreed : scan.Agreed cursor
    · obtain ⟨r', hr'⟩ := scan.exists_quorum hagreed
      rw [hquorum r' hr']
      exact scan.voted_of_quorum hr'.1
    · rw [hfallback fun r' hr' => hagreed (scan.agreed_of_quorum hr'.1).choose_spec.2.2]
      exact scan.voted_of_fallback hagreed
  obtain ⟨p, rfl, hp⟩ := hvoted
  refine ⟨p, ?_, hp⟩
  rw [next, hreply]

theorem mem_next {cursor : Option Bytes} {e : MapEntry Bytes} :
    e ∈ (scan.next cursor).1 ↔ scan.InReach cursor e := by
  obtain ⟨p, hnext, hvoted⟩ := scan.exists_page cursor
  rw [hnext]
  exact hvoted.mem e

/-- There is a next page if three replicas have one and this page is not empty. -/
theorem next_eq_none {cursor : Option Bytes} (h : (scan.next cursor).2 = none) {e : MapEntry Bytes}
    (he : scan.InReach cursor e) : ¬ scan.More cursor := by
  obtain ⟨p, hnext, hvoted⟩ := scan.exists_page cursor
  intro hmore
  rw [hnext, MapPage.nextPageCursor, if_pos (hvoted.hasNext.mpr hmore), Option.map_eq_none_iff,
    List.getLast?_eq_none_iff] at h
  exact List.not_mem_nil (h ▸ (hvoted.mem e).mpr he)

/-- The last entry of a page that is sorted by a relation. -/
theorem rel_getLast {R : MapEntry Bytes → MapEntry Bytes → Prop} {l : List (MapEntry Bytes)}
    {e x : MapEntry Bytes} (h : l.Pairwise R) (he : l.getLast? = some e) (hx : x ∈ l) :
    R x e ∨ x = e := by
  obtain ⟨before, rfl⟩ := List.getLast?_eq_some_iff.mp he
  rcases List.mem_append.mp hx with hx | hx
  · exact .inl ((List.pairwise_append.mp h).2.2 x hx e List.mem_cons_self)
  · exact .inr (List.mem_singleton.mp hx)

/-- The cursor for the next page is the field of the last entry of this one. -/
theorem next_eq_some {cursor : Option Bytes} {f : Bytes} (h : (scan.next cursor).2 = some f) :
    scan.More cursor ∧ ∃ e, scan.InReach cursor e ∧ e.field = f ∧
      (scan.Agreed cursor → ∀ x, scan.InReach cursor x →
        Storage.fieldRank x.field ≤ Storage.fieldRank e.field) ∧
      (¬ scan.Agreed cursor → ∀ x, scan.InReach cursor x → x.field ≤ e.field) := by
  obtain ⟨p, hnext, hvoted⟩ := scan.exists_page cursor
  rw [hnext, MapPage.nextPageCursor] at h
  split at h
  · next hmore =>
    obtain ⟨e, he, rfl⟩ := Option.map_eq_some_iff.mp h
    refine ⟨hvoted.hasNext.mp hmore, e, (hvoted.mem e).mp (List.mem_of_getLast? he), rfl,
      fun hagreed x hx => ?_, fun hdivided x hx => ?_⟩
    · rcases rel_getLast (hvoted.agreed hagreed) he ((hvoted.mem x).mpr hx) with hlt | rfl
      · exact le_of_lt hlt
      · exact le_refl _
    · rcases rel_getLast (hvoted.divided hdivided) he ((hvoted.mem x).mpr hx) with hlt | rfl
      · exact le_of_lt hlt
      · exact le_refl _
  · cases h

/-! ## The scan -/

theorem mem_majority {e : MapEntry Bytes} :
    e ∈ scan.majority ↔ majorityQuorumThreshold ≤
      scan.primary.operators.countP fun o => e ∈ scan.entries o := by
  rw [majority, List.mem_filter, List.mem_dedup, List.mem_flatMap, decide_eq_true_iff]
  refine and_iff_right_of_imp fun h => ?_
  obtain ⟨o, ho, he⟩ := List.countP_pos_iff.mp (Nat.lt_of_lt_of_le (by decide) h)
  exact ⟨o, ho, of_decide_eq_true he⟩

variable {scan} in
theorem InReach.mem_majority {cursor : Option Bytes} {e : MapEntry Bytes} (h : scan.InReach cursor e) :
    e ∈ scan.majority ∧ After Storage.fieldRank cursor e.field := by
  have hmem : ∀ o, e ∈ scan.behind cursor o → e ∈ scan.entries o ∧
      After Storage.fieldRank cursor e.field := fun o he =>
    ⟨List.mem_of_mem_filter he, of_decide_eq_true (List.mem_filter.mp he).2⟩
  constructor
  · refine scan.mem_majority.mpr (h.trans (List.countP_mono_left fun o _ he => ?_))
    rw [decide_eq_true_iff] at he ⊢
    exact (hmem o he.1).1
  · obtain ⟨o, -, he⟩ := List.countP_pos_iff.mp (Nat.lt_of_lt_of_le (by decide) h)
    exact (hmem o (of_decide_eq_true he).1).2

theorem paged : Paged Storage.fieldRank MapEntry.field scan.next scan.majority where
  nodup cursor := by
    obtain ⟨p, hnext, hvoted⟩ := scan.exists_page cursor
    rw [hnext]
    by_cases hagreed : scan.Agreed cursor
    · refine (hvoted.agreed hagreed).imp fun hlt heq => ?_
      rw [heq] at hlt
      exact lt_irrefl _ hlt
    · refine (hvoted.divided hagreed).imp fun hlt heq => ?_
      rw [heq] at hlt
      exact lt_irrefl _ hlt
  shown cursor e he := (scan.mem_next.mp he).mem_majority
  cursor cursor f hf := by
    obtain ⟨-, e, he, hfield, -⟩ := scan.next_eq_some hf
    exact ⟨e, scan.mem_next.mpr he, hfield⟩
  later cursor f hf e he hafter := by
    obtain ⟨-, e', he', rfl, -⟩ := scan.next_eq_some hf
    rw [mem_next, inReach_iff] at he ⊢
    refine he.trans (List.countP_mono_left fun o _ hmem => ?_)
    rw [decide_eq_true_iff] at hmem ⊢
    exact (scan.ranked_entries o).pageAfter_later he'.mem_majority.2 hmem hafter

/-- What a last page has to show. -/
theorem covered_iff_last {cursor : Option Bytes} (h : (scan.next cursor).2 = none) :
    scan.Covered cursor ↔ ∀ e ∈ scan.majority, After Storage.fieldRank cursor e.field →
      scan.InReach cursor e := by
  constructor
  · rintro (hlast | ⟨he, hafter, hmore, hreach, -, -⟩)
    · exact fun e he hafter => (hlast e he hafter).1
    · exact absurd hmore (scan.next_eq_none h ((hreach _ he hafter).mpr (le_refl _)))
  · intro hall
    exact .last fun e he hafter => ⟨hall e he hafter, scan.next_eq_none h (hall e he hafter)⟩

/-- What another page has to show. -/
theorem covered_iff_page {cursor : Option Bytes} {f : Bytes} (h : (scan.next cursor).2 = some f) :
    scan.Covered cursor ↔
      PageOk Storage.fieldRank MapEntry.field scan.next scan.majority cursor ∧ scan.Covered (some f) := by
  obtain ⟨hmore, e, he, rfl, hagreed, hdivided⟩ := scan.next_eq_some h
  obtain ⟨hmem, hafter⟩ := he.mem_majority
  rw [PageOk, h]
  simp only [mem_next]
  constructor
  · rintro (hlast | ⟨he', hafter', -, hreach, hlast, hrest⟩)
    · exact absurd hmore (hlast e hmem hafter).2
    · -- the entry where the maps are cut is the one that the coordinator goes on from
      rename_i e'
      have he'' : scan.InReach cursor e' := (hreach e' he' hafter').mpr (le_refl _)
      have hle : Storage.fieldRank e.field ≤ Storage.fieldRank e'.field := (hreach e hmem hafter).mp he
      have hfield : e'.field = e.field := by
        by_cases hagree : scan.Agreed cursor
        · exact Storage.fieldRank_injective (le_antisymm (hagreed hagree e' he'') hle)
        · exact le_antisymm (hdivided hagree e' he'')
            ((hlast.resolve_left hagree) e hmem hafter hle)
      rw [hfield] at hreach hrest
      exact ⟨⟨fun x hx hafterx hupto => (hreach x hx hafterx).mpr hupto,
        fun x hx => (hreach x hx.mem_majority.1 hx.mem_majority.2).mp hx⟩,
        hrest⟩
  · rintro ⟨⟨hall, hupto⟩, hrest⟩
    refine .page hmem hafter hmore (fun x hx hafterx => ⟨hupto x, hall x hx hafterx⟩) ?_ hrest
    by_cases hagree : scan.Agreed cursor
    · exact .inl hagree
    · exact .inr fun x hx hafterx hle => hdivided hagree x (hall x hx hafterx hle)

/-- By induction on the pages. -/
theorem perm_iff_covered {fuel : Nat} {cursor : Option Bytes} {out : List (MapEntry Bytes)}
    (hfollow : follow scan.next fuel cursor = some out) :
    out.Perm (scan.majority.filter fun e => After Storage.fieldRank cursor e.field) ↔
      scan.Covered cursor := by
  have hwanted : scan.majority.Nodup := (List.nodup_dedup _).filter _
  induction fuel generalizing cursor out with
  | zero => cases hfollow
  | succ fuel ih =>
    cases hf : (scan.next cursor).2 with
    | none =>
      rw [follow_none hf] at hfollow
      cases hfollow
      rw [scan.paged.last_perm_iff hwanted, scan.covered_iff_last hf]
      simp only [mem_next]
    | some f =>
      rw [follow_some hf] at hfollow
      obtain ⟨rest, hrest, rfl⟩ := Option.map_eq_some_iff.mp hfollow
      rw [scan.paged.append_perm_iff hwanted hf hrest, scan.covered_iff_page hf]
      exact and_congr_right' (ih hrest)

/-- Three replicas with the same map agree on every page. -/
theorem pageOk_of_same {o : Op} (hsame : majorityQuorumThreshold ≤
    scan.primary.operators.countP fun o' => scan.entries o' = scan.entries o) (cursor : Option Bytes) :
    PageOk Storage.fieldRank MapEntry.field scan.next scan.majority cursor := by
  have hbehind : ∀ {o'}, scan.entries o' = scan.entries o →
      scan.behind cursor o' = scan.behind cursor o := fun h => by rw [behind, h, behind]
  have hreach : ∀ x, x ∈ (scan.behind cursor o).take scan.count ↔ scan.InReach cursor x := by
    intro x
    rw [inReach_iff]
    constructor
    · intro hx
      refine hsame.trans (List.countP_mono_left fun o' _ h => ?_)
      rw [decide_eq_true_iff] at h ⊢
      rwa [page_eq, hbehind h]
    · intro hx
      obtain ⟨o', -, hmem, h⟩ := scan.exists_common hx hsame
      rw [decide_eq_true_iff] at hmem h
      rwa [page_eq, hbehind h] at hmem
  have hagreed : scan.Agreed cursor := by
    obtain ⟨o', ho', h⟩ := List.countP_pos_iff.mp (Nat.lt_of_lt_of_le (by decide) hsame)
    rw [decide_eq_true_iff] at h
    refine ⟨o', ho', hsame.trans (List.countP_mono_left fun o'' _ h' => ?_)⟩
    rw [decide_eq_true_iff] at h' ⊢
    rw [hbehind h', hbehind h]
    exact ⟨rfl, Iff.rfl⟩
  refine ⟨fun e he hafter hupto => ?_, fun e he => ?_⟩
  · rw [mem_next, ← hreach]
    have hmem : e ∈ scan.behind cursor o := by
      obtain ⟨o', -, hmem, h⟩ := scan.exists_common (scan.mem_majority.mp he) hsame
      rw [decide_eq_true_iff] at hmem h
      exact List.mem_filter.mpr ⟨h ▸ hmem, decide_eq_true hafter⟩
    by_contra hnot
    have hmore : scan.count < (scan.behind cursor o).length := by
      by_contra hle
      rw [List.take_of_length_le (Nat.not_lt.mp hle)] at hnot
      exact hnot hmem
    cases hnext : (scan.next cursor).2 with
    | none =>
      -- the page is not empty, and three replicas have more
      have hfirst : 0 < ((scan.behind cursor o).take scan.count).length := by
        rw [List.length_take]
        have := scan.count_pos
        omega
      obtain ⟨x, hx⟩ := List.exists_mem_of_length_pos hfirst
      refine scan.next_eq_none hnext ((hreach x).mp hx) ?_
      refine hsame.trans (List.countP_mono_left fun o' _ h => ?_)
      rw [decide_eq_true_iff] at h ⊢
      rwa [hbehind h]
    | some f =>
      obtain ⟨-, x, hx, rfl, -⟩ := scan.next_eq_some hnext
      have hlt := (scan.ranked_behind cursor o).lt_of_mem_take ((hreach x).mpr hx) hmem hnot
      rw [hnext] at hupto
      exact absurd hlt (not_lt_of_ge hupto)
  · rw [mem_next] at he
    cases hnext : (scan.next cursor).2 with
    | none => trivial
    | some f =>
      obtain ⟨-, x, -, rfl, hlast, -⟩ := scan.next_eq_some hnext
      exact hlast hagreed e he

/-- A scan comes to an end. It has then returned every entry that three replicas have, once, exactly when
the maps of the replicas can be cut into pages. They can if three of them are the same. -/
theorem scan_complete_iff :
    (∃ fuel out, follow scan.next fuel none = some out) ∧
    (∀ fuel out, follow scan.next fuel none = some out →
      (out.Perm scan.majority ↔ scan.Covered none)) ∧
    ((∃ o, majorityQuorumThreshold ≤
      scan.primary.operators.countP fun o' => scan.entries o' = scan.entries o) →
        scan.Covered none) := by
  have hall : scan.majority.filter (fun e => After Storage.fieldRank none e.field) = scan.majority :=
    filter_after_none _
  have hwanted : scan.majority.Nodup := (List.nodup_dedup _).filter _
  have hend := scan.paged.exists_follow none
  refine ⟨hend, fun fuel out hfollow => ?_, fun ⟨o, hsame⟩ => ?_⟩
  · have hiff := scan.perm_iff_covered hfollow
    rwa [hall] at hiff
  · obtain ⟨fuel, out, hfollow⟩ := hend
    rw [← scan.perm_iff_covered hfollow, scan.paged.follow_perm_iff hwanted hfollow]
    exact fun cursor _ => scan.pageOk_of_same hsame cursor

end MapScan

/-- What was written of a map with two entries: the first one at operators 0, 1 and 2, the second one at
2, 3 and 4. -/
def splitMap (operator : Nat) : List Storage.Request :=
  let first : Storage.Request := ⟨⟨Vector.replicate 21 1⟩, [5], .hset ⟨[1], [7], 50, 3⟩⟩
  let second : Storage.Request := ⟨⟨Vector.replicate 21 1⟩, [5], .hset ⟨[2], [8], 50, 4⟩⟩
  if operator < 2 then [first] else if operator = 2 then [first, second] else [second]

theorem splitMap_bounded (operator : Nat) : ∀ request ∈ splitMap operator,
    request.key.length < 2 ^ 32 - 64 ∧
      ∀ field ∈ Storage.writtenField request.operation, field.length < 2 ^ 64 := by
  unfold splitMap
  dsimp only
  split
  · decide
  · split <;> decide

def splitScan : MapScan Nat where
  hash _ := 9
  ns := ⟨Vector.replicate 21 1⟩
  key := [5]
  length_key := by decide
  count := 1
  count_pos := by decide
  count_le := by decide
  primary := ⟨[0, 1, 2, 3, 4], rfl, by decide⟩
  secondary := none
  replica operator := ⟨(Storage.executeAll (fun _ => 9) 40 Storage.Backend.empty (splitMap operator)).1,
    40, Storage.wellKeyed_executeAll _ _ (splitMap_bounded operator)⟩
  arrivals _ := [0, 1, 2, 3, 4]
  arrivals_perm _ := .refl _
  intoIter _ l := l
  intoIter_perm _ l := .refl l

/-- Pages of one entry: the second entry is on two pages only, and as four replicas have no next page the
scan ends without it. -/
theorem scan_loses_entry :
    follow splitScan.next 1 none = some [⟨[1], [7], 50, 3⟩] ∧
      ⟨[2], [8], 50, 4⟩ ∈ splitScan.majority := by
  decide +kernel

end Replication
end Wcn
