import Mathlib

/-!
# Wcn.Lib.Paging

Reading a collection page by page. Every page continues after a cursor, which is the field of an item
that an earlier page has shown; fields are ordered by a rank.

* `pageAfter` — a page of one sorted list. What is on a page stays on the pages of later cursors in
  front of it (`pageAfter_later`).
* `follow` — from the first page on, until a page has no cursor for the next one. The pages of one list
  together are the list (`follow_pages`).
* `follow_perm_iff` — the pages together show every wanted item once exactly when no page leaves out
  a wanted item in front of the next cursor, or shows one behind it.
-/

namespace Wcn
namespace Lib

variable {E F κ : Type} [LinearOrder κ]

/-- Behind the cursor. Without a cursor reading starts at the front. -/
def After (rank : F → κ) : Option F → F → Prop
  | none, _ => True
  | some cursor, f => rank cursor < rank f

/-- Not behind the cursor of the next page. Without one there is no next page. -/
def UpTo (rank : F → κ) : Option F → F → Prop
  | none, _ => True
  | some cursor, f => rank f ≤ rank cursor

instance (rank : F → κ) (cursor : Option F) (f : F) : Decidable (After rank cursor f) :=
  match cursor with
  | none => inferInstanceAs (Decidable True)
  | some cursor => inferInstanceAs (Decidable (rank cursor < rank f))

instance (rank : F → κ) (cursor : Option F) (f : F) : Decidable (UpTo rank cursor f) :=
  match cursor with
  | none => inferInstanceAs (Decidable True)
  | some cursor => inferInstanceAs (Decidable (rank f ≤ rank cursor))

theorem After.trans {rank : F → κ} {cursor : Option F} {f g : F} (h : After rank cursor f)
    (h' : After rank (some f) g) : After rank cursor g := by
  cases cursor with
  | none => trivial
  | some c => exact lt_trans (α := κ) h h'

theorem not_after_iff {rank : F → κ} {f g : F} : ¬ After rank (some f) g ↔ UpTo rank (some f) g :=
  not_lt

/-! ## Pages of a list -/

section Page

variable (rank : F → κ) (field : E → F)

def pageAfter (count : Nat) (cursor : Option F) (l : List E) : List E :=
  (l.filter fun e => After rank cursor (field e)).take count

/-- The items of a list, by rank and without repetitions. -/
def Ranked (l : List E) : Prop := l.Pairwise fun a b => rank (field a) < rank (field b)

variable {rank field}

/-- Without a cursor nothing is left out. -/
theorem filter_after_none (l : List E) : l.filter (fun e => After rank none (field e)) = l :=
  List.filter_eq_self.mpr fun _ _ => decide_eq_true trivial

/-- The first items are those with few in front of them. -/
theorem Ranked.mem_take {l : List E} (h : Ranked rank field l) (count : Nat) (e : E) :
    e ∈ l.take count ↔
      e ∈ l ∧ l.countP (fun x => rank (field x) < rank (field e)) < count := by
  induction l generalizing count with
  | nil => simp
  | cons a l ih =>
    obtain ⟨hfirst, hrest⟩ := List.pairwise_cons.mp h
    cases count with
    | zero => simp
    | succ count =>
      rw [List.take_succ_cons, List.mem_cons, List.mem_cons, ih hrest, List.countP_cons]
      by_cases hmem : e ∈ l
      · have hlt := hfirst e hmem
        have hne : e ≠ a := by
          rintro rfl
          exact lt_irrefl _ hlt
        simp only [hmem, hne, hlt, decide_true, if_true, false_or, true_and, or_true]
        omega
      · have hnone : e = a → l.countP (fun x => rank (field x) < rank (field e)) = 0 := by
          rintro rfl
          exact List.countP_eq_zero.mpr fun x hx => by simpa using (hfirst x hx).le
        constructor
        · rintro (rfl | ⟨hl, -⟩)
          · refine ⟨.inl rfl, ?_⟩
            rw [hnone rfl]
            simp
          · exact absurd hl hmem
        · rintro ⟨rfl | hl, -⟩
          · exact .inl rfl
          · exact absurd hl hmem

/-- The first items are in front of the others. -/
theorem Ranked.lt_of_mem_take {l : List E} (h : Ranked rank field l) {count : Nat} {a b : E}
    (ha : a ∈ l.take count) (hb : b ∈ l) (hnot : b ∉ l.take count) :
    rank (field a) < rank (field b) := by
  rw [Ranked, ← List.take_append_drop count l] at h
  rw [← List.take_append_drop count l] at hb
  exact (List.pairwise_append.mp h).2.2 a ha b ((List.mem_append.mp hb).resolve_left hnot)

theorem Ranked.mem_pageAfter {l : List E} (h : Ranked rank field l) {count : Nat}
    {cursor : Option F} {e : E} :
    e ∈ pageAfter rank field count cursor l ↔
      e ∈ l ∧ After rank cursor (field e) ∧
        l.countP (fun x => rank (field x) < rank (field e) ∧ After rank cursor (field x)) < count := by
  have hfilter : Ranked rank field (l.filter fun e => After rank cursor (field e)) := h.filter _
  rw [pageAfter, hfilter.mem_take, List.mem_filter, decide_eq_true_iff, List.countP_filter, and_assoc]
  simp only [Bool.decide_and]

/-- What a page shows is also on the page of a later cursor in front of it. -/
theorem Ranked.pageAfter_later {l : List E} (h : Ranked rank field l) {count : Nat}
    {cursor : Option F} {f : F} {e : E} (hf : After rank cursor f)
    (he : e ∈ pageAfter rank field count cursor l) (hafter : After rank (some f) (field e)) :
    e ∈ pageAfter rank field count (some f) l := by
  obtain ⟨hmem, -, hcount⟩ := h.mem_pageAfter.mp he
  refine h.mem_pageAfter.mpr ⟨hmem, hafter, Nat.lt_of_le_of_lt ?_ hcount⟩
  refine List.countP_mono_left fun x _ hx => ?_
  rw [decide_eq_true_iff] at hx ⊢
  exact ⟨hx.1, hf.trans hx.2⟩

/-- The page after the last item of a page goes on where that page ended. -/
theorem Ranked.filter_after_last {l : List E} (h : Ranked rank field l) {count : Nat}
    {cursor : Option F} {e : E} (he : (pageAfter rank field count cursor l).getLast? = some e) :
    l.filter (fun x => After rank (some (field e)) (field x)) =
      (l.filter fun x => After rank cursor (field x)).drop count := by
  have hranked : Ranked rank field (l.filter fun x => After rank cursor (field x)) := h.filter _
  rw [pageAfter] at he
  have hmem : e ∈ l.filter fun x => After rank cursor (field x) :=
    List.mem_of_mem_take (List.mem_of_getLast? he)
  have hcursor : After rank cursor (field e) := of_decide_eq_true (List.mem_filter.mp hmem).2
  have hagain : l.filter (fun x => After rank (some (field e)) (field x)) =
      (l.filter fun x => After rank cursor (field x)).filter
        fun x => After rank (some (field e)) (field x) := by
    rw [List.filter_filter]
    refine List.filter_congr fun x _ => ?_
    rw [eq_comm, Bool.and_eq_left_iff_imp, decide_eq_true_iff, decide_eq_true_iff]
    exact fun hx => hcursor.trans hx
  rw [hagain]
  generalize l.filter (fun x => After rank cursor (field x)) = rest at hranked he
  rw [Ranked, ← List.take_append_drop count rest] at hranked
  obtain ⟨htake, -, hacross⟩ := List.pairwise_append.mp hranked
  obtain ⟨before, hbefore⟩ := List.getLast?_eq_some_iff.mp he
  conv_lhs => rw [← List.take_append_drop count rest, List.filter_append]
  have hshown : (rest.take count).filter (fun x => After rank (some (field e)) (field x)) = [] := by
    rw [List.filter_eq_nil_iff]
    intro x hx
    rw [decide_eq_true_iff, not_after_iff]
    rw [hbefore] at htake hx
    rcases List.mem_append.mp hx with hx | hx
    · exact le_of_lt ((List.pairwise_append.mp htake).2.2 x hx e List.mem_cons_self)
    · rw [List.mem_singleton.mp hx]
      exact le_refl (rank (field e))
  have hleft : (rest.drop count).filter (fun x => After rank (some (field e)) (field x)) =
      rest.drop count :=
    List.filter_eq_self.mpr fun x hx =>
      decide_eq_true (hacross e (List.mem_of_getLast? he) x hx)
  rw [hshown, hleft, List.nil_append]

end Page

/-! ## Following the cursors -/

/-- The pages from a cursor on, if `fuel` pages are enough. A page comes with the cursor for the next
one. -/
def follow (next : Option F → List E × Option F) : Nat → Option F → Option (List E)
  | 0, _ => none
  | fuel + 1, cursor =>
    match next cursor with
    | (shown, none) => some shown
    | (shown, some f) => (follow next fuel (some f)).map (shown ++ ·)

/-- The cursor of a page and that of the page after it. -/
def Leads (next : Option F → List E × Option F) (cursor cursor' : Option F) : Prop :=
  cursor' ≠ none ∧ (next cursor).2 = cursor'

/-- The cursors of the pages that are read, from a cursor on. -/
def Visited (next : Option F → List E × Option F) : Option F → Option F → Prop :=
  Relation.ReflTransGen (Leads next)

/-- Pages of wanted items. -/
structure Paged (rank : F → κ) (field : E → F) (next : Option F → List E × Option F)
    (wanted : List E) : Prop where
  nodup : ∀ cursor, (next cursor).1.Nodup
  shown : ∀ cursor, ∀ e ∈ (next cursor).1, e ∈ wanted ∧ After rank cursor (field e)
  cursor : ∀ cursor f, (next cursor).2 = some f → ∃ e ∈ (next cursor).1, field e = f
  later : ∀ cursor f, (next cursor).2 = some f → ∀ e ∈ (next cursor).1,
    After rank (some f) (field e) → e ∈ (next (some f)).1

/-- A page shows the wanted items in front of the next cursor and none behind it. -/
def PageOk (rank : F → κ) (field : E → F) (next : Option F → List E × Option F) (wanted : List E)
    (cursor : Option F) : Prop :=
  (∀ e ∈ wanted, After rank cursor (field e) → UpTo rank (next cursor).2 (field e) →
    e ∈ (next cursor).1) ∧
  ∀ e ∈ (next cursor).1, UpTo rank (next cursor).2 (field e)

section Follow

variable {rank : F → κ} {field : E → F} {next : Option F → List E × Option F} {wanted : List E}
  {fuel : Nat} {cursor : Option F} {out : List E}

theorem follow_none (h : (next cursor).2 = none) (fuel : Nat) :
    follow next (fuel + 1) cursor = some (next cursor).1 := by
  rw [follow]
  rcases hnext : next cursor with ⟨shown, stop⟩
  rw [hnext] at h
  cases h
  rfl

theorem follow_some {f : F} (h : (next cursor).2 = some f) (fuel : Nat) :
    follow next (fuel + 1) cursor = (follow next fuel (some f)).map ((next cursor).1 ++ ·) := by
  rw [follow]
  rcases hnext : next cursor with ⟨shown, stop⟩
  rw [hnext] at h
  cases h
  rfl

theorem Paged.after_cursor (h : Paged rank field next wanted) {f : F}
    (hf : (next cursor).2 = some f) : After rank cursor f := by
  obtain ⟨e, he, rfl⟩ := h.cursor cursor f hf
  exact (h.shown cursor e he).2

theorem Paged.mem_follow (h : Paged rank field next wanted)
    (hfollow : follow next fuel cursor = some out) {e : E} (he : e ∈ out) :
    e ∈ wanted ∧ After rank cursor (field e) := by
  induction fuel generalizing cursor out with
  | zero => cases hfollow
  | succ fuel ih =>
    cases hf : (next cursor).2 with
    | none =>
      rw [follow_none hf] at hfollow
      cases hfollow
      exact h.shown cursor e he
    | some f =>
      rw [follow_some hf] at hfollow
      obtain ⟨rest, hrest, rfl⟩ := Option.map_eq_some_iff.mp hfollow
      rcases List.mem_append.mp he with he | he
      · exact h.shown cursor e he
      · obtain ⟨hwanted, hafter⟩ := ih hrest he
        exact ⟨hwanted, (h.after_cursor hf).trans hafter⟩

theorem subset_follow (hfollow : follow next fuel cursor = some out) {e : E}
    (he : e ∈ (next cursor).1) : e ∈ out := by
  cases fuel with
  | zero => cases hfollow
  | succ fuel =>
    cases hf : (next cursor).2 with
    | none =>
      rw [follow_none hf] at hfollow
      cases hfollow
      exact he
    | some f =>
      rw [follow_some hf] at hfollow
      obtain ⟨rest, -, rfl⟩ := Option.map_eq_some_iff.mp hfollow
      exact List.mem_append_left _ he

theorem countP_lt_countP {p q : E → Bool} (hpq : ∀ x, q x = true → p x = true) {l : List E} {e : E}
    (he : e ∈ l) (hp : p e = true) (hq : ¬ q e = true) : l.countP q < l.countP p := by
  induction l with
  | nil => cases he
  | cons a l ih =>
    rw [List.countP_cons, List.countP_cons]
    rcases List.mem_cons.mp he with rfl | he
    · have hle : l.countP q ≤ l.countP p := List.countP_mono_left fun x _ => hpq x
      rw [if_neg hq, if_pos hp]
      omega
    · have hlt := ih he
      by_cases ha : q a = true
      · rw [if_pos ha, if_pos (hpq a ha)]
        omega
      · rw [if_neg ha]
        omega

/-- Every page moves the cursor past an item that is wanted, so the last page is reached. -/
theorem Paged.exists_follow (h : Paged rank field next wanted) (cursor : Option F) :
    ∃ fuel out, follow next fuel cursor = some out := by
  induction hn : wanted.countP (fun e => After rank cursor (field e)) using Nat.strong_induction_on
    generalizing cursor with
  | _ n ih =>
    cases hf : (next cursor).2 with
    | none => exact ⟨1, _, follow_none hf 0⟩
    | some f =>
      have hlt : wanted.countP (fun e => After rank (some f) (field e)) < n := by
        rw [← hn]
        obtain ⟨e, he, hfield⟩ := h.cursor cursor f hf
        obtain ⟨hwanted, hafter⟩ := h.shown cursor e he
        refine countP_lt_countP (fun x hx => ?_) hwanted (decide_eq_true hafter) ?_
        · rw [decide_eq_true_iff] at hx ⊢
          exact (h.after_cursor hf).trans hx
        · rw [decide_eq_true_iff, not_after_iff, hfield]
          exact le_refl (rank f)
      obtain ⟨fuel, out, hfollow⟩ := ih _ hlt (some f) rfl
      exact ⟨fuel + 1, (next cursor).1 ++ out, by rw [follow_some hf, hfollow]; rfl⟩

/-- Following the pages of one list shows what is behind the cursor, as it stands in the list. -/
theorem Ranked.follow_pages {l : List E} (h : Ranked rank field l) {count : Nat} (hcount : 0 < count)
    (hnext : ∀ cursor, next cursor = (pageAfter rank field count cursor l,
      if count < (l.filter fun e => After rank cursor (field e)).length then
        (pageAfter rank field count cursor l).getLast?.map field
      else none))
    (hfuel : (l.filter fun e => After rank cursor (field e)).length < fuel) :
    follow next fuel cursor = some (l.filter fun e => After rank cursor (field e)) := by
  induction fuel generalizing cursor with
  | zero => exact absurd hfuel (Nat.not_lt_zero _)
  | succ fuel ih =>
    have hpage := hnext cursor
    by_cases hmore : count < (l.filter fun e => After rank cursor (field e)).length
    · rw [if_pos hmore] at hpage
      obtain ⟨e, he⟩ : ∃ e, (pageAfter rank field count cursor l).getLast? = some e := by
        rw [← Option.isSome_iff_exists, List.getLast?_isSome, ← List.length_pos_iff, pageAfter,
          List.length_take]
        omega
      rw [he] at hpage
      have hdrop := h.filter_after_last he
      rw [follow_some (f := field e) (by rw [hpage]; rfl), ih (by rw [hdrop, List.length_drop]; omega),
        hpage, hdrop, Option.map_some, pageAfter, List.take_append_drop]
    · rw [if_neg hmore] at hpage
      rw [follow_none (by rw [hpage]), hpage, pageAfter, List.take_of_length_le (by omega)]

/-- The cursors read from a page on are its own and those read from the next page on. -/
theorem forall_visited {p : Option F → Prop} {f : F} (hf : (next cursor).2 = some f) :
    (∀ c, Visited next cursor c → p c) ↔ p cursor ∧ ∀ c, Visited next (some f) c → p c := by
  constructor
  · intro h
    exact ⟨h cursor .refl, fun c hc => h c (.head ⟨Option.some_ne_none f, hf⟩ hc)⟩
  · rintro ⟨hcursor, hrest⟩ c hc
    rcases Relation.ReflTransGen.cases_head hc with rfl | ⟨c', ⟨-, hc'⟩, hrun⟩
    · exact hcursor
    · rw [hf] at hc'
      subst hc'
      exact hrest c hrun

theorem forall_visited_last {p : Option F → Prop} (hf : (next cursor).2 = none) :
    (∀ c, Visited next cursor c → p c) ↔ p cursor := by
  constructor
  · exact fun h => h cursor .refl
  · intro hcursor c hc
    rcases Relation.ReflTransGen.cases_head hc with rfl | ⟨c', ⟨hne, hc'⟩, -⟩
    · exact hcursor
    · exact absurd (hc'.symm.trans hf) hne

/-- One page in front of the others. -/
theorem Paged.append_perm_iff (h : Paged rank field next wanted) (hwanted : wanted.Nodup) {f : F}
    (hf : (next cursor).2 = some f) {rest : List E} (hrest : follow next fuel (some f) = some rest) :
    ((next cursor).1 ++ rest).Perm (wanted.filter fun e => After rank cursor (field e)) ↔
      PageOk rank field next wanted cursor ∧
        rest.Perm (wanted.filter fun e => After rank (some f) (field e)) := by
  have hmem : ∀ (c : Option F) (e : E), e ∈ wanted.filter (fun e => After rank c (field e)) ↔
      e ∈ wanted ∧ After rank c (field e) := fun c e => by rw [List.mem_filter, decide_eq_true_iff]
  constructor
  · intro hperm
    have hnodup := hperm.nodup_iff.mpr (hwanted.filter _)
    obtain ⟨-, hnodup', hdisjoint⟩ := List.nodup_append.mp hnodup
    -- what is shown behind the cursor is shown again
    have hagain : ∀ e ∈ (next cursor).1, After rank (some f) (field e) → e ∈ rest :=
      fun e he hafter => subset_follow hrest (h.later cursor f hf e he hafter)
    refine ⟨⟨fun e he hafter hupto => ?_, fun e he => ?_⟩, ?_⟩
    · have hout := hperm.mem_iff.mpr ((hmem cursor e).mpr ⟨he, hafter⟩)
      refine (List.mem_append.mp hout).resolve_right fun hr => ?_
      rw [hf] at hupto
      exact absurd (h.mem_follow hrest hr).2 (not_after_iff.mpr hupto)
    · rw [hf, ← not_after_iff]
      exact fun hafter => hdisjoint e he e (hagain e he hafter) rfl
    · refine (List.perm_ext_iff_of_nodup hnodup' (hwanted.filter _)).mpr fun e => ?_
      rw [hmem]
      refine ⟨fun hr => h.mem_follow hrest hr, fun ⟨he, hafter⟩ => ?_⟩
      have hout := hperm.mem_iff.mpr ((hmem cursor e).mpr ⟨he, (h.after_cursor hf).trans hafter⟩)
      rcases List.mem_append.mp hout with hshown | hr
      · exact hagain e hshown hafter
      · exact hr
  · rintro ⟨⟨hall, hupto⟩, hperm⟩
    rw [hf] at hall hupto
    have hnodup' := hperm.nodup_iff.mpr (hwanted.filter _)
    have hnodup : ((next cursor).1 ++ rest).Nodup := by
      refine List.nodup_append.mpr ⟨h.nodup cursor, hnodup', ?_⟩
      rintro e he _ hr rfl
      exact absurd (h.mem_follow hrest hr).2 (not_after_iff.mpr (hupto e he))
    refine (List.perm_ext_iff_of_nodup hnodup (hwanted.filter _)).mpr fun e => ?_
    rw [hmem, List.mem_append]
    constructor
    · rintro (he | hr)
      · exact h.shown cursor e he
      · obtain ⟨he, hafter⟩ := h.mem_follow hrest hr
        exact ⟨he, (h.after_cursor hf).trans hafter⟩
    · rintro ⟨he, hafter⟩
      by_cases hbehind : After rank (some f) (field e)
      · exact .inr (hperm.mem_iff.mpr ((hmem _ e).mpr ⟨he, hbehind⟩))
      · exact .inl (hall e he hafter (not_after_iff.mp hbehind))

/-- The last page by itself. -/
theorem Paged.last_perm_iff (h : Paged rank field next wanted) (hwanted : wanted.Nodup) :
    (next cursor).1.Perm (wanted.filter fun e => After rank cursor (field e)) ↔
      ∀ e ∈ wanted, After rank cursor (field e) → e ∈ (next cursor).1 := by
  rw [List.perm_ext_iff_of_nodup (h.nodup cursor) (hwanted.filter _)]
  simp only [List.mem_filter, decide_eq_true_eq]
  exact ⟨fun hiff e he hafter => (hiff e).mpr ⟨he, hafter⟩,
    fun hall e => ⟨fun he => h.shown cursor e he, fun he => hall e he.1 he.2⟩⟩

theorem Paged.follow_perm_iff (h : Paged rank field next wanted) (hwanted : wanted.Nodup)
    (hfollow : follow next fuel cursor = some out) :
    out.Perm (wanted.filter fun e => After rank cursor (field e)) ↔
      ∀ c, Visited next cursor c → PageOk rank field next wanted c := by
  -- induction on the pages: the condition on this page and the one on the pages after it
  induction fuel generalizing cursor out with
  | zero => cases hfollow
  | succ fuel ih =>
    cases hf : (next cursor).2 with
    | none =>
      rw [follow_none hf] at hfollow
      cases hfollow
      rw [forall_visited_last hf, PageOk, hf, h.last_perm_iff hwanted]
      simp only [UpTo, forall_const, implies_true, and_true]
    | some f =>
      rw [follow_some hf] at hfollow
      obtain ⟨rest, hrest, rfl⟩ := Option.map_eq_some_iff.mp hfollow
      rw [forall_visited hf, ← ih hrest]
      exact h.append_perm_iff hwanted hf hrest

end Follow

end Lib
end Wcn
