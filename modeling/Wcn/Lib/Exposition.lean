import Mathlib

/-!
# Wcn.Lib.Exposition

Sample lines of the Prometheus text format: a metric name, labels in braces, a value and a timestamp.

* Tokens can be separated by blanks, and must be where they would merge otherwise. A label list can be
  empty and can end in a comma. In the text of a label, quotes, backslashes and newlines are escaped.
* `LabelReader` — the label list, character by character.
* `parse` — a line. Which numerals are numbers is left open (`isFloat`, `isInteger`).
-/

namespace Wcn
namespace Lib
namespace Exposition

/-! ## Characters -/

def isBlank (c : Char) : Bool := c = ' ' || c = '\t'

def isNameStart (c : Char) : Bool := c.isAlpha || c = '_' || c = ':'

def isNameChar (c : Char) : Bool := c.isAlphanum || c = '_' || c = ':'

def isLabelStart (c : Char) : Bool := c.isAlpha || c = '_'

def isLabelChar (c : Char) : Bool := c.isAlphanum || c = '_'

/-- The characters of numbers, `Inf` and `NaN`. -/
def isNumeralChar (c : Char) : Bool := c.isAlphanum || c = '+' || c = '-' || c = '.' || c = '_'

/-! ## Tokens -/

section Tokens

variable {α : Type*} {p : α → Bool} {token rest : List α}

/-- The list does not start with a `p`. -/
def Ends (p : α → Bool) (l : List α) : Prop := ∀ a ∈ l.head?, p a = false

theorem ends_cons {a : α} : Ends p (a :: rest) ↔ p a = false := by
  simp [Ends]

theorem ends_dropWhile (p : α → Bool) (l : List α) : Ends p (l.dropWhile p) := by
  intro a ha
  have := List.head?_dropWhile_not p l
  rw [Option.mem_def.mp ha] at this
  simpa using this

theorem dropWhile_of_ends (h : Ends p rest) : rest.dropWhile p = rest := by
  cases rest with
  | nil => rfl
  | cons a rest => rw [List.dropWhile_cons, if_neg (by simp [ends_cons.mp h])]

theorem takeWhile_of_ends (h : Ends p rest) : rest.takeWhile p = [] := by
  cases rest with
  | nil => rfl
  | cons a rest => rw [List.takeWhile_cons, if_neg (by simp [ends_cons.mp h])]

theorem takeWhile_token (htoken : ∀ a ∈ token, p a = true) (hrest : Ends p rest) :
    (token ++ rest).takeWhile p = token := by
  rw [List.takeWhile_append_of_pos htoken, takeWhile_of_ends hrest, List.append_nil]

theorem dropWhile_token (htoken : ∀ a ∈ token, p a = true) (hrest : Ends p rest) :
    (token ++ rest).dropWhile p = rest := by
  rw [List.dropWhile_append_of_pos htoken, dropWhile_of_ends hrest]

theorem ends_append (htoken : token ≠ []) : Ends p (token ++ rest) ↔ Ends p token := by
  rw [Ends, Ends, List.head?_append_of_ne_nil _ htoken]

theorem ends_reverse_append (hrest : rest ≠ []) :
    Ends p (token ++ rest).reverse ↔ Ends p rest.reverse := by
  rw [List.reverse_append, ends_append (List.reverse_ne_nil_iff.mpr hrest)]

/-- The list without the `p`s at its start and at its end. -/
def strip (p : α → Bool) (l : List α) : List α := (l.dropWhile p).rdropWhile p

theorem strip_eq {before after : List α} (hbefore : ∀ a ∈ before, p a = true)
    (hafter : ∀ a ∈ after, p a = true) (htoken : token ≠ []) (hstart : Ends p token)
    (hend : Ends p token.reverse) : strip p (before ++ (token ++ after)) = token := by
  have hafter' : ∀ a ∈ after.reverse, p a = true := fun a ha => hafter a (List.mem_reverse.mp ha)
  rw [strip, dropWhile_token hbefore ((ends_append htoken).mpr hstart), List.rdropWhile,
    List.reverse_append, dropWhile_token hafter' hend, List.reverse_reverse]

theorem exists_strip (p : α → Bool) (l : List α) : ∃ before after,
    l = before ++ (strip p l ++ after) ∧ (∀ a ∈ before, p a = true) ∧ (∀ a ∈ after, p a = true) ∧
      Ends p (strip p l) ∧ Ends p (strip p l).reverse := by
  have hsplit : l.dropWhile p = strip p l ++ (l.dropWhile p).rtakeWhile p :=
    List.rdropWhile_append_rtakeWhile.symm
  refine ⟨l.takeWhile p, (l.dropWhile p).rtakeWhile p, ?_, fun _ => List.mem_takeWhile_imp,
    fun _ => List.mem_rtakeWhile_imp, ?_, ?_⟩
  · rw [← hsplit, List.takeWhile_append_dropWhile]
  · have hstart := ends_dropWhile p l
    rw [hsplit] at hstart
    by_cases hnil : strip p l = []
    · rw [hnil]
      exact fun _ ha => nomatch ha
    · exact (ends_append hnil).mp hstart
  · rw [strip, List.rdropWhile, List.reverse_reverse]
    exact ends_dropWhile p _

end Tokens

/-! ## Labels -/

structure Sample where
  name : List Char
  labels : List (List Char × List Char)
  value : List Char
  timestamp : Option (List Char)
deriving DecidableEq

inductive Phase where
  /-- Behind the opening brace or a comma. -/
  | labelStart
  | labelName
  | afterLabelName
  /-- Behind the equals sign. -/
  | beforeText
  | text
  | escape
  | afterText
deriving DecidableEq

structure LabelReader where
  phase : Phase := .labelStart
  labels : List (List Char × List Char) := []
  label : List Char := []
  text : List Char := []
deriving DecidableEq

namespace LabelReader

def endName (r : LabelReader) (c : Char) : Option LabelReader :=
  if isBlank c then some { r with phase := .afterLabelName }
  else if c = '=' then some { r with phase := .beforeText }
  else none

/-- A character inside of the braces. -/
def step (r : LabelReader) (c : Char) : Option LabelReader :=
  match r.phase with
  | .labelStart =>
    if isBlank c then some r
    else if isLabelStart c then some { r with phase := .labelName, label := [c] }
    else none
  | .labelName => if isLabelChar c then some { r with label := r.label ++ [c] } else r.endName c
  | .afterLabelName => r.endName c
  | .beforeText =>
    if isBlank c then some r
    else if c = '"' then some { r with phase := .text, text := [] }
    else none
  | .text =>
    if c = '"' then some { r with phase := .afterText, labels := r.labels ++ [(r.label, r.text)] }
    else if c = '\\' then some { r with phase := .escape }
    else if c = '\n' then none
    else some { r with text := r.text ++ [c] }
  | .escape =>
    if c = '\\' ∨ c = '"' then some { r with phase := .text, text := r.text ++ [c] }
    else if c = 'n' then some { r with phase := .text, text := r.text ++ ['\n'] }
    else none
  | .afterText =>
    if isBlank c then some r
    else if c = ',' then some { r with phase := .labelStart }
    else none

def run (r : LabelReader) (cs : List Char) : Option LabelReader := cs.foldlM step r

/-- The list can end here. -/
def AtEnd (r : LabelReader) : Prop := r.phase = .labelStart ∨ r.phase = .afterText

instance (r : LabelReader) : Decidable r.AtEnd := inferInstanceAs (Decidable (_ ∨ _))

/-- The labels up to the closing brace, and what follows it. -/
def readLabels (r : LabelReader) : List Char → Option (List (List Char × List Char) × List Char)
  | [] => none
  | c :: cs =>
    if c = '}' ∧ r.AtEnd then
      some (r.labels, cs)
    else
      match r.step c with
      | some r' => readLabels r' cs
      | none => none

theorem run_cons {r : LabelReader} {c : Char} {cs : List Char} :
    r.run (c :: cs) = (r.step c).bind (·.run cs) := rfl

theorem exists_of_run_cons {r r' : LabelReader} {c : Char} {cs : List Char}
    (h : r.run (c :: cs) = some r') : ∃ r₁, r.step c = some r₁ ∧ r₁.run cs = some r' :=
  Option.bind_eq_some_iff.mp h

theorem run_append {r : LabelReader} {cs ds : List Char} :
    r.run (cs ++ ds) = (r.run cs).bind (·.run ds) := List.foldlM_append

theorem readLabels_close {r : LabelReader} (h : r.AtEnd) (rest : List Char) :
    r.readLabels ('}' :: rest) = some (r.labels, rest) := by
  rw [readLabels, if_pos ⟨rfl, h⟩]

theorem readLabels_refuse {r : LabelReader} {c : Char} (hc : c ≠ '}') (h : r.step c = none)
    (rest : List Char) : r.readLabels (c :: rest) = none := by
  rw [readLabels, if_neg fun hclose => hc hclose.1, h]

theorem exists_of_readLabels_cons {r : LabelReader} {c : Char} {cs rest : List Char}
    {labels : List (List Char × List Char)} (hc : c ≠ '}')
    (h : r.readLabels (c :: cs) = some (labels, rest)) :
    ∃ r', r.step c = some r' ∧ r'.readLabels cs = some (labels, rest) := by
  cases hstep : r.step c with
  | none =>
    rw [readLabels_refuse hc hstep] at h
    cases h
  | some r' =>
    rw [readLabels, if_neg fun hclose => hc hclose.1, hstep] at h
    exact ⟨r', rfl, h⟩

theorem not_closing {r r' : LabelReader} {c : Char} (h : r.step c = some r') :
    ¬(c = '}' ∧ r.AtEnd) := by
  rintro ⟨rfl, hphase | hphase⟩ <;> rw [step, hphase] at h <;> cases h

theorem readLabels_run {r r' : LabelReader} {cs : List Char} (h : r.run cs = some r')
    (rest : List Char) : r.readLabels (cs ++ rest) = r'.readLabels rest := by
  induction cs generalizing r with
  | nil =>
    cases h
    rfl
  | cons c cs ih =>
    obtain ⟨r₁, hstep, hrun⟩ := exists_of_run_cons h
    rw [List.cons_append, readLabels, if_neg (not_closing hstep), hstep]
    exact ih hrun

theorem exists_of_readLabels {r : LabelReader} {cs rest : List Char}
    {labels : List (List Char × List Char)} (h : r.readLabels cs = some (labels, rest)) :
    ∃ list r', cs = list ++ '}' :: rest ∧ r.run list = some r' ∧ r'.AtEnd ∧ r'.labels = labels := by
  induction cs generalizing r with
  | nil => cases h
  | cons c cs ih =>
    rw [readLabels] at h
    split at h
    · next hclose =>
      cases h
      exact ⟨[], r, by rw [hclose.1]; rfl, rfl, hclose.2, rfl⟩
    · split at h
      · next r₁ hstep =>
        obtain ⟨list, r', rfl, hrun, hend, hlabels⟩ := ih h
        exact ⟨c :: list, r', rfl, by rw [run_cons, hstep]; exact hrun, hend, hlabels⟩
      · cases h

theorem readLabels_append {r : LabelReader} {cs ds rest : List Char}
    {labels : List (List Char × List Char)} (h : r.readLabels (cs ++ ds) = some (labels, rest)) :
    (∃ r', r.run cs = some r' ∧ r'.readLabels ds = some (labels, rest)) ∨ ds <:+ rest := by
  induction cs generalizing r with
  | nil => exact .inl ⟨r, rfl, h⟩
  | cons c cs ih =>
    rw [List.cons_append, readLabels] at h
    split at h
    · cases h
      exact .inr (List.suffix_append cs ds)
    · split at h
      · next r₁ hstep =>
        refine (ih h).imp_left fun ⟨r', hrun, hread⟩ => ⟨r', ?_, hread⟩
        rw [run_cons, hstep]
        exact hrun
      · cases h

/-! ### Reading what was written -/

/-- A character that stands for itself in the text of a label. -/
def Plain (c : Char) : Prop := c ≠ '"' ∧ c ≠ '\\' ∧ c ≠ '\n'

instance (c : Char) : Decidable (Plain c) := inferInstanceAs (Decidable (_ ∧ _ ∧ _))

theorem run_labelName {r : LabelReader} (hphase : r.phase = .labelName) {cs : List Char}
    (h : ∀ c ∈ cs, isLabelChar c = true) : r.run cs = some { r with label := r.label ++ cs } := by
  induction cs generalizing r with
  | nil => simp [run]
  | cons c cs ih =>
    obtain ⟨hc, hcs⟩ := List.forall_mem_cons.mp h
    have hstep : r.step c = some { r with label := r.label ++ [c] } := by
      rw [step, hphase]
      exact if_pos hc
    rw [run_cons, hstep, Option.bind_some, ih (by exact hphase) hcs, List.append_assoc,
      List.singleton_append]

theorem run_text {r : LabelReader} (hphase : r.phase = .text) {cs : List Char}
    (h : ∀ c ∈ cs, Plain c) : r.run cs = some { r with text := r.text ++ cs } := by
  induction cs generalizing r with
  | nil => simp [run]
  | cons c cs ih =>
    obtain ⟨⟨hquote, hbackslash, hnewline⟩, hcs⟩ := List.forall_mem_cons.mp h
    have hstep : r.step c = some { r with text := r.text ++ [c] } := by
      rw [step, hphase]
      dsimp only
      rw [if_neg hquote, if_neg hbackslash, if_neg hnewline]
    rw [run_cons, hstep, Option.bind_some, ih (by exact hphase) hcs, List.append_assoc,
      List.singleton_append]

/-- A label as it is written without blanks and escapes. -/
def labelText (label text : List Char) : List Char := label ++ '=' :: '"' :: (text ++ ['"'])

def IsLabel (label : List Char) : Prop :=
  label.head?.any isLabelStart = true ∧ ∀ c ∈ label, isLabelChar c = true

theorem run_labelStart {r : LabelReader} (hphase : r.phase = .labelStart) {label : List Char}
    (hlabel : IsLabel label) :
    r.run (label ++ ['=', '"']) = some { r with phase := .text, label := label, text := [] } := by
  obtain ⟨hstart, hchars⟩ := hlabel
  cases label with
  | nil => cases hstart
  | cons c cs =>
    have hc : isLabelStart c = true := by simpa using hstart
    have hblank : ¬isBlank c = true := by
      intro hblank
      simp only [isBlank, Bool.or_eq_true, decide_eq_true_eq] at hblank
      rcases hblank with rfl | rfl <;> cases hc
    have hstep : r.step c = some { r with phase := .labelName, label := [c] } := by
      rw [step, hphase]
      dsimp only
      rw [if_neg hblank, if_pos hc]
    rw [List.cons_append, run_cons, hstep, Option.bind_some, run_append,
      run_labelName rfl (List.forall_mem_cons.mp hchars).2]
    rfl

theorem run_labelText {r : LabelReader} (hphase : r.phase = .labelStart) {label text : List Char}
    (hlabel : IsLabel label) (htext : ∀ c ∈ text, Plain c) :
    r.run (labelText label text) = some ⟨.afterText, r.labels ++ [(label, text)], label, text⟩ := by
  have hsplit : labelText label text = (label ++ ['=', '"']) ++ (text ++ ['"']) := by
    simp [labelText]
  rw [hsplit, run_append, run_labelStart hphase hlabel, Option.bind_some, run_append,
    run_text rfl htext]
  rfl

/-- Labels that follow another one. -/
theorem run_labelTexts {labels : List (List Char × List Char)}
    (h : ∀ label ∈ labels, IsLabel label.1 ∧ ∀ c ∈ label.2, Plain c) {r : LabelReader}
    (hphase : r.phase = .afterText) :
    ∃ r', r.run (labels.flatMap fun label => ',' :: labelText label.1 label.2) = some r' ∧
      r'.phase = .afterText ∧ r'.labels = r.labels ++ labels := by
  induction labels generalizing r with
  | nil => exact ⟨r, rfl, hphase, (List.append_nil _).symm⟩
  | cons label labels ih =>
    obtain ⟨⟨hlabel, htext⟩, hlabels⟩ := List.forall_mem_cons.mp h
    have hcomma : r.step ',' = some { r with phase := .labelStart } := by
      rw [step, hphase]
      rfl
    obtain ⟨r', hrun, hphase', hread⟩ :=
      @ih hlabels ⟨.afterText, r.labels ++ [label], label.1, label.2⟩ rfl
    refine ⟨r', ?_, hphase', ?_⟩
    · rw [List.flatMap_cons, List.cons_append, run_cons, hcomma, Option.bind_some, run_append,
        run_labelText rfl hlabel htext]
      exact hrun
    · rw [hread, List.append_assoc, List.singleton_append]

/-! ### What a text can have been -/

theorem step_text {r r' : LabelReader} {c : Char} (hphase : r.phase = .text) (h : r.step c = some r') :
    c = '"' ∧ r'.labels = r.labels ++ [(r.label, r.text)] ∨
      r'.labels = r.labels ∧ (c = '\\' ∧ r'.phase = .escape ∧ r'.text = r.text ∨
        Plain c ∧ r'.phase = .text ∧ r'.text = r.text ++ [c]) := by
  simp only [step, hphase] at h
  split at h
  · next hquote =>
    cases h
    exact .inl ⟨hquote, rfl⟩
  · next hquote =>
    split at h
    · next hbackslash =>
      cases h
      exact .inr ⟨rfl, .inl ⟨hbackslash, rfl, rfl⟩⟩
    · next hbackslash =>
      split at h
      · cases h
      · next hnewline =>
        cases h
        exact .inr ⟨rfl, .inr ⟨⟨hquote, hbackslash, hnewline⟩, rfl, rfl⟩⟩

theorem step_escape {r r' : LabelReader} {c : Char} (hphase : r.phase = .escape)
    (h : r.step c = some r') :
    r'.labels = r.labels ∧ r'.phase = .text ∧ r'.text.length = r.text.length + 1 := by
  simp only [step, hphase] at h
  split at h
  · cases h
    exact ⟨rfl, rfl, List.length_append⟩
  · split at h
    · cases h
      exact ⟨rfl, rfl, List.length_append⟩
    · cases h

/-- A quote starts or continues a text, or ends one. -/
theorem step_quote {r r' : LabelReader} (h : r.step '"' = some r') :
    r'.phase = .text ∨ r.phase = .text ∧ r'.phase = .afterText ∧
      r'.labels = r.labels ++ [(r.label, r.text)] := by
  cases hphase : r.phase <;> rw [step, hphase] at h <;> cases h
  case text => exact .inr ⟨rfl, rfl, rfl⟩
  all_goals exact .inl rfl

/-- Where the list could end, a comma is read behind a text only. -/
theorem step_comma_eq_some {r r' : LabelReader} (h : r.AtEnd) :
    r.step ',' = some r' ↔ r.phase = .afterText ∧ r' = { r with phase := .labelStart } := by
  rcases h with hphase | hphase <;> rw [step, hphase]
  · constructor
    · intro hstep
      cases hstep
    · rintro ⟨hphase', -⟩
      cases hphase'
  · constructor
    · intro hstep
      exact ⟨rfl, (Option.some_inj.mp hstep).symm⟩
    · rintro ⟨-, rfl⟩
      rfl

theorem endName_spec {r r' : LabelReader} {c : Char} (h : r.endName c = some r') :
    r'.labels = r.labels ∧ ¬r'.AtEnd := by
  rw [endName] at h
  split at h
  · cases h
    exact ⟨rfl, by simp [AtEnd]⟩
  · split at h
    · cases h
      exact ⟨rfl, by simp [AtEnd]⟩
    · cases h

/-- What a character does to the list: it ends a text, it starts the next label, it is a blank, or the
list cannot end behind it. -/
theorem step_spec {r r' : LabelReader} {c : Char} (h : r.step c = some r') :
    (c = '"' ∧ r'.phase = .afterText ∧ r'.labels = r.labels ++ [(r.label, r.text)]) ∨
      r'.labels = r.labels ∧
        (¬r'.AtEnd ∨ c = ',' ∧ r'.phase = .labelStart ∨ isBlank c = true ∧ r'.phase = r.phase) := by
  cases hphase : r.phase with
  | labelStart =>
    simp only [step, hphase] at h
    split at h
    · next hblank =>
      cases h
      exact .inr ⟨rfl, .inr (.inr ⟨hblank, hphase⟩)⟩
    · split at h <;> cases h
      exact .inr ⟨rfl, .inl (by simp [AtEnd])⟩
  | labelName =>
    simp only [step, hphase] at h
    split at h
    · cases h
      exact .inr ⟨rfl, .inl (by simp [AtEnd])⟩
    · exact .inr ((endName_spec h).imp_right .inl)
  | afterLabelName =>
    simp only [step, hphase] at h
    exact .inr ((endName_spec h).imp_right .inl)
  | beforeText =>
    simp only [step, hphase] at h
    split at h
    · next hblank =>
      cases h
      exact .inr ⟨rfl, .inr (.inr ⟨hblank, hphase⟩)⟩
    · split at h <;> cases h
      exact .inr ⟨rfl, .inl (by simp [AtEnd])⟩
  | text =>
    simp only [step, hphase] at h
    split at h
    · next hquote =>
      cases h
      exact .inl ⟨hquote, rfl, rfl⟩
    · split at h
      · cases h
        exact .inr ⟨rfl, .inl (by simp [AtEnd])⟩
      · split at h <;> cases h
        exact .inr ⟨rfl, .inl (by simp [AtEnd])⟩
  | escape =>
    obtain ⟨hlabels, hphase', _⟩ := step_escape hphase h
    exact .inr ⟨hlabels, .inl (by simp [AtEnd, hphase'])⟩
  | afterText =>
    simp only [step, hphase] at h
    split at h
    · next hblank =>
      cases h
      exact .inr ⟨rfl, .inr (.inr ⟨hblank, hphase⟩)⟩
    · split at h
      · next hcomma =>
        cases h
        exact .inr ⟨rfl, .inr (.inl ⟨hcomma, rfl⟩)⟩
      · cases h

theorem newline_notMem_of_run {r r' : LabelReader} {cs : List Char} (h : r.run cs = some r') :
    '\n' ∉ cs := by
  induction cs generalizing r with
  | nil => exact List.not_mem_nil
  | cons c cs ih =>
    obtain ⟨r₁, hstep, hrun⟩ := exists_of_run_cons h
    refine List.not_mem_cons_of_ne_of_not_mem ?_ (ih hrun)
    rintro rfl
    cases hphase : r.phase <;> rw [step, hphase] at hstep <;> cases hstep

theorem length_labels_le {r r' : LabelReader} {cs : List Char} (h : r.run cs = some r') :
    r.labels.length ≤ r'.labels.length := by
  induction cs generalizing r with
  | nil =>
    cases h
    exact Nat.le_refl _
  | cons c cs ih =>
    obtain ⟨r₁, hstep, hrun⟩ := exists_of_run_cons h
    refine Nat.le_trans ?_ (ih hrun)
    rcases step_spec hstep with ⟨_, _, hlabels⟩ | ⟨hlabels, _⟩
    · rw [hlabels, List.length_append]
      exact Nat.le_add_right _ _
    · rw [hlabels]

/-- Nothing makes a text longer than what was read. -/
theorem length_text_le {r r' : LabelReader} (hphase : r.phase = .text ∨ r.phase = .escape)
    {cs : List Char} (h : r.run cs = some r') (hlabels : r'.labels.length ≤ r.labels.length) :
    r'.text.length ≤ r.text.length + cs.length := by
  induction cs generalizing r with
  | nil =>
    cases h
    exact Nat.le_refl _
  | cons c cs ih =>
    obtain ⟨r₁, hstep, hrun⟩ := exists_of_run_cons h
    have hle := length_labels_le hrun
    rw [List.length_cons]
    rcases hphase with hphase | hphase
    · rcases step_text hphase hstep with ⟨_, hlabels₁⟩ | ⟨hlabels₁, hnext⟩
      · rw [hlabels₁, List.length_append, List.length_singleton] at hle
        omega
      · rw [← hlabels₁] at hlabels
        rcases hnext with ⟨_, hphase₁, htext⟩ | ⟨_, hphase₁, htext⟩
        · have hbound := ih (.inr hphase₁) hrun hlabels
          rw [htext] at hbound
          omega
        · have hbound := ih (.inl hphase₁) hrun hlabels
          rw [htext, List.length_append, List.length_singleton] at hbound
          omega
    · obtain ⟨hlabels₁, hphase₁, htext⟩ := step_escape hphase hstep
      rw [← hlabels₁] at hlabels
      have hbound := ih (.inl hphase₁) hrun hlabels
      omega

/-- Escapes make a text shorter than what was read, and quotes end it. -/
theorem plain_of_run {r r' : LabelReader} (hphase : r.phase = .text) {cs : List Char}
    (h : r.run cs = some r') (hlabels : r'.labels.length ≤ r.labels.length)
    (htext : r.text.length + cs.length ≤ r'.text.length) : ∀ c ∈ cs, Plain c := by
  induction cs generalizing r with
  | nil => exact fun _ hc => absurd hc List.not_mem_nil
  | cons c cs ih =>
    obtain ⟨r₁, hstep, hrun⟩ := exists_of_run_cons h
    have hle := length_labels_le hrun
    rw [List.length_cons] at htext
    rcases step_text hphase hstep with ⟨_, hlabels₁⟩ | ⟨hlabels₁, hnext⟩
    · rw [hlabels₁, List.length_append, List.length_singleton] at hle
      omega
    · rw [← hlabels₁] at hlabels
      rcases hnext with ⟨_, hphase₁, htext₁⟩ | ⟨hc, hphase₁, htext₁⟩
      · have hbound := length_text_le (.inr hphase₁) hrun hlabels
        rw [htext₁] at hbound
        omega
      · refine List.forall_mem_cons.mpr ⟨hc, ih hphase₁ hrun hlabels ?_⟩
        rw [htext₁, List.length_append, List.length_singleton]
        omega

/-! ### Where a list ends -/

/-- The last character that is not a blank. -/
def lastMark (cs : List Char) : Option Char := (cs.rdropWhile isBlank).getLast?

theorem lastMark_concat_blank {c : Char} (h : isBlank c = true) (cs : List Char) :
    lastMark (cs ++ [c]) = lastMark cs := by
  rw [lastMark, List.rdropWhile_concat_pos _ _ _ h, lastMark]

theorem lastMark_concat {c : Char} (h : ¬isBlank c = true) (cs : List Char) :
    lastMark (cs ++ [c]) = some c := by
  rw [lastMark, List.rdropWhile_concat_neg _ _ _ h, List.getLast?_concat]

/-- A list that can end does so behind a text exactly if its last mark is a quote. -/
theorem lastMark_eq_quote_iff {r : LabelReader} {cs : List Char} (h : run {} cs = some r)
    (hend : r.AtEnd) : lastMark cs = some '"' ↔ r.phase = .afterText := by
  induction cs using List.reverseRecOn generalizing r with
  | nil =>
    cases h
    decide
  | append_singleton cs c ih =>
    rw [run_append] at h
    obtain ⟨r₁, hrun, hlast⟩ := Option.bind_eq_some_iff.mp h
    obtain ⟨r₂, hstep, hrest⟩ := exists_of_run_cons hlast
    cases hrest
    rcases step_spec hstep with ⟨rfl, hphase, _⟩ | ⟨_, hnot | ⟨rfl, hphase⟩ | ⟨hblank, hphase⟩⟩
    · rw [lastMark_concat (by decide), hphase]
      decide
    · exact absurd hend hnot
    · rw [lastMark_concat (by decide), hphase]
      decide
    · rw [AtEnd, hphase] at hend
      rw [lastMark_concat_blank hblank, ih hrun hend, hphase]

end LabelReader

/-! ## Lines -/

section Lines

variable (isFloat isInteger : List Char → Bool)

/-- The value and the timestamp. -/
def parseTail (line : List Char) : Option (List Char × Option (List Char)) :=
  let line := line.dropWhile isBlank
  let value := line.takeWhile isNumeralChar
  let rest := line.dropWhile isNumeralChar
  let timestamp := rest.dropWhile isBlank
  if value = [] ∨ isFloat value = false then none
  else if rest = [] then some (value, none)
  else if timestamp ≠ [] ∧ timestamp.all isNumeralChar ∧ isInteger timestamp then
    some (value, some timestamp)
  else none

def parseBody (name : List Char) : List Char → Option Sample
  | '{' :: cs => do
    let (labels, rest) ← LabelReader.readLabels {} cs
    let (value, timestamp) ← parseTail isFloat isInteger rest
    some ⟨name, labels, value, timestamp⟩
  | cs => do
    let (value, timestamp) ← parseTail isFloat isInteger cs
    some ⟨name, [], value, timestamp⟩

def trimBlanks (line : List Char) : List Char := strip isBlank line

def parseTrimmed (line : List Char) : Option Sample :=
  let name := line.takeWhile isNameChar
  if name.head?.any isNameStart then
    parseBody isFloat isInteger name ((line.dropWhile isNameChar).dropWhile isBlank)
  else none

def parse (line : List Char) : Option Sample := parseTrimmed isFloat isInteger (trimBlanks line)

variable {isFloat isInteger}

theorem mem_of_parseTail {line : List Char} {result : List Char × Option (List Char)}
    (h : parseTail isFloat isInteger line = some result) :
    ∀ c ∈ line, isBlank c = true ∨ isNumeralChar c = true := by
  have hsplit : line = line.takeWhile isBlank ++ ((line.dropWhile isBlank).takeWhile isNumeralChar ++
      (((line.dropWhile isBlank).dropWhile isNumeralChar).takeWhile isBlank ++
        ((line.dropWhile isBlank).dropWhile isNumeralChar).dropWhile isBlank)) := by
    rw [List.takeWhile_append_dropWhile, List.takeWhile_append_dropWhile,
      List.takeWhile_append_dropWhile]
  have htimestamp : ∀ c ∈ ((line.dropWhile isBlank).dropWhile isNumeralChar).dropWhile isBlank,
      isNumeralChar c = true := by
    rw [parseTail] at h
    split at h
    · cases h
    · split at h
      · next hrest =>
        rw [hrest]
        exact fun _ hc => absurd hc List.not_mem_nil
      · split at h
        · next hinteger => exact List.all_eq_true.mp hinteger.2.1
        · cases h
  intro c hc
  rw [hsplit, List.mem_append, List.mem_append, List.mem_append] at hc
  rcases hc with hc | hc | hc | hc
  · exact .inl (List.mem_takeWhile_imp hc)
  · exact .inr (List.mem_takeWhile_imp hc)
  · exact .inl (List.mem_takeWhile_imp hc)
  · exact .inr (htimestamp c hc)

theorem parseTail_blanks {blanks : List Char} (h : ∀ c ∈ blanks, isBlank c = true) (line : List Char) :
    parseTail isFloat isInteger (blanks ++ line) = parseTail isFloat isInteger line := by
  rw [parseTail, parseTail, List.dropWhile_append_of_pos h]

theorem parseTail_nil : parseTail isFloat isInteger [] = none := by
  rw [parseTail]
  exact if_pos (.inl rfl)

theorem parseBody_eq_some {name body : List Char} {sample : Sample}
    (hbody : ∀ cs, body ≠ '{' :: cs) :
    parseBody isFloat isInteger name body = some sample ↔ sample.name = name ∧ sample.labels = [] ∧
      parseTail isFloat isInteger body = some (sample.value, sample.timestamp) := by
  rw [parseBody.eq_def]
  split
  · next cs => exact absurd rfl (hbody cs)
  · cases htail : parseTail isFloat isInteger body with
    | none => simp
    | some result =>
      obtain ⟨name', labels, value, timestamp⟩ := sample
      obtain ⟨value', timestamp'⟩ := result
      simp only [bind, Option.bind, Option.some.injEq, Sample.mk.injEq, Prod.mk.injEq]
      exact ⟨fun ⟨h₁, h₂, h₃, h₄⟩ => ⟨h₁.symm, h₂.symm, h₃, h₄⟩,
        fun ⟨h₁, h₂, h₃, h₄⟩ => ⟨h₁.symm, h₂.symm, h₃, h₄⟩⟩

theorem parseBody_brace_eq_some {name cs : List Char} {sample : Sample} :
    parseBody isFloat isInteger name ('{' :: cs) = some sample ↔ sample.name = name ∧
      ∃ rest, LabelReader.readLabels {} cs = some (sample.labels, rest) ∧
        parseTail isFloat isInteger rest = some (sample.value, sample.timestamp) := by
  obtain ⟨name', labels, value, timestamp⟩ := sample
  rw [parseBody]
  constructor
  · intro h
    obtain ⟨⟨labels', rest⟩, hread, h⟩ := Option.bind_eq_some_iff.mp h
    obtain ⟨⟨value', timestamp'⟩, htail, h⟩ := Option.bind_eq_some_iff.mp h
    cases h
    exact ⟨rfl, rest, hread, htail⟩
  · rintro ⟨rfl, rest, hread, htail⟩
    simp only [hread, htail, bind, Option.bind]

theorem parseBody_name {name body : List Char} {sample : Sample}
    (h : parseBody isFloat isInteger name body = some sample) : sample.name = name := by
  by_cases hbody : ∃ cs, body = '{' :: cs
  · obtain ⟨cs, rfl⟩ := hbody
    exact (parseBody_brace_eq_some.mp h).1
  · exact ((parseBody_eq_some fun cs hcs => hbody ⟨cs, hcs⟩).mp h).1

def IsName (name : List Char) : Prop :=
  name.head?.any isNameStart = true ∧ ∀ c ∈ name, isNameChar c = true

/-- A name, the blanks behind it, and the rest of the line. -/
structure Head (line name blanks body : List Char) : Prop where
  eq : line = name ++ (blanks ++ body)
  isName : IsName name
  isBlank : ∀ c ∈ blanks, isBlank c = true
  name_ends : Ends isNameChar (blanks ++ body)
  blanks_end : Ends Exposition.isBlank body

theorem Head.parseTrimmed_eq {line name blanks body : List Char} (h : Head line name blanks body) :
    parseTrimmed isFloat isInteger line = parseBody isFloat isInteger name body := by
  rw [parseTrimmed, h.eq, takeWhile_token h.isName.2 h.name_ends,
    dropWhile_token h.isName.2 h.name_ends, dropWhile_token h.isBlank h.blanks_end, if_pos h.isName.1]

theorem exists_head {line : List Char} {sample : Sample}
    (h : parseTrimmed isFloat isInteger line = some sample) :
    ∃ blanks body, Head line sample.name blanks body ∧
      parseBody isFloat isInteger sample.name body = some sample := by
  rw [parseTrimmed] at h
  split at h
  · next hname =>
    rw [parseBody_name h]
    refine ⟨(line.dropWhile isNameChar).takeWhile isBlank, _, ⟨?_,
      ⟨hname, fun _ => List.mem_takeWhile_imp⟩, fun _ => List.mem_takeWhile_imp, ?_,
      ends_dropWhile _ _⟩, h⟩
    · rw [List.takeWhile_append_dropWhile, List.takeWhile_append_dropWhile]
    · rw [List.takeWhile_append_dropWhile]
      exact ends_dropWhile _ _
  · cases h

theorem IsName.exists_head {name : List Char} (h : IsName name) (rest : List Char) :
    ∃ c, (name ++ rest).head? = some c ∧ isNameStart c = true := by
  cases name with
  | nil => cases h.1
  | cons c cs => exact ⟨c, rfl, by simpa using h.1⟩

theorem IsName.ne_nil {name : List Char} (h : IsName name) : name ≠ [] := by
  rintro rfl
  cases h.1

/-- A line without blanks around it. -/
theorem Head.parse_eq {line name blanks body : List Char} (h : Head line name blanks body)
    (hend : Ends Exposition.isBlank line.reverse) :
    parse isFloat isInteger line = parseBody isFloat isInteger name body := by
  have hstart : Ends Exposition.isBlank line := by
    obtain ⟨c, hc, hname⟩ := h.isName.exists_head (blanks ++ body)
    intro d hd
    rw [h.eq, hc] at hd
    cases hd
    cases hblank : Exposition.isBlank c with
    | false => rfl
    | true =>
      simp only [Exposition.isBlank, Bool.or_eq_true, decide_eq_true_eq] at hblank
      rcases hblank with rfl | rfl <;> cases hname
  have hne : line ≠ [] := by
    rw [h.eq]
    exact List.append_ne_nil_of_left_ne_nil h.isName.ne_nil _
  have hstrip := @strip_eq _ Exposition.isBlank line [] [] (fun _ ha => nomatch ha)
    (fun _ ha => nomatch ha) hne hstart hend
  rw [List.nil_append, List.append_nil] at hstrip
  rw [parse, trimBlanks, hstrip, h.parseTrimmed_eq]

/-- The line ends in its value and timestamp. -/
theorem exists_tail {line : List Char} {sample : Sample}
    (h : parseTrimmed isFloat isInteger line = some sample) :
    ∃ before rest, line = before ++ rest ∧ '\n' ∉ before ∧
      parseTail isFloat isInteger rest = some (sample.value, sample.timestamp) := by
  obtain ⟨blanks, body, hhead, hbody⟩ := exists_head h
  have hname : '\n' ∉ sample.name := fun hmem => nomatch hhead.isName.2 _ hmem
  have hblanks : '\n' ∉ blanks := fun hmem => nomatch hhead.isBlank _ hmem
  by_cases hbrace : ∃ cs, body = '{' :: cs
  · obtain ⟨cs, rfl⟩ := hbrace
    obtain ⟨_, rest, hread, htail⟩ := parseBody_brace_eq_some.mp hbody
    obtain ⟨list, r, rfl, hrun, _, _⟩ := LabelReader.exists_of_readLabels hread
    refine ⟨sample.name ++ (blanks ++ ('{' :: (list ++ ['}']))), rest, ?_, ?_, htail⟩
    · rw [hhead.eq]
      simp
    · simp [hname, hblanks, LabelReader.newline_notMem_of_run hrun]
  · obtain ⟨_, _, htail⟩ := (parseBody_eq_some fun cs hcs => hbrace ⟨cs, hcs⟩).mp hbody
    refine ⟨sample.name ++ blanks, body, ?_, ?_, htail⟩
    · rw [hhead.eq, List.append_assoc]
    · simp [hname, hblanks]

end Lines

end Exposition
end Lib
end Wcn
