import Wcn.Lib.Exposition
import Wcn.Cluster.OperatorData

/-!
# Wcn.Metrics.Aggregator

Metrics of other operators' nodes with labels that say whose they are: `append_extra_labels` of
`crates/metrics/src/aggregator.rs`.

The function does not parse a line. It looks for its first space, for an opening brace before that,
and for the last closing brace, and inserts the labels there as they are.

* `readLabels_display`, `of_readLabels_display` — the inserted labels read as what they stand for if
  the operator's name needs no escapes. Otherwise they do not, but a name cannot reach beyond them.
* `Insertable` — the lines in which the labels end up where they belong. An empty label list, a comma
  at its end, a space in front of it and tabs in place of spaces are not understood.
* `relabelled_iff` — the lines that keep their meaning; `parse_appendExtraLabels` — whole texts.
-/

namespace Wcn
namespace Metrics

open Lib Exposition LabelReader
open Cluster.OperatorData (Name)

/-! ## Labels -/

inductive ServiceKind where
  | node (idx : Nat)
  | database

structure ExtraLabels where
  operator : Name
  serviceKind : ServiceKind

namespace ExtraLabels

/-- `Display for ExtraLabels`. -/
def display (self : ExtraLabels) : List Char :=
  let operator := self.operator.str.toList
  match self.serviceKind with
  | .node idx =>
    "operator=\"".toList ++ operator ++ "\",service_kind=\"node\",node_idx=\"".toList ++
      idx.repr.toList ++ "\"".toList
  | .database => "operator=\"".toList ++ operator ++ "\",service_kind=\"db\"".toList

def serviceLabels (self : ExtraLabels) : List (List Char × List Char) :=
  match self.serviceKind with
  | .node idx => [("service_kind".toList, "node".toList), ("node_idx".toList, idx.repr.toList)]
  | .database => [("service_kind".toList, "db".toList)]

/-- The labels that `display` stands for. -/
def labels (self : ExtraLabels) : List (List Char × List Char) :=
  ("operator".toList, self.operator.str.toList) :: self.serviceLabels

/-- The sample with the extra labels behind its own. -/
def relabel (self : ExtraLabels) (sample : Sample) : Sample :=
  { sample with labels := sample.labels ++ self.labels }

theorem labels_relabel (self : ExtraLabels) (sample : Sample) :
    (self.relabel sample).labels = sample.labels ++ self.labels := rfl

end ExtraLabels

/-! ## Lines -/

/-- `char::is_whitespace`. -/
def isWhitespace (c : Char) : Bool :=
  let n := c.toNat
  9 ≤ n && n ≤ 13 || n = 32 || n = 0x85 || n = 0xa0 || n = 0x1680 || 0x2000 ≤ n && n ≤ 0x200a ||
    n = 0x2028 || n = 0x2029 || n = 0x202f || n = 0x205f || n = 0x3000

def trim (s : List Char) : List Char := strip isWhitespace s

def find (c : Char) (s : List Char) : Option Nat := s.findIdx? (· = c)

def rfind (c : Char) (s : List Char) : Option Nat :=
  (s.reverse.findIdx? (· = c)).map (s.length - 1 - ·)

/-- A carriage return in front of a newline belongs to the line ending. -/
def stripCarriageReturn (line : List Char) : List Char :=
  if line.getLast? = some '\r' then line.dropLast else line

/-- `str::lines`, behind `line`. -/
def linesFrom (line : List Char) : List Char → List (List Char)
  | [] => if line = [] then [] else [line]
  | c :: s => if c = '\n' then stripCarriageReturn line :: linesFrom [] s else linesFrom (line ++ [c]) s

def lines (s : List Char) : List (List Char) := linesFrom [] s

/-- `(insert_idx, has_braces, has_labels)`, or `none` if the line is dropped. -/
def insertion (line : List Char) : Option (Nat × Bool × Bool) :=
  match find ' ' line with
  | none => none
  | some firstWordEndIdx =>
    match find '{' (line.take firstWordEndIdx) with
    | some lbIdx =>
      match rfind '}' line with
      | none => none
      | some rbIdx =>
        if rbIdx < lbIdx then
          none
        else
          -- with the braces themselves
          let inBraces := (line.take (rbIdx + 1)).drop lbIdx
          some (rbIdx, true, inBraces.any (!isWhitespace ·))
    | none => some (firstWordEndIdx, false, false)

def insertLabels (extraLabels : ExtraLabels) (line : List Char) : List Char :=
  match insertion line with
  | none => []
  | some (insertIdx, hasBraces, hasLabels) =>
    line.take insertIdx ++ (if hasBraces then [] else ['{']) ++ (if hasLabels then [','] else []) ++
      extraLabels.display ++ (if hasBraces then [] else ['}']) ++ line.drop insertIdx ++ ['\n']

def relabelLine (extraLabels : ExtraLabels) (line : List Char) : List Char :=
  let line := trim line
  if line = [] ∨ line.head? = some '#' then [] else insertLabels extraLabels line

def appendExtraLabels (metrics : List Char) (extraLabels : ExtraLabels) : List Char :=
  (lines metrics).flatMap (relabelLine extraLabels)

/-! ## Reading the inserted labels -/

namespace ExtraLabels

/-- What `display` writes behind the label of the operator. -/
def serviceText (self : ExtraLabels) : List Char :=
  self.serviceLabels.flatMap fun label => ',' :: labelText label.1 label.2

theorem display_eq (self : ExtraLabels) :
    self.display = labelText "operator".toList self.operator.str.toList ++ self.serviceText := by
  cases h : self.serviceKind <;> simp [display, serviceText, serviceLabels, labelText, h]

theorem plain_digits (n : Nat) : ∀ c ∈ n.repr.toList, Plain c := by
  intro c hc
  rw [Nat.toList_repr] at hc
  have hdigit := Nat.isDigit_of_mem_toDigits (by decide) (by decide) hc
  refine ⟨?_, ?_, ?_⟩ <;> rintro rfl <;> cases hdigit

theorem isLabel_names : IsLabel "operator".toList ∧ IsLabel "service_kind".toList ∧
    IsLabel "node_idx".toList := by
  simp [IsLabel, isLabelStart, isLabelChar]

theorem serviceLabels_spec (self : ExtraLabels) :
    ∀ label ∈ self.serviceLabels, IsLabel label.1 ∧ ∀ c ∈ label.2, Plain c := by
  obtain ⟨_, hkind, hidx⟩ := isLabel_names
  cases h : self.serviceKind with
  | node idx =>
    simp only [serviceLabels, h, List.forall_mem_cons]
    exact ⟨⟨hkind, by simp [Plain]⟩, ⟨hidx, plain_digits idx⟩,
      fun _ hlabel => absurd hlabel List.not_mem_nil⟩
  | database =>
    simp only [serviceLabels, h, List.forall_mem_cons]
    exact ⟨⟨hkind, by simp [Plain]⟩, fun _ hlabel => absurd hlabel List.not_mem_nil⟩

/-- An operator's name that stands for itself. -/
theorem readLabels_display (self : ExtraLabels) {r : LabelReader} (hphase : r.phase = .labelStart)
    (hplain : ∀ c ∈ self.operator.str.toList, Plain c) (rest : List Char) :
    r.readLabels (self.display ++ '}' :: rest) = some (r.labels ++ self.labels, rest) := by
  obtain ⟨r', hrun, hphase', hlabels⟩ := @run_labelTexts _ self.serviceLabels_spec
    ⟨.afterText, r.labels ++ [("operator".toList, self.operator.str.toList)], "operator".toList,
      self.operator.str.toList⟩ rfl
  have hdisplay : r.run self.display = some r' := by
    rw [display_eq, run_append, run_labelText hphase isLabel_names.1 hplain]
    exact hrun
  rw [readLabels_run hdisplay, readLabels_close (.inr hphase'), hlabels, List.append_assoc,
    List.singleton_append, labels]

theorem exists_serviceText_eq (self : ExtraLabels) : ∃ c rest, c.isAlpha = true ∧
    self.serviceText = ",service_kind=\"".toList ++ c :: rest := by
  cases h : self.serviceKind with
  | node idx =>
    refine ⟨'n', "ode\"".toList ++ ',' :: labelText "node_idx".toList idx.repr.toList, rfl, ?_⟩
    simp [serviceText, serviceLabels, h, labelText]
  | database =>
    refine ⟨'d', "b\"".toList, rfl, ?_⟩
    simp [serviceText, serviceLabels, h, labelText]

/-- Inside of a text, the quote in front of the service's kind ends it. -/
theorem readLabels_serviceText (self : ExtraLabels) {r : LabelReader} (hphase : r.phase = .text)
    (rest : List Char) : r.readLabels (self.serviceText ++ rest) = none := by
  obtain ⟨c, more, hc, htext⟩ := self.exists_serviceText_eq
  have hrun : r.run ",service_kind=\"".toList = some
      { r with
        phase := .afterText, labels := r.labels ++ [(r.label, r.text ++ ",service_kind=".toList)],
        text := r.text ++ ",service_kind=".toList } := by
    have hsplit : ",service_kind=\"".toList = ",service_kind=".toList ++ ['"'] := by simp
    rw [hsplit, run_append, run_text hphase (by simp [Plain]), Option.bind_some, run_cons, step, hphase]
    rfl
  rw [htext, List.append_assoc, readLabels_run hrun]
  refine readLabels_refuse ?_ ?_ _
  · rintro rfl
    cases hc
  · rw [step]
    dsimp only
    rw [if_neg, if_neg]
    · rintro rfl
      cases hc
    · intro hblank
      simp only [isBlank, Bool.or_eq_true, decide_eq_true_eq] at hblank
      rcases hblank with rfl | rfl <;> cases hc

/-- Whatever the operator's name is, a line that is still valid goes on behind the inserted labels, and
only a name without escapes is read as itself. -/
theorem of_readLabels_display (self : ExtraLabels) {r : LabelReader} (hphase : r.phase = .labelStart)
    {rest rest' : List Char} {labels : List (List Char × List Char)}
    (h : r.readLabels (self.display ++ '}' :: rest) = some (labels, rest')) (hrest : '"' ∉ rest') :
    rest' = rest ∧ (labels = r.labels ++ self.labels → ∀ c ∈ self.operator.str.toList, Plain c) := by
  have hsplit : self.display ++ '}' :: rest = ("operator".toList ++ ['=', '"']) ++
      (self.operator.str.toList ++ ('"' :: (self.serviceText ++ '}' :: rest))) := by
    simp [display_eq, labelText]
  rw [hsplit, readLabels_run (run_labelStart hphase isLabel_names.1)] at h
  rcases readLabels_append h with ⟨r', hrun, hread⟩ | hsuffix
  · obtain ⟨r₁, hstep, hread⟩ := exists_of_readLabels_cons (by decide) hread
    rcases step_quote hstep with htext | ⟨_, hphase₁, hlabels₁⟩
    · rw [self.readLabels_serviceText htext] at hread
      cases hread
    · obtain ⟨r₂, hrun₂, hphase₂, hlabels₂⟩ := run_labelTexts self.serviceLabels_spec hphase₁
      rw [readLabels_run (by exact hrun₂), readLabels_close (.inr hphase₂)] at hread
      cases hread
      refine ⟨rfl, fun hlabels => ?_⟩
      have hsame : r'.labels ++ [(r'.label, r'.text)] =
          r.labels ++ [("operator".toList, self.operator.str.toList)] := by
        refine (List.append_left_inj self.serviceLabels).mp ?_
        rw [← hlabels₁, ← hlabels₂, hlabels, ExtraLabels.labels, List.append_assoc,
          List.singleton_append]
      obtain ⟨hbefore, hlast⟩ := List.append_inj' hsame rfl
      have htext : r'.text = self.operator.str.toList := congrArg Prod.snd (List.singleton_inj.mp hlast)
      refine plain_of_run (by rfl) hrun (Nat.le_of_eq (by rw [hbefore])) ?_
      rw [htext, List.length_nil, Nat.zero_add]
  · exact absurd (hsuffix.subset List.mem_cons_self) hrest

end ExtraLabels

/-! ## Where the labels go -/

theorem find_eq_none {c : Char} {s : List Char} (h : c ∉ s) : find c s = none := by
  rw [find, List.findIdx?_eq_none_iff]
  rintro d hd
  exact decide_eq_false fun heq => h (heq ▸ hd)

theorem find_eq {c : Char} {before : List Char} (h : c ∉ before) (after : List Char) :
    find c (before ++ c :: after) = some before.length := by
  have hbefore : before.findIdx? (· = c) = none := find_eq_none h
  rw [find, List.findIdx?_append, hbefore]
  simp [List.findIdx?_cons]

theorem rfind_eq {c : Char} {after : List Char} (h : c ∉ after) (before : List Char) :
    rfind c (before ++ c :: after) = some before.length := by
  have hsplit : (before ++ c :: after).reverse = after.reverse ++ c :: before.reverse := by simp
  have hfind := find_eq (List.mem_reverse.not.mpr h) before.reverse
  rw [find] at hfind
  rw [rfind, hsplit, hfind, Option.map_some, Option.some_inj, List.length_append, List.length_cons,
    List.length_reverse]
  omega

theorem insertLabels_dropped (extra : ExtraLabels) {line : List Char} (h : ' ' ∉ line) :
    insertLabels extra line = [] := by
  rw [insertLabels, insertion, find_eq_none h]

theorem insertLabels_unlabelled (extra : ExtraLabels) {before : List Char} (hspace : ' ' ∉ before)
    (hbrace : '{' ∉ before) (after : List Char) :
    insertLabels extra (before ++ ' ' :: after) =
      before ++ '{' :: (extra.display ++ '}' :: ' ' :: after) ++ ['\n'] := by
  have hinsertion : insertion (before ++ ' ' :: after) = some (before.length, false, false) := by
    rw [insertion, find_eq hspace]
    dsimp only
    rw [List.take_left, find_eq_none hbrace]
  rw [insertLabels, hinsertion]
  simp

theorem insertion_labelled {before list rest : List Char} (hspace : ' ' ∉ before)
    (hbrace : '{' ∉ before) (hmem : ' ' ∈ list ++ '}' :: rest) (hrest : '}' ∉ rest) :
    insertion (before ++ '{' :: (list ++ '}' :: rest)) =
      some ((before ++ '{' :: list).length, true, true) := by
  obtain ⟨word, after, hword, hnot⟩ := List.eq_append_cons_of_mem hmem
  have hfirst : before ++ '{' :: (list ++ '}' :: rest) = (before ++ '{' :: word) ++ ' ' :: after := by
    rw [hword, List.append_assoc, List.cons_append]
  have hspace' : ' ' ∉ before ++ '{' :: word := by simp [hspace, hnot]
  have hlast : before ++ '{' :: (list ++ '}' :: rest) = (before ++ '{' :: list) ++ '}' :: rest := by
    rw [List.append_assoc, List.cons_append]
  have hbraces : ((before ++ '{' :: (list ++ '}' :: rest)).take
      ((before ++ '{' :: list).length + 1)).drop before.length =
        '{' :: (list ++ '}' :: rest).take (list.length + 1) := by
    rw [List.length_append, List.length_cons, Nat.add_assoc, List.take_length_add_append,
      List.drop_left, List.take_succ_cons]
  have hle : ¬(before ++ '{' :: list).length < before.length := by
    rw [List.length_append]
    omega
  have hfindSpace : find ' ' (before ++ '{' :: (list ++ '}' :: rest)) =
      some (before ++ '{' :: word).length := by
    rw [hfirst, find_eq hspace']
  have hfindBrace : rfind '}' (before ++ '{' :: (list ++ '}' :: rest)) =
      some (before ++ '{' :: list).length := by
    rw [hlast, rfind_eq hrest]
  have htake : (before ++ '{' :: (list ++ '}' :: rest)).take (before ++ '{' :: word).length =
      before ++ '{' :: word := by
    rw [hfirst, List.take_left]
  simp only [insertion, hfindSpace, htake, find_eq hbrace, hfindBrace, if_neg hle, hbraces]
  rfl

theorem insertLabels_labelled (extra : ExtraLabels) {before list rest : List Char}
    (hspace : ' ' ∉ before) (hbrace : '{' ∉ before) (hmem : ' ' ∈ list ++ '}' :: rest)
    (hrest : '}' ∉ rest) :
    insertLabels extra (before ++ '{' :: (list ++ '}' :: rest)) =
      before ++ '{' :: (list ++ ',' :: (extra.display ++ '}' :: rest)) ++ ['\n'] := by
  have hsplit : before ++ '{' :: (list ++ '}' :: rest) = (before ++ '{' :: list) ++ '}' :: rest := by
    rw [List.append_assoc, List.cons_append]
  rw [insertLabels, insertion_labelled hspace hbrace hmem hrest]
  dsimp only
  rw [hsplit, List.take_left, List.drop_left]
  simp

/-! ## Valid lines -/

theorem linesFrom_newline {line s : List Char} (hs : '\n' ∉ s) (rest : List Char) :
    linesFrom line (s ++ '\n' :: rest) = stripCarriageReturn (line ++ s) :: linesFrom [] rest := by
  induction s generalizing line with
  | nil => rw [List.nil_append, List.append_nil, linesFrom, if_pos rfl]
  | cons c s ih =>
    obtain ⟨hc, hs⟩ := not_or.mp (List.mem_cons.not.mp hs)
    rw [List.cons_append, linesFrom, if_neg (Ne.symm hc), ih hs, List.append_assoc,
      List.singleton_append]

theorem linesFrom_eq {line s : List Char} (hs : '\n' ∉ s) (hne : line ++ s ≠ []) :
    linesFrom line s = [line ++ s] := by
  induction s generalizing line with
  | nil =>
    rw [List.append_nil] at hne ⊢
    rw [linesFrom, if_neg hne]
  | cons c s ih =>
    obtain ⟨hc, hs⟩ := not_or.mp (List.mem_cons.not.mp hs)
    rw [← List.singleton_append, ← List.append_assoc] at hne
    rw [linesFrom, if_neg (Ne.symm hc), ih hs hne, List.append_assoc, List.singleton_append]

/-- A line without a line ending of its own. -/
def OneLine (line : List Char) : Prop := '\n' ∉ line ∧ line.getLast? ≠ some '\r'

/-- What is written line by line is read line by line. -/
theorem lines_flatMap {outs : List (List Char)} (h : ∀ out ∈ outs, OneLine out) :
    lines (outs.flatMap (· ++ ['\n'])) = outs := by
  rw [lines]
  induction outs with
  | nil => rfl
  | cons out outs ih =>
    obtain ⟨⟨hnewline, hreturn⟩, houts⟩ := List.forall_mem_cons.mp h
    rw [List.flatMap_cons, List.append_assoc, List.singleton_append, linesFrom_newline hnewline,
      List.nil_append, ih houts, stripCarriageReturn, if_neg hreturn]

theorem not_isWhitespace {c : Char}
    (h : c.isAlphanum = true ∨ c = '_' ∨ c = ':' ∨ c = '+' ∨ c = '-' ∨ c = '.') :
    isWhitespace c = false := by
  rcases h with h | rfl | rfl | rfl | rfl | rfl
  · simp only [Char.isAlphanum, Char.isAlpha, Char.isUpper, Char.isLower, Char.isDigit, ge_iff_le,
      Bool.or_eq_true, Bool.and_eq_true, decide_eq_true_eq, UInt32.le_iff_toNat_le] at h
    have hrange : 33 ≤ c.toNat ∧ c.toNat < 127 := by
      have htoNat : c.toNat = c.val.toNat := rfl
      simp at h
      omega
    simp only [isWhitespace, Bool.or_eq_false_iff, Bool.and_eq_false_iff, decide_eq_false_iff_not]
    omega
  all_goals decide

theorem isNameStart_spec {c : Char} (h : isNameStart c = true) : isWhitespace c = false ∧ c ≠ '#' := by
  constructor
  · simp only [isNameStart, Bool.or_eq_true, decide_eq_true_eq] at h
    apply not_isWhitespace
    simp only [Char.isAlphanum, Bool.or_eq_true]
    tauto
  · rintro rfl
    cases h

theorem isNumeralChar_spec {c : Char} (h : isNumeralChar c = true) : isWhitespace c = false := by
  simp only [isNumeralChar, Bool.or_eq_true, decide_eq_true_eq] at h
  apply not_isWhitespace
  tauto

section Valid

variable {isFloat isInteger : List Char → Bool} {line : List Char} {sample : Sample}

theorem parseTrimmed_start {t : List Char} (h : parseTrimmed isFloat isInteger t = some sample) :
    t ≠ [] ∧ t.head? ≠ some '#' ∧ Ends isWhitespace t := by
  obtain ⟨blanks, body, hhead, -⟩ := exists_head h
  obtain ⟨c, hc, hname⟩ := hhead.isName.exists_head (blanks ++ body)
  rw [← hhead.eq] at hc
  obtain ⟨hwhitespace, hcomment⟩ := isNameStart_spec hname
  refine ⟨?_, ?_, ?_⟩
  · rintro rfl
    cases hc
  · rw [hc]
    exact fun heq => hcomment (Option.some_inj.mp heq)
  · intro d hd
    rw [hc] at hd
    cases hd
    exact hwhitespace

theorem parseTrimmed_end {t : List Char} (h : parseTrimmed isFloat isInteger t = some sample)
    (hend : Ends isBlank t.reverse) : Ends isWhitespace t.reverse := by
  obtain ⟨before, rest, rfl, -, htail⟩ := exists_tail h
  have hrest : rest ≠ [] := by
    rintro rfl
    rw [parseTail_nil] at htail
    cases htail
  rw [ends_reverse_append hrest] at hend ⊢
  intro c hc
  have hmem : c ∈ rest := List.mem_reverse.mp (List.mem_of_mem_head? hc)
  refine isNumeralChar_spec ((mem_of_parseTail htail c hmem).resolve_left ?_)
  rw [hend c hc]
  exact Bool.false_ne_true

theorem newline_notMem_of_parseTrimmed {t : List Char}
    (h : parseTrimmed isFloat isInteger t = some sample) : '\n' ∉ t := by
  obtain ⟨before, rest, rfl, hbefore, htail⟩ := exists_tail h
  intro hmem
  rcases List.mem_append.mp hmem with hmem | hmem
  · exact hbefore hmem
  · rcases mem_of_parseTail htail _ hmem with hblank | hnumeral
    · cases hblank
    · cases hnumeral

theorem isBlank_spec {c : Char} (h : isBlank c = true) :
    isWhitespace c = true ∧ c ≠ '\n' ∧ c ≠ '\r' := by
  simp only [isBlank, Bool.or_eq_true, decide_eq_true_eq] at h
  rcases h with rfl | rfl <;> decide

theorem trim_eq_trimBlanks (h : parse isFloat isInteger line = some sample) :
    trim line = trimBlanks line := by
  rw [parse, trimBlanks] at h
  obtain ⟨before, after, heq, hbefore, hafter, -, hend⟩ := exists_strip isBlank line
  obtain ⟨hne, -, hstart⟩ := parseTrimmed_start h
  rw [trim, trimBlanks]
  nth_rewrite 1 [heq]
  exact strip_eq (fun c hc => (isBlank_spec (hbefore c hc)).1)
    (fun c hc => (isBlank_spec (hafter c hc)).1) hne hstart (parseTrimmed_end h hend)

theorem oneLine_of_parse (h : parse isFloat isInteger line = some sample) : OneLine line := by
  rw [parse, trimBlanks] at h
  obtain ⟨before, after, heq, hbefore, hafter, -, hend⟩ := exists_strip isBlank line
  generalize strip isBlank line = t at *
  constructor
  · rw [heq, List.mem_append, List.mem_append]
    rintro (hmem | hmem | hmem)
    · exact (isBlank_spec (hbefore _ hmem)).2.1 rfl
    · exact newline_notMem_of_parseTrimmed h hmem
    · exact (isBlank_spec (hafter _ hmem)).2.1 rfl
  · -- the last character is a blank or the last one of the numeral
    intro hlast
    rw [heq, List.getLast?_append, List.getLast?_append] at hlast
    cases hafter' : after.getLast? with
    | some c =>
      rw [hafter', Option.some_or, Option.some_or] at hlast
      cases hlast
      exact (isBlank_spec (hafter _ (List.mem_of_getLast? hafter'))).2.2 rfl
    | none =>
      rw [hafter', Option.none_or] at hlast
      have hwhitespace := parseTrimmed_end h hend
      cases ht : t.getLast? with
      | none => exact (parseTrimmed_start h).1 (List.getLast?_eq_none_iff.mp ht)
      | some c =>
        rw [ht, Option.some_or] at hlast
        cases hlast
        cases hwhitespace _ (List.head?_reverse.trans ht)

/-- Lines without a sample. -/
def Skipped (line : List Char) : Prop := trim line = [] ∨ (trim line).head? = some '#'

instance (line : List Char) : Decidable (Skipped line) := inferInstanceAs (Decidable (_ ∨ _))

theorem not_skipped (h : parse isFloat isInteger line = some sample) : ¬Skipped line := by
  rw [Skipped, trim_eq_trimBlanks h]
  obtain ⟨hne, hcomment, -⟩ := parseTrimmed_start h
  exact not_or.mpr ⟨hne, hcomment⟩

theorem relabelLine_eq (h : ¬Skipped line) (extra : ExtraLabels) :
    relabelLine extra line = insertLabels extra (trim line) := if_neg h

theorem appendExtraLabels_eq (h : parse isFloat isInteger line = some sample) (extra : ExtraLabels) :
    appendExtraLabels line extra = relabelLine extra line := by
  have hlines : lines line = [line] := by
    refine linesFrom_eq (oneLine_of_parse h).1 fun hnil => not_skipped h (.inl ?_)
    rw [show line = [] from hnil]
    rfl
  rw [appendExtraLabels, hlines, List.flatMap_singleton]

/-! ## Relabelling -/

variable (isFloat isInteger) in
/-- The output is one line, and it reads as the sample with the extra labels. -/
def Relabelled (extra : ExtraLabels) (sample : Sample) (output : List Char) : Prop :=
  output.getLast? = some '\n' ∧
    parse isFloat isInteger output.dropLast = some (extra.relabel sample)

instance (extra : ExtraLabels) (sample : Sample) (output : List Char) :
    Decidable (Relabelled isFloat isInteger extra sample output) := inferInstanceAs (Decidable (_ ∧ _))

/-- The lines that `insertion` understands, without the blanks around them. -/
inductive Insertable (name : List Char) : List Char → Prop where
  /-- The name and the value are separated by a space, with nothing but tabs before it. -/
  | unlabelled {tabs after : List Char} (htabs : ∀ c ∈ tabs, c = '\t') (hbrace : '{' ∉ after) :
      Insertable name (name ++ (tabs ++ ' ' :: after))
  /-- There is no space in front of the label list, but one behind, and the list has a label and no
  comma at its end. -/
  | labelled {tabs list rest : List Char} (htabs : ∀ c ∈ tabs, c = '\t')
      (hspace : ' ' ∈ list ++ '}' :: rest) (hrest : '}' ∉ rest) (hquote : lastMark list = some '"') :
      Insertable name (name ++ (tabs ++ '{' :: (list ++ '}' :: rest)))

theorem relabelled_concat {extra : ExtraLabels} {out : List Char} :
    Relabelled isFloat isInteger extra sample (out ++ ['\n']) ↔
      parse isFloat isInteger out = some (extra.relabel sample) := by
  rw [Relabelled, List.getLast?_concat, List.dropLast_concat, and_iff_right rfl]

theorem before_spec {name tabs : List Char} (hname : IsName name) (htabs : ∀ c ∈ tabs, c = '\t') :
    ' ' ∉ name ++ tabs ∧ '{' ∉ name ++ tabs := by
  constructor <;> intro hmem <;> rcases List.mem_append.mp hmem with hmem | hmem
  · cases hname.2 _ hmem
  · cases htabs _ hmem
  · cases hname.2 _ hmem
  · cases htabs _ hmem

theorem head_braces {name tabs : List Char} (hname : IsName name) (htabs : ∀ c ∈ tabs, c = '\t')
    (cs : List Char) : Head (name ++ (tabs ++ '{' :: cs)) name tabs ('{' :: cs) where
  eq := rfl
  isName := hname
  isBlank c hc := by
    rw [htabs c hc]
    rfl
  name_ends := by
    cases tabs with
    | nil => exact ends_cons.mpr rfl
    | cons c tabs =>
      rw [htabs c List.mem_cons_self]
      exact ends_cons.mpr rfl
  blanks_end := ends_cons.mpr rfl

theorem notMem_of_parseTail {rest : List Char} {result : List Char × Option (List Char)}
    (h : parseTail isFloat isInteger rest = some result) : '"' ∉ rest ∧ '{' ∉ rest ∧ '}' ∉ rest := by
  refine ⟨?_, ?_, ?_⟩ <;> intro hmem <;> rcases mem_of_parseTail h _ hmem with hc | hc <;> cases hc

/-- What is inserted in front of the end does not change it. -/
theorem ends_of_suffix {line' rest : List Char} (hend : Ends isBlank line.reverse) (hrest : rest ≠ [])
    (hline : rest <:+ line) (hline' : rest <:+ line') : Ends isBlank line'.reverse := by
  obtain ⟨before, rfl⟩ := hline
  obtain ⟨before', rfl⟩ := hline'
  rw [ends_reverse_append hrest] at hend ⊢
  exact hend

theorem parse_unlabelled {tabs after : List Char} (htabs : ∀ c ∈ tabs, c = '\t')
    (h : parseTrimmed isFloat isInteger (sample.name ++ (tabs ++ ' ' :: after)) = some sample)
    (hbrace : '{' ∉ after) : sample.labels = [] ∧
      parseTail isFloat isInteger (' ' :: after) = some (sample.value, sample.timestamp) := by
  obtain ⟨blanks, body, hhead, hbody⟩ := exists_head h
  have hsplit : tabs ++ ' ' :: after = blanks ++ body := List.append_cancel_left hhead.eq
  have hbody' : ∀ cs, body ≠ '{' :: cs := by
    rintro cs rfl
    have hmem : '{' ∈ tabs ++ ' ' :: after := by
      rw [hsplit]
      simp
    rcases List.mem_append.mp hmem with hmem | hmem
    · cases htabs _ hmem
    · exact hbrace ((List.mem_cons.mp hmem).resolve_left (by decide))
  obtain ⟨_, hlabels, htail⟩ := (parseBody_eq_some hbody').mp hbody
  have htabs' : ∀ c ∈ tabs, isBlank c = true := by
    intro c hc
    rw [htabs c hc]
    rfl
  refine ⟨hlabels, ?_⟩
  rw [← htail, ← parseTail_blanks hhead.isBlank body, ← hsplit, parseTail_blanks htabs']

theorem relabelled_unlabelled {tabs after : List Char} (htabs : ∀ c ∈ tabs, c = '\t')
    (h : parseTrimmed isFloat isInteger (sample.name ++ (tabs ++ ' ' :: after)) = some sample)
    (hend : Ends isBlank (sample.name ++ (tabs ++ ' ' :: after)).reverse) (extra : ExtraLabels) :
    Relabelled isFloat isInteger extra sample
        (insertLabels extra (sample.name ++ (tabs ++ ' ' :: after))) ↔
      (∀ c ∈ extra.operator.str.toList, Plain c) ∧ '{' ∉ after := by
  obtain ⟨_, _, ⟨_, hname, -, -, -⟩, -⟩ := exists_head h
  obtain ⟨hspace, hbrace⟩ := before_spec hname htabs
  have hhead := head_braces hname htabs (extra.display ++ '}' :: ' ' :: after)
  have hend' : Ends isBlank
      (sample.name ++ (tabs ++ '{' :: (extra.display ++ '}' :: ' ' :: after))).reverse :=
    ends_of_suffix hend (List.cons_ne_nil ' ' after) ⟨sample.name ++ tabs, by simp⟩
      ⟨sample.name ++ (tabs ++ '{' :: (extra.display ++ ['}'])), by simp⟩
  rw [← List.append_assoc, insertLabels_unlabelled extra hspace hbrace, relabelled_concat,
    List.append_assoc, hhead.parse_eq hend', parseBody_brace_eq_some]
  constructor
  · rintro ⟨-, rest, hread, htail⟩
    obtain ⟨hquote, hafter, -⟩ := notMem_of_parseTail htail
    obtain ⟨rfl, hplain⟩ := extra.of_readLabels_display rfl hread hquote
    have hafter' : '{' ∉ after := fun hmem => hafter (List.mem_cons_of_mem _ hmem)
    refine ⟨hplain ?_, hafter'⟩
    rw [ExtraLabels.labels_relabel, (parse_unlabelled htabs h hafter').1]
  · rintro ⟨hplain, hafter⟩
    obtain ⟨hlabels, htail⟩ := parse_unlabelled htabs h hafter
    refine ⟨rfl, _, ?_, htail⟩
    rw [extra.readLabels_display rfl hplain, ExtraLabels.labels_relabel, hlabels]

theorem parse_labelled {tabs list rest : List Char} (hname : IsName sample.name)
    (htabs : ∀ c ∈ tabs, c = '\t') (hrest : '}' ∉ rest)
    (h : parseTrimmed isFloat isInteger (sample.name ++ (tabs ++ '{' :: (list ++ '}' :: rest))) =
      some sample) :
    ∃ r, run {} list = some r ∧ r.AtEnd ∧ r.labels = sample.labels ∧
      parseTail isFloat isInteger rest = some (sample.value, sample.timestamp) := by
  rw [(head_braces hname htabs _).parseTrimmed_eq, parseBody_brace_eq_some] at h
  obtain ⟨-, rest', hread, htail⟩ := h
  obtain ⟨list', r, hsplit, hrun, hend, hlabels⟩ := exists_of_readLabels hread
  -- the last closing brace is where the list ends
  have hlength : list.length = list'.length := by
    have hfind := rfind_eq hrest list
    rw [hsplit, rfind_eq (notMem_of_parseTail htail).2.2] at hfind
    exact (Option.some_inj.mp hfind).symm
  obtain ⟨rfl, hrest'⟩ := List.append_inj hsplit hlength
  cases hrest'
  exact ⟨r, hrun, hend, hlabels, htail⟩

theorem relabelled_labelled {tabs list rest : List Char} (htabs : ∀ c ∈ tabs, c = '\t')
    (hspace : ' ' ∈ list ++ '}' :: rest) (hrest : '}' ∉ rest)
    (h : parseTrimmed isFloat isInteger (sample.name ++ (tabs ++ '{' :: (list ++ '}' :: rest))) =
      some sample)
    (hend : Ends isBlank (sample.name ++ (tabs ++ '{' :: (list ++ '}' :: rest))).reverse)
    (extra : ExtraLabels) :
    Relabelled isFloat isInteger extra sample
        (insertLabels extra (sample.name ++ (tabs ++ '{' :: (list ++ '}' :: rest)))) ↔
      (∀ c ∈ extra.operator.str.toList, Plain c) ∧ lastMark list = some '"' := by
  obtain ⟨_, _, ⟨_, hname, -, -, -⟩, -⟩ := exists_head h
  obtain ⟨hspace', hbrace⟩ := before_spec hname htabs
  obtain ⟨r, hrun, hatEnd, hlabels, htail⟩ := parse_labelled hname htabs hrest h
  have hhead := head_braces hname htabs (list ++ ',' :: (extra.display ++ '}' :: rest))
  have hend' : Ends isBlank
      (sample.name ++ (tabs ++ '{' :: (list ++ ',' :: (extra.display ++ '}' :: rest)))).reverse :=
    ends_of_suffix hend (List.cons_ne_nil '}' rest) ⟨sample.name ++ (tabs ++ '{' :: list), by simp⟩
      ⟨sample.name ++ (tabs ++ '{' :: (list ++ ',' :: extra.display)), by simp⟩
  rw [← List.append_assoc, insertLabels_labelled extra hspace' hbrace hspace hrest, relabelled_concat,
    List.append_assoc, hhead.parse_eq hend', parseBody_brace_eq_some, readLabels_run hrun,
    lastMark_eq_quote_iff hrun hatEnd]
  constructor
  · rintro ⟨-, rest', hread, htail'⟩
    obtain ⟨r₁, hstep, hread⟩ := exists_of_readLabels_cons (by decide) hread
    obtain ⟨hphase, rfl⟩ := (step_comma_eq_some hatEnd).mp hstep
    refine ⟨(extra.of_readLabels_display rfl hread (notMem_of_parseTail htail').1).2 ?_, hphase⟩
    rw [ExtraLabels.labels_relabel, hlabels]
  · rintro ⟨hplain, hphase⟩
    refine ⟨rfl, rest, ?_, htail⟩
    have hstep := (step_comma_eq_some hatEnd).mpr ⟨hphase, rfl⟩
    rw [← List.singleton_append, readLabels_run (by rw [run_cons, hstep]; rfl),
      extra.readLabels_display rfl hplain, ExtraLabels.labels_relabel, hlabels]

/-- With tabs behind the name, the first space is not the one in front of the value. -/
theorem not_relabelled_tabs {blanks body : List Char} (htabs : ∀ c ∈ blanks, c = '\t')
    (hhead : Head line sample.name blanks body) (hbody : ∀ cs, body ≠ '{' :: cs)
    (h : parseBody isFloat isInteger sample.name body = some sample)
    (hend : Ends isBlank line.reverse) (extra : ExtraLabels) :
    ¬Relabelled isFloat isInteger extra sample (insertLabels extra line) := by
  obtain ⟨-, -, htail⟩ := (parseBody_eq_some hbody).mp h
  obtain ⟨hspace, hbrace⟩ := before_spec hhead.isName htabs
  obtain ⟨rfl, hname, hblanks, hname_ends, hblanks_end⟩ := hhead
  by_cases hmem : ' ' ∈ body
  · obtain ⟨value, after, rfl, hvalue⟩ := List.eq_append_cons_of_mem hmem
    have hne : value ≠ [] := by
      rintro rfl
      cases ends_cons.mp hblanks_end
    have hbrace' : '{' ∉ value := fun hmem =>
      (notMem_of_parseTail htail).2.1 (List.mem_append_left _ hmem)
    have hsplit : sample.name ++ (blanks ++ (value ++ ' ' :: after)) =
        (sample.name ++ (blanks ++ value)) ++ ' ' :: after := by simp
    have hhead' : Head
        (sample.name ++ (blanks ++ value) ++ '{' :: (extra.display ++ '}' :: ' ' :: after))
        sample.name blanks (value ++ '{' :: (extra.display ++ '}' :: ' ' :: after)) := by
      refine ⟨by simp, hname, hblanks, ?_, ?_⟩
      · have hne' : blanks ++ value ≠ [] := List.append_ne_nil_of_right_ne_nil _ hne
        rw [← List.append_assoc, ends_append hne'] at hname_ends ⊢
        exact hname_ends
      · rw [ends_append hne] at hblanks_end ⊢
        exact hblanks_end
    have hend' : Ends isBlank (sample.name ++ (blanks ++ value) ++
        '{' :: (extra.display ++ '}' :: ' ' :: after)).reverse :=
      ends_of_suffix hend (List.cons_ne_nil ' ' after) ⟨_, hsplit.symm⟩
        ⟨sample.name ++ (blanks ++ value) ++ '{' :: (extra.display ++ ['}']), by simp⟩
    have hbody' : ∀ cs, value ++ '{' :: (extra.display ++ '}' :: ' ' :: after) ≠ '{' :: cs := by
      intro cs heq
      cases value with
      | nil => exact hne rfl
      | cons c value =>
        cases heq
        exact hbrace' List.mem_cons_self
    have hword : ' ' ∉ sample.name ++ (blanks ++ value) ∧ '{' ∉ sample.name ++ (blanks ++ value) := by
      rw [← List.append_assoc]
      exact ⟨List.not_mem_append hspace hvalue, List.not_mem_append hbrace hbrace'⟩
    rw [hsplit, insertLabels_unlabelled extra hword.1 hword.2, relabelled_concat,
      hhead'.parse_eq hend', parseBody_eq_some hbody']
    rintro ⟨-, -, htail'⟩
    exact (notMem_of_parseTail htail').2.1 (by simp)
  · have hnot : ' ' ∉ sample.name ++ (blanks ++ body) := by
      rw [← List.append_assoc]
      exact List.not_mem_append hspace hmem
    rw [insertLabels_dropped extra hnot]
    rintro ⟨hlast, -⟩
    cases hlast

theorem eq_tab_of_isBlank {blanks : List Char} (hblanks : ∀ c ∈ blanks, isBlank c = true)
    (hspace : ' ' ∉ blanks) : ∀ c ∈ blanks, c = '\t' := by
  intro c hc
  have hblank := hblanks c hc
  simp only [isBlank, Bool.or_eq_true, decide_eq_true_eq] at hblank
  rcases hblank with rfl | rfl
  · exact absurd hc hspace
  · rfl

theorem insertable_of_relabelled (h : parseTrimmed isFloat isInteger line = some sample)
    (hend : Ends isBlank line.reverse) {extra : ExtraLabels}
    (hrelabelled : Relabelled isFloat isInteger extra sample (insertLabels extra line)) :
    (∀ c ∈ extra.operator.str.toList, Plain c) ∧ Insertable sample.name line := by
  obtain ⟨blanks, body, hhead, hbody⟩ := exists_head h
  by_cases hspace : ' ' ∈ blanks
  · obtain ⟨tabs, more, rfl, hnot⟩ := List.eq_append_cons_of_mem hspace
    have htabs := eq_tab_of_isBlank (fun c hc => hhead.isBlank c (List.mem_append_left _ hc)) hnot
    have hline := hhead.eq
    rw [List.append_assoc, List.cons_append] at hline
    subst hline
    obtain ⟨hplain, hafter⟩ := (relabelled_unlabelled htabs h hend extra).mp hrelabelled
    exact ⟨hplain, .unlabelled htabs hafter⟩
  · have htabs := eq_tab_of_isBlank hhead.isBlank hspace
    by_cases hbrace : ∃ cs, body = '{' :: cs
    · obtain ⟨cs, rfl⟩ := hbrace
      obtain ⟨-, rest, hread, htail⟩ := parseBody_brace_eq_some.mp hbody
      obtain ⟨list, _, rfl, -⟩ := exists_of_readLabels hread
      have hrest := (notMem_of_parseTail htail).2.2
      obtain rfl := hhead.eq
      by_cases hmem : ' ' ∈ list ++ '}' :: rest
      · obtain ⟨hplain, hquote⟩ := (relabelled_labelled htabs hmem hrest h hend extra).mp hrelabelled
        exact ⟨hplain, .labelled htabs hmem hrest hquote⟩
      · have hnot : ' ' ∉ sample.name ++ (blanks ++ '{' :: (list ++ '}' :: rest)) := by
          rw [← List.append_assoc, List.mem_append, List.mem_cons]
          exact not_or.mpr ⟨(before_spec hhead.isName htabs).1, not_or.mpr ⟨by decide, hmem⟩⟩
        rw [insertLabels_dropped extra hnot] at hrelabelled
        cases hrelabelled.1
    · refine absurd hrelabelled (not_relabelled_tabs htabs hhead ?_ hbody hend extra)
      exact fun cs hcs => hbrace ⟨cs, hcs⟩

theorem relabelled_relabelLine (h : parse isFloat isInteger line = some sample) (extra : ExtraLabels) :
    Relabelled isFloat isInteger extra sample (relabelLine extra line) ↔
      (∀ c ∈ extra.operator.str.toList, Plain c) ∧ Insertable sample.name (trim line) := by
  rw [relabelLine_eq (not_skipped h), trim_eq_trimBlanks h]
  obtain ⟨-, -, -, -, -, -, hend⟩ := exists_strip isBlank line
  rw [parse, trimBlanks] at h
  rw [trimBlanks]
  generalize strip isBlank line = t at h hend
  constructor
  · exact insertable_of_relabelled h hend
  · rintro ⟨hplain, hinsertable⟩
    generalize hname : sample.name = name at hinsertable
    cases hinsertable with
    | unlabelled htabs hbrace =>
      subst hname
      exact (relabelled_unlabelled htabs h hend extra).mpr ⟨hplain, hbrace⟩
    | labelled htabs hspace hrest hquote =>
      subst hname
      exact (relabelled_labelled htabs hspace hrest h hend extra).mpr ⟨hplain, hquote⟩

/-- The lines and the names that relabelling keeps the meaning of. -/
theorem relabelled_iff (h : parse isFloat isInteger line = some sample) (extra : ExtraLabels) :
    Relabelled isFloat isInteger extra sample (appendExtraLabels line extra) ↔
      (∀ c ∈ extra.operator.str.toList, Plain c) ∧ Insertable sample.name (trim line) := by
  rw [appendExtraLabels_eq h, relabelled_relabelLine h]

/-- The lines that are written, one for each sample. -/
theorem exists_written {extra : ExtraLabels} (hplain : ∀ c ∈ extra.operator.str.toList, Plain c)
    {ls : List (List Char)} (h : ∀ line ∈ ls, ¬Skipped line →
      ∃ sample, parse isFloat isInteger line = some sample ∧ Insertable sample.name (trim line)) :
    ∃ outs : List (List Char), ls.flatMap (relabelLine extra) = outs.flatMap (· ++ ['\n']) ∧
      (∀ out ∈ outs, OneLine out) ∧
      outs.map (parse isFloat isInteger) =
        (ls.filter (¬Skipped ·)).map fun line => (parse isFloat isInteger line).map extra.relabel := by
  induction ls with
  | nil => exact ⟨[], rfl, fun _ hout => absurd hout List.not_mem_nil, rfl⟩
  | cons line ls ih =>
    obtain ⟨hline, hls⟩ := List.forall_mem_cons.mp h
    obtain ⟨outs, hwritten, honeLine, hparse⟩ := ih hls
    by_cases hskipped : Skipped line
    · refine ⟨outs, ?_, honeLine, ?_⟩
      · rw [List.flatMap_cons, relabelLine, hwritten]
        exact congrArg (· ++ _) (if_pos hskipped)
      · rw [List.filter_cons_of_neg (by simpa using hskipped), hparse]
    · obtain ⟨sample, hsample, hinsertable⟩ := hline hskipped
      obtain ⟨hnewline, hread⟩ := (relabelled_relabelLine hsample extra).mpr ⟨hplain, hinsertable⟩
      refine ⟨(relabelLine extra line).dropLast :: outs, ?_, ?_, ?_⟩
      · rw [List.flatMap_cons, List.flatMap_cons, hwritten, List.dropLast_append_getLast? _ hnewline]
      · exact List.forall_mem_cons.mpr ⟨oneLine_of_parse hread, honeLine⟩
      · rw [List.filter_cons_of_pos (by simpa using hskipped), List.map_cons, List.map_cons, hparse,
          hread, hsample, Option.map_some]

/-- Relabelling a text whose lines are all understood relabels its samples. -/
theorem parse_appendExtraLabels {extra : ExtraLabels} {metrics : List Char}
    (hplain : ∀ c ∈ extra.operator.str.toList, Plain c)
    (h : ∀ line ∈ lines metrics, ¬Skipped line →
      ∃ sample, parse isFloat isInteger line = some sample ∧ Insertable sample.name (trim line)) :
    (lines (appendExtraLabels metrics extra)).map (parse isFloat isInteger) =
      ((lines metrics).filter (¬Skipped ·)).map fun line =>
        (parse isFloat isInteger line).map extra.relabel := by
  obtain ⟨outs, hwritten, honeLine, hparse⟩ := exists_written hplain h
  rw [appendExtraLabels, hwritten, lines_flatMap honeLine, hparse]

end Valid

theorem relabelled_iff_oneLabel :
    parse (·.all Char.isDigit) (·.all Char.isDigit) ['m', '{', 'a', '=', '"', ' ', '"', '}', ' ', '1'] =
        some ⟨['m'], [(['a'], [' '])], ['1'], none⟩ ∧
      Relabelled (·.all Char.isDigit) (·.all Char.isDigit) ⟨⟨"wcn"⟩, .node 0⟩
        ⟨['m'], [(['a'], [' '])], ['1'], none⟩
        (appendExtraLabels ['m', '{', 'a', '=', '"', ' ', '"', '}', ' ', '1'] ⟨⟨"wcn"⟩, .node 0⟩) :=
  ⟨by decide +kernel, (relabelled_iff (by decide +kernel) _).mpr ⟨by simp [Plain],
    @Insertable.labelled ['m'] [] ['a', '=', '"', ' ', '"'] [' ', '1'] (by simp) (by decide) (by decide)
      (by decide)⟩⟩

/-- A label list without labels, and a name with a quote. -/
theorem not_relabelled_emptyList :
    parse (·.all Char.isDigit) (·.all Char.isDigit) ['m', '{', '}', ' ', '1'] =
        some ⟨['m'], [], ['1'], none⟩ ∧
      Name.new "wcn" = some ⟨"wcn"⟩ ∧
      appendExtraLabels ['m', '{', '}', ' ', '1'] ⟨⟨"wcn"⟩, .database⟩ =
        ['m', '{', ','] ++ "operator=\"wcn\",service_kind=\"db\"".toList ++ ['}', ' ', '1', '\n'] ∧
      ¬Relabelled (·.all Char.isDigit) (·.all Char.isDigit) ⟨⟨"wcn"⟩, .database⟩
        ⟨['m'], [], ['1'], none⟩ (appendExtraLabels ['m', '{', '}', ' ', '1'] ⟨⟨"wcn"⟩, .database⟩) ∧
      parse (·.all Char.isDigit) (·.all Char.isDigit) ['m', ' ', '1'] =
        some ⟨['m'], [], ['1'], none⟩ ∧
      Name.new "w\"n" = some ⟨"w\"n"⟩ ∧
      ¬Relabelled (·.all Char.isDigit) (·.all Char.isDigit) ⟨⟨"w\"n"⟩, .database⟩
        ⟨['m'], [], ['1'], none⟩ (appendExtraLabels ['m', ' ', '1'] ⟨⟨"w\"n"⟩, .database⟩) := by
  decide +kernel

end Metrics
end Wcn
