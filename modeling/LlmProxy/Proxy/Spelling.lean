import LlmProxy.Proxy.LastUsage
import LlmProxy.Worker.Attempt
import Mathlib.Data.List.Forall2

/-! Two spellings of one event stream.  The format lets a line end with a line feed or with a
carriage return and a line feed, and reads `data: X` and `data:X` alike; `ForwardStream` counts only
the lines that have the space. -/

namespace LlmProxy.Proxy

open ProofKit Worker Program

/-! ### Spellings -/

def spaced (x : Bytes) : Bytes := asciiBytes "data: " ++ x

def unspaced (x : Bytes) : Bytes := asciiBytes "data:" ++ x

/-- The line sets the field `data` to a value that can be written with the space and without it. -/
def IsData (x line : Bytes) : Prop := x.head? ≠ some 32 ∧ (line = spaced x ∨ line = unspaced x)

/-- The value of a line of either spelling. -/
def dataValue? (line : Bytes) : Option Bytes :=
  if (asciiBytes "data:").isPrefixOf line then
    let rest := line.drop 5
    let x := if rest.head? = some 32 then rest.tail else rest
    if x.head? = some 32 then none else some x
  else none

/-- The lines are equal, or the two spellings of one value. -/
def SameLine (line line' : Bytes) : Prop := line = line' ∨ ∃ x, IsData x line ∧ IsData x line'

/-- What is between the text of a line and its line feed. -/
inductive LineEnd
  | lf
  | crlf

def LineEnd.bytes : LineEnd → Bytes
  | lf => []
  | crlf => [carriageReturn]

/-- The second stream is the first one with other spellings of its data lines and other line ends.
A carriage return at the end of the text itself would be taken for a part of the line end, so the
line end of such a text stays as it is. -/
inductive Respells : Bytes → Bytes → Prop
  | last {text text' : Bytes} (hline : newline ∉ text) (h : SameLine text text') :
      Respells text text'
  | line {text text' body body' : Bytes} {ending ending' : LineEnd} (hline : newline ∉ text)
      (h : SameLine text text') (hend : ending = ending' ∨ text.getLast? ≠ some carriageReturn)
      (hbody : Respells body body') :
      Respells (text ++ ending.bytes ++ newline :: body)
        (text' ++ ending'.bytes ++ newline :: body')

/-- The texts of the lines of a stream. -/
def linesOf (body : Bytes) : List Bytes := (splitLines body).map dropCR

/-! ### The two spellings of a line -/

section Line

variable {x line line' : Bytes}

theorem spaced_eq (x : Bytes) : spaced x = unspaced (32 :: x) := by
  have h : asciiBytes "data: " = asciiBytes "data:" ++ [32] := by decide
  rw [spaced, unspaced, h, List.append_assoc, List.singleton_append]

theorem dataValue?_unspaced (rest : Bytes) :
    dataValue? (unspaced rest) =
      let x := if rest.head? = some 32 then rest.tail else rest
      if x.head? = some 32 then none else some x := by
  have hdrop : (unspaced rest).drop 5 = rest := List.drop_left' (by decide)
  have hdata : (asciiBytes "data:").isPrefixOf (unspaced rest) = true := by simp [unspaced]
  rw [dataValue?, if_pos hdata, hdrop]

theorem dataValue?_eq_some_iff : dataValue? line = some x ↔ IsData x line := by
  constructor
  · intro h
    by_cases hdata : (asciiBytes "data:").isPrefixOf line
    · obtain ⟨rest, rfl⟩ := List.isPrefixOf_iff_prefix.mp hdata
      have hvalue := (dataValue?_unspaced rest).symm.trans h
      obtain ⟨hhead, hx⟩ := Option.ite_none_left_eq_some.mp hvalue
      obtain rfl := Option.some.inj hx
      refine ⟨hhead, ?_⟩
      by_cases hspace : rest.head? = some 32
      · obtain ⟨rest, rfl⟩ := List.head?_eq_some_iff.mp hspace
        exact .inl (spaced_eq rest).symm
      · rw [if_neg hspace]
        exact .inr rfl
    · rw [dataValue?, if_neg hdata] at h
      cases h
  · rintro ⟨hhead, rfl | rfl⟩
    · simp [spaced_eq, dataValue?_unspaced, hhead]
    · simp [dataValue?_unspaced, hhead]

theorem fixed_or_data (line : Bytes) : dataValue? line = none ∨ ∃ x, IsData x line := by
  cases h : dataValue? line with
  | none => exact .inl rfl
  | some x => exact .inr ⟨x, dataValue?_eq_some_iff.mp h⟩

theorem SameLine.cases (h : SameLine line line') :
    dataValue? line = none ∧ line' = line ∨
      ∃ x, IsData x line ∧ (line' = spaced x ∨ line' = unspaced x) := by
  obtain rfl | ⟨x, hx, hx'⟩ := h
  · exact (fixed_or_data line).imp (⟨·, rfl⟩) fun ⟨x, hx⟩ => ⟨x, hx, hx.2⟩
  · exact .inr ⟨x, hx, hx'.2⟩

/-- What the two spellings put before the value. -/
def fieldNames : List Bytes := [asciiBytes "data: ", asciiBytes "data:"]

theorem fieldNames_plain : ∀ name ∈ fieldNames,
    name ≠ [] ∧ newline ∉ name ∧ name.getLast? ≠ some carriageReturn := by decide

theorem isData_iff : IsData x line ↔ x.head? ≠ some 32 ∧ ∃ name ∈ fieldNames, line = name ++ x := by
  simp [IsData, fieldNames, spaced, unspaced]

theorem SameLine.split (h : SameLine line line') : line = line' ∨ ∃ name ∈ fieldNames,
    ∃ name' ∈ fieldNames, ∃ x, x.head? ≠ some 32 ∧ line = name ++ x ∧ line' = name' ++ x := by
  obtain rfl | ⟨x, hx, hx'⟩ := h
  · exact .inl rfl
  · obtain ⟨hhead, name, hname, rfl⟩ := isData_iff.mp hx
    obtain ⟨-, name', hname', rfl⟩ := isData_iff.mp hx'
    exact .inr ⟨name, hname, name', hname', x, hhead, rfl, rfl⟩

theorem sameLine_of_names {name name' : Bytes} (hname : name ∈ fieldNames)
    (hname' : name' ∈ fieldNames) (hx : x.head? ≠ some 32) : SameLine (name ++ x) (name' ++ x) :=
  .inr ⟨x, isData_iff.mpr ⟨hx, name, hname, rfl⟩, isData_iff.mpr ⟨hx, name', hname', rfl⟩⟩

theorem dropCR_append {before : Bytes} (h : before.getLast? ≠ some carriageReturn) (line : Bytes) :
    dropCR (before ++ line) = before ++ dropCR line := by
  by_cases hline : line = []
  · subst hline
    rw [List.append_nil, dropCR_eq_self.mpr h]
    exact (List.append_nil before).symm
  · unfold dropCR
    rw [List.getLast?_append_of_ne_nil _ hline, List.dropLast_append_of_ne_nil hline]
    split <;> rfl

theorem dropCR_concat (line : Bytes) : dropCR (line ++ [carriageReturn]) = line := by
  simp [dropCR, carriageReturn]

theorem head?_dropCR {c : UInt8} (h : (dropCR line).head? = some c) : line.head? = some c := by
  unfold dropCR at h
  split at h
  · obtain ⟨rest, hrest⟩ := List.head?_eq_some_iff.mp h
    obtain ⟨last, hlast⟩ := List.dropLast_prefix line
    rw [← hlast, hrest]
    rfl
  · exact h

theorem SameLine.dropCR (h : SameLine line line') :
    SameLine (Proxy.dropCR line) (Proxy.dropCR line') := by
  obtain rfl | ⟨name, hname, name', hname', x, hx, rfl, rfl⟩ := h.split
  · exact .inl rfl
  · rw [dropCR_append (fieldNames_plain name hname).2.2,
      dropCR_append (fieldNames_plain name' hname').2.2]
    exact sameLine_of_names hname hname' fun hspace => hx (head?_dropCR hspace)

theorem SameLine.concat (h : SameLine line line') :
    SameLine (line ++ [carriageReturn]) (line' ++ [carriageReturn]) := by
  obtain rfl | ⟨name, hname, name', hname', x, hx, rfl, rfl⟩ := h.split
  · exact .inl rfl
  · have hhead : (x ++ [carriageReturn]).head? ≠ some 32 := by
      cases x with
      | nil => decide
      | cons c x => exact hx
    rw [List.append_assoc, List.append_assoc]
    exact sameLine_of_names hname hname' hhead

/-- The spellings of a line are alike in what matters to the scanner. -/
theorem SameLine.alike (h : SameLine line line') : (newline ∈ line ↔ newline ∈ line') ∧
    (line = [] ↔ line' = []) ∧
    (line.getLast? = some carriageReturn ↔ line'.getLast? = some carriageReturn) := by
  obtain rfl | ⟨name, hname, name', hname', x, -, rfl, rfl⟩ := h.split
  · exact ⟨.rfl, .rfl, .rfl⟩
  · obtain ⟨hne, hline, hlast⟩ := fieldNames_plain name hname
    obtain ⟨hne', hline', hlast'⟩ := fieldNames_plain name' hname'
    simp [hne, hne', hline, hline', List.getLast?_append, Option.or_eq_some_iff, hlast, hlast']

end Line

/-! ### The lines of a stream -/

section Lines

variable {body body' : Bytes}

theorem linesOf_line {text : Bytes} (hline : newline ∉ text) (ending : LineEnd) (body : Bytes) :
    linesOf (text ++ ending.bytes ++ newline :: body) =
      dropCR (text ++ ending.bytes) :: linesOf body := by
  have hraw : newline ∉ text ++ ending.bytes := by
    rw [List.mem_append, not_or]
    exact ⟨hline, by cases ending <;> decide⟩
  rw [linesOf, splitLines_line hraw, List.map_cons]
  rfl

theorem linesOf_last {text : Bytes} (hline : newline ∉ text) :
    linesOf text = if text = [] then [] else [dropCR text] := by
  split
  · next h => rw [h]; rfl
  · next h => rw [linesOf, splitLines_last hline h]; rfl

theorem dropCR_ending {text : Bytes} (h : text.getLast? ≠ some carriageReturn) (ending : LineEnd) :
    dropCR (text ++ ending.bytes) = text := by
  cases ending with
  | lf => rw [LineEnd.bytes, List.append_nil, dropCR_eq_self.mpr h]
  | crlf => exact dropCR_concat text

/-- Other line ends leave the text of a line as it is. -/
theorem SameLine.dropCR_ending {text text' : Bytes} {ending ending' : LineEnd}
    (h : SameLine text text') (hend : ending = ending' ∨ text.getLast? ≠ some carriageReturn) :
    SameLine (Proxy.dropCR (text ++ ending.bytes)) (Proxy.dropCR (text' ++ ending'.bytes)) := by
  rcases hend with rfl | hlast
  · cases ending with
    | lf =>
      rw [LineEnd.bytes, List.append_nil, List.append_nil]
      exact h.dropCR
    | crlf =>
      rw [LineEnd.bytes, dropCR_concat, dropCR_concat]
      exact h
  · rw [Proxy.dropCR_ending hlast, Proxy.dropCR_ending (h.alike.2.2.not.mp hlast)]
    exact h

/-- Line by line, two spellings of a stream have the same texts up to the space. -/
theorem Respells.linesOf (h : Respells body body') :
    List.Forall₂ SameLine (Proxy.linesOf body) (Proxy.linesOf body') := by
  induction h with
  | @last text text' hline h =>
    rw [linesOf_last hline, linesOf_last (h.alike.1.not.mp hline)]
    by_cases hnil : text = []
    · rw [if_pos hnil, if_pos (h.alike.2.1.mp hnil)]
      exact .nil
    · rw [if_neg hnil, if_neg (h.alike.2.1.not.mp hnil)]
      exact .cons h.dropCR .nil
  | line hline h hend hbody ih =>
    rw [linesOf_line hline, linesOf_line (h.alike.1.not.mp hline)]
    exact .cons (h.dropCR_ending hend) ih

/-- The text of a line is respelled with its carriage return left in place. -/
theorem SameLine.exists_raw {line text' : Bytes} (h : SameLine (Proxy.dropCR line) text') :
    ∃ line', SameLine line line' ∧ Proxy.dropCR line' = text' := by
  by_cases hlast : line.getLast? = some carriageReturn
  · obtain ⟨text, rfl⟩ := List.getLast?_eq_some_iff.mp hlast
    rw [dropCR_concat] at h
    exact ⟨text' ++ [carriageReturn], h.concat, dropCR_concat text'⟩
  · rw [dropCR_eq_self.mpr hlast] at h
    exact ⟨text', h, dropCR_eq_self.mpr (h.alike.2.2.not.mp hlast)⟩

/-- A line feed alone ends the line. -/
theorem Respells.feed {line line' rest rest' : Bytes} (hline : newline ∉ line)
    (hsame : SameLine line line') (hrest : Respells rest rest') :
    Respells (line ++ newline :: rest) (line' ++ newline :: rest') := by
  have h := @Respells.line line line' rest rest' .lf .lf hline hsame (.inl rfl) hrest
  have hfeed (line : Bytes) : line ++ LineEnd.lf.bytes = line := List.append_nil line
  rwa [hfeed, hfeed] at h

theorem respells_refl (body : Bytes) : Respells body body := by
  induction body using lines_induction with
  | last line hline => exact .last hline (.inl rfl)
  | line line rest hline ih => exact .feed hline (.inl rfl) ih

/-- The texts of the lines can be respelled one by one. -/
theorem exists_respells {lines : List Bytes} (h : List.Forall₂ SameLine (linesOf body) lines) :
    ∃ body', Respells body body' ∧ linesOf body' = lines := by
  induction body using lines_induction generalizing lines with
  | last line hline =>
    rw [linesOf_last hline] at h
    by_cases hnil : line = []
    · rw [if_pos hnil, List.forall₂_nil_left_iff] at h
      subst hnil h
      exact ⟨[], .last hline (.inl rfl), rfl⟩
    · rw [if_neg hnil, List.forall₂_cons_left_iff] at h
      obtain ⟨text, rest, htext, hrest, rfl⟩ := h
      obtain rfl := List.forall₂_nil_left_iff.mp hrest
      obtain ⟨line', hsame, rfl⟩ := htext.exists_raw
      refine ⟨line', .last hline hsame, ?_⟩
      rw [linesOf_last (hsame.alike.1.not.mp hline), if_neg (hsame.alike.2.1.not.mp hnil)]
  | line line rest hline ih =>
    rw [linesOf, splitLines_line hline, List.map_cons, List.forall₂_cons_left_iff] at h
    obtain ⟨text, texts, htext, htexts, rfl⟩ := h
    obtain ⟨line', hsame, rfl⟩ := htext.exists_raw
    obtain ⟨rest', hrest, rfl⟩ := ih htexts
    refine ⟨line' ++ newline :: rest', .feed hline hsame hrest, ?_⟩
    rw [linesOf, splitLines_line (hsame.alike.1.not.mp hline), List.map_cons]
    rfl

end Lines

/-! ### The report that decides -/

/-- Between these reports, this one is what the counts end with. -/
def Decides (r : Report) (before after : List Report) : Prop :=
  (r.1 = .openAI ∨ before = []) ∧ ∀ r' ∈ after, r'.1 ≠ .openAI

theorem Decides.mono {r : Report} {before before' after after' : List Report}
    (h : Decides r before after) (hbefore : before' ⊆ before) (hafter : after' ⊆ after) :
    Decides r before' after' := by
  refine ⟨h.1.imp_right fun hnil => ?_, fun r' hr' => h.2 r' (hafter hr')⟩
  rw [hnil] at hbefore
  exact List.subset_nil.mp hbefore

theorem filter_openAI_eq_nil {rs : List Report} :
    rs.filter (·.1 = .openAI) = [] ↔ ∀ r ∈ rs, r.1 ≠ .openAI := by
  simp [List.filter_eq_nil_iff]

theorem winner_of_decides {r : Report} {before after : List Report} (h : Decides r before after) :
    winner (before ++ r :: after) = some r := by
  obtain ⟨hr, hafter⟩ := h
  rw [winner, List.filter_append, List.filter_cons, filter_openAI_eq_nil.mpr hafter]
  by_cases hshape : r.1 = .openAI
  · simp [hshape]
  · obtain rfl := hr.resolve_left hshape
    simp [hshape]

theorem exists_decides {rs : List Report} {r : Report} (h : winner rs = some r) :
    ∃ before after, rs = before ++ r :: after ∧ Decides r before after := by
  rw [winner, Option.or_eq_some_iff] at h
  obtain hlast | ⟨hnone, hhead⟩ := h
  · obtain ⟨init, hinit⟩ := List.getLast?_eq_some_iff.mp hlast
    obtain ⟨before, rest, rfl, -, hrest⟩ := List.filter_eq_append_iff.mp hinit
    obtain ⟨skipped, after, rfl, -, hr, hafter⟩ := List.filter_eq_cons_iff.mp hrest
    refine ⟨before ++ skipped, after, by rw [List.append_assoc], .inl (by simpa using hr), ?_⟩
    exact filter_openAI_eq_nil.mp hafter
  · obtain ⟨after, rfl⟩ := List.head?_eq_some_iff.mp hhead
    rw [List.getLast?_eq_none_iff, filter_openAI_eq_nil] at hnone
    exact ⟨[], after, rfl, .inr rfl, fun r' hr' => hnone r' (List.mem_cons_of_mem r hr')⟩

/-! ### Lines that count for nothing -/

/-- The lines that have one spelling only. -/
def fixedLines (lines : List Bytes) : List Bytes := lines.filter fun line =>
    (dataValue? line).isNone

/-- No line that has two spellings carries content, and a report in such a line either does not
decide between the reports of the fixed lines, or has the counts that these lines end with. -/
def Idle (dec : Decoder) (lines : List Bytes) : Prop :=
  ∀ before line after x, lines = before ++ line :: after → IsData x line →
    contentOf dec (spaced x) = "" ∧
    ∀ r, reportOf dec (spaced x) = some r →
      Decides r (reports dec (fixedLines before)) (reports dec (fixedLines after)) →
      r.2 = countsOf dec (fixedLines lines)

/-- The spelling of a line that is not counted, if it has two. -/
def muted (line : Bytes) : Bytes := (dataValue? line).elim line unspaced

section Counting

variable {dec : Decoder} {x line : Bytes} {lines lines' : List Bytes}

theorem payload_unspaced (hx : x.head? ≠ some 32) : payload (unspaced x) = none := by
  have hdata : asciiBytes "data: " = asciiBytes "data:" ++ [32] := by decide
  refine if_neg fun h => hx ?_
  obtain ⟨rest, hrest⟩ := List.isPrefixOf_iff_prefix.mp h.1
  rw [hdata, List.append_assoc, unspaced, List.append_cancel_left_eq] at hrest
  rw [← hrest]
  rfl

theorem reportOf_unspaced (dec : Decoder) (hx : x.head? ≠ some 32) :
    reportOf dec (unspaced x) = none := by
  rw [reportOf, payload_unspaced hx]
  rfl

theorem contentOf_unspaced (dec : Decoder) (hx : x.head? ≠ some 32) :
    contentOf dec (unspaced x) = "" := by
  rw [contentOf, payload_unspaced hx]
  rfl

theorem reports_append (dec : Decoder) (lines lines' : List Bytes) :
    reports dec (lines ++ lines') = reports dec lines ++ reports dec lines' :=
  List.filterMap_append

theorem contentsOf_append (dec : Decoder) (lines lines' : List Bytes) :
    contentsOf dec (lines ++ lines') = contentsOf dec lines ++ contentsOf dec lines' := by
  rw [contentsOf, List.map_append, String.join_append]
  rfl

theorem fixedLines_append (lines lines' : List Bytes) :
    fixedLines (lines ++ lines') = fixedLines lines ++ fixedLines lines' :=
  List.filter_append ..

theorem fixedLines_cons_fixed (h : dataValue? line = none) (lines : List Bytes) :
    fixedLines (line :: lines) = line :: fixedLines lines :=
  List.filter_cons_of_pos (by simp [h])

theorem fixedLines_cons_data (h : IsData x line) (lines : List Bytes) :
    fixedLines (line :: lines) = fixedLines lines :=
  List.filter_cons_of_neg (by simp [dataValue?_eq_some_iff.mpr h])

theorem muted_fixed (h : dataValue? line = none) : muted line = line := by rw [muted, h]; rfl

theorem muted_data (h : IsData x line) : muted line = unspaced x := by
  rw [muted, dataValue?_eq_some_iff.mpr h]
  rfl

theorem sameLine_muted (line : Bytes) : SameLine line (muted line) := by
  obtain hfixed | ⟨x, hx⟩ := fixed_or_data line
  · exact .inl (muted_fixed hfixed).symm
  · exact .inr ⟨x, hx, hx.1, .inr (muted_data hx)⟩

theorem reports_muted (dec : Decoder) (lines : List Bytes) :
    reports dec (lines.map muted) = reports dec (fixedLines lines) := by
  induction lines with
  | nil => rfl
  | cons line lines ih =>
    rw [List.map_cons, reports_cons, ih]
    obtain hfixed | ⟨x, hx⟩ := fixed_or_data line
    · rw [muted_fixed hfixed, fixedLines_cons_fixed hfixed, reports_cons]
    · rw [muted_data hx, fixedLines_cons_data hx, reportOf_unspaced dec hx.1]
      rfl

theorem contentsOf_muted (dec : Decoder) (lines : List Bytes) :
    contentsOf dec (lines.map muted) = contentsOf dec (fixedLines lines) := by
  induction lines with
  | nil => rfl
  | cons line lines ih =>
    rw [List.map_cons, contentsOf_cons, ih]
    obtain hfixed | ⟨x, hx⟩ := fixed_or_data line
    · rw [muted_fixed hfixed, fixedLines_cons_fixed hfixed, contentsOf_cons]
    · rw [muted_data hx, fixedLines_cons_data hx, contentOf_unspaced dec hx.1, String.empty_append]

theorem countsOf_muted (dec : Decoder) (lines : List Bytes) :
    countsOf dec (lines.map muted) = countsOf dec (fixedLines lines) := by
  rw [countsOf, countsOf, reports_muted, contentsOf_muted]

/-- The reports of the fixed lines are there in every spelling. -/
theorem reports_fixedLines_subset (dec : Decoder) (h : List.Forall₂ SameLine lines lines') :
    reports dec (fixedLines lines) ⊆ reports dec lines' := by
  induction h with
  | nil => exact List.Subset.refl _
  | @cons line line' lines lines' hline hlines ih =>
    rw [reports_cons]
    obtain ⟨hfixed, rfl⟩ | ⟨x, hx, -⟩ := hline.cases
    · rw [fixedLines_cons_fixed hfixed, reports_cons]
      exact List.append_subset.mpr
        ⟨List.subset_append_left _ _, List.subset_append_of_subset_right _ ih⟩
    · rw [fixedLines_cons_data hx]
      exact List.subset_append_of_subset_right _ ih

theorem contentsOf_of_idle (dec : Decoder) (h : List.Forall₂ SameLine lines lines')
    (hidle : ∀ line ∈ lines, ∀ x, IsData x line → contentOf dec (spaced x) = "") :
    contentsOf dec lines' = contentsOf dec (fixedLines lines) := by
  induction h with
  | nil => rfl
  | @cons line line' lines lines' hline hlines ih =>
    rw [contentsOf_cons, ih fun line hmem => hidle line (List.mem_cons_of_mem _ hmem)]
    obtain ⟨hfixed, rfl⟩ | ⟨x, hx, rfl | rfl⟩ := hline.cases
    · rw [fixedLines_cons_fixed hfixed, contentsOf_cons]
    · rw [fixedLines_cons_data hx, hidle line List.mem_cons_self x hx, String.empty_append]
    · rw [fixedLines_cons_data hx, contentOf_unspaced dec hx.1, String.empty_append]

/-- The report that decides is in one of the lines. -/
theorem exists_deciding_line {r : Report} (h : winner (reports dec lines) = some r) :
    ∃ before line after, lines = before ++ line :: after ∧ reportOf dec line = some r ∧
      Decides r (reports dec before) (reports dec after) := by
  obtain ⟨rs, rs', hrs, hdecides⟩ := exists_decides h
  obtain ⟨before, rest, rfl, rfl, hrest⟩ := List.filterMap_eq_append_iff.mp hrs
  obtain ⟨skipped, line, after, rfl, hskipped, hline, rfl⟩ := List.filterMap_eq_cons_iff.mp hrest
  refine ⟨before ++ skipped, line, after, (List.append_assoc ..).symm, hline, ?_⟩
  have hnone : reports dec skipped = [] := List.filterMap_eq_nil_iff.mpr hskipped
  rw [reports_append, hnone, List.append_nil]
  exact hdecides

/-- Where the lines that have two spellings are idle, no spelling of them changes the counts. -/
theorem Idle.countsOf_eq (hidle : Idle dec lines) (h : List.Forall₂ SameLine lines lines')
    (hcontent : contentsOf dec lines' = contentsOf dec (fixedLines lines)) :
    countsOf dec lines' = countsOf dec (fixedLines lines) := by
  cases hwinner : winner (reports dec lines') with
  | none =>
    have hnone : winner (reports dec (fixedLines lines)) = none := by
      have hsubset := reports_fixedLines_subset dec h
      rw [winner_eq_none.mp hwinner] at hsubset
      exact winner_eq_none.mpr (List.subset_nil.mp hsubset)
    rw [countsOf, countsOf, hwinner, hnone, hcontent]
  | some r =>
    have hcounts : countsOf dec lines' = r.2 := by rw [countsOf, hwinner]; rfl
    obtain ⟨before', line', after', rfl, hreport, hdecides⟩ := exists_deciding_line hwinner
    have hbefore := List.forall₂_take_append _ _ _ h
    have hrest := List.forall₂_drop_append _ _ _ h
    obtain ⟨line, after, hline, hafter, hsplit⟩ := List.forall₂_cons_right_iff.mp hrest
    obtain ⟨before, hbefore_eq⟩ : ∃ before, lines.take before'.length = before := ⟨_, rfl⟩
    have hlines : lines = before ++ line :: after := by
      rw [← hbefore_eq, ← hsplit, List.take_append_drop]
    rw [hbefore_eq] at hbefore
    -- With fewer reports around it, the report decides all the more.
    have hdecides := hdecides.mono (reports_fixedLines_subset dec hbefore)
      (reports_fixedLines_subset dec hafter)
    rw [hcounts]
    obtain ⟨hfixed, rfl⟩ | ⟨x, hx, rfl | rfl⟩ := hline.cases
    · rw [hlines, countsOf, fixedLines_append, fixedLines_cons_fixed hfixed, reports_append,
        reports_cons, hreport, Option.toList_some, List.singleton_append,
        winner_of_decides hdecides]
      rfl
    · exact (hidle before line after x hlines hx).2 r hreport hdecides
    · rw [reportOf_unspaced dec hx.1] at hreport
      cases hreport

/-- The lines are counted alike in all spellings exactly when those with two spellings are idle. -/
theorem accounts_sameLine_iff (dec : Decoder) (lines : List Bytes) :
    (∀ lines', List.Forall₂ SameLine lines lines' →
      countsOf dec lines' = countsOf dec lines ∧ contentsOf dec lines' = contentsOf dec lines) ↔
    Idle dec lines := by
  constructor
  · intro h before line after x hlines hx
    -- Mute all lines with two spellings, and then all but this one.
    have hmute (lines : List Bytes) : List.Forall₂ SameLine lines (lines.map muted) := by
      rw [List.forall₂_map_right_iff, List.forall₂_same]
      exact fun line _ => sameLine_muted line
    have hsingle : List.Forall₂ SameLine lines
        (before.map muted ++ spaced x :: after.map muted) := by
      rw [hlines]
      exact List.rel_append (hmute before) (.cons (.inr ⟨x, hx, hx.1, .inl rfl⟩) (hmute after))
    obtain ⟨hcounts, hcontents⟩ := h _ (hmute lines)
    obtain ⟨hcounts', hcontents'⟩ := h _ hsingle
    rw [countsOf_muted] at hcounts
    rw [contentsOf_muted, hlines, fixedLines_append, fixedLines_cons_data hx, ← hlines,
      contentsOf_append, ← hcontents', contentsOf_append, contentsOf_cons, contentsOf_muted,
      contentsOf_muted] at hcontents
    refine ⟨?_, fun r hreport hdecides => ?_⟩
    · have hlength := congrArg String.length hcontents
      simp only [String.length_append] at hlength
      exact String.length_eq_zero_iff.mp (by omega)
    · rw [hcounts, ← hcounts', countsOf, reports_append, reports_cons, hreport, Option.toList_some,
        List.singleton_append, reports_muted, reports_muted, winner_of_decides hdecides]
      rfl
  · intro hidle lines' h
    have hcontents (lines' : List Bytes) (h : List.Forall₂ SameLine lines lines') :=
      contentsOf_of_idle dec h fun line hmem x hx => by
        obtain ⟨before, after, hlines⟩ := List.append_of_mem hmem
        exact (hidle before line after x hlines hx).1
    have hrefl : List.Forall₂ SameLine lines lines := List.forall₂_same.mpr fun _ _ => .inl rfl
    rw [hidle.countsOf_eq h (hcontents _ h), hidle.countsOf_eq hrefl (hcontents _ hrefl),
      hcontents _ h, hcontents _ hrefl]
    exact ⟨rfl, rfl⟩

end Counting

/-! ### The relay of a stream -/

/-- `ForwardStream` can come to the end of this stream without an error, and with this result. -/
def Relays (dec : Decoder) (body : Bytes) (result : StreamResult) : Prop :=
  ∃ (w : Recorder) (σ : Type) (answer : (op : Op) → σ → op.Ans × σ) (s : σ),
    let out := ((forwardStream dec w { statusCode := 200, body }).eval answer s).1
    out.1 = result ∧ out.2.1 = none

/-- The scanner has room for every line. -/
def Fits (body : Bytes) : Prop := ∀ line ∈ splitLines body, line.length < maxTokenSize

section Relay

variable {dec : Decoder} {body : Bytes} {result : StreamResult}

/-- What a relay reports that comes to its end. -/
theorem relays_iff : Relays dec body result ↔
    Fits body ∧ result = settled ((linesOf body).foldl (relayStep dec) ({}, false)) := by
  have hscan (h : Fits body) : scan { statusCode := 200, body } = (linesOf body, none) :=
    scan_of_fits h
  constructor
  · rintro ⟨w, σ, answer, s, rfl, hok⟩
    obtain ⟨hnone, hresult⟩ := forwardStream_settled dec w _ answer s hok
    have hfits : Fits body := fits_of_scan hnone
    rw [hscan hfits] at hresult
    exact ⟨hfits, hresult⟩
  · rintro ⟨hfits, rfl⟩
    let inp : Inputs :=
      ⟨[], fun _ => 0, fun _ => ⟨.ok ⟨true⟩, .ok { statusCode := 200 }, fun _ => none⟩⟩
    let w : Recorder := { src := .attempt 1, wroteHeader := true, commit := true }
    obtain ⟨result, s', hrun, -⟩ := relay_passed inp dec none (linesOf body) (w := w) ⟨rfl, rfl⟩
      ({}, false) {} rfl
    have hout :
      ((forwardStream dec w { statusCode := 200, body }).eval (World.answer inp) {}).1.2.1 =
        none := by
      rw [forwardStream, hscan hfits]
      refine (congrArg (·.1.2.1) hrun).trans ?_
      rw [Option.or_none]
      exact push_eq_none.mpr fun j _ => rfl
    refine ⟨w, World, World.answer inp, {}, ?_, hout⟩
    rw [(forwardStream_settled dec w _ _ _ hout).2, hscan hfits]

/-! ### The accounts of a stream in its spellings -/

/-- The counts and the content agree. -/
def SameAccounts (result result' : StreamResult) : Prop :=
  result'.promptTokens = result.promptTokens ∧ result'.completionTokens = result.completionTokens ∧
    result'.fullContent = result.fullContent

/-- Every spelling of the stream can be relayed to its end, and whenever it is, its accounts are
those of the stream. -/
def AccountedAlike (dec : Decoder) (body : Bytes) : Prop :=
  ∀ body', Respells body body' → (∃ result, Relays dec body' result) ∧
    ∀ result result', Relays dec body result → Relays dec body' result' →
      SameAccounts result result'

theorem sameAccounts_settled_iff (dec : Decoder) (lines lines' : List Bytes) :
    SameAccounts (settled (lines.foldl (relayStep dec) ({}, false)))
        (settled (lines'.foldl (relayStep dec) ({}, false))) ↔
      countsOf dec lines' = countsOf dec lines ∧ contentsOf dec lines' = contentsOf dec lines := by
  obtain ⟨hcounts, hcontents⟩ := settled_accounts dec lines
  obtain ⟨hcounts', hcontents'⟩ := settled_accounts dec lines'
  rw [SameAccounts, ← hcounts, ← hcounts', ← hcontents, ← hcontents', Prod.mk.injEq, and_assoc]

/-- The accounts of a stream do not depend on its spelling exactly when all its spellings fit into
the scanner's buffer and its data lines are idle. -/
theorem accountedAlike_iff (dec : Decoder) (body : Bytes) :
    AccountedAlike dec body ↔
      (∀ body', Respells body body' → Fits body') ∧ Idle dec (linesOf body) := by
  rw [← accounts_sameLine_iff]
  constructor
  · intro h
    have hfits (body' : Bytes) (hbody : Respells body body') : Fits body' := by
      obtain ⟨result, hresult⟩ := (h body' hbody).1
      exact (relays_iff.mp hresult).1
    refine ⟨hfits, fun lines' hlines => ?_⟩
    obtain ⟨body', hbody, rfl⟩ := exists_respells hlines
    rw [← sameAccounts_settled_iff]
    exact (h body' hbody).2 _ _ (relays_iff.mpr ⟨hfits body (respells_refl body), rfl⟩)
      (relays_iff.mpr ⟨hfits body' hbody, rfl⟩)
  · rintro ⟨hfits, hlines⟩ body' hbody
    refine ⟨⟨_, relays_iff.mpr ⟨hfits body' hbody, rfl⟩⟩, fun result result' hresult hresult' => ?_⟩
    rw [(relays_iff.mp hresult).2, (relays_iff.mp hresult').2, sameAccounts_settled_iff]
    exact hlines _ hbody.linesOf

end Relay

/-- An event with usage, where the upstream leaves out the space: nothing is counted. -/
theorem unspaced_usage_uncounted :
    let body := eventLine (usageEvent 7 5)
    let body' := unspaced (usageEvent 7 5) ++ [newline, newline]
    Respells body body' ∧ (relayOf body).2.1 = none ∧ (relayOf body').2.1 = none ∧
      ((relayOf body).1.promptTokens, (relayOf body).1.completionTokens) = (7, 5) ∧
      ((relayOf body').1.promptTokens, (relayOf body').1.completionTokens) = (0, 0) ∧
      ¬AccountedAlike (decoder eventsUnmarshaler) body := by
  intro body body'
  obtain ⟨hline, hhead, hok, hok', hcounts, hcounts'⟩ :
      newline ∉ spaced (usageEvent 7 5) ∧ (usageEvent 7 5).head? ≠ some 32 ∧
      (relayOf body).2.1 = none ∧ (relayOf body').2.1 = none ∧
      ((relayOf body).1.promptTokens, (relayOf body).1.completionTokens) = (7, 5) ∧
      ((relayOf body').1.promptTokens, (relayOf body').1.completionTokens) = (0, 0) := by
        decide +kernel
  have hspelled : Respells body body' :=
    .feed hline (.inr ⟨usageEvent 7 5, ⟨hhead, .inl rfl⟩, ⟨hhead, .inr rfl⟩⟩) (respells_refl _)
  have hrelays (body : Bytes) (h : (relayOf body).2.1 = none) :
      Relays (decoder eventsUnmarshaler) body (relayOf body).1 := ⟨_, _, _, _, rfl, h⟩
  refine ⟨hspelled, hok, hok', hcounts, hcounts', fun h => ?_⟩
  obtain ⟨hprompt, -⟩ := (h body' hspelled).2 _ _ (hrelays body hok) (hrelays body' hok')
  rw [(Prod.mk.inj hcounts).1, (Prod.mk.inj hcounts').1] at hprompt
  cases hprompt

end LlmProxy.Proxy
