import LlmProxy.Proxy.Stream
import Mathlib.Data.List.TakeWhile

/-! What becomes of a body that is cut into lines and put together again: `ScanLines` takes the line
end off each line, and the relay of a stream adds a line feed to each. -/

namespace LlmProxy.Proxy

def carriageReturn : UInt8 := 13

/-- The bytes that the relay of a stream writes for a body whose lines all fit. -/
def relayed (body : Bytes) : Bytes := (splitLines body).flatMap fun line => dropCR line ++ [newline]

/-- Every line ends with a line feed, and none with a carriage return before it. -/
def LineFeedsOnly (body : Bytes) : Prop :=
  (body = [] ∨ body.getLast? = some newline) ∧ ¬[carriageReturn, newline] <:+: body

instance (body : Bytes) : Decidable (LineFeedsOnly body) :=
  inferInstanceAs (Decidable (_ ∧ _))

section Split

variable {b : UInt8} {rest : Bytes}

@[simp] theorem splitLines_newline (rest : Bytes) :
    splitLines (newline :: rest) = [] :: splitLines rest := by
  rw [splitLines, if_pos rfl]

theorem splitLines_eq_nil {body : Bytes} : splitLines body = [] ↔ body = [] := by
  cases body with
  | nil => simp [splitLines]
  | cons b rest =>
    rw [splitLines]
    split
    · simp
    · split <;> simp

/-- A byte before a text that is not empty goes to its first line. -/
theorem splitLines_cons (hb : b ≠ newline) (hrest : rest ≠ []) :
    ∃ line lines, splitLines rest = line :: lines ∧
      splitLines (b :: rest) = (b :: line) :: lines := by
  cases hlines : splitLines rest with
  | nil => exact absurd (splitLines_eq_nil.mp hlines) hrest
  | cons line lines => exact ⟨line, lines, rfl, by rw [splitLines, if_neg hb, hlines]⟩

/-- The first line is empty when the text starts with a line feed. -/
theorem splitLines_head {line : Bytes} {lines : List Bytes} (h : splitLines rest = line :: lines) :
    line = [] ↔ rest.head? = some newline := by
  cases rest with
  | nil => cases h
  | cons b rest =>
    by_cases hb : b = newline
    · subst hb
      rw [splitLines_newline, List.cons.injEq] at h
      simp [← h.1]
    · rw [splitLines, if_neg hb] at h
      split at h <;> obtain ⟨rfl, -⟩ := List.cons.inj h <;> simp [hb]

/-- What comes before the first line feed is a line. -/
theorem splitLines_line {line : Bytes} (hline : newline ∉ line) (rest : Bytes) :
    splitLines (line ++ newline :: rest) = line :: splitLines rest := by
  induction line with
  | nil => exact splitLines_newline rest
  | cons b line ih =>
    obtain ⟨hb, hline⟩ : newline ≠ b ∧ newline ∉ line := by simpa using hline
    rw [List.cons_append, splitLines, if_neg hb.symm, ih hline]

/-- So is what comes after the last one. -/
theorem splitLines_last {line : Bytes} (hline : newline ∉ line) (hne : line ≠ []) :
    splitLines line = [line] := by
  induction line with
  | nil => exact absurd rfl hne
  | cons b line ih =>
    obtain ⟨hb, hline⟩ : newline ≠ b ∧ newline ∉ line := by simpa using hline
    rw [splitLines, if_neg hb.symm]
    cases line with
    | nil => rfl
    | cons c line => rw [ih hline (List.cons_ne_nil c line)]

/-- A text is one line without a line feed, or a line and a further text. -/
theorem lines_induction {motive : Bytes → Prop} (last : ∀ line, newline ∉ line → motive line)
    (line : ∀ line rest, newline ∉ line → motive rest → motive (line ++ newline :: rest))
    (body : Bytes) : motive body := by
  induction hlen : body.length using Nat.strong_induction_on generalizing body with
  | _ n ih =>
    by_cases hmem : newline ∈ body
    · obtain ⟨first, rest, rfl, hfirst⟩ := List.eq_append_cons_of_mem hmem
      refine line first rest hfirst (ih rest.length ?_ rest rfl)
      rw [← hlen, List.length_append, List.length_cons]
      omega
    · exact last body hmem

end Split

/-- The lines put together again, without a look at carriage returns. -/
theorem flatMap_splitLines (body : Bytes) :
    ((splitLines body).flatMap fun line => line ++ [newline]) =
      if body = [] ∨ body.getLast? = some newline then body else body ++ [newline] := by
  induction body with
  | nil => rfl
  | cons b rest ih =>
    by_cases hb : b = newline
    · subst hb
      rw [splitLines_newline, List.flatMap_cons, ih]
      cases rest with
      | nil => rfl
      | cons c rest => simp [List.getLast?_cons_cons, apply_ite (newline :: ·)]
    · by_cases hrest : rest = []
      · subst hrest
        simp [splitLines, hb]
      · obtain ⟨line, lines, hlines, hcons⟩ := splitLines_cons hb hrest
        obtain ⟨c, rest, rfl⟩ := List.exists_cons_of_ne_nil hrest
        rw [hlines, List.flatMap_cons] at ih
        rw [hcons, List.flatMap_cons, List.cons_append, List.cons_append, ih]
        simp [List.getLast?_cons_cons, apply_ite (b :: ·)]

/-- In a text of whole lines a carriage return before a line feed is one at the end of a line. -/
theorem crlf_iff {body : Bytes} (hend : body = [] ∨ body.getLast? = some newline) :
    [carriageReturn, newline] <:+: body ↔ ∃ line ∈ splitLines body,
      line.getLast? = some carriageReturn := by
  induction body with
  | nil => simp [splitLines]
  | cons b rest ih =>
    have hend' : rest = [] ∨ rest.getLast? = some newline := by
      cases rest with
      | nil => exact .inl rfl
      | cons c rest => simpa [List.getLast?_cons_cons] using hend
    rw [List.infix_cons_iff, ih hend']
    by_cases hb : b = newline
    · subst hb
      simp [carriageReturn, newline, splitLines]
    · have hrest : rest ≠ [] := by
        rintro rfl
        simp [hb] at hend
      obtain ⟨line, lines, hlines, hcons⟩ := splitLines_cons hb hrest
      have hhead := splitLines_head hlines
      rw [hlines, hcons, List.exists_mem_cons_iff, List.exists_mem_cons_iff, ← or_assoc]
      refine or_congr_left ?_
      cases line with
      | nil =>
        obtain ⟨c, rest, rfl⟩ := List.exists_cons_of_ne_nil hrest
        obtain rfl : c = newline := by simpa using hhead
        simp [eq_comm]
      | cons c line =>
        have : ¬[carriageReturn, newline] <+: b :: rest := by
          rintro ⟨t, ht⟩
          simp [← (List.cons.inj ht).2] at hhead
        simp [List.getLast?_cons_cons, this]

/-! ### What dropping carriage returns does -/

theorem dropCR_eq_self {line : Bytes} : dropCR line = line ↔
    line.getLast? ≠ some carriageReturn := by
  unfold dropCR carriageReturn
  split
  · next h =>
    have hne : line ≠ [] := by
      rintro rfl
      simp at h
    have : line.dropLast.length < line.length := by
      have := List.length_pos_iff.mpr hne
      rw [List.length_dropLast]
      omega
    simp only [h, ne_eq, not_true_eq_false, iff_false]
    intro heq
    rw [heq] at this
    omega
  · next h => simp [h]

theorem length_dropCR_le (line : Bytes) : (dropCR line).length ≤ line.length := by
  unfold dropCR
  split
  · rw [List.length_dropLast]
    omega
  · omega

theorem length_flatMap_le (lines : List Bytes) :
    (lines.flatMap fun line => dropCR line ++ [newline]).length ≤
      (lines.flatMap fun line => line ++ [newline]).length := by
  induction lines with
  | nil => simp
  | cons line lines ih =>
    have := length_dropCR_le line
    simp only [List.flatMap_cons, List.length_append, List.length_cons, List.length_nil] at ih ⊢
    omega

/-- The lines come out as they are exactly when none has a carriage return at its end. -/
theorem flatMap_dropCR_eq (lines : List Bytes) :
    ((lines.flatMap fun line => dropCR line ++ [newline]) = lines.flatMap fun line =>
      line ++ [newline]) ↔
      ∀ line ∈ lines, line.getLast? ≠ some carriageReturn := by
  induction lines with
  | nil => simp
  | cons line lines ih =>
    rw [List.forall_mem_cons, ← ih, ← dropCR_eq_self, List.flatMap_cons, List.flatMap_cons]
    constructor
    · intro h
      -- The first line cannot get shorter, since no later one gets longer.
      have hlen := congrArg List.length h
      have hle := length_dropCR_le line
      have hrest := length_flatMap_le lines
      simp only [List.length_append] at hlen
      obtain ⟨hline, htail⟩ := List.append_inj h (by simp only [List.length_append]; omega)
      exact ⟨List.append_cancel_right hline, htail⟩
    · rintro ⟨hline, hrest⟩
      rw [hline, hrest]

theorem getLast?_relayed {body : Bytes} (h : body ≠ []) :
    (relayed body).getLast? = some newline := by
  have hne : splitLines body ≠ [] := fun heq => h (splitLines_eq_nil.mp heq)
  obtain ⟨init, last, hlast⟩ := List.eq_nil_or_concat (splitLines body) |>.resolve_left hne
  rw [relayed, hlast]
  simp

/-- A body is relayed as it is exactly when its lines end with line feeds only. -/
theorem relayed_eq_iff (body : Bytes) : relayed body = body ↔ LineFeedsOnly body := by
  have hjoin := flatMap_splitLines body
  constructor
  · intro h
    have hend : body = [] ∨ body.getLast? = some newline := by
      by_cases hnil : body = []
      · exact .inl hnil
      · refine .inr ?_
        rw [← h]
        exact getLast?_relayed hnil
    rw [if_pos hend] at hjoin
    refine ⟨hend, fun hcrlf => ?_⟩
    obtain ⟨line, hmem, hline⟩ := (crlf_iff hend).mp hcrlf
    exact (flatMap_dropCR_eq _).mp (h.trans hjoin.symm) line hmem hline
  · rintro ⟨hend, hcrlf⟩
    rw [if_pos hend] at hjoin
    refine ((flatMap_dropCR_eq _).mpr fun line hmem hline => ?_).trans hjoin
    exact hcrlf ((crlf_iff hend).mpr ⟨line, hmem, hline⟩)

/-! ### Lines that fit -/

section Scan

variable {resp : Response}

theorem takeWhile_fits : (∀ line ∈ splitLines resp.body, line.length < maxTokenSize) ↔
    (splitLines resp.body).takeWhile (·.length < maxTokenSize) = splitLines resp.body := by
  simp [List.takeWhile_eq_self_iff]

theorem scan_of_fits (h : ∀ line ∈ splitLines resp.body, line.length < maxTokenSize) :
    scan resp = ((splitLines resp.body).map dropCR, resp.bodyErr) := by
  simp only [scan, takeWhile_fits.mp h, Nat.lt_irrefl, if_false]

/-- A scan that ends without an error has yielded every line. -/
theorem fits_of_scan (h : (scan resp).2 = none) :
    ∀ line ∈ splitLines resp.body, line.length < maxTokenSize := by
  have hlength : ¬((splitLines resp.body).takeWhile (·.length < maxTokenSize)).length <
      (splitLines resp.body).length := by
    intro hlt
    simp [scan, hlt] at h
  exact takeWhile_fits.mpr ((List.takeWhile_prefix _).eq_of_length_le (by omega))

end Scan

end LlmProxy.Proxy
