import LlmProxy.ProofKit.Strconv
import Mathlib.Algebra.BigOperators.Group.List.Basic
import Mathlib.Algebra.Field.Rat
import Mathlib.Algebra.Order.BigOperators.Group.List
import Mathlib.Data.List.Forall2
import Mathlib.Data.List.TakeWhile

/-! The text format of Prometheus: lines with samples, with help texts and types of metrics, and
with comments.  A label value stands between quotes, and a backslash, a quote or a line feed in it
has to be escaped, so that a text has no fewer backslashes than the values that are read from it ask
for. -/

namespace LlmProxy.ProofKit.Exposition

/-- The number that a text denotes, which a client may round. -/
inductive Value
  | number (x : ℚ)
  | infinity (negative : Bool)
  | nan
  deriving DecidableEq

structure Sample where
  name : String
  labels : List (String × String) := []
  value : Value
  timestamp : Option Int := none
  deriving DecidableEq

inductive Kind
  | counter
  | gauge
  | histogram
  | summary
  | untyped
  deriving DecidableEq

/-- What is read from a line. -/
inductive Entry
  /-- A line with nothing in it, or with a comment. -/
  | nothing
  | help (name text : String)
  | type (name : String) (kind : Kind)
  | sample (sample : Sample)
  deriving DecidableEq

/-! ### Names, words and numbers -/

def isBlank (c : Char) : Bool := c = ' ' || c = '\t'

def skipBlanks (cs : List Char) : List Char := cs.dropWhile isBlank

/-- A name of a metric may have colons, a name of a label may not. -/
def isNameChar (colon : Bool) (c : Char) : Bool := c.isAlphanum || c = '_' || colon && c = ':'

def isName (colon : Bool) : List Char → Bool
  | [] => false
  | c :: rest => !c.isDigit && (c :: rest).all (isNameChar colon)

def readName (colon : Bool) (cs : List Char) : Option (String × List Char) :=
  if isName colon (cs.takeWhile (isNameChar colon)) then
    some (String.ofList (cs.takeWhile (isNameChar colon)), cs.dropWhile (isNameChar colon))
  else none

/-- A character, after blanks. -/
def expect (c : Char) (cs : List Char) : Option (List Char) :=
  match skipBlanks cs with
  | d :: rest => if d = c then some rest else none
  | [] => none

def words (cs : List Char) : List (List Char) := (cs.splitOnP isBlank).filter (· ≠ [])

def readExponent : List Char → Option Int
  | [] => some 0
  | c :: rest => if c = 'e' ∨ c = 'E' then parseInt? (String.ofList rest) else none

def readScaled (whole fraction exponent : List Char) : Option ℚ :=
  if whole ++ fraction = [] then none
  else (readExponent exponent).map fun e =>
    (Nat.ofDigitChars 10 (whole ++ fraction) 0 : ℚ) * 10 ^ (e - (fraction.length : Int))

def readDecimal (cs : List Char) : Option ℚ :=
  match cs.dropWhile Char.isDigit with
  | '.' :: rest =>
    readScaled (cs.takeWhile Char.isDigit) (rest.takeWhile Char.isDigit)
      (rest.dropWhile Char.isDigit)
  | rest => readScaled (cs.takeWhile Char.isDigit) [] rest

def readSigned (negative : Bool) (cs : List Char) : Option Value :=
  if cs = "Inf".toList then some (.infinity negative)
  else (readDecimal cs).map fun x => .number (if negative then -x else x)

def readValue (cs : List Char) : Option Value :=
  if cs = "NaN".toList then some .nan
  else
    match cs with
    | '-' :: rest => readSigned true rest
    | '+' :: rest => readSigned false rest
    | cs => readSigned false cs

/-! ### Samples -/

/-- A label value, after its first quote. -/
def readLabelValue : List Char → Option (List Char × List Char)
  | [] => none
  | '"' :: rest => some ([], rest)
  | '\\' :: '\\' :: rest => (readLabelValue rest).map fun (value, rest) => ('\\' :: value, rest)
  | '\\' :: '"' :: rest => (readLabelValue rest).map fun (value, rest) => ('"' :: value, rest)
  | '\\' :: 'n' :: rest => (readLabelValue rest).map fun (value, rest) => ('\n' :: value, rest)
  | '\\' :: _ => none
  | '\n' :: _ => none
  | c :: rest => (readLabelValue rest).map fun (value, rest) => (c :: value, rest)

def readLabel (cs : List Char) : Option ((String × String) × List Char) := do
  let (name, rest) ← readName false (skipBlanks cs)
  let rest ← expect '=' rest
  let rest ← expect '"' rest
  let (value, rest) ← readLabelValue rest
  some ((name, String.ofList value), rest)

/-- The labels of a sample, after the brace before them.  A comma may follow the last one. -/
def readLabels : Nat → List Char → Option (List (String × String) × List Char)
  | 0, _ => none
  | n + 1, cs =>
    match expect '}' cs with
    | some rest => some ([], rest)
    | none =>
      (readLabel cs).bind fun (label, rest) =>
        match expect ',' rest with
        | some rest => (readLabels n rest).map fun (labels, rest) => (label :: labels, rest)
        | none => (expect '}' rest).map ([label], ·)

def readLabelSet (cs : List Char) : Option (List (String × String) × List Char) :=
  match expect '{' cs with
  | some rest => readLabels rest.length rest
  | none => some ([], cs)

def readSample (cs : List Char) : Option Sample := do
  let (name, rest) ← readName true cs
  let (labels, rest) ← readLabelSet rest
  match words rest with
  | [value] => (readValue value).map ({ name, labels, value := · })
  | [value, timestamp] =>
    (readValue value).bind fun value => (parseInt? (String.ofList timestamp)).map fun timestamp =>
      { name, labels, value, timestamp := some timestamp }
  | _ => none

/-! ### Comments, lines and texts -/

def readHelpText : List Char → Option (List Char)
  | [] => some []
  | '\\' :: '\\' :: rest => (readHelpText rest).map ('\\' :: ·)
  | '\\' :: 'n' :: rest => (readHelpText rest).map ('\n' :: ·)
  | '\\' :: _ => none
  | c :: rest => (readHelpText rest).map (c :: ·)

def readKind (cs : List Char) : Option Kind :=
  match String.ofList cs with
  | "counter" => some .counter
  | "gauge" => some .gauge
  | "histogram" => some .histogram
  | "summary" => some .summary
  | "untyped" => some .untyped
  | _ => none

/-- The next word, and what comes after it. -/
def readWord (cs : List Char) : List Char × List Char :=
  ((skipBlanks cs).takeWhile (!isBlank ·), skipBlanks ((skipBlanks cs).dropWhile (!isBlank ·)))

/-- A line that begins with the sign of a comment, after this sign. -/
def readComment (cs : List Char) : Option Entry :=
  let (word, rest) := readWord cs
  let (name, rest) := readWord rest
  if word = "HELP".toList then
    if isName true name then
      (readHelpText rest).map fun text => .help (String.ofList name) (String.ofList text)
    else none
  else if word = "TYPE".toList then
    if isName true name then
      match words rest with
      | [kind] => (readKind kind).map (.type (String.ofList name))
      | _ => none
    else none
  else some .nothing

def readLine (cs : List Char) : Option Entry :=
  match skipBlanks cs with
  | [] => some .nothing
  | '#' :: rest => readComment rest
  | cs => (readSample cs).map .sample

/-- The lines that are left, each with a line feed at its end, when a part of the first one has been
read. -/
def readLines : List Char → List Char → Option (List Entry)
  | [], line => if line = [] then some [] else none
  | c :: rest, line =>
    if c = '\n' then
      (readLine line).bind fun entry => (readLines rest []).map (entry :: ·)
    else readLines rest (line ++ [c])

def readText (text : String) : Option (List Entry) := readLines text.toList []

def Entry.sample? : Entry → Option Sample
  | .sample s => some s
  | _ => none

def samples (entries : List Entry) : List Sample := entries.filterMap Entry.sample?

/-! ### What is read costs backslashes -/

/-- The characters that cannot stand for themselves in a label value. -/
def isSpecial (c : Char) : Bool := c = '\\' || c = '"' || c = '\n'

/-- A label value that is its own text. -/
def Plain (value : String) : Prop := ∀ c ∈ value.toList, isSpecial c = false

instance (value : String) : Decidable (Plain value) :=
  decidable_of_iff (value.toList.all fun c => !isSpecial c) (by simp [Plain])

def backslashes (cs : List Char) : Nat := cs.count '\\'

/-- The backslashes in the text of a label value: one before each special character, and the
backslashes that the value has itself. -/
def escapes (value : List Char) : Nat := value.countP isSpecial + backslashes value

def Sample.escapes (s : Sample) : Nat :=
  (s.labels.map fun label => Exposition.escapes label.2.toList).sum

variable {cs rest line : List Char}

@[simp] theorem backslashes_nil : backslashes [] = 0 := rfl

theorem backslashes_append (cs cs' : List Char) :
    backslashes (cs ++ cs') = backslashes cs + backslashes cs' :=
  List.count_append

theorem backslashes_cons (c : Char) (cs : List Char) :
    backslashes (c :: cs) = backslashes cs + if c = '\\' then 1 else 0 := by
  simp [backslashes, List.count_cons]

theorem backslashes_dropWhile_le (p : Char → Bool) (cs : List Char) :
    backslashes (cs.dropWhile p) ≤ backslashes cs :=
  (List.dropWhile_suffix p).sublist.count_le _

theorem escapes_cons (c : Char) (value : List Char) :
    escapes (c :: value) =
      escapes value + ((if isSpecial c then 1 else 0) + if c = '\\' then 1 else 0) := by
  simp only [escapes, List.countP_cons, backslashes_cons]
  omega

theorem plain_iff {value : String} : Plain value ↔ value.toList.countP isSpecial = 0 := by
  simp [Plain, List.countP_eq_zero]

theorem backslashes_expect {c : Char} (h : expect c cs = some rest) :
    backslashes rest ≤ backslashes cs := by
  have hskip := backslashes_dropWhile_le isBlank cs
  unfold expect skipBlanks at h
  split at h
  · next d tail heq =>
    rw [heq, backslashes_cons] at hskip
    split at h
    · obtain rfl := Option.some.inj h
      omega
    · cases h
  · cases h

theorem backslashes_readName {colon : Bool} {name : String}
    (h : readName colon cs = some (name, rest)) :
    backslashes rest ≤ backslashes cs := by
  unfold readName at h
  split at h
  · obtain ⟨-, rfl⟩ := Prod.mk.inj (Option.some.inj h)
    exact backslashes_dropWhile_le _ cs
  · cases h

/-- A label value is read from as many backslashes as it asks for. -/
theorem escapes_readLabelValue {value : List Char} (h : readLabelValue cs = some (value, rest)) :
    escapes value + backslashes rest = backslashes cs := by
  fun_induction readLabelValue cs generalizing value with
  | case1 => cases h
  | case2 tail =>
    obtain ⟨rfl, rfl⟩ := Prod.mk.inj (Option.some.inj h)
    simp [escapes, backslashes]
  | case3 tail ih | case4 tail ih | case5 tail ih =>
    obtain ⟨⟨value', rest'⟩, hread, heq⟩ := Option.map_eq_some_iff.mp h
    obtain ⟨rfl, rfl⟩ := Prod.mk.inj heq
    have := ih hread
    simp [escapes_cons, backslashes_cons, isSpecial]
    omega
  | case6 => cases h
  | case7 => cases h
  | case8 c tail hquote _ _ _ hslash hfeed ih =>
    obtain ⟨⟨value', rest'⟩, hread, heq⟩ := Option.map_eq_some_iff.mp h
    obtain ⟨rfl, rfl⟩ := Prod.mk.inj heq
    have hslash' : c ≠ '\\' := hslash
    have hspecial : isSpecial c = false := by simpa [isSpecial] using ⟨⟨hslash', hquote⟩, hfeed⟩
    have := ih hread
    rw [escapes_cons, backslashes_cons, if_neg hslash', if_neg (by simp [hspecial])]
    omega

theorem escapes_readLabel {label : String × String} (h : readLabel cs = some (label, rest)) :
    escapes label.2.toList + backslashes rest ≤ backslashes cs := by
  simp only [readLabel, Option.bind_eq_bind, Option.bind_eq_some_iff, Option.some.injEq,
    Prod.mk.injEq, Prod.exists] at h
  obtain ⟨name, rest₁, hname, rest₂, hequals, rest₃, hquote, value, rest₄, hvalue, rfl, rfl⟩ := h
  have h₀ := backslashes_dropWhile_le isBlank cs
  have h₁ := backslashes_readName hname
  have h₂ := backslashes_expect hequals
  have h₃ := backslashes_expect hquote
  have h₄ := escapes_readLabelValue hvalue
  rw [String.toList_ofList]
  unfold skipBlanks at h₁
  omega

theorem escapes_readLabels {n : Nat} {labels : List (String × String)}
    (h : readLabels n cs = some (labels, rest)) :
    (labels.map fun label => escapes label.2.toList).sum + backslashes rest ≤ backslashes cs := by
  induction n generalizing cs labels with
  | zero => cases h
  | succ n ih =>
    unfold readLabels at h
    split at h
    · next hclose =>
      obtain ⟨rfl, rfl⟩ := Prod.mk.inj (Option.some.inj h)
      simpa using backslashes_expect hclose
    · obtain ⟨⟨label, rest₁⟩, hlabel, h⟩ := Option.bind_eq_some_iff.mp h
      have h₁ := escapes_readLabel hlabel
      simp only at h
      split at h
      · next rest₂ hcomma =>
        obtain ⟨⟨labels', rest₃⟩, hlabels, heq⟩ := Option.map_eq_some_iff.mp h
        simp only [Prod.mk.injEq] at heq
        obtain ⟨rfl, rfl⟩ := heq
        have h₂ := backslashes_expect hcomma
        have h₃ := ih hlabels
        simp only [List.map_cons, List.sum_cons]
        omega
      · obtain ⟨rest₂, hclose, heq⟩ := Option.map_eq_some_iff.mp h
        obtain ⟨rfl, rfl⟩ := Prod.mk.inj heq
        have h₂ := backslashes_expect hclose
        simp only [List.map_cons, List.map_nil, List.sum_cons, List.sum_nil]
        omega

theorem escapes_readLabelSet {labels : List (String × String)}
    (h : readLabelSet cs = some (labels, rest)) :
    (labels.map fun label => escapes label.2.toList).sum ≤ backslashes cs := by
  unfold readLabelSet at h
  split at h
  · next hopen =>
    have h₁ := backslashes_expect hopen
    have h₂ := escapes_readLabels h
    omega
  · obtain ⟨rfl, rfl⟩ := Prod.mk.inj (Option.some.inj h)
    simp

theorem escapes_readSample {s : Sample} (h : readSample cs = some s) :
    s.escapes ≤ backslashes cs := by
  simp only [readSample, Option.bind_eq_bind, Option.bind_eq_some_iff, Prod.exists] at h
  obtain ⟨name, rest₁, hname, labels, rest₂, hlabels, h⟩ := h
  have hcost : (labels.map fun label => escapes label.2.toList).sum ≤ backslashes cs :=
    (escapes_readLabelSet hlabels).trans (backslashes_readName hname)
  split at h
  · obtain ⟨value, -, rfl⟩ := Option.map_eq_some_iff.mp h
    exact hcost
  · obtain ⟨value, -, h⟩ := Option.bind_eq_some_iff.mp h
    obtain ⟨timestamp, -, rfl⟩ := Option.map_eq_some_iff.mp h
    exact hcost
  · cases h

theorem sample?_readComment {entry : Entry} (h : readComment cs = some entry) :
    entry.sample? = none := by
  unfold readComment at h
  simp only at h
  split at h
  · split at h
    · obtain ⟨text, -, rfl⟩ := Option.map_eq_some_iff.mp h
      rfl
    · cases h
  · split at h
    · split at h
      · split at h
        · obtain ⟨kind, -, rfl⟩ := Option.map_eq_some_iff.mp h
          rfl
        · cases h
      · cases h
    · obtain rfl := Option.some.inj h
      rfl

theorem escapes_readLine {entry : Entry} {s : Sample} (h : readLine line = some entry)
    (hs : entry.sample? = some s) : s.escapes ≤ backslashes line := by
  unfold readLine at h
  split at h
  · obtain rfl := Option.some.inj h
    cases hs
  · rw [sample?_readComment h] at hs
    cases hs
  · obtain ⟨s', hsample, rfl⟩ := Option.map_eq_some_iff.mp h
    obtain rfl := Option.some.inj hs
    exact (escapes_readSample hsample).trans (backslashes_dropWhile_le isBlank line)

theorem escapes_readLines {entries : List Entry} (h : readLines cs line = some entries) :
    ((samples entries).map Sample.escapes).sum ≤ backslashes line + backslashes cs := by
  induction cs generalizing line entries with
  | nil =>
    unfold readLines at h
    split at h
    · obtain rfl := Option.some.inj h
      exact Nat.zero_le _
    · cases h
  | cons c rest ih =>
    rw [backslashes_cons]
    unfold readLines at h
    split at h
    · obtain ⟨entry, hentry, h⟩ := Option.bind_eq_some_iff.mp h
      obtain ⟨entries', hentries, rfl⟩ := Option.map_eq_some_iff.mp h
      have hrest := ih hentries
      cases hs : entry.sample? with
      | none =>
        simp only [samples, List.filterMap_cons, hs, backslashes, List.count_nil] at hrest ⊢
        omega
      | some s =>
        have hfirst := escapes_readLine hentry hs
        simp only [samples, List.filterMap_cons, hs, List.map_cons, List.sum_cons, backslashes,
          List.count_nil] at hrest hfirst ⊢
        omega
    · have hrest := ih h
      rw [backslashes_append, backslashes_cons] at hrest
      simp only [backslashes, List.count_nil] at hrest ⊢
      omega

/-- The label values in a text ask for no more backslashes than there are in it. -/
theorem escapes_readText {text : String} {entries : List Entry} (h : readText text = some entries) :
    ((samples entries).map Sample.escapes).sum ≤ backslashes text.toList := by
  simpa [backslashes] using escapes_readLines h

/-! ### Texts that are read back -/

/-- The text of labels whose values stand for themselves. -/
def labelText : List (String × String) → List Char
  | [] => []
  | [label] => label.1.toList ++ '=' :: '"' :: (label.2.toList ++ ['"'])
  | label :: labels =>
    label.1.toList ++ '=' :: '"' :: (label.2.toList ++ '"' :: ',' :: labelText labels)

/-- The text of a sample with an integer value, where braces stand only around labels. -/
def sampleText (name : String) (labels : List (String × String)) (x : Int) : List Char :=
  match labels with
  | [] => name.toList ++ ' ' :: (formatInt x).toList
  | labels => name.toList ++ '{' :: (labelText labels ++ '}' :: ' ' :: (formatInt x).toList)

def helpText (name text : String) : List Char :=
  '#' :: ' ' :: ("HELP".toList ++ ' ' :: (name.toList ++ ' ' :: text.toList))

def Kind.text : Kind → String
  | .counter => "counter"
  | .gauge => "gauge"
  | .histogram => "histogram"
  | .summary => "summary"
  | .untyped => "untyped"

def typeText (name : String) (kind : Kind) : List Char :=
  '#' :: ' ' :: ("TYPE".toList ++ ' ' :: (name.toList ++ ' ' :: kind.text.toList))

/-- A label whose value stands for itself. -/
def PlainLabel (label : String × String) : Prop := isName false label.1.toList ∧ Plain label.2

/-- One line, from which this is read. -/
structure ReadsAs (line : List Char) (entry : Entry) : Prop where
  line_feed : '\n' ∉ line
  read : readLine line = some entry

theorem isNameChar_of_isName {colon : Bool} {name : List Char} (h : isName colon name) :
    ∀ c ∈ name, isNameChar colon c := by
  cases name with
  | nil => exact nofun
  | cons c rest =>
    simp only [isName, Bool.and_eq_true] at h
    exact List.all_eq_true.mp h.2

theorem ne_nil_of_isName {colon : Bool} {name : List Char} (h : isName colon name) : name ≠ [] := by
  rintro rfl
  cases h

theorem notMem_name {colon : Bool} {name : List Char} (hname : isName colon name) {c : Char}
    (hc : isNameChar colon c = false) : c ∉ name := by
  intro hmem
  rw [isNameChar_of_isName hname c hmem] at hc
  cases hc

theorem isBlank_name {colon : Bool} {name : List Char} (hname : isName colon name) :
    ∀ c ∈ name, isBlank c = false := by
  intro c hc
  by_contra hblank
  simp only [isBlank, Bool.not_eq_false, Bool.or_eq_true, decide_eq_true_eq] at hblank
  rcases hblank with rfl | rfl
  · exact notMem_name hname (by cases colon <;> decide) hc
  · exact notMem_name hname (by cases colon <;> decide) hc

theorem readName_append {colon : Bool} {name : String} (hname : isName colon name.toList) {c : Char}
    (hc : isNameChar colon c = false) (rest : List Char) :
    readName colon (name.toList ++ c :: rest) = some (name, c :: rest) := by
  have hall := isNameChar_of_isName hname
  have htake : (name.toList ++ c :: rest).takeWhile (isNameChar colon) = name.toList := by
    rw [List.takeWhile_append_of_pos hall, List.takeWhile_cons_of_neg (by simp [hc]),
      List.append_nil]
  have hdrop : (name.toList ++ c :: rest).dropWhile (isNameChar colon) = c :: rest := by
    rw [List.dropWhile_append_of_pos hall, List.dropWhile_cons_of_neg (by simp [hc])]
  rw [readName, htake, hdrop, if_pos hname, String.ofList_toList]

/-- A name does not begin with a blank, so that nothing is skipped before it. -/
theorem skipBlanks_name {colon : Bool} {name : List Char} (hname : isName colon name)
    (rest : List Char) :
    skipBlanks (name ++ rest) = name ++ rest := by
  cases name with
  | nil => cases hname
  | cons c cs =>
    exact List.dropWhile_cons_of_neg (by simp [isBlank_name hname c List.mem_cons_self])

theorem expect_name {colon : Bool} {name : List Char} (hname : isName colon name) {c : Char}
    (hc : isNameChar colon c = false) (rest : List Char) : expect c (name ++ rest) = none := by
  rw [expect, skipBlanks_name hname]
  cases name with
  | nil => cases hname
  | cons d cs =>
    refine if_neg ?_
    rintro rfl
    exact notMem_name hname hc List.mem_cons_self

theorem expect_self {c : Char} (hc : isBlank c = false) (rest : List Char) :
    expect c (c :: rest) = some rest := by
  rw [expect, skipBlanks, List.dropWhile_cons_of_neg (by simp [hc])]
  exact if_pos rfl

theorem readLabelValue_plain {value : List Char} (hplain : ∀ c ∈ value, isSpecial c = false)
    (rest : List Char) : readLabelValue (value ++ '"' :: rest) = some (value, rest) := by
  induction value with
  | nil => rfl
  | cons c value ih =>
    have hc := hplain c List.mem_cons_self
    have hvalue := ih fun d hd => hplain d (List.mem_cons_of_mem c hd)
    simp only [isSpecial, Bool.or_eq_false_iff, decide_eq_false_iff_not] at hc
    obtain ⟨⟨hslash, hquote⟩, hfeed⟩ := hc
    rw [List.cons_append]
    unfold readLabelValue
    split <;> simp_all

theorem readLabel_plain {label : String × String} (h : PlainLabel label) (rest : List Char) :
    readLabel (label.1.toList ++ '=' :: '"' :: (label.2.toList ++ '"' :: rest)) =
      some (label, rest) := by
  rw [readLabel, skipBlanks_name h.1, readName_append h.1 (by decide)]
  simp only [Option.bind_eq_bind, Option.bind_some,
    expect_self (show isBlank '=' = false by decide),
    expect_self (show isBlank '"' = false by decide), readLabelValue_plain h.2,
    String.ofList_toList]

theorem labelText_cons (label label' : String × String) (labels : List (String × String)) :
    labelText (label :: label' :: labels) =
      label.1.toList ++ '=' :: '"' ::
        (label.2.toList ++ '"' :: ',' :: labelText (label' :: labels)) :=
  rfl

theorem readLabels_labelText {labels : List (String × String)}
    (hlabels : ∀ label ∈ labels, PlainLabel label) {n : Nat} (hn : labels.length < n)
    (rest : List Char) :
    readLabels n (labelText labels ++ '}' :: rest) = some (labels, rest) := by
  obtain ⟨n, rfl⟩ : ∃ m, n = m + 1 := ⟨n - 1, by omega⟩
  induction labels generalizing n with
  | nil => rw [readLabels, labelText, List.nil_append, expect_self (by decide)]
  | cons label labels ih =>
    have hlabel := hlabels label List.mem_cons_self
    cases labels with
    | nil =>
      simp only [labelText, List.append_assoc, List.cons_append, List.nil_append]
      rw [readLabels, expect_name hlabel.1 (by decide)]
      simp only [readLabel_plain hlabel, Option.bind_some]
      rfl
    | cons label' labels =>
      obtain ⟨m, rfl⟩ : ∃ m, n = m + 1 := ⟨n - 1, by simp at hn; omega⟩
      have hrest := ih (fun l hl => hlabels l (List.mem_cons_of_mem _ hl)) m (by simpa using hn)
      rw [labelText_cons]
      simp only [List.append_assoc, List.cons_append]
      rw [readLabels, expect_name hlabel.1 (by decide)]
      simp only [readLabel_plain hlabel, Option.bind_some,
        expect_self (show isBlank ',' = false by decide), hrest, Option.map_some]

theorem backslashes_name {colon : Bool} {name : List Char} (hname : isName colon name) :
    backslashes name = 0 := by
  rw [backslashes, List.count_eq_zero]
  exact notMem_name hname (by cases colon <;> decide)

/-- The backslashes in the text are those of the values. -/
theorem backslashes_labelText {labels : List (String × String)}
    (hnames : ∀ n ∈ labels.map (·.1), isName false n.toList) :
    backslashes (labelText labels) = (labels.map fun label => backslashes label.2.toList).sum := by
  induction labels with
  | nil => rfl
  | cons label labels ih =>
    have hname := backslashes_name (hnames label.1 List.mem_cons_self)
    cases labels with
    | nil => simp [labelText, backslashes_append, backslashes_cons, hname]
    | cons label' labels =>
      have hrest := ih fun n hn => hnames n (List.mem_cons_of_mem _ hn)
      rw [labelText_cons, List.map_cons, List.sum_cons, ← hrest]
      simp [backslashes_append, backslashes_cons, hname]

theorem length_lt_labelText {labels : List (String × String)} (h : labels ≠ []) :
    labels.length < (labelText labels).length := by
  induction labels with
  | nil => exact absurd rfl h
  | cons label labels ih =>
    cases labels with
    | nil =>
      simp only [labelText, List.length_append, List.length_cons]
      omega
    | cons label' labels =>
      have hrest := ih nofun
      rw [labelText_cons]
      simp only [List.length_append, List.length_cons] at hrest ⊢
      omega

theorem words_single {word : List Char} (hword : word ≠ [])
    (hblank : ∀ c ∈ word, isBlank c = false) :
    words (' ' :: word) = [word] := by
  have hsplit : word.splitOnP isBlank = [word] :=
    List.splitOnP_eq_singleton fun c hc => by simp [hblank c hc]
  rw [words, List.splitOnP_cons_eq_if_modifyHead, if_pos (by decide), hsplit]
  simp [hword]

theorem isBlank_formatInt {x : Int} {c : Char} (hc : c ∈ (formatInt x).toList) :
    isBlank c = false := by
  simp only [isBlank, Bool.or_eq_false_iff, decide_eq_false_iff_not]
  constructor
  · rintro rfl
    exact notMem_formatInt x (by decide) (by decide) hc
  · rintro rfl
    exact notMem_formatInt x (by decide) (by decide) hc

theorem readDecimal_toDigits (n : Nat) : readDecimal (Nat.toDigits 10 n) = some (n : ℚ) := by
  have hall : ∀ c ∈ Nat.toDigits 10 n, c.isDigit := fun c => isDigit_of_mem_digits
  have hdrop : (Nat.toDigits 10 n).dropWhile Char.isDigit = [] := List.dropWhile_eq_nil_iff.mpr hall
  have htake : (Nat.toDigits 10 n).takeWhile Char.isDigit = Nat.toDigits 10 n :=
    List.takeWhile_eq_self_iff.mpr hall
  rw [readDecimal, hdrop]
  simp only [htake, readScaled, List.append_nil, Nat.toDigits_ne_nil, if_false, readExponent]
  simp

theorem readSigned_toDigits (negative : Bool) (n : Nat) :
    readSigned negative (Nat.toDigits 10 n) = some (.number (if negative then -n else n)) := by
  have hne : Nat.toDigits 10 n ≠ "Inf".toList := by
    intro heq
    have : 'I'.isDigit := isDigit_of_mem_digits (n := n) (heq ▸ by decide)
    cases this
  rw [readSigned, if_neg hne, readDecimal_toDigits]
  rfl

theorem readValue_formatInt (x : Int) : readValue (formatInt x).toList = some (.number x) := by
  have hne : (formatInt x).toList ≠ "NaN".toList := by
    intro heq
    exact notMem_formatInt x (c := 'N') (by decide) (by decide) (heq ▸ by decide)
  have htext := formatInt_toList x
  unfold readValue
  rw [if_neg hne]
  by_cases hx : 0 ≤ x
  · rw [if_pos hx] at htext
    have hsign {c : Char} {digits : List Char} (h : (formatInt x).toList = c :: digits) :
        c.isDigit :=
      isDigit_of_mem_digits (n := x.toNat) (by simp [← htext, h])
    split
    case h_1 heq => exact absurd (hsign heq) (by decide)
    case h_2 heq => exact absurd (hsign heq) (by decide)
    case h_3 =>
      rw [htext, readSigned_toDigits, if_neg Bool.false_ne_true, ← Int.cast_natCast,
        Int.toNat_of_nonneg hx]
  · rw [if_neg hx] at htext
    simp only [htext]
    rw [readSigned_toDigits, if_pos rfl, ← Int.cast_natCast, Int.toNat_of_nonneg (by omega),
      Int.cast_neg, neg_neg]

theorem expect_brace_formatInt (x : Int) : expect '{' (' ' :: (formatInt x).toList) = none := by
  have hne := formatInt_ne_nil x
  have hbrace := notMem_formatInt x (c := '{') (by decide) (by decide)
  have hblank := fun c => @isBlank_formatInt x c
  cases htext : (formatInt x).toList with
  | nil => exact absurd htext hne
  | cons c rest =>
    rw [htext] at hbrace hblank
    rw [expect, skipBlanks, List.dropWhile_cons_of_pos (by decide),
      List.dropWhile_cons_of_neg (by simp [hblank c List.mem_cons_self])]
    refine if_neg ?_
    rintro rfl
    exact hbrace List.mem_cons_self

theorem readSample_sampleText {name : String} (hname : isName true name.toList)
    {labels : List (String × String)} (hlabels : ∀ label ∈ labels, PlainLabel label) (x : Int) :
    readSample (sampleText name labels x) = some { name, labels, value := .number x } := by
  have hset : ∃ c rest, isNameChar true c = false ∧
      sampleText name labels x = name.toList ++ c :: rest ∧
        readLabelSet (c :: rest) = some (labels, ' ' :: (formatInt x).toList) := by
    cases labels with
    | nil =>
      refine ⟨' ', (formatInt x).toList, by decide, rfl, ?_⟩
      rw [readLabelSet, expect_brace_formatInt]
    | cons label labels =>
      refine ⟨'{', labelText (label :: labels) ++ '}' :: ' ' :: (formatInt x).toList, by
        decide, rfl, ?_⟩
      have hlength := @length_lt_labelText (label :: labels) nofun
      rw [readLabelSet, expect_self (by decide)]
      refine readLabels_labelText hlabels ?_ _
      rw [List.length_append]
      omega
  obtain ⟨c, rest, hc, hsample, hlabelSet⟩ := hset
  rw [readSample, hsample, readName_append hname hc]
  simp only [Option.bind_eq_bind, Option.bind_some, hlabelSet,
    words_single (formatInt_ne_nil x) fun c => isBlank_formatInt, readValue_formatInt,
    Option.map_some]

theorem lineFeed_notMem_name {colon : Bool} {name : List Char} (hname : isName colon name) :
    '\n' ∉ name :=
  notMem_name hname (by cases colon <;> decide)

theorem lineFeed_notMem_plain {value : String} (hplain : Plain value) : '\n' ∉ value.toList :=
  fun hmem => absurd (hplain _ hmem) (by decide)

theorem lineFeed_notMem_labelText {labels : List (String × String)}
    (hlabels : ∀ label ∈ labels, PlainLabel label) : '\n' ∉ labelText labels := by
  induction labels with
  | nil => exact List.not_mem_nil
  | cons label labels ih =>
    have hlabel := hlabels label List.mem_cons_self
    have hname := lineFeed_notMem_name hlabel.1
    have hvalue := lineFeed_notMem_plain hlabel.2
    cases labels with
    | nil => simp [labelText, hname, hvalue]
    | cons label' labels =>
      have hrest := ih fun l hl => hlabels l (List.mem_cons_of_mem _ hl)
      rw [labelText_cons]
      simp [hname, hvalue, hrest]

theorem readLine_name {name : List Char} (hname : isName true name) (rest : List Char) :
    readLine (name ++ rest) = (readSample (name ++ rest)).map .sample := by
  rw [readLine, skipBlanks_name hname]
  cases name with
  | nil => cases hname
  | cons c cs =>
    rw [List.cons_append]
    split
    case h_1 heq => cases heq
    case h_2 heq =>
      obtain ⟨rfl, -⟩ := List.cons.inj heq
      exact absurd List.mem_cons_self (notMem_name hname (by decide))
    case h_3 => rfl

theorem readsAs_sampleText {name : String} (hname : isName true name.toList)
    {labels : List (String × String)} (hlabels : ∀ label ∈ labels, PlainLabel label) (x : Int) :
    ReadsAs (sampleText name labels x) (.sample { name, labels, value := .number x }) := by
  have hnumber := notMem_formatInt x (c := '\n') (by decide) (by decide)
  have hfeed := lineFeed_notMem_name hname
  constructor
  · have htext := lineFeed_notMem_labelText hlabels
    unfold sampleText
    split
    · simp [hfeed, hnumber]
    · simp [hfeed, hnumber, htext]
  · have hread : readLine (sampleText name labels x) =
        (readSample (sampleText name labels x)).map .sample := by
      unfold sampleText
      split <;> exact readLine_name hname _
    rw [hread, readSample_sampleText hname hlabels]
    rfl

/-! ### Help texts and types -/

theorem readWord_append {word : List Char} (hword : ∀ c ∈ word, isBlank c = false) (hne : word ≠ [])
    (rest : List Char) : readWord (word ++ ' ' :: rest) = (word, skipBlanks rest) := by
  have hall : ∀ c ∈ word, (!isBlank c) = true := fun c hc => by simp [hword c hc]
  have hskip : skipBlanks (word ++ ' ' :: rest) = word ++ ' ' :: rest := by
    cases word with
    | nil => exact absurd rfl hne
    | cons c cs => exact List.dropWhile_cons_of_neg (by simp [hword c List.mem_cons_self])
  rw [readWord, hskip, List.takeWhile_append_of_pos hall, List.dropWhile_append_of_pos hall]
  simp [skipBlanks, isBlank]

theorem readWord_blank (cs : List Char) : readWord (' ' :: cs) = readWord cs := rfl

/-- The two words at the start of a comment with a name in it. -/
theorem readComment_words {word : List Char} (hword : ∀ c ∈ word, isBlank c = false)
    (hne : word ≠ []) {name : List Char} (hname : isName true name) (rest : List Char) :
    readWord (' ' :: (word ++ ' ' :: (name ++ ' ' :: rest))) = (word, name ++ ' ' :: rest) ∧
      readWord (name ++ ' ' :: rest) = (name, skipBlanks rest) := by
  constructor
  · rw [readWord_blank, readWord_append hword hne, skipBlanks_name hname]
  · exact readWord_append (isBlank_name hname) (ne_nil_of_isName hname) rest

theorem readLine_comment (cs : List Char) : readLine ('#' :: cs) = readComment cs := by
  rw [readLine, skipBlanks, List.dropWhile_cons_of_neg (by decide)]
  rfl

theorem readHelpText_plain {text : List Char} (h : '\\' ∉ text) :
    readHelpText text = some text := by
  induction text with
  | nil => rfl
  | cons c text ih =>
    obtain ⟨hc, htext⟩ := not_or.mp (List.mem_cons.not.mp h)
    unfold readHelpText
    split <;> simp_all

theorem readsAs_helpText {name text : String} (hname : isName true name.toList)
    (hslash : '\\' ∉ text.toList) (hfeed : '\n' ∉ text.toList)
    (hblank : skipBlanks text.toList = text.toList) :
    ReadsAs (helpText name text) (.help name text) := by
  obtain ⟨hword, hrest⟩ :=
    readComment_words (isBlank_name (show isName true "HELP".toList by decide)) (by decide)
    hname text.toList
  constructor
  · simp [helpText, lineFeed_notMem_name hname, hfeed]
  · rw [helpText, readLine_comment, readComment, hword]
    simp only [hrest, hblank, hname, if_true, readHelpText_plain hslash, Option.map_some,
      String.ofList_toList]

theorem readKind_text (kind : Kind) : readKind kind.text.toList = some kind := by
  rw [readKind, String.ofList_toList]
  cases kind <;> rfl

theorem readsAs_typeText {name : String} (hname : isName true name.toList) (kind : Kind) :
    ReadsAs (typeText name kind) (.type name kind) := by
  obtain ⟨hword, hrest⟩ :=
    readComment_words (isBlank_name (show isName true "TYPE".toList by decide)) (by decide)
    hname kind.text.toList
  have hkind : isName true kind.text.toList := by cases kind <;> decide
  have hwords : words kind.text.toList = [kind.text.toList] := by cases kind <;> decide
  have hskip : skipBlanks kind.text.toList = kind.text.toList := by cases kind <;> decide
  have hnot : ("TYPE".toList = "HELP".toList) = False := eq_false (by decide)
  constructor
  · simp [typeText, lineFeed_notMem_name hname, lineFeed_notMem_name hkind]
  · rw [typeText, readLine_comment, readComment, hword]
    simp only [hrest, hname, if_true, hnot, if_false, hskip, hwords, readKind_text, Option.map_some,
      String.ofList_toList]

/-! ### Many lines -/

theorem readLines_append {part : List Char} (hpart : '\n' ∉ part) (line rest : List Char) :
    readLines (part ++ rest) line = readLines rest (line ++ part) := by
  induction part generalizing line with
  | nil => simp
  | cons c part ih =>
    obtain ⟨hc, hpart⟩ := not_or.mp (List.mem_cons.not.mp hpart)
    rw [List.cons_append, readLines, if_neg (Ne.symm hc), ih hpart, List.append_assoc,
      List.singleton_append]

theorem readLines_line (hline : '\n' ∉ line) (rest : List Char) :
    readLines (line ++ '\n' :: rest) [] =
      (readLine line).bind fun entry => (readLines rest []).map (entry :: ·) := by
  rw [readLines_append hline, List.nil_append, readLines, if_pos rfl]

/-- A text is read line by line. -/
theorem readLines_lines {lines : List (List Char)} {entries : List Entry}
    (h : List.Forall₂ ReadsAs lines entries) :
    readLines (lines.flatMap (· ++ ['\n'])) [] = some entries := by
  induction h with
  | nil => rfl
  | @cons line entry lines entries hline _ ih =>
    rw [List.flatMap_cons, List.append_assoc, List.singleton_append, readLines_line hline.line_feed,
      hline.read, Option.bind_some, ih]
    rfl

end LlmProxy.ProofKit.Exposition
