import LlmProxy.ProofKit.Json
import LlmProxy.ProofKit.Url
import Mathlib.Data.List.TakeWhile

/-! The text of JSON values: what Go's `json.Marshal` writes and what `json.Unmarshal` reads.  The
writer puts no blanks between the tokens and escapes the characters that have a meaning in HTML; the
reader takes any JSON.  A text is the list of its characters. -/

namespace LlmProxy.ProofKit.Json

/-! ### Writing -/

def lowerHex (n : Nat) : Char := if n < 10 then Char.ofNat (48 + n) else Char.ofNat (87 + n)

/-- A character within a string. -/
def escapeChar (c : Char) : List Char :=
  if c = '"' then ['\\', '"']
  else if c = '\\' then ['\\', '\\']
  else if c = '\x08' then ['\\', 'b']
  else if c = '\x0c' then ['\\', 'f']
  else if c = '\n' then ['\\', 'n']
  else if c = '\r' then ['\\', 'r']
  else if c = '\t' then ['\\', 't']
  else if c.toNat < 0x20 ∨ c = '<' ∨ c = '>' ∨ c = '&' then
    ['\\', 'u', '0', '0', lowerHex (c.toNat / 16), lowerHex (c.toNat % 16)]
  else if c = '\u2028' then ['\\', 'u', '2', '0', '2', '8']
  else if c = '\u2029' then ['\\', 'u', '2', '0', '2', '9']
  else [c]

def writeString (s : String) : List Char := '"' :: (s.toList.flatMap escapeChar ++ ['"'])

mutual

/-- `json.Marshal`. -/
def write : Json → List Char
  | null => "null".toList
  | bool true => "true".toList
  | bool false => "false".toList
  | num literal => literal.toList
  | str s => writeString s
  | arr [] => ['[', ']']
  | arr (v :: vs) => '[' :: (write v ++ writeItems vs)
  | obj [] => ['{', '}']
  | obj ((k, v) :: ms) => '{' :: (writeString k ++ ':' :: (write v ++ writeMembers ms))

/-- The items after the first one. -/
def writeItems : List Json → List Char
  | [] => [']']
  | v :: vs => ',' :: (write v ++ writeItems vs)

def writeMembers : List (String × Json) → List Char
  | [] => ['}']
  | (k, v) :: ms => ',' :: (writeString k ++ ':' :: (write v ++ writeMembers ms))

end

/-! ### Numbers -/

/-- One digit or more. -/
def readDigits : List Char → Option (List Char)
  | [] => none
  | c :: cs => if c.isDigit then some (cs.dropWhile Char.isDigit) else none

def readMinus : List Char → List Char
  | [] => []
  | c :: cs => if c = '-' then cs else c :: cs

/-- No digit follows a zero at the front. -/
def readWhole : List Char → Option (List Char)
  | [] => none
  | c :: cs => if c = '0' then some cs else readDigits (c :: cs)

def readFraction : List Char → Option (List Char)
  | [] => some []
  | c :: cs => if c = '.' then readDigits cs else some (c :: cs)

def readSign : List Char → List Char
  | [] => []
  | c :: cs => if c = '+' ∨ c = '-' then cs else c :: cs

def readExponent : List Char → Option (List Char)
  | [] => some []
  | c :: cs => if c = 'e' ∨ c = 'E' then readDigits (readSign cs) else some (c :: cs)

/-- The grammar of numbers. -/
def isNumber (cs : List Char) : Bool :=
  ((readWhole (readMinus cs)).bind readFraction).bind readExponent = some []

/-- The characters that numbers are made of.  None of them follows a number in JSON. -/
def isNumberChar (c : Char) : Bool :=
  c.isDigit || c = '-' || c = '+' || c = '.' || c = 'e' || c = 'E'

/-! ### Reading -/

def isBlank (c : Char) : Bool := c = ' ' || c = '\t' || c = '\r' || c = '\n'

def skipBlanks (cs : List Char) : List Char := cs.dropWhile isBlank

/-- The character of an escape that is not `\u`. -/
def simpleEscape (c : Char) : Option Char :=
  if c = '"' ∨ c = '\\' ∨ c = '/' then some c
  else if c = 'b' then some '\x08'
  else if c = 'f' then some '\x0c'
  else if c = 'n' then some '\n'
  else if c = 'r' then some '\r'
  else if c = 't' then some '\t'
  else none

/-- The code of `\u` with these four digits. -/
def hex4 (a b c d : Char) : Option Nat := do
  let a ← Url.hexDigit? a
  let b ← Url.hexDigit? b
  let c ← Url.hexDigit? c
  let d ← Url.hexDigit? d
  some (((a * 16 + b) * 16 + c) * 16 + d)

def isSurrogate (code : Nat) : Bool := 0xd800 ≤ code && code < 0xe000

/-- `utf16.DecodeRune`, if the codes are those of a pair. -/
def decodePair (high low : Nat) : Option Nat :=
  if 0xd800 ≤ high ∧ high < 0xdc00 ∧ 0xdc00 ≤ low ∧ low < 0xe000 then
    some ((high - 0xd800) * 0x400 + (low - 0xdc00) + 0x10000)
  else none

/-- A surrogate that turned out not to be the first of a pair. -/
def lone : Option Nat → List Char
  | none => []
  | some _ => ['\ufffd']

/-- The rest of a string after its first quote, up to the second one.  `pending` is a surrogate that
the text before ends with. -/
def readQuoted (pending : Option Nat) : List Char → Option (List Char × List Char)
  | [] => none
  | '"' :: rest => some (lone pending, rest)
  | '\\' :: 'u' :: a :: b :: c :: d :: rest => do
    let code ← hex4 a b c d
    match pending.bind (decodePair · code) with
    | some pair => (readQuoted none rest).map fun (s, rest) => (Char.ofNat pair :: s, rest)
    | none =>
      if isSurrogate code then (readQuoted (some code) rest).map fun (s, rest) =>
        (lone pending ++ s, rest)
      else (readQuoted none rest).map fun (s, rest) => (lone pending ++ Char.ofNat code :: s, rest)
  | '\\' :: c :: rest => do
    let c ← simpleEscape c
    (readQuoted none rest).map fun (s, rest) => (lone pending ++ c :: s, rest)
  | c :: rest =>
    if c = '\\' ∨ c.toNat < 0x20 then none
    else (readQuoted none rest).map fun (s, rest) => (lone pending ++ c :: s, rest)

/-- One of the three words. -/
def readWord (word : String) (v : Json) (cs : List Char) : Option (Json × List Char) :=
  if word.toList.isPrefixOf cs then some (v, cs.drop word.toList.length) else none

def readNumber (cs : List Char) : Option (Json × List Char) :=
  if isNumber (cs.takeWhile isNumberChar) then
    some (num (String.ofList (cs.takeWhile isNumberChar)), cs.dropWhile isNumberChar)
  else none

mutual

/-- A value, and what follows it. -/
def readValue : Nat → List Char → Option (Json × List Char)
  | 0, _ => none
  | fuel + 1, cs =>
    match skipBlanks cs with
    | [] => none
    | c :: rest =>
      if c = '"' then (readQuoted none rest).map fun (s, rest) => (str (String.ofList s), rest)
      else if c = '[' then
        match skipBlanks rest with
        | ']' :: rest => some (arr [], rest)
        | _ => (readItemList fuel rest).map fun (vs, rest) => (arr vs, rest)
      else if c = '{' then
        match skipBlanks rest with
        | '}' :: rest => some (obj [], rest)
        | _ => (readMemberList fuel rest).map fun (ms, rest) => (obj ms, rest)
      else if c = 'n' then readWord "null" null (c :: rest)
      else if c = 't' then readWord "true" (bool true) (c :: rest)
      else if c = 'f' then readWord "false" (bool false) (c :: rest)
      else readNumber (c :: rest)

def readItemList : Nat → List Char → Option (List Json × List Char)
  | 0, _ => none
  | fuel + 1, cs => do
    let (v, rest) ← readValue fuel cs
    match skipBlanks rest with
    | ',' :: rest => (readItemList fuel rest).map fun (vs, rest) => (v :: vs, rest)
    | ']' :: rest => some ([v], rest)
    | _ => none

def readMemberList : Nat → List Char → Option (List (String × Json) × List Char)
  | 0, _ => none
  | fuel + 1, cs =>
    match skipBlanks cs with
    | '"' :: rest => do
      let (k, rest) ← readQuoted none rest
      match skipBlanks rest with
      | ':' :: rest => do
        let (v, rest) ← readValue fuel rest
        match skipBlanks rest with
        | ',' :: rest => (readMemberList fuel rest).map fun (ms, rest) =>
          ((String.ofList k, v) :: ms, rest)
        | '}' :: rest => some ([(String.ofList k, v)], rest)
        | _ => none
      | _ => none
    | _ => none

end

mutual

/-- How deep arrays and objects are nested. -/
def depth : Json → Nat
  | arr vs => itemsDepth vs + 1
  | obj ms => membersDepth ms + 1
  | _ => 0

def itemsDepth : List Json → Nat
  | [] => 0
  | v :: vs => max (depth v) (itemsDepth vs)

def membersDepth : List (String × Json) → Nat
  | [] => 0
  | (_, v) :: ms => max (depth v) (membersDepth ms)

end

def maxNestingDepth : Nat := 10000

/-- `json.Unmarshal` into a variable of type `any`, before numbers are converted. -/
def read (cs : List Char) : Option Json :=
  match readValue (cs.length + 1) cs with
  | some (v, rest) => if skipBlanks rest = [] ∧ v.depth ≤ maxNestingDepth then some v else none
  | none => none

/-! ### Strings are read back -/

theorem hexDigit_lowerHex : ∀ n < 16, Url.hexDigit? (lowerHex n) = some n := by decide

theorem hex4_lowerHex {n : Nat} (h : n < 256) :
    hex4 '0' '0' (lowerHex (n / 16)) (lowerHex (n % 16)) = some n := by
  have hhigh := hexDigit_lowerHex (n / 16) (by omega)
  have hlow := hexDigit_lowerHex (n % 16) (by omega)
  have hzero : Url.hexDigit? '0' = some 0 := by decide
  simp only [hex4, hzero, hhigh, hlow, Option.bind_eq_bind, Option.bind_some, Option.some.injEq]
  omega

theorem readQuoted_code {a b c d : Char} {code : Nat} (h : hex4 a b c d = some code)
    (hsingle : isSurrogate code = false) (rest : List Char) :
    readQuoted none ('\\' :: 'u' :: a :: b :: c :: d :: rest) =
      (readQuoted none rest).map fun (s, rest) => (Char.ofNat code :: s, rest) := by
  simp only [readQuoted, h, Option.bind_eq_bind, Option.bind_some, Option.bind_none, hsingle, lone]
  rfl

theorem readQuoted_simple {c e : Char} (h : simpleEscape c = some e) (rest : List Char) :
    readQuoted none ('\\' :: c :: rest) = (readQuoted none rest).map fun (s, rest) =>
      (e :: s, rest) := by
  have hu : c ≠ 'u' := by
    rintro rfl
    cases h
  rw [readQuoted]
  · simp [h, lone]
  · intro a b c' d rest' hc
    exact absurd hc hu

theorem readQuoted_plain {c : Char} (hquote : c ≠ '"') (hslash : c ≠ '\\')
    (hcontrol : ¬ c.toNat < 0x20) (rest : List Char) :
    readQuoted none (c :: rest) = (readQuoted none rest).map fun (s, rest) => (c :: s, rest) := by
  rw [readQuoted]
  · simp [hslash, hcontrol, lone]
  · exact hquote
  · intro a b c' d rest' hc
    exact absurd hc hslash
  · intro e rest' hc
    exact absurd hc hslash

/-- A text without control characters. -/
def Printable (text : List Char) : Prop := ∀ c ∈ text, 0x20 ≤ c.toNat

instance (text : List Char) : Decidable (Printable text) := List.decidableBAll _ text

theorem Printable.cons {c : Char} {text : List Char} (hc : 0x20 ≤ c.toNat) (h : Printable text) :
    Printable (c :: text) := List.forall_mem_cons.mpr ⟨hc, h⟩

theorem Printable.append {text text' : List Char} (h : Printable text) (h' : Printable text') :
    Printable (text ++ text') := fun c hc => (List.mem_append.mp hc).elim (h c) (h' c)

/-- The texts that a character can have within a string. -/
inductive Escaped (c : Char) : List Char → Prop
  | simple {e : Char} : simpleEscape e = some c → Printable [e] → Escaped c ['\\', e]
  | code {d₁ d₂ d₃ d₄ : Char} : hex4 d₁ d₂ d₃ d₄ = some c.toNat → isSurrogate c.toNat = false →
      Printable [d₁, d₂, d₃, d₄] → Escaped c ['\\', 'u', d₁, d₂, d₃, d₄]
  | plain : c ≠ '"' → c ≠ '\\' → ¬ c.toNat < 0x20 → Escaped c [c]

theorem escaped_code {c : Char} (h : c.toNat < 256) :
    Escaped c ['\\', 'u', '0', '0', lowerHex (c.toNat / 16), lowerHex (c.toNat % 16)] := by
  have hhex : ∀ n < 16, 0x20 ≤ (lowerHex n).toNat := by decide
  have hdigits : Printable [lowerHex (c.toNat / 16), lowerHex (c.toNat % 16)] :=
    .cons (hhex _ (by omega)) (.cons (hhex _ (by omega)) (by decide))
  refine .code (hex4_lowerHex h) ?_ (.cons (by decide) (.cons (by decide) hdigits))
  simp only [isSurrogate, Bool.and_eq_false_iff, decide_eq_false_iff_not]
  omega

/-- The nine texts with a backslash, in the order of the tests, and then the character itself. -/
theorem escaped_escapeChar (c : Char) : Escaped c (escapeChar c) := by
  have hsimple {d e : Char} (h : c = d) (hread : simpleEscape e = some d) (hprint : Printable [e]) :
      Escaped c ['\\', e] := .simple (h ▸ hread) hprint
  have hsmall (h : c.toNat < 0x20 ∨ c = '<' ∨ c = '>' ∨ c = '&') : c.toNat < 256 := by
    rcases h with h | rfl | rfl | rfl
    · omega
    all_goals decide
  unfold escapeChar
  refine iteInduction (motive := Escaped c)
    (fun h => hsimple h (by decide) (by decide)) fun hquote => ?_
  refine iteInduction (motive := Escaped c)
    (fun h => hsimple h (by decide) (by decide)) fun hslash => ?_
  refine iteInduction (motive := Escaped c) (fun h => hsimple h (by decide) (by decide)) fun _ => ?_
  refine iteInduction (motive := Escaped c) (fun h => hsimple h (by decide) (by decide)) fun _ => ?_
  refine iteInduction (motive := Escaped c) (fun h => hsimple h (by decide) (by decide)) fun _ => ?_
  refine iteInduction (motive := Escaped c) (fun h => hsimple h (by decide) (by decide)) fun _ => ?_
  refine iteInduction (motive := Escaped c) (fun h => hsimple h (by decide) (by decide)) fun _ => ?_
  refine iteInduction (motive := Escaped c) (fun h => escaped_code (hsmall h)) fun hcontrol => ?_
  refine iteInduction (motive := Escaped c)
    (fun h => .code (h ▸ by decide) (h ▸ by decide) (by decide)) fun _ => ?_
  refine iteInduction (motive := Escaped c)
    (fun h => .code (h ▸ by decide) (h ▸ by decide) (by decide)) fun _ => ?_
  exact .plain hquote hslash fun h => hcontrol (.inl h)

theorem readQuoted_escapeChar (c : Char) (rest : List Char) :
    readQuoted none (escapeChar c ++ rest) = (readQuoted none rest).map fun (s, rest) =>
      (c :: s, rest) := by
  have h := escaped_escapeChar c
  generalize escapeChar c = text at h
  cases h with
  | simple h _ => exact readQuoted_simple h rest
  | code h hsingle _ =>
    have hcode := readQuoted_code h hsingle rest
    rwa [Char.ofNat_toNat] at hcode
  | plain hquote hslash hcontrol => exact readQuoted_plain hquote hslash hcontrol rest

theorem readQuoted_flatMap (s rest : List Char) :
    readQuoted none (s.flatMap escapeChar ++ '"' :: rest) = some (s, rest) := by
  induction s with
  | nil => rfl
  | cons c s ih =>
    rw [List.flatMap_cons, List.append_assoc, readQuoted_escapeChar, ih]
    rfl

/-! ### Numbers are read back -/

/-- What was read are characters of numbers. -/
def Consumes (cs rest : List Char) : Prop := ∃ front, cs = front ++ rest ∧
    ∀ c ∈ front, isNumberChar c = true

theorem Consumes.refl (cs : List Char) : Consumes cs cs := ⟨[], rfl, by simp⟩

theorem Consumes.trans {cs mid rest : List Char} (h : Consumes cs mid) (h' : Consumes mid rest) :
    Consumes cs rest := by
  obtain ⟨front, rfl, hfront⟩ := h
  obtain ⟨back, rfl, hback⟩ := h'
  exact ⟨front ++ back, by simp, fun c hc => (List.mem_append.mp hc).elim (hfront c) (hback c)⟩

theorem Consumes.cons {c : Char} {cs rest : List Char} (hc : isNumberChar c = true)
    (h : Consumes cs rest) :
    Consumes (c :: cs) rest := by
  obtain ⟨front, rfl, hfront⟩ := h
  exact ⟨c :: front, rfl, List.forall_mem_cons.mpr ⟨hc, hfront⟩⟩

theorem isNumberChar_of_isDigit {c : Char} (h : c.isDigit = true) : isNumberChar c = true := by
  simp [isNumberChar, h]

theorem consumes_dropWhile (cs : List Char) : Consumes cs (cs.dropWhile Char.isDigit) :=
  ⟨cs.takeWhile Char.isDigit, List.takeWhile_append_dropWhile.symm, fun _ hc =>
    isNumberChar_of_isDigit (List.mem_takeWhile_imp hc)⟩

theorem consumes_readDigits {cs rest : List Char} (h : readDigits cs = some rest) :
    Consumes cs rest := by
  cases cs with
  | nil => cases h
  | cons c cs =>
    simp only [readDigits] at h
    split at h
    · next hdigit =>
      obtain rfl := Option.some.inj h
      exact (consumes_dropWhile cs).cons (isNumberChar_of_isDigit hdigit)
    · cases h

theorem consumes_readMinus (cs : List Char) : Consumes cs (readMinus cs) := by
  cases cs with
  | nil => exact .refl []
  | cons c cs =>
    simp only [readMinus]
    split
    · next hminus => exact (Consumes.refl cs).cons (hminus ▸ by decide)
    · exact .refl _

theorem consumes_readWhole {cs rest : List Char} (h : readWhole cs = some rest) :
    Consumes cs rest := by
  cases cs with
  | nil => cases h
  | cons c cs =>
    simp only [readWhole] at h
    split at h
    · next hzero =>
      obtain rfl := Option.some.inj h
      exact (Consumes.refl cs).cons (hzero ▸ by decide)
    · exact consumes_readDigits h

theorem consumes_readFraction {cs rest : List Char} (h : readFraction cs = some rest) :
    Consumes cs rest := by
  cases cs with
  | nil =>
    obtain rfl := Option.some.inj h
    exact .refl []
  | cons c cs =>
    simp only [readFraction] at h
    split at h
    · next hpoint => exact (consumes_readDigits h).cons (hpoint ▸ by decide)
    · obtain rfl := Option.some.inj h
      exact .refl _

theorem consumes_readSign (cs : List Char) : Consumes cs (readSign cs) := by
  cases cs with
  | nil => exact .refl []
  | cons c cs =>
    simp only [readSign]
    split
    · next hsign =>
      refine (Consumes.refl cs).cons ?_
      rcases hsign with rfl | rfl <;> decide
    · exact .refl _

theorem consumes_readExponent {cs rest : List Char} (h : readExponent cs = some rest) :
    Consumes cs rest := by
  cases cs with
  | nil =>
    obtain rfl := Option.some.inj h
    exact .refl []
  | cons c cs =>
    simp only [readExponent] at h
    split at h
    · next hexp =>
      refine ((consumes_readSign cs).trans (consumes_readDigits h)).cons ?_
      rcases hexp with rfl | rfl <;> decide
    · obtain rfl := Option.some.inj h
      exact .refl _

theorem isNumberChar_of_isNumber {cs : List Char} (h : isNumber cs = true) :
    ∀ c ∈ cs, isNumberChar c = true := by
  obtain ⟨mid, hmid, hexp⟩ := Option.bind_eq_some_iff.mp (of_decide_eq_true h)
  obtain ⟨whole, hwhole, hfrac⟩ := Option.bind_eq_some_iff.mp hmid
  obtain ⟨front, hfront, hall⟩ := (consumes_readMinus cs).trans ((consumes_readWhole hwhole).trans
    ((consumes_readFraction hfrac).trans (consumes_readExponent hexp)))
  rw [hfront, List.append_nil]
  exact hall

theorem isNumber_ne_nil {cs : List Char} (h : isNumber cs = true) : cs ≠ [] := by
  rintro rfl
  exact absurd h (by decide)

theorem readWhole_toDigits (n : Nat) : readWhole (Nat.toDigits 10 n) = some [] := by
  by_cases hn : n = 0
  · subst hn
    decide
  · obtain ⟨d, hd, hne, rest, hdigits⟩ := toDigits_head hn
    have hdigit : ∀ c ∈ Nat.digitChar d :: rest, c.isDigit = true :=
      fun c hc => isDigit_of_mem_digits (n := n) (hdigits ▸ hc)
    have hzero : Nat.digitChar d ≠ '0' := by
      have hall : ∀ d < 10, d ≠ 0 → Nat.digitChar d ≠ '0' := by decide
      exact hall d hd hne
    obtain ⟨hfirst, hrest⟩ := List.forall_mem_cons.mp hdigit
    rw [hdigits, readWhole, if_neg hzero, readDigits, if_pos hfirst,
      List.dropWhile_eq_nil_iff.mpr hrest]

/-- The text of an integer is a number. -/
theorem isNumber_formatInt (x : Int) : isNumber (formatInt x).toList = true := by
  have hread : readWhole (readMinus (formatInt x).toList) = some [] := by
    rw [formatInt_toList]
    split
    · have hminus : readMinus (Nat.toDigits 10 x.toNat) = Nat.toDigits 10 x.toNat := by
        obtain ⟨c, rest, hcons⟩ :=
          List.exists_cons_of_ne_nil (Nat.toDigits_ne_nil (b := 10) (n := x.toNat))
        have hdigit : c.isDigit = true :=
          isDigit_of_mem_digits (n := x.toNat) (hcons ▸ List.mem_cons_self)
        rw [hcons, readMinus, if_neg]
        rintro rfl
        exact absurd hdigit (by decide)
      rw [hminus, readWhole_toDigits]
    · exact readWhole_toDigits _
  rw [isNumber, hread]
  rfl

/-- What may follow a value: nothing that would make a number longer. -/
def Follows (rest : List Char) : Prop := ∀ c ∈ rest.head?, isNumberChar c = false

theorem Follows.cons {c : Char} (h : isNumberChar c = false) (rest : List Char) :
    Follows (c :: rest) := by
  simpa [Follows] using h

theorem readNumber_append {cs rest : List Char} (h : isNumber cs = true) (hrest : Follows rest) :
    readNumber (cs ++ rest) = some (num (String.ofList cs), rest) := by
  have hall := isNumberChar_of_isNumber h
  have htail : rest.takeWhile isNumberChar = [] ∧ rest.dropWhile isNumberChar = rest := by
    cases rest with
    | nil => exact ⟨rfl, rfl⟩
    | cons c rest =>
      have hc : isNumberChar c = false := hrest c rfl
      simp [hc]
  have htake : (cs ++ rest).takeWhile isNumberChar = cs := by
    rw [List.takeWhile_append_of_pos hall, htail.1, List.append_nil]
  have hdrop : (cs ++ rest).dropWhile isNumberChar = rest := by
    rw [List.dropWhile_append_of_pos hall, htail.2]
  rw [readNumber, htake, hdrop, if_pos h]

/-! ### Values are read back -/

mutual

/-- The literals of numbers are numbers. -/
def WellFormed : Json → Prop
  | num literal => isNumber literal.toList = true
  | arr vs => ItemsWellFormed vs
  | obj ms => MembersWellFormed ms
  | _ => True

def ItemsWellFormed : List Json → Prop
  | [] => True
  | v :: vs => v.WellFormed ∧ ItemsWellFormed vs

def MembersWellFormed : List (String × Json) → Prop
  | [] => True
  | (_, v) :: ms => v.WellFormed ∧ MembersWellFormed ms

end

mutual

/-- The fuel that reading a value takes. -/
def size : Json → Nat
  | arr vs => itemsSize vs + 1
  | obj ms => membersSize ms + 1
  | _ => 1

def itemsSize : List Json → Nat
  | [] => 0
  | v :: vs => size v + itemsSize vs + 1

def membersSize : List (String × Json) → Nat
  | [] => 0
  | (_, v) :: ms => size v + membersSize ms + 1

end

theorem isNumberChar_start : ∀ c : Char, isNumberChar c = true →
    isBlank c = false ∧ c ≠ '"' ∧ c ≠ '[' ∧ c ≠ '{' ∧ c ≠ 'n' ∧ c ≠ 't' ∧ c ≠ 'f' ∧ c ≠ ']' := by
  intro c h
  have hall : ∀ d ∈ [' ', '\t', '\r', '\n', '"', '[', '{', 'n', 't', 'f', ']'], c ≠ d := by
    rintro d hd rfl
    have hplain : ([' ', '\t', '\r', '\n', '"', '[', '{', 'n', 't', 'f', ']'].all fun d =>
        !isNumberChar d) = true := by
      decide
    simpa [h] using List.all_eq_true.mp hplain c hd
  simp only [List.forall_mem_cons] at hall
  obtain ⟨h1, h2, h3, h4, h5, h6, h7, h8, h9, h10, h11, -⟩ := hall
  exact ⟨by simp [isBlank, h1, h2, h3, h4], h5, h6, h7, h8, h9, h10, h11⟩

/-- A value starts with a character that is no blank and closes no array. -/
theorem write_head {v : Json} (h : v.WellFormed) :
    ∃ c cs, write v = c :: cs ∧ isBlank c = false ∧ c ≠ ']' := by
  cases v with
  | null => exact ⟨'n', _, rfl, by decide, by decide⟩
  | bool b =>
    cases b
    · exact ⟨'f', _, rfl, by decide, by decide⟩
    · exact ⟨'t', _, rfl, by decide, by decide⟩
  | num literal =>
    rw [WellFormed] at h
    obtain ⟨c, cs, hcons⟩ := List.exists_cons_of_ne_nil (isNumber_ne_nil h)
    obtain ⟨hblank, -, -, -, -, -, -, hclose⟩ :=
      isNumberChar_start c (isNumberChar_of_isNumber h c (hcons ▸ List.mem_cons_self))
    exact ⟨c, cs, by rw [write, hcons], hblank, hclose⟩
  | str s => exact ⟨'"', _, by rw [write, writeString], by decide, by decide⟩
  | arr vs =>
    cases vs with
    | nil => exact ⟨'[', _, by rw [write], by decide, by decide⟩
    | cons v vs => exact ⟨'[', _, by rw [write], by decide, by decide⟩
  | obj ms =>
    cases ms with
    | nil => exact ⟨'{', _, by rw [write], by decide, by decide⟩
    | cons m ms => exact ⟨'{', _, by rw [write], by decide, by decide⟩

theorem skipBlanks_of_not {c : Char} (h : isBlank c = false) (cs : List Char) :
    skipBlanks (c :: cs) = c :: cs := by
  simp [skipBlanks, h]

theorem readValue_string (fuel : Nat) (s : String) (rest : List Char) :
    readValue (fuel + 1) (writeString s ++ rest) = some (str s, rest) := by
  have hquoted := readQuoted_flatMap s.toList rest
  rw [writeString, List.cons_append, List.append_assoc, readValue, skipBlanks_of_not (by decide)]
  simp only [List.singleton_append, hquoted]
  simp

theorem readValue_number (fuel : Nat) {literal : String} (h : isNumber literal.toList = true)
    {rest : List Char} (hrest : Follows rest) :
    readValue (fuel + 1) (literal.toList ++ rest) = some (num literal, rest) := by
  obtain ⟨c, cs, hcons⟩ := List.exists_cons_of_ne_nil (isNumber_ne_nil h)
  obtain ⟨hblank, hquote, harr, hobj, hn, ht, hf, -⟩ :=
    isNumberChar_start c (isNumberChar_of_isNumber h c (hcons ▸ List.mem_cons_self))
  have hnumber := readNumber_append h hrest
  rw [hcons, List.cons_append] at hnumber ⊢
  rw [readValue, skipBlanks_of_not hblank]
  simp only [hquote, harr, hobj, hn, ht, hf, if_false, hnumber, ← hcons, String.ofList_toList]

theorem readValue_items {fuel : Nat} {c : Char} {cs : List Char} (hblank : isBlank c = false)
    (hc : c ≠ ']') :
    readValue (fuel + 1) ('[' :: c :: cs) =
      (readItemList fuel (c :: cs)).map fun (vs, rest) => (arr vs, rest) := by
  rw [readValue, skipBlanks_of_not (by decide)]
  simp only [Char.reduceEq, if_false, if_true, skipBlanks_of_not hblank]
  split
  · next heq => exact absurd (List.cons.inj heq).1 hc
  · rfl

theorem readValue_members {fuel : Nat} {c : Char} {cs : List Char} (hblank : isBlank c = false)
    (hc : c ≠ '}') :
    readValue (fuel + 1) ('{' :: c :: cs) =
      (readMemberList fuel (c :: cs)).map fun (ms, rest) => (obj ms, rest) := by
  rw [readValue, skipBlanks_of_not (by decide)]
  simp only [Char.reduceEq, if_false, if_true, skipBlanks_of_not hblank]
  split
  · next heq => exact absurd (List.cons.inj heq).1 hc
  · rfl

/-- With this fuel what was written is read back, whatever follows it. -/
structure ReadsBack (fuel : Nat) : Prop where
  value : ∀ v : Json, v.WellFormed → v.size ≤ fuel → ∀ rest, Follows rest →
    readValue fuel (write v ++ rest) = some (v, rest)
  items : ∀ (v : Json) (vs : List Json), v.WellFormed → ItemsWellFormed vs →
    itemsSize (v :: vs) ≤ fuel → ∀ rest,
      readItemList fuel (write v ++ (writeItems vs ++ rest)) = some (v :: vs, rest)
  members : ∀ (k : String) (v : Json) (ms : List (String × Json)), v.WellFormed →
    MembersWellFormed ms → membersSize ((k, v) :: ms) ≤ fuel → ∀ rest,
      readMemberList fuel (writeString k ++ ':' :: (write v ++ (writeMembers ms ++ rest))) =
        some ((k, v) :: ms, rest)

theorem follows_items (vs : List Json) (rest : List Char) : Follows (writeItems vs ++ rest) := by
  cases vs with
  | nil => exact .cons (by decide) _
  | cons v vs =>
    rw [writeItems]
    exact .cons (by decide) _

theorem follows_members (ms : List (String × Json)) (rest : List Char) :
    Follows (writeMembers ms ++ rest) := by
  cases ms with
  | nil => exact .cons (by decide) _
  | cons m ms =>
    rw [writeMembers]
    exact .cons (by decide) _

section Step

variable {fuel : Nat} (h : ReadsBack fuel)
include h

theorem ReadsBack.value_succ {v : Json} (hv : v.WellFormed) (hsize : v.size ≤ fuel + 1)
    {rest : List Char} (hrest : Follows rest) :
    readValue (fuel + 1) (write v ++ rest) = some (v, rest) := by
  cases v with
  | null => rfl
  | bool b => cases b <;> rfl
  | num literal =>
    rw [WellFormed] at hv
    rw [write]
    exact readValue_number fuel hv hrest
  | str s =>
    rw [write]
    exact readValue_string fuel s rest
  | arr vs =>
    cases vs with
    | nil => rfl
    | cons v vs =>
      rw [WellFormed, ItemsWellFormed] at hv
      rw [size] at hsize
      have hitems := h.items v vs hv.1 hv.2 (Nat.le_of_succ_le_succ hsize) rest
      obtain ⟨c, cs, hcons, hblank, hclose⟩ := write_head hv.1
      rw [write, List.cons_append, List.append_assoc]
      rw [hcons, List.cons_append] at hitems ⊢
      rw [readValue_items hblank hclose, hitems]
      rfl
  | obj ms =>
    cases ms with
    | nil => rfl
    | cons m ms =>
      obtain ⟨k, v⟩ := m
      rw [WellFormed, MembersWellFormed] at hv
      rw [size] at hsize
      have hmembers := h.members k v ms hv.1 hv.2 (Nat.le_of_succ_le_succ hsize) rest
      rw [write, List.cons_append, List.append_assoc, List.cons_append, List.append_assoc]
      rw [writeString, List.cons_append] at hmembers ⊢
      rw [readValue_members (by decide) (by decide), hmembers]
      rfl

theorem ReadsBack.items_succ {v : Json} {vs : List Json} (hv : v.WellFormed)
    (hvs : ItemsWellFormed vs) (hsize : itemsSize (v :: vs) ≤ fuel + 1) (rest : List Char) :
    readItemList (fuel + 1) (write v ++ (writeItems vs ++ rest)) = some (v :: vs, rest) := by
  rw [itemsSize] at hsize
  rw [readItemList, h.value v hv (by omega) _ (follows_items vs rest)]
  cases vs with
  | nil => rfl
  | cons w ws =>
    rw [ItemsWellFormed] at hvs
    have hmore := h.items w ws hvs.1 hvs.2 (by omega) rest
    simp only [Option.bind_eq_bind, Option.bind_some, writeItems, List.cons_append,
      List.append_assoc, skipBlanks_of_not (show isBlank ',' = false from rfl), hmore,
      Option.map_some]

theorem ReadsBack.members_succ {k : String} {v : Json} {ms : List (String × Json)}
    (hv : v.WellFormed) (hms : MembersWellFormed ms) (hsize : membersSize ((k, v) :: ms) ≤ fuel + 1)
    (rest : List Char) :
    readMemberList (fuel + 1) (writeString k ++ ':' :: (write v ++ (writeMembers ms ++ rest))) =
      some ((k, v) :: ms, rest) := by
  rw [membersSize] at hsize
  have hvalue := h.value v hv (by omega) _ (follows_members ms rest)
  have hkey := readQuoted_flatMap k.toList (':' :: (write v ++ (writeMembers ms ++ rest)))
  rw [writeString, List.cons_append, List.append_assoc, readMemberList,
    skipBlanks_of_not (by decide)]
  simp only [List.singleton_append, hkey, Option.bind_eq_bind, Option.bind_some,
    skipBlanks_of_not (show isBlank ':' = false from rfl), hvalue]
  cases ms with
  | nil => simp [writeMembers, skipBlanks_of_not (show isBlank '}' = false from rfl)]
  | cons m ms =>
    obtain ⟨k', w⟩ := m
    rw [MembersWellFormed] at hms
    have hmore := h.members k' w ms hms.1 hms.2 (by rw [membersSize] at hsize ⊢; omega) rest
    simp only [writeMembers, List.cons_append, List.append_assoc,
      skipBlanks_of_not (show isBlank ',' = false from rfl), hmore, Option.map_some,
      String.ofList_toList]

end Step

/-- By induction on the fuel, which every value takes one unit of. -/
theorem readsBack (fuel : Nat) : ReadsBack fuel := by
  induction fuel with
  | zero =>
    refine ⟨fun v _ hsize => ?_, fun v vs _ _ hsize => ?_, fun k v ms _ _ hsize => ?_⟩
    · cases v <;> simp [size] at hsize
    · simp [itemsSize] at hsize
    · simp [membersSize] at hsize
  | succ fuel ih =>
    exact ⟨fun _ hv hsize _ hrest => ih.value_succ hv hsize hrest,
      fun _ _ hv hvs hsize rest => ih.items_succ hv hvs hsize rest,
      fun _ _ _ hv hms hsize rest => ih.members_succ hv hms hsize rest⟩

mutual

theorem size_le_length : (v : Json) → v.WellFormed → v.size ≤ (write v).length
  | null, _ => by decide
  | bool true, _ => by decide
  | bool false, _ => by decide
  | num literal, h => by
    rw [WellFormed] at h
    show 1 ≤ (write (num literal)).length
    rw [write]
    exact List.length_pos_iff.mpr (isNumber_ne_nil h)
  | str s, _ => by simp [write, writeString, size]
  | arr [], _ => by decide
  | arr (v :: vs), h => by
    rw [WellFormed, ItemsWellFormed] at h
    have := size_le_length v h.1
    have := itemsSize_lt_length vs h.2
    simp only [size, itemsSize, write, List.length_cons, List.length_append]
    omega
  | obj [], _ => by decide
  | obj ((k, v) :: ms), h => by
    rw [WellFormed, MembersWellFormed] at h
    have := size_le_length v h.1
    have := membersSize_lt_length ms h.2
    simp only [size, membersSize, write, List.length_cons, List.length_append]
    omega

theorem itemsSize_lt_length : (vs : List Json) → ItemsWellFormed vs →
    itemsSize vs < (writeItems vs).length
  | [], _ => by decide
  | v :: vs, h => by
    rw [ItemsWellFormed] at h
    have := size_le_length v h.1
    have := itemsSize_lt_length vs h.2
    simp only [itemsSize, writeItems, List.length_cons, List.length_append]
    omega

theorem membersSize_lt_length :
    (ms : List (String × Json)) → MembersWellFormed ms → membersSize ms < (writeMembers ms).length
  | [], _ => by decide
  | (k, v) :: ms, h => by
    rw [MembersWellFormed] at h
    have := size_le_length v h.1
    have := membersSize_lt_length ms h.2
    simp only [membersSize, writeMembers, List.length_cons, List.length_append]
    omega

end

/-- What `json.Marshal` has written is what `json.Unmarshal` reads. -/
theorem read_write {v : Json} (h : v.WellFormed) (hdepth : v.depth ≤ maxNestingDepth) :
    read (write v) = some v := by
  have hsize : v.size ≤ (write v).length + 1 := Nat.le_succ_of_le (size_le_length v h)
  have hvalue := (readsBack ((write v).length + 1)).value v h hsize [] (by simp [Follows])
  rw [List.append_nil] at hvalue
  rw [read, hvalue]
  exact if_pos ⟨rfl, hdepth⟩

/-! ### No line ends within a value -/

theorem printable_escapeChar (c : Char) : Printable (escapeChar c) := by
  have h := escaped_escapeChar c
  generalize escapeChar c = text at h
  cases h with
  | simple _ h => exact .cons (by decide) h
  | code _ _ h => exact .cons (by decide) (.cons (by decide) h)
  | plain _ _ h => exact .cons (Nat.not_lt.mp h) (by decide)

theorem printable_writeString (s : String) : Printable (writeString s) := by
  refine .cons (by decide) (.append (fun d hd => ?_) (by decide))
  obtain ⟨c, -, hd⟩ := List.mem_flatMap.mp hd
  exact printable_escapeChar c d hd

theorem isNumberChar_printable {c : Char} (h : isNumberChar c = true) : 0x20 ≤ c.toNat := by
  by_contra hcontrol
  have hall : ∀ n < 0x20, isNumberChar (Char.ofNat n) = false := by decide
  have := hall c.toNat (by omega)
  rw [Char.ofNat_toNat] at this
  simp [h] at this

mutual

theorem printable_write : (v : Json) → v.WellFormed → Printable (write v)
  | null, _ => by decide
  | bool true, _ => by decide
  | bool false, _ => by decide
  | num literal, h => by
    rw [WellFormed] at h
    rw [write]
    exact fun c hc => isNumberChar_printable (isNumberChar_of_isNumber h c hc)
  | str s, _ => by
    rw [write]
    exact printable_writeString s
  | arr [], _ => by decide
  | arr (v :: vs), h => by
    rw [WellFormed, ItemsWellFormed] at h
    rw [write]
    exact .cons (by decide) ((printable_write v h.1).append (printable_writeItems vs h.2))
  | obj [], _ => by decide
  | obj ((k, v) :: ms), h => by
    rw [WellFormed, MembersWellFormed] at h
    rw [write]
    exact .cons (by decide) ((printable_writeString k).append
      (.cons (by decide) ((printable_write v h.1).append (printable_writeMembers ms h.2))))

theorem printable_writeItems : (vs : List Json) → ItemsWellFormed vs → Printable (writeItems vs)
  | [], _ => by decide
  | v :: vs, h => by
    rw [ItemsWellFormed] at h
    rw [writeItems]
    exact .cons (by decide) ((printable_write v h.1).append (printable_writeItems vs h.2))

theorem printable_writeMembers : (ms : List (String × Json)) → MembersWellFormed ms →
    Printable (writeMembers ms)
  | [], _ => by decide
  | (k, v) :: ms, h => by
    rw [MembersWellFormed] at h
    rw [writeMembers]
    exact .cons (by decide) ((printable_writeString k).append
      (.cons (by decide) ((printable_write v h.1).append (printable_writeMembers ms h.2))))

end

/-- `Encode` of each value in turn: a line for each. -/
def writeLines (vs : List Json) : List Char := vs.flatMap fun v => write v ++ ['\n']

/-- The values of a text of lines, each with its end. -/
def readLines (text : List Char) : Option (List Json) :=
  if (text.splitOn '\n').getLast? = some [] then (text.splitOn '\n').dropLast.mapM read else none

/-- Lines of values are read back, one value from each. -/
theorem readLines_writeLines {vs : List Json}
    (h : ∀ v ∈ vs, v.WellFormed ∧ v.depth ≤ maxNestingDepth) :
    readLines (writeLines vs) = some vs := by
  have hsplit : (writeLines vs).splitOn '\n' = vs.map write ++ [[]] := by
    induction vs with
    | nil => rfl
    | cons v vs ih =>
      obtain ⟨⟨hv, -⟩, hvs⟩ := List.forall_mem_cons.mp h
      have hplain : '\n' ∉ write v := fun hc => absurd (printable_write v hv _ hc) (by decide)
      rw [writeLines, List.flatMap_cons, List.append_assoc, List.singleton_append,
        List.splitOn_append_cons_self_of_not_mem hplain]
      exact congrArg (write v :: ·) (ih hvs)
  rw [readLines, hsplit, if_pos (by simp), List.dropLast_concat, List.mapM_map]
  clear hsplit
  induction vs with
  | nil => rfl
  | cons v vs ih =>
    obtain ⟨⟨hv, hdepth⟩, hvs⟩ := List.forall_mem_cons.mp h
    rw [List.mapM_cons, ih hvs]
    simp only [Function.comp_apply, read_write hv hdepth]
    rfl

end LlmProxy.ProofKit.Json
