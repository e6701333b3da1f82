import Mathlib.Data.List.Nodup

/-! Percent-escapes in the path of a URL, as Go's package `net/url` reads and writes them.  A text
stands for its bytes. -/

namespace LlmProxy.ProofKit.Url

def hexDigit? (c : Char) : Option Nat :=
  if c.isDigit then some (c.toNat - '0'.toNat)
  else if 'a' ≤ c ∧ c ≤ 'f' then some (c.toNat - 'a'.toNat + 10)
  else if 'A' ≤ c ∧ c ≤ 'F' then some (c.toNat - 'A'.toNat + 10)
  else none

/-- `PathUnescape`, where `none` is an error. -/
def unescape : List Char → Option (List Char)
  | [] => some []
  | '%' :: a :: b :: rest => do
    let high ← hexDigit? a
    let low ← hexDigit? b
    let tail ← unescape rest
    some (Char.ofNat (16 * high + low) :: tail)
  | c :: rest => if c = '%' then none else (unescape rest).map (c :: ·)

/-- A segment of a path is compared with that of a pattern without its escapes, if it can be
read. -/
def unescapeSegment (segment : List Char) : List Char := (unescape segment).getD segment

theorem unescape_cons_of_ne {c : Char} (h : c ≠ '%') (rest : List Char) :
    unescape (c :: rest) = (unescape rest).map (c :: ·) := by
  rw [unescape, if_neg h]
  intro a b rest' hc
  exact absurd hc h

/-- A text without escapes stands for itself. -/
theorem unescape_eq_self {text : List Char} (h : '%' ∉ text) : unescape text = some text := by
  induction text with
  | nil => rfl
  | cons c rest ih =>
    obtain ⟨hc, hrest⟩ := List.ne_and_not_mem_of_not_mem_cons h
    rw [unescape_cons_of_ne hc.symm, ih hrest]
    rfl

theorem unescape_append {text text' : List Char} (h : unescape text = some text')
    (rest : List Char) :
    unescape (text ++ rest) = (unescape rest).map (text' ++ ·) := by
  fun_induction unescape text generalizing text' with
  | case1 =>
    obtain rfl := Option.some.inj h
    simp
  | case2 a b tail ih =>
    obtain ⟨high, hhigh, h⟩ := Option.bind_eq_some_iff.mp h
    obtain ⟨low, hlow, h⟩ := Option.bind_eq_some_iff.mp h
    obtain ⟨tail', htail, h⟩ := Option.bind_eq_some_iff.mp h
    obtain rfl := Option.some.inj h
    simp only [List.cons_append, unescape, hhigh, hlow, ih htail]
    cases unescape rest <;> rfl
  | case3 => cases h
  | case4 c tail hshort hc ih =>
    obtain ⟨tail', htail, rfl⟩ := Option.map_eq_some_iff.mp h
    rw [List.cons_append, unescape_cons_of_ne hc, ih htail]
    cases unescape rest <;> rfl

theorem unescape_segment {segment : List Char} (h : '%' ∉ unescapeSegment segment) :
    unescape segment = some (unescapeSegment segment) := by
  cases hread : unescape segment with
  | some text => simp [unescapeSegment, hread]
  | none =>
    have hsame : unescapeSegment segment = segment := by simp [unescapeSegment, hread]
    rw [hsame] at h
    simp [unescape_eq_self h] at hread

theorem unescape_segments {segments : List (List Char)}
    (h : ∀ segment ∈ segments, '%' ∉ unescapeSegment segment) :
    unescape (['/'].intercalate segments) =
      some (['/'].intercalate (segments.map unescapeSegment)) := by
  induction segments with
  | nil => rfl
  | cons segment rest ih =>
    obtain ⟨hsegment, hrest⟩ := List.forall_mem_cons.mp h
    have hhead := unescape_segment hsegment
    cases rest with
    | nil => simpa using hhead
    | cons next rest =>
      rw [List.intercalate_cons_cons, List.append_assoc, unescape_append hhead,
        List.singleton_append, unescape_cons_of_ne (by decide), ih hrest]
      simp only [List.map_cons, Option.map_some, List.intercalate_cons_cons, List.append_assoc,
        List.singleton_append]

theorem mem_intercalate {α : Type} {sep segment : List α} {segments : List (List α)} {x : α}
    (hx : x ∈ segment) (h : segment ∈ segments) : x ∈ sep.intercalate segments := by
  induction segments with
  | nil => cases h
  | cons first rest ih =>
    cases rest with
    | nil =>
      obtain rfl := List.mem_singleton.mp h
      simpa using hx
    | cons next rest =>
      rw [List.intercalate_cons_cons]
      rcases List.mem_cons.mp h with rfl | h
      · simp [hx]
      · simp [ih h]

/-- A path whose segments stand for those of a pattern without escapes stands for the pattern. -/
theorem unescape_of_segments {path pattern : List Char}
    (hsegments : (path.splitOn '/').map unescapeSegment = pattern.splitOn '/')
    (hplain : '%' ∉ pattern) :
    unescape path = some pattern := by
  have hclean : ∀ segment ∈ path.splitOn '/', '%' ∉ unescapeSegment segment := by
    intro segment hsegment hescape
    have hmem : '%' ∈ ['/'].intercalate (pattern.splitOn '/') :=
      mem_intercalate hescape (hsegments ▸ List.mem_map_of_mem hsegment)
    exact hplain (by rwa [List.intercalate_splitOn] at hmem)
  have hread := unescape_segments hclean
  rwa [hsegments, List.intercalate_splitOn, List.intercalate_splitOn] at hread

/-! ### Escaping -/

/-- A digit of `upperhex`. -/
def upperHex (n : Nat) : Char := if n < 10 then Char.ofNat (48 + n) else Char.ofNat (55 + n)

/-- The escape of a byte. -/
def escapeByte (c : Char) : List Char := ['%', upperHex (c.toNat / 16), upperHex (c.toNat % 16)]

/-- `shouldEscape`, in the mode of a path. -/
def shouldEscape (c : Char) : Bool :=
  !(c.isAlphanum || ['-', '_', '.', '~', '$', '&', '+', ',', '/', ':', ';', '=', '@'].contains c)

def escapePath (path : List Char) : List Char :=
  path.flatMap fun c => if shouldEscape c then escapeByte c else [c]

/-- Whether a spelling of a path is kept, in the mode of a path. -/
def validEncoded (path : List Char) : Bool :=
  path.all fun c => ['!', '\'', '(', ')', '*', '[', ']', '%'].contains c || !shouldEscape c

/-- `EscapedPath` of the URL that a spelling of its path is parsed to. -/
def escapedPath (spelled : List Char) : Option (List Char) :=
  (unescape spelled).map fun path => if validEncoded spelled then spelled else escapePath path

/-- A text of bytes. -/
def OfBytes (text : List Char) : Prop := ∀ c ∈ text, c.toNat < 256

instance (text : List Char) : Decidable (OfBytes text) := List.decidableBAll _ text

theorem hexDigit_upperHex : ∀ n < 16, hexDigit? (upperHex n) = some n := by decide

theorem unescape_escapeByte {c : Char} (h : c.toNat < 256) (rest : List Char) :
    unescape (escapeByte c ++ rest) = (unescape rest).map (c :: ·) := by
  have hhigh := hexDigit_upperHex (c.toNat / 16) (by omega)
  have hlow := hexDigit_upperHex (c.toNat % 16) (by omega)
  simp only [escapeByte, List.cons_append, List.nil_append, unescape, hhigh, hlow,
    Option.bind_eq_bind, Option.bind_some, Nat.div_add_mod, Char.ofNat_toNat]
  cases unescape rest <;> rfl

/-- A path of bytes is read back from its escapes. -/
theorem unescape_escapePath {path : List Char} (h : OfBytes path) :
    unescape (escapePath path) = some path := by
  induction path with
  | nil => rfl
  | cons c rest ih =>
    obtain ⟨hc, hrest⟩ := List.forall_mem_cons.mp h
    simp only [escapePath, List.flatMap_cons]
    split
    · rw [unescape_escapeByte hc]
      exact congrArg (Option.map (c :: ·)) (ih hrest)
    · next hplain =>
      have hne : c ≠ '%' := by
        rintro rfl
        exact hplain (by decide)
      rw [List.singleton_append, unescape_cons_of_ne hne]
      exact congrArg (Option.map (c :: ·)) (ih hrest)

theorem hexDigit_lt {c : Char} {n : Nat} (h : hexDigit? c = some n) : n < 16 := by
  have hle {a b : Char} (hab : a ≤ b) : a.toNat ≤ b.toNat := hab
  unfold hexDigit? at h
  split at h
  · next hdigit =>
    obtain rfl := Option.some.inj h
    have hmax : c.toNat ≤ 57 := of_decide_eq_true (Bool.and_eq_true_iff.mp hdigit).2
    simp only [Char.reduceToNat]
    omega
  · split at h
    · next hlower =>
      obtain rfl := Option.some.inj h
      have hmax : c.toNat ≤ 102 := hle hlower.2
      simp only [Char.reduceToNat]
      omega
    · split at h
      · next hupper =>
        obtain rfl := Option.some.inj h
        have hmax : c.toNat ≤ 70 := hle hupper.2
        simp only [Char.reduceToNat]
        omega
      · cases h

theorem toNat_ofNat_of_lt {n : Nat} (h : n < 256) : (Char.ofNat n).toNat = n := by
  have hvalid : n.isValidChar := .inl (by omega)
  rw [Char.ofNat, dif_pos hvalid]
  rfl

theorem ofBytes_unescape {text text' : List Char} (hbytes : OfBytes text)
    (h : unescape text = some text') :
    OfBytes text' := by
  fun_induction unescape text generalizing text' with
  | case1 =>
    obtain rfl := Option.some.inj h
    exact hbytes
  | case2 a b tail ih =>
    obtain ⟨high, hhigh, h⟩ := Option.bind_eq_some_iff.mp h
    obtain ⟨low, hlow, h⟩ := Option.bind_eq_some_iff.mp h
    obtain ⟨tail', htail, h⟩ := Option.bind_eq_some_iff.mp h
    obtain rfl := Option.some.inj h
    have hrest : OfBytes tail := fun c hc => hbytes c (by simp [hc])
    have hvalue : 16 * high + low < 256 := by
      have := hexDigit_lt hhigh
      have := hexDigit_lt hlow
      omega
    refine List.forall_mem_cons.mpr ⟨?_, ih hrest htail⟩
    rwa [toNat_ofNat_of_lt hvalue]
  | case3 => cases h
  | case4 c tail hshort hc ih =>
    obtain ⟨tail', htail, rfl⟩ := Option.map_eq_some_iff.mp h
    obtain ⟨hc, hrest⟩ := List.forall_mem_cons.mp hbytes
    exact List.forall_mem_cons.mpr ⟨hc, ih hrest htail⟩

/-- The escaped path of a URL stands for the path that its spelling stands for. -/
theorem unescape_escapedPath {spelled escaped : List Char} (hbytes : OfBytes spelled)
    (h : escapedPath spelled = some escaped) : unescape escaped = unescape spelled := by
  obtain ⟨path, hread, rfl⟩ := Option.map_eq_some_iff.mp h
  split
  · rfl
  · rw [hread, unescape_escapePath (ofBytes_unescape hbytes hread)]

/-- A character that no escape is made of stays. -/
theorem mem_of_unescape {c : Char} (hpercent : c ≠ '%') (hhex : hexDigit? c = none)
    {text text' : List Char} (h : unescape text = some text') (hc : c ∈ text) : c ∈ text' := by
  fun_induction unescape text generalizing text' with
  | case1 => cases hc
  | case2 a b tail ih =>
    obtain ⟨high, hhigh, h⟩ := Option.bind_eq_some_iff.mp h
    obtain ⟨low, hlow, h⟩ := Option.bind_eq_some_iff.mp h
    obtain ⟨tail', htail, h⟩ := Option.bind_eq_some_iff.mp h
    obtain rfl := Option.some.inj h
    have hcases : c = a ∨ c = b ∨ c ∈ tail := by simpa [hpercent] using hc
    rcases hcases with rfl | rfl | htl
    · simp [hhex] at hhigh
    · simp [hhex] at hlow
    · exact List.mem_cons_of_mem _ (ih htail htl)
  | case3 => cases h
  | case4 first tail hshort hfirst ih =>
    obtain ⟨tail', htail, rfl⟩ := Option.map_eq_some_iff.mp h
    rcases List.mem_cons.mp hc with rfl | htl
    · exact List.mem_cons_self
    · exact List.mem_cons_of_mem _ (ih htail htl)

/-! A spelling in which every byte is escaped. -/

def escapeAll (text : List Char) : List Char := text.flatMap escapeByte

theorem unescape_escapeAll {text : List Char} (h : OfBytes text) :
    unescape (escapeAll text) = some text := by
  induction text with
  | nil => rfl
  | cons c rest ih =>
    obtain ⟨hc, hrest⟩ := List.forall_mem_cons.mp h
    rw [escapeAll, List.flatMap_cons, unescape_escapeByte hc]
    exact congrArg (Option.map (c :: ·)) (ih hrest)

theorem mem_escapeAll {text : List Char} (h : OfBytes text) {c : Char} (hc : c ∈ escapeAll text) :
    c = '%' ∨ ∃ n < 16, c = upperHex n := by
  obtain ⟨b, hb, hc⟩ := List.mem_flatMap.mp hc
  have hbyte := h b hb
  rcases List.mem_cons.mp hc with rfl | hc
  · exact .inl rfl
  · rcases List.mem_cons.mp hc with rfl | hc
    · exact .inr ⟨_, by omega, rfl⟩
    · exact .inr ⟨_, by omega, List.mem_singleton.mp hc⟩

/-- What is true of the digits and of the percent sign is true of the whole spelling. -/
theorem forall_escapeAll {text : List Char} (h : OfBytes text) {p : Char → Prop} (hpercent : p '%')
    (hdigits : ∀ n < 16, p (upperHex n)) : ∀ c ∈ escapeAll text, p c := by
  intro c hc
  rcases mem_escapeAll h hc with rfl | ⟨n, hn, rfl⟩
  · exact hpercent
  · exact hdigits n hn

end LlmProxy.ProofKit.Url
