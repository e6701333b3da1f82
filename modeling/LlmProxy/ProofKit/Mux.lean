import LlmProxy.ProofKit.Url

/-! How Go's `ServeMux` chooses a handler, for patterns without hosts, methods and wildcards.  A
pattern that ends in a slash stands for a subtree.  A path is compared segment by segment, each
without its escapes, and the most specific pattern wins: the path itself, and otherwise the longest
subtree. -/

namespace LlmProxy.ProofKit

structure MuxPattern where
  segments : List (List Char)
  subtree : Bool
  deriving DecidableEq

namespace Mux

/-- A pattern from its text. -/
def parsePattern (text : String) : MuxPattern :=
  let segments := text.toList.splitOn '/'
  if segments.getLast? = some [] then ⟨segments.dropLast, true⟩ else ⟨segments, false⟩

/-- The segments of a path, without their escapes. -/
def segmentsOf (path : List Char) : List (List Char) := (path.splitOn '/').map Url.unescapeSegment

/-- Whether a pattern meets the segments of a path. -/
def meets (p : MuxPattern) (segments : List (List Char)) : Bool :=
  if p.subtree then p.segments.isPrefixOf segments && decide (p.segments.length < segments.length)
  else p.segments == segments

variable {ε : Type}

/-- The longest subtree. -/
def longest : List (MuxPattern × ε) → Option (MuxPattern × ε)
  | [] => none
  | r :: rest =>
    match longest rest with
    | none => some r
    | some other => if r.1.segments.length < other.1.segments.length then some other else some r

def find (routes : List (MuxPattern × ε)) (segments : List (List Char)) : Option (MuxPattern × ε) :=
  match routes.find? fun r => !r.1.subtree && meets r.1 segments with
  | some r => some r
  | none => longest (routes.filter fun r => r.1.subtree && meets r.1 segments)

/-- A subtree is met exactly by the path of its root. -/
def exactMatch (r : MuxPattern × ε) (segments : List (List Char)) : Bool :=
  !r.1.subtree || decide (segments.getLast? = some [] ∧ segments.length = r.1.segments.length + 1)

/-- `path.Clean` on the segments of a rooted path. -/
def cleanSegments (segments : List (List Char)) : List (List Char) :=
  segments.foldl (fun kept segment =>
    if segment = [] ∨ segment = ['.'] then kept
    else if segment = ['.', '.'] then kept.dropLast
    else kept ++ [segment]) []

def cleanPath (path : List Char) : List Char :=
  let rooted := if path.head? = some '/' then path else '/' :: path
  let cleaned := '/' :: ['/'].intercalate (cleanSegments (rooted.splitOn '/'))
  if rooted.getLast? = some '/' ∧ cleaned ≠ ['/'] then cleaned ++ ['/'] else cleaned

/-- What the mux does with a request. -/
inductive Routed (ε : Type)
  /-- A redirect to the clean path, or to the path with a slash at its end. -/
  | redirect
  | handler (e : ε)
  | notFound
  deriving DecidableEq

/-- The handler of a path; `canonical` is false for the method CONNECT, whose path stays as it
is. -/
def route (routes : List (MuxPattern × ε)) (canonical : Bool) (escaped : List Char) : Routed ε :=
  let path := if canonical then cleanPath escaped else escaped
  let found := find routes (segmentsOf path)
  let slashed := find routes (segmentsOf (path ++ ['/']))
  if !(found.any (exactMatch · (segmentsOf path))) && decide (path.getLast? ≠ some '/') &&
      slashed.any (exactMatch · (segmentsOf (path ++ ['/']))) then .redirect
  else if path ≠ escaped then .redirect
  else
    match found with
    | some r => .handler r.2
    | none => .notFound

/-! ### The most specific pattern -/

variable {routes : List (MuxPattern × ε)} {segments : List (List Char)} {r : MuxPattern × ε}

theorem longest_mem (h : longest routes = some r) : r ∈ routes := by
  induction routes generalizing r with
  | nil => cases h
  | cons first rest ih =>
    simp only [longest] at h
    split at h
    · obtain rfl := Option.some.inj h
      exact List.mem_cons_self
    · next other hother =>
      split at h
      · obtain rfl := Option.some.inj h
        exact List.mem_cons_of_mem _ (ih hother)
      · obtain rfl := Option.some.inj h
        exact List.mem_cons_self

theorem longest_isSome (h : routes ≠ []) : (longest routes).isSome := by
  cases routes with
  | nil => exact absurd rfl h
  | cons first rest =>
    simp only [longest]
    split
    · rfl
    · split <;> rfl

theorem longest_max (h : longest routes = some r) :
    ∀ other ∈ routes, other.1.segments.length ≤ r.1.segments.length := by
  induction routes generalizing r with
  | nil => cases h
  | cons first rest ih =>
    simp only [longest] at h
    split at h
    · next hnone =>
      obtain rfl := Option.some.inj h
      have hrest : rest = [] := by
        by_contra hne
        simpa [hnone] using longest_isSome hne
      simp [hrest]
    · next best hbest =>
      have hmax := ih hbest
      split at h
      · next hlt =>
        obtain rfl := Option.some.inj h
        exact List.forall_mem_cons.mpr ⟨Nat.le_of_lt hlt, hmax⟩
      · next hle =>
        obtain rfl := Option.some.inj h
        refine List.forall_mem_cons.mpr ⟨Nat.le_refl _, fun other hother => ?_⟩
        exact Nat.le_trans (hmax other hother) (Nat.not_lt.mp hle)

/-- The pattern that the mux chooses meets the path. -/
theorem meets_of_find (h : find routes segments = some r) : r ∈ routes ∧
    meets r.1 segments = true := by
  unfold find at h
  split at h
  · next hexact =>
    obtain rfl := Option.some.inj h
    have := List.find?_some hexact
    simp only [Bool.and_eq_true] at this
    exact ⟨List.mem_of_find?_eq_some hexact, this.2⟩
  · obtain ⟨hmem, hmeets⟩ := List.mem_filter.mp (longest_mem h)
    simp only [Bool.and_eq_true] at hmeets
    exact ⟨hmem, hmeets.2⟩

/-- A pattern for the path itself is chosen before every subtree. -/
theorem find_exact {e : MuxPattern × ε} (he : e ∈ routes) (hexact : e.1.subtree = false)
    (hmeets : meets e.1 segments = true) (h : find routes segments = some r) :
    r.1.subtree = false := by
  unfold find at h
  split at h
  · next hfound =>
    obtain rfl := Option.some.inj h
    have := List.find?_some hfound
    simp only [Bool.and_eq_true, Bool.not_eq_true'] at this
    exact this.1
  · next hnone =>
    have := List.find?_eq_none.mp hnone e he
    simp [hexact, hmeets] at this

/-- A subtree is chosen only if no longer one meets the path. -/
theorem find_subtree {e : MuxPattern × ε} (he : e ∈ routes) (hsubtree : e.1.subtree = true)
    (hmeets : meets e.1 segments = true) (h : find routes segments = some r) :
    r.1.subtree = false ∨ e.1.segments.length ≤ r.1.segments.length := by
  unfold find at h
  split at h
  · next hfound =>
    obtain rfl := Option.some.inj h
    have := List.find?_some hfound
    simp only [Bool.and_eq_true, Bool.not_eq_true'] at this
    exact .inl this.1
  · refine .inr (longest_max h e ?_)
    exact List.mem_filter.mpr ⟨he, by simp [hsubtree, hmeets]⟩

theorem find_isSome {e : MuxPattern × ε} (he : e ∈ routes) (hmeets : meets e.1 segments = true) :
    (find routes segments).isSome := by
  unfold find
  split
  · rfl
  · next hnone =>
    apply longest_isSome
    apply List.ne_nil_of_mem (a := e)
    have := List.find?_eq_none.mp hnone e he
    refine List.mem_filter.mpr ⟨he, ?_⟩
    simpa [hmeets] using this

/-! ### The path of a request that meets a pattern -/

theorem intercalate_append {α : Type} (sep : List α) (front : List (List α)) {back : List (List α)}
    (h : back ≠ []) :
    sep.intercalate (front ++ back) = sep.intercalate (front ++ [[]]) ++ sep.intercalate back := by
  induction front with
  | nil => simp
  | cons first front ih =>
    have hcons (tail : List (List α)) (htail : tail ≠ []) :
        sep.intercalate (first :: (front ++ tail)) = first ++ sep ++
          sep.intercalate (front ++ tail) := by
      obtain ⟨next, rest, hnext⟩ :=
        List.exists_cons_of_ne_nil (List.append_ne_nil_of_right_ne_nil front htail)
      rw [hnext, List.intercalate_cons_cons]
    rw [List.cons_append, List.cons_append, hcons back h, hcons [[]] (by simp), ih]
    simp only [List.append_assoc]

variable {text : String} {path u : List Char}

theorem segments_of_exact (h : (parsePattern text).subtree = false) :
    (parsePattern text).segments = text.toList.splitOn '/' := by
  by_cases hlast : (text.toList.splitOn '/').getLast? = some []
  · simp [parsePattern, hlast] at h
  · simp [parsePattern, hlast]

theorem segments_of_subtree (h : (parsePattern text).subtree = true) :
    (parsePattern text).segments ++ [[]] = text.toList.splitOn '/' := by
  by_cases hlast : (text.toList.splitOn '/').getLast? = some []
  · simp only [parsePattern, hlast, if_true]
    exact List.dropLast_append_getLast? [] hlast
  · simp [parsePattern, hlast] at h

/-- A path that meets a pattern for one path stands for that path. -/
theorem read_of_meets_exact (hexact : (parsePattern text).subtree = false)
    (hplain : '%' ∉ text.toList) (hmeets : meets (parsePattern text) (segmentsOf path) = true) :
    Url.unescape path = some text.toList := by
  refine Url.unescape_of_segments ?_ hplain
  simp only [meets, hexact, Bool.false_eq_true, if_false, beq_iff_eq] at hmeets
  exact hmeets.symm.trans (segments_of_exact hexact)

theorem not_mem_of_mem_splitOn {c : Char} {text segment : List Char}
    (h : segment ∈ text.splitOn c) :
    c ∉ segment := by
  induction text generalizing segment with
  | nil => simp_all
  | cons first text ih =>
    rw [List.splitOn_cons_eq_if_modifyHead] at h
    split at h
    · rcases List.mem_cons.mp h with rfl | h
      · simp
      · exact ih h
    · next hfirst =>
      obtain ⟨head, tail, hsplit⟩ := List.exists_cons_of_ne_nil (@List.splitOn_ne_nil _ _ c text)
      rw [hsplit, List.modifyHead_cons] at h
      rcases List.mem_cons.mp h with rfl | h
      · have hhead := ih (hsplit ▸ List.mem_cons_self)
        exact List.not_mem_cons_of_ne_of_not_mem (fun heq => hfirst (by simp [heq])) hhead
      · exact ih (hsplit ▸ List.mem_cons_of_mem _ h)

theorem segmentsOf_intercalate {segments : List (List Char)} (hne : segments ≠ [])
    (hplain : ∀ segment ∈ segments, '/' ∉ segment) :
    segmentsOf (['/'].intercalate segments) = segments.map Url.unescapeSegment := by
  rw [segmentsOf, List.splitOn_intercalate '/' hplain hne]

theorem segmentsOf_append_slash (path : List Char) :
    segmentsOf (path ++ ['/']) = segmentsOf path ++ [[]] := by
  rw [segmentsOf, List.splitOn_append_cons_self, List.map_append]
  rfl

/-- A path that meets a subtree stands for a path in it. -/
theorem read_of_meets_subtree (hsubtree : (parsePattern text).subtree = true)
    (hplain : '%' ∉ text.toList) (hmeets : meets (parsePattern text) (segmentsOf path) = true)
    (hread : Url.unescape path = some u) :
    ∃ rest v, u = text.toList ++ v ∧ Url.unescape rest = some v ∧
      segmentsOf path = (parsePattern text).segments ++ segmentsOf rest := by
  simp only [meets, hsubtree, if_true, Bool.and_eq_true, List.isPrefixOf_iff_prefix,
    decide_eq_true_eq] at hmeets
  obtain ⟨⟨more, hmore⟩, hlonger⟩ := hmeets
  obtain ⟨front, back, hsplit, hfront, hback⟩ := List.map_eq_append_iff.mp hmore.symm
  have hbackne : back ≠ [] := by
    rintro rfl
    simp [segmentsOf, hsplit, ← hfront] at hlonger
  have hpath : path = ['/'].intercalate (front ++ [[]]) ++ ['/'].intercalate back := by
    rw [← intercalate_append _ _ hbackne, ← hsplit, List.intercalate_splitOn]
  have htext : ['/'].intercalate ((front ++ [[]]).map Url.unescapeSegment) = text.toList := by
    rw [List.map_append, hfront]
    exact (congrArg _ (segments_of_subtree hsubtree)).trans (List.intercalate_splitOn _)
  have hfrontread : Url.unescape (['/'].intercalate (front ++ [[]])) = some text.toList := by
    rw [Url.unescape_segments, htext]
    intro segment hsegment hescape
    exact hplain (htext ▸ Url.mem_intercalate hescape (List.mem_map_of_mem hsegment))
  rw [hpath, Url.unescape_append hfrontread] at hread
  obtain ⟨v, hv, rfl⟩ := Option.map_eq_some_iff.mp hread
  refine ⟨_, v, rfl, hv, ?_⟩
  rw [segmentsOf_intercalate hbackne, hback, hmore]
  intro segment hsegment
  exact not_mem_of_mem_splitOn (hsplit ▸ List.mem_append_right front hsegment)

/-- A text that stands for one without a slash is one segment. -/
theorem segmentsOf_of_read {rest v : List Char} (h : Url.unescape rest = some v) (hv : '/' ∉ v) :
    segmentsOf rest = [v] := by
  have hrest : '/' ∉ rest := fun hslash => hv (Url.mem_of_unescape (by decide) (by decide) h hslash)
  rw [segmentsOf, List.splitOn_eq_singleton hrest]
  simp [Url.unescapeSegment, h]

/-! ### Redirects -/

/-- A handler gets only paths that are clean already. -/
theorem find_of_route {canonical : Bool} {escaped : List Char} {e : ε}
    (h : route routes canonical escaped = .handler e) :
    ∃ r, find routes (segmentsOf escaped) = some r ∧ r.2 = e := by
  generalize hpath : (if canonical then cleanPath escaped else escaped) = path
  simp only [route, hpath] at h
  split at h
  · cases h
  · split at h
    · cases h
    · next hsame =>
      rw [Decidable.not_not.mp hsame] at h
      split at h
      · next r hfound => exact ⟨r, hfound, by injection h⟩
      · cases h

theorem route_handler {canonical : Bool} {escaped : List Char}
    (hclean : cleanPath escaped = escaped) (hfound : find routes (segmentsOf escaped) = some r)
    (hslashed : (find routes (segmentsOf (escaped ++ ['/']))).any
      (exactMatch · (segmentsOf (escaped ++ ['/']))) = false) :
    route routes canonical escaped = .handler r.2 := by
  simp [route, hclean, hfound, hslashed]

theorem cleanSegments_eq_self {segments : List (List Char)}
    (h : ∀ segment ∈ segments, segment ≠ [] ∧ segment ≠ ['.'] ∧ segment ≠ ['.', '.']) :
    cleanSegments segments = segments := by
  suffices hfold : ∀ kept, segments.foldl (fun kept segment =>
      if segment = [] ∨ segment = ['.'] then kept
      else if segment = ['.', '.'] then kept.dropLast
      else kept ++ [segment]) kept = kept ++ segments by
    simpa [cleanSegments] using hfold []
  induction segments with
  | nil => simp
  | cons segment rest ih =>
    obtain ⟨⟨hempty, hdot, hdots⟩, hrest⟩ := List.forall_mem_cons.mp h
    intro kept
    simp only [List.foldl_cons, hempty, hdot, hdots, or_self, if_false]
    rw [ih hrest, List.append_assoc, List.singleton_append]

/-- A path of segments that have a name is clean. -/
theorem cleanPath_eq_self {segments : List (List Char)} (hne : segments ≠ [])
    (hnamed : ∀ segment ∈ segments, segment ≠ [] ∧ segment ≠ ['.'] ∧ segment ≠ ['.', '.'])
    (hplain : ∀ segment ∈ segments, '/' ∉ segment) :
    cleanPath (['/'].intercalate ([] :: segments)) = ['/'].intercalate ([] :: segments) := by
  have hpath : ['/'].intercalate ([] :: segments) = '/' :: ['/'].intercalate segments := by
    obtain ⟨first, rest, rfl⟩ := List.exists_cons_of_ne_nil hne
    rw [List.intercalate_cons_cons]
    rfl
  have hsplit : (['/'].intercalate ([] :: segments)).splitOn '/' = [] :: segments :=
    List.splitOn_intercalate '/' (List.forall_mem_cons.mpr ⟨List.not_mem_nil, hplain⟩) (by simp)
  have hclean : cleanSegments ([] :: segments) = segments :=
    (show cleanSegments ([] :: segments) = cleanSegments segments from rfl).trans
      (cleanSegments_eq_self hnamed)
  have hend : (['/'].intercalate ([] :: segments)).getLast? ≠ some '/' := by
    intro hslash
    obtain ⟨front, hfront⟩ := List.getLast?_eq_some_iff.mp hslash
    have hlast : ([] :: segments).getLast? = some [] := by
      rw [← hsplit, hfront, List.splitOn_append_cons_self]
      simp
    rw [List.getLast?_cons_of_ne_nil hne] at hlast
    exact (hnamed [] (List.mem_of_getLast? hlast)).1 rfl
  have hrooted : (['/'].intercalate ([] :: segments)).head? = some '/' := by rw [hpath]; rfl
  simp only [cleanPath, hrooted, if_true, hsplit, hclean, hend, false_and, if_false]
  exact hpath.symm

end Mux

end LlmProxy.ProofKit
