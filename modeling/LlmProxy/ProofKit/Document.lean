import LlmProxy.ProofKit.Json

/-! JSON documents without the order of their members: an object is a partial map from names to
documents.  Documents merge: an object takes over the members of another one, and where both have an
object, these merge in turn. -/

namespace LlmProxy.ProofKit

/-- A JSON document, with numbers of type `ν`. -/
inductive Document (ν : Type)
  | null
  | bool (b : Bool)
  | num (n : ν)
  | str (s : String)
  | arr (items : List (Document ν))
  | obj (member : String → Option (Document ν))

namespace Document

variable {ν : Type}

def isObject : Document ν → Bool
  | obj _ => true
  | _ => false

theorem isObject_eq_true {v : Document ν} : v.isObject = true ↔ ∃ f, v = obj f := by
  cases v <;> simp [isObject]

/-- Induction over the items of arrays and the members of objects. -/
@[elab_as_elim]
theorem induct {motive : Document ν → Prop} (null : motive null) (bool : ∀ b, motive (bool b))
    (num : ∀ n, motive (num n)) (str : ∀ s, motive (str s))
    (arr : ∀ items, (∀ v ∈ items, motive v) → motive (arr items))
    (obj : ∀ f, (∀ k v, f k = some v → motive v) → motive (obj f)) (v : Document ν) : motive v := by
  refine @Document.rec ν motive (fun items => ∀ v ∈ items, motive v)
    (fun o => ∀ v, o = some v → motive v) null bool num str arr obj ?_ ?_ ?_ ?_ v
  · simp
  · intro head tail hhead htail
    exact List.forall_mem_cons.mpr ⟨hhead, htail⟩
  · simp
  · rintro v hv w ⟨⟩
    exact hv

/-! ### Paths -/

/-- What is under a path of names. -/
def find : List String → Document ν → Option (Document ν)
  | [], v => some v
  | k :: p, obj f => (f k).bind (find p)
  | _ :: _, _ => none

/-- The path leads out of the document where an object lacks a name of it. -/
def Misses : List String → Document ν → Prop
  | k :: p, obj f => ∀ v ∈ f k, Misses p v
  | _, _ => False

@[simp] theorem find_nil (v : Document ν) : find [] v = some v := rfl

@[simp] theorem find_cons_obj (k : String) (p : List String) (f : String → Option (Document ν)) :
    find (k :: p) (obj f) = (f k).bind (find p) := rfl

theorem find_cons_of_member {f : String → Option (Document ν)} {k : String} {v w : Document ν}
    (hv : f k = some v) {p : List String} (hw : find p v = some w) :
    find (k :: p) (obj f) = some w := by
  rw [find_cons_obj, hv]
  exact hw

theorem find_cons_of_not_object {v : Document ν} (hv : v.isObject = false) (k : String)
    (p : List String) : find (k :: p) v = none := by
  cases v <;> first | rfl | cases hv

theorem find_of_misses {p : List String} {v : Document ν} (h : Misses p v) : find p v = none := by
  induction p generalizing v with
  | nil => exact h.elim
  | cons k p ih =>
    cases v with
    | obj f =>
      rw [find_cons_obj, Option.bind_eq_none_iff]
      exact fun w hw => ih (h w hw)
    | _ => exact h.elim

/-! ### Merging -/

mutual

/-- `d` after a merge of `s` into it. -/
def merge (d : Document ν) : Document ν → Document ν
  | .obj s =>
    match d with
    | .obj f => .obj fun k => mergeMember (f k) (s k)
    | _ => .obj s
  | .null => .null
  | .bool b => .bool b
  | .num n => .num n
  | .str t => .str t
  | .arr items => .arr items
termination_by structural s => s

def mergeMember (d : Option (Document ν)) : Option (Document ν) → Option (Document ν)
  | none => d
  | some s =>
    match d with
    | some d => some (merge d s)
    | none => some s
termination_by structural s => s

end

@[simp] theorem mergeMember_none_right (d : Option (Document ν)) : mergeMember d none = d := rfl

@[simp] theorem mergeMember_none_left (s : Option (Document ν)) : mergeMember none s = s := by
  cases s <;> rfl

@[simp] theorem mergeMember_some (d s : Document ν) :
    mergeMember (some d) (some s) = some (merge d s) := rfl

@[simp] theorem merge_obj (f s : String → Option (Document ν)) :
    merge (obj f) (obj s) = obj fun k => mergeMember (f k) (s k) := rfl

/-- Unless both are objects, the source takes the place. -/
theorem merge_of_not_objects {d s : Document ν} (h : d.isObject = false ∨ s.isObject = false) :
    merge d s = s := by
  cases s with
  | obj s =>
    cases d with
    | obj f => simp [isObject] at h
    | _ => rfl
  | _ => rfl

theorem merge_idem (d s : Document ν) : merge (merge d s) s = merge d s := by
  induction s using induct generalizing d with
  | null | bool | num | str | arr => rfl
  | obj g ih =>
    have hself (k : String) : mergeMember (g k) (g k) = g k := by
      cases hk : g k with
      | none => rfl
      | some s =>
        have hnull : merge null s = s := merge_of_not_objects (.inl rfl)
        have hs := ih k s hk null
        rw [hnull] at hs
        exact congrArg some hs
    cases hd : d.isObject with
    | false =>
      rw [merge_of_not_objects (.inl hd), merge_obj]
      exact congrArg obj (funext hself)
    | true =>
      obtain ⟨f, rfl⟩ := isObject_eq_true.mp hd
      refine congrArg obj (funext fun k => ?_)
      show mergeMember (mergeMember (f k) (g k)) (g k) = mergeMember (f k) (g k)
      cases hv : f k with
      | none => rw [mergeMember_none_left, hself k]
      | some d =>
        cases hk : g k with
        | none => rfl
        | some s => exact congrArg some (ih k s hk d)

/-- What the source has at a path that ends in no object is there after the merge. -/
theorem find_merge_of_leaf {p : List String} {d s v : Document ν} (h : find p s = some v)
    (hv : v.isObject = false) : find p (merge d s) = some v := by
  induction p generalizing d s with
  | nil =>
    obtain rfl : s = v := Option.some.inj h
    rw [merge_of_not_objects (.inr hv), find_nil]
  | cons k p ih =>
    cases hd : d.isObject with
    | false => rwa [merge_of_not_objects (.inl hd)]
    | true =>
      obtain ⟨f, rfl⟩ := isObject_eq_true.mp hd
      cases s with
      | obj g =>
        obtain ⟨w, hk, hw⟩ := Option.bind_eq_some_iff.mp h
        rw [merge_obj, find_cons_obj, hk]
        cases f k with
        | none => exact hw
        | some x => exact ih hw
      | _ => cases h

/-- A path that the source misses leads to where it led before. -/
theorem find_merge_of_misses {p : List String} {d s : Document ν} (h : Misses p s) :
    find p (merge d s) = find p d := by
  induction p generalizing d s with
  | nil => exact h.elim
  | cons k p ih =>
    cases hd : d.isObject with
    | false => rw [merge_of_not_objects (.inl hd), find_of_misses h, find_cons_of_not_object hd]
    | true =>
      obtain ⟨f, rfl⟩ := isObject_eq_true.mp hd
      cases s with
      | obj g =>
        rw [merge_obj, find_cons_obj, find_cons_obj]
        cases hk : g k with
        | none => rfl
        | some w =>
          have hw : Misses p w := h w hk
          cases f k with
          | none => exact find_of_misses hw
          | some x => exact ih hw
      | _ => exact h.elim

/-! ### Numbers -/

mutual

/-- The document with other numbers. -/
def map (ρ : ν → ν) : Document ν → Document ν
  | .null => .null
  | .bool b => .bool b
  | .num n => .num (ρ n)
  | .str s => .str s
  | .arr items => .arr (mapItems ρ items)
  | .obj f => .obj fun k => mapMember ρ (f k)
termination_by structural v => v

def mapItems (ρ : ν → ν) : List (Document ν) → List (Document ν)
  | [] => []
  | v :: rest => map ρ v :: mapItems ρ rest
termination_by structural items => items

def mapMember (ρ : ν → ν) : Option (Document ν) → Option (Document ν)
  | none => none
  | some v => some (map ρ v)
termination_by structural v => v

end

/-- The number is somewhere in the document. -/
inductive Contains (n : ν) : Document ν → Prop
  | num : Contains n (num n)
  | arr {items : List (Document ν)} {v : Document ν} : v ∈ items → Contains n v →
    Contains n (arr items)
  | obj {f : String → Option (Document ν)} {k : String} {v : Document ν} :
    f k = some v → Contains n v → Contains n (obj f)

variable {ρ : ν → ν}

theorem mapMember_eq (v : Option (Document ν)) : mapMember ρ v = v.map (map ρ) := by
  cases v <;> rfl

theorem mapItems_eq (items : List (Document ν)) : mapItems ρ items = items.map (map ρ) := by
  induction items with
  | nil => rfl
  | cons v rest ih => exact congrArg (map ρ v :: ·) ih

theorem map_obj (f : String → Option (Document ν)) : map ρ (obj f) = obj fun k =>
    (f k).map (map ρ) :=
  congrArg obj (funext fun k => mapMember_eq (f k))

theorem find_map (p : List String) (v : Document ν) :
    find p (map ρ v) = (find p v).map (map ρ) := by
  induction p generalizing v with
  | nil => rfl
  | cons k p ih =>
    cases v with
    | obj f =>
      rw [map_obj, find_cons_obj, find_cons_obj]
      cases f k with
      | none => rfl
      | some w => exact ih w
    | _ => rfl

theorem map_eq_self_iff {v : Document ν} : map ρ v = v ↔ ∀ n, Contains n v → ρ n = n := by
  induction v using induct with
  | null | bool | str =>
    refine iff_of_true rfl ?_
    rintro n ⟨⟩
  | num m =>
    constructor
    · rintro h n ⟨⟩
      exact num.inj h
    · intro h
      exact congrArg num (h m .num)
  | arr items ih =>
    have hitems : items.map (map ρ) = items ↔ ∀ v ∈ items, map ρ v = v := by
      simpa using List.map_inj_left (f := map ρ) (g := id) (l := items)
    rw [map, mapItems_eq, arr.injEq, hitems]
    constructor
    · rintro h n (_ | ⟨hv, hn⟩)
      exact (ih _ hv).mp (h _ hv) n hn
    · intro h v hv
      exact (ih v hv).mpr fun n hn => h n (.arr hv hn)
  | obj f ih =>
    rw [map_obj, obj.injEq]
    constructor
    · intro h n hcontains
      cases hcontains with
      | @obj _ k v hk hn =>
        have hsame := congrFun h k
        rw [hk, Option.map_some, Option.some.injEq] at hsame
        exact (ih k v hk).mp hsame n hn
    · intro h
      funext k
      cases hk : f k with
      | none => rfl
      | some v => exact congrArg some ((ih k v hk).mpr fun n hn => h n (.obj hk hn))

/-- A document keeps its numbers if its parts that are no objects do. -/
theorem map_eq_self_of_find {v : Document ν}
    (h : ∀ p w, find p v = some w → w.isObject = false → map ρ w = w) : map ρ v = v := by
  induction v using induct with
  | null | bool | num | str | arr => exact h [] _ rfl rfl
  | obj f ih =>
    rw [map_obj]
    refine congrArg obj (funext fun k => ?_)
    cases hk : f k with
    | none => rfl
    | some v =>
      exact congrArg some (ih k v hk fun p w hw => h (k :: p) w (find_cons_of_member hk hw))

/-- A merge hides other numbers exactly where the source does not miss them. -/
theorem merge_map_eq_iff {d s : Document ν} :
    merge (map ρ d) s = merge d s ↔
      ∀ p v, find p d = some v → v.isObject = false → Misses p s → map ρ v = v := by
  constructor
  · intro h p v hfind _ hmiss
    have hsame := congrArg (find p) h
    rw [find_merge_of_misses hmiss, find_merge_of_misses hmiss, find_map, hfind] at hsame
    exact Option.some.inj hsame
  · intro h
    induction d using induct generalizing s with
    | null | bool | num | str | arr =>
      rw [merge_of_not_objects (.inl rfl), merge_of_not_objects (.inl rfl)]
    | obj f ih =>
      cases s with
      | obj g =>
        rw [map_obj, merge_obj, merge_obj]
        refine congrArg obj (funext fun k => ?_)
        cases hv : f k with
        | none => rfl
        | some v =>
          cases hk : g k with
          | none =>
            refine congrArg some (map_eq_self_of_find fun p w hw hleaf => ?_)
            exact h (k :: p) w (find_cons_of_member hv hw) hleaf (by simp [Misses, hk])
          | some s =>
            refine congrArg some (ih k v hv fun p w hw hleaf hmiss => ?_)
            exact h (k :: p) w (find_cons_of_member hv hw) hleaf (by simpa [Misses, hk] using hmiss)
      | _ => rfl

end Document

/-! ### The documents that values stand for -/

namespace Json

variable {ν : Type} {number : String → ν}

/-- No object of the value names a member more than once. -/
inductive Distinct : Json → Prop
  | null : Distinct null
  | bool (b : Bool) : Distinct (bool b)
  | num (literal : String) : Distinct (num literal)
  | str (s : String) : Distinct (str s)
  | arr {items : List Json} : (∀ j ∈ items, Distinct j) → Distinct (arr items)
  | obj {members : List (String × Json)} : (members.map (·.1)).Nodup →
    (∀ m ∈ members, Distinct m.2) → Distinct (obj members)

mutual

/-- The document of a value, where `number` gives the number of a literal. -/
def document (number : String → ν) : Json → Document ν
  | .null => .null
  | .bool b => .bool b
  | .num literal => .num (number literal)
  | .str s => .str s
  | .arr items => .arr (documents number items)
  | .obj members => .obj fun k => memberDocument number k members
termination_by structural j => j

def documents (number : String → ν) : List Json → List (Document ν)
  | [] => []
  | j :: rest => document number j :: documents number rest
termination_by structural items => items

def memberDocument (number : String → ν) (k : String) : List (String × Json) → Option (Document ν)
  | [] => none
  | m :: rest => if m.1 = k then some (entryDocument number m) else memberDocument number k rest
termination_by structural members => members

def entryDocument (number : String → ν) : String × Json → Document ν
  | (_, j) => document number j
termination_by structural m => m

end

theorem memberDocument_eq (k : String) (members : List (String × Json)) :
    memberDocument number k members = (members.lookup k).map (document number) := by
  induction members with
  | nil => rfl
  | cons m rest ih =>
    obtain ⟨key, j⟩ := m
    by_cases hk : key = k
    · subst hk
      simp [memberDocument, entryDocument]
    · have hne : (k == key) = false := by simpa using Ne.symm hk
      simp [memberDocument, hk, ih, List.lookup_cons, hne]

theorem document_obj (members : List (String × Json)) :
    document number (obj members) = .obj fun k => (members.lookup k).map (document number) :=
  congrArg Document.obj (funext fun k => memberDocument_eq k members)

/-- Induction over the members of objects. -/
@[elab_as_elim]
theorem induct {motive : Json → Prop} (null : motive null) (bool : ∀ b, motive (bool b))
    (num : ∀ literal, motive (num literal)) (str : ∀ s, motive (str s))
    (arr : ∀ items, motive (arr items))
    (obj : ∀ members, (∀ m ∈ members, motive m.2) → motive (obj members)) (j : Json) :
    motive j := by
  refine @Json.rec motive (fun _ => True) (fun members => ∀ m ∈ members, motive m.2)
    (fun m => motive m.2) null bool num str (fun items _ => arr items) obj trivial ?_ ?_ ?_ ?_ j
  · intros
    trivial
  · simp
  · intro m rest hm hrest
    exact List.forall_mem_cons.mpr ⟨hm, hrest⟩
  · intro key j hj
    exact hj

/-- A value that stands for a document, as a map of a program does. -/
structure Lists (number : String → ν) (j : Json) (v : Document ν) : Prop where
  distinct : j.Distinct
  document_eq : j.document number = v

end Json

end LlmProxy.ProofKit
