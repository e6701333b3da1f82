import LlmProxy.ProofKit.Strconv
import Mathlib.Data.List.Nodup

/-! JSON values, and how Go's `encoding/json` reads them into variables of other types.  A variable
keeps what it holds when it meets a `null`, and an object is read into a struct member by member.
`none` is an error; what the variables hold after an error is left open. -/

namespace LlmProxy.ProofKit

/-- A JSON value.  A number is its literal; an object may name a member more than once. -/
inductive Json
  | null
  | bool (b : Bool)
  | num (literal : String)
  | str (s : String)
  | arr (items : List Json)
  | obj (members : List (String × Json))

namespace Json

/-! ### Member names -/

/-- Names are compared without case.  Two characters besides the ASCII letters fold to one of these,
the long s and the Kelvin sign. -/
def foldChar (c : Char) : Char :=
  if c = '\u017f' then 'S' else if c = '\u212a' then 'K' else c.toUpper

def foldName (name : String) : List Char := name.toList.map foldChar

/-- The field of a struct that a member is read into: the one of its name, else one whose name
differs by case. -/
def fieldFor (names : List String) (key : String) : Option String :=
  if key ∈ names then some key else names.find? (foldName · = foldName key)

/-- The members that are called so. -/
def called (name : String) (members : List (String × Json)) : List Json :=
  (members.filter fun m => foldName m.1 = foldName name).map (·.2)

/-! ### Reading -/

section

variable {α : Type}

/-- A struct is read from an object; a `null` leaves it alone. -/
def members : Json → Option (List (String × Json))
  | null => some []
  | obj members => some members
  | _ => none

/-- What a field of a struct holds after the members of an object have been read, where `read` reads
one value into it and `names` are the names of all fields. -/
def field (names : List String) (name : String) (read : α → Json → Option α) (init : α)
    (members : List (String × Json)) : Option α :=
  ((members.filter fun m => fieldFor names m.1 = some name).map (·.2)).foldlM read init

def readInt (held : Int) : Json → Option Int
  | null => some held
  | num literal => parseInt? literal
  | _ => none

def readString (held : String) : Json → Option String
  | null => some held
  | str s => some s
  | _ => none

/-- A value behind a pointer. -/
def readPointer (read : α → Json → Option α) (zero : α) (held : Option α) : Json → Option (Option α)
  | null => some none
  | j => (read (held.getD zero) j).map some

/-- A slice: its elements, and those that its array still has beyond its length. -/
structure Slice (α : Type) where
  items : List α := []
  beyond : List α := []

/-- Values are read into the elements of an array, as far as these have been written. -/
def readItems (read : α → Json → Option α) (zero : α) : List α → List Json → Option (List α)
  | _, [] => some []
  | held, j :: rest => do
    let x ← read (held.headD zero) j
    let xs ← readItems read zero held.tail rest
    some (x :: xs)

/-- An array is read into that of the slice.  What it does not reach stays there, to be read into
by a longer one; `null` and an empty array give a new slice. -/
def readSlice (read : α → Json → Option α) (zero : α) (held : Slice α) : Json → Option (Slice α)
  | null | arr [] => some {}
  | arr items => do
    let written := held.items ++ held.beyond
    let xs ← readItems read zero written items
    some ⟨xs, written.drop items.length⟩
  | _ => none

/-- A struct with one field. -/
def readMember (name : String) (read : α → Json → Option α) (held : α) (j : Json) : Option α := do
  let ms ← j.members
  field [name] name read held ms

end

/-! ### Fields whose names differ by more than case -/

theorem fieldFor_eq_some {names : List String} (hdistinct : (names.map foldName).Nodup)
    {name : String} (hname : name ∈ names) {key : String} :
    fieldFor names key = some name ↔ foldName key = foldName name := by
  have hinj {a b : String} (ha : a ∈ names) (hb : b ∈ names) (h : foldName a = foldName b) :
      a = b :=
    List.inj_on_of_nodup_map hdistinct ha hb h
  unfold fieldFor
  split
  · next hkey =>
    constructor
    · rintro ⟨⟩
      rfl
    · intro h
      rw [hinj hkey hname h]
  · constructor
    · intro h
      have hfold := List.find?_some h
      exact (of_decide_eq_true hfold).symm
    · intro h
      cases hfound : names.find? (foldName · = foldName key) with
      | none => exact absurd h.symm (by simpa using List.find?_eq_none.mp hfound name hname)
      | some other =>
        have hfold : foldName other = foldName key := by simpa using List.find?_some hfound
        rw [hinj (List.mem_of_find?_eq_some hfound) hname (hfold.trans h)]

theorem field_eq {α : Type} {names : List String} (hdistinct : (names.map foldName).Nodup)
    {name : String} (hname : name ∈ names) (read : α → Json → Option α) (init : α)
    (members : List (String × Json)) :
    field names name read init members = (called name members).foldlM read init := by
  simp only [field, called, fieldFor_eq_some hdistinct hname]

theorem readMember_obj {α : Type} (name : String) (read : α → Json → Option α) (held : α)
    (ms : List (String × Json)) :
    readMember name read held (obj ms) = (called name ms).foldlM read held := by
  have hdistinct : ([name].map foldName).Nodup := List.nodup_singleton _
  exact field_eq hdistinct (List.mem_singleton.mpr rfl) read held ms

/-- The only member that is called so is read. -/
theorem readMember_of_called {α : Type} {name : String} {read : α → Json → Option α} {held : α}
    {ms : List (String × Json)} {j : Json} (h : called name ms = [j]) :
    readMember name read held (obj ms) = read held j := by
  rw [readMember_obj, h]
  simp

end Json

end LlmProxy.ProofKit
