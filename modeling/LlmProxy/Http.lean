import LlmProxy.Logging.Classify
import LlmProxy.Domain

/-! What the proxy uses of `net/http`: header maps, upstream responses, and what the client's
`ResponseWriter` is asked to do. -/

namespace LlmProxy

/-- `http.Header`, with canonical names. -/
abbrev Header := List (String × List String)

namespace Header

/-- `h[key] = vals`. -/
def assign (h : Header) (key : String) (vals : List String) : Header :=
  if h.any (·.1 = key) then h.map fun entry => if entry.1 = key then (key, vals) else entry
  else h ++ [(key, vals)]

def get (h : Header) (key : String) : List String :=
  ((h.find? (·.1 = key)).map (·.2)).getD []

def set (h : Header) (key val : String) : Header := h.assign key [val]

def add (h : Header) (key val : String) : Header := h.assign key (h.get key ++ [val])

/-- The loop that adds every value of another header. -/
def addAll (h : Header) (other : Header) : Header :=
  other.foldl (fun h entry => entry.2.foldl (fun h v => h.add entry.1 v) h) h

/-! ### What a header holds -/

theorem get_cons (entry : String × List String) (h : Header) (key : String) :
    Header.get (entry :: h) key = if entry.1 = key then entry.2 else h.get key := by
  rw [get, List.find?_cons]
  by_cases heq : entry.1 = key <;> simp [heq, get]

theorem get_map (h : Header) (key k : String) (vals : List String) :
    Header.get (h.map fun entry => if entry.1 = key then (key, vals) else entry) k =
      if k = key then (if h.any (·.1 = key) then vals else []) else h.get k := by
  induction h with
  | nil => simp [get]
  | cons entry h ih =>
    rw [List.map_cons, get_cons, get_cons, ih]
    by_cases hentry : entry.1 = key
    · by_cases hk : k = key
      · simp [hentry, hk]
      · simp [hentry, hk, Ne.symm hk]
    · have hany : (entry :: h).any (·.1 = key) = h.any (·.1 = key) := by
        rw [List.any_cons, decide_eq_false hentry, Bool.false_or]
      by_cases hk : k = key
      · simp only [hentry, if_false, hk, if_true, hany]
      · simp [hentry, hk]

theorem get_append (h : Header) (key k : String) (vals : List String)
    (hfresh : h.any (·.1 = key) = false) :
    Header.get (h ++ [(key, vals)]) k = if k = key then vals else h.get k := by
  induction h with
  | nil =>
    by_cases hk : k = key
    · simp [get_cons, hk]
    · simp [get_cons, hk, Ne.symm hk]
  | cons entry h ih =>
    obtain ⟨hentry, hrest⟩ : entry.1 ≠ key ∧ h.any (·.1 = key) = false := by simpa using hfresh
    rw [List.cons_append, get_cons, get_cons, ih hrest]
    by_cases hk : k = key
    · simp [hk, hentry]
    · simp [hk]

@[simp] theorem get_assign (h : Header) (key k : String) (vals : List String) :
    (h.assign key vals).get k = if k = key then vals else h.get k := by
  unfold assign
  split
  · next hany => simp [get_map, hany]
  · next hany => exact get_append h key k vals ((Bool.not_eq_true _).mp hany)

@[simp] theorem get_set (h : Header) (key k val : String) :
    (h.set key val).get k = if k = key then [val] else h.get k :=
  get_assign h key k [val]

theorem get_addValues (h : Header) (key k : String) (vals : List String) :
    (vals.foldl (fun h v => h.add key v) h).get k = h.get k ++ (if k = key then vals else []) := by
  induction vals generalizing h with
  | nil => simp
  | cons v vals ih =>
    rw [List.foldl_cons, ih, add, get_assign]
    by_cases hk : k = key <;> simp [hk]

/-- Adding the values of a header with different names puts them after the values that are there. -/
theorem get_addAll (h other : Header) (hdistinct : (other.map (·.1)).Nodup) (k : String) :
    (h.addAll other).get k = h.get k ++ other.get k := by
  induction other generalizing h with
  | nil => simp [addAll, get]
  | cons entry other ih =>
    obtain ⟨hentry, hrest⟩ := List.nodup_cons.mp hdistinct
    have hstep : h.addAll (entry :: other) =
        (entry.2.foldl (fun h v => h.add entry.1 v) h).addAll other := rfl
    rw [hstep, ih _ hrest, get_addValues, get_cons]
    by_cases hk : k = entry.1
    · subst hk
      have hnone : Header.get other entry.1 = [] := by
        have hfind : other.find? (·.1 = entry.1) = none := by
          refine List.find?_eq_none.mpr fun e he => ?_
          have : e.1 ≠ entry.1 := fun heq => hentry (List.mem_map.mpr ⟨e, he, heq⟩)
          simpa using this
        rw [get, hfind]
        rfl
      simp [hnone]
    · simp [hk, Ne.symm hk]

end Header

/-- An upstream response: `body` is what can be read of its body, and `bodyErr` is the error that
the reading ends with when it is not the end of the body. -/
structure Response where
  statusCode : Int
  header : Header := []
  body : Bytes := []
  bodyErr : Option GoError := none

/-- Who writes to the client. -/
inductive Source
  | attempt (n : Nat)
  | workerError
  | handler
  deriving DecidableEq

/-- A call on the client's `ResponseWriter`: `WriteHeader`, with the header map at that moment, or
`Write`. -/
inductive ClientCall
  | writeHeader (src : Source) (status : Int) (header : Header)
  | write (src : Source) (bytes : Bytes)
  deriving DecidableEq

namespace ClientCall

def source : ClientCall → Source
  | writeHeader src _ _ | write src _ => src

def isHeader : ClientCall → Bool
  | writeHeader .. => true
  | write .. => false

end ClientCall

end LlmProxy
