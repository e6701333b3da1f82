import LlmProxy.ProofKit.Keyed
import Mathlib.Algebra.BigOperators.Group.List.Basic
import Mathlib.Algebra.Order.BigOperators.Group.List
import Mathlib.Algebra.Order.Ring.Nat
import Mathlib.Data.List.Dedup
import Mathlib.Data.List.Induction
import Mathlib.Data.List.Perm.Subperm

/-! Tables of counters and gauges: a table has a value for each key under which something was
recorded, the fold of what was recorded under it.  Where the keys are texts of other keys, two of
these may share a row. -/

namespace LlmProxy.ProofKit

section

variable {κ κ' ν β : Type} [DecidableEq κ] [DecidableEq κ']

/-- What was recorded under a key, in order. -/
def valuesOf (k : κ) (events : List (κ × β)) : List β := (events.filter (·.1 = k)).map (·.2)

/-- The keys under which something was recorded. -/
def keysOf (events : List (κ × β)) : List κ := (events.map (·.1)).dedup

theorem valuesOf_concat (k : κ) (events : List (κ × β)) (event : κ × β) :
    valuesOf k (events ++ [event]) =
      valuesOf k events ++ if event.1 = k then [event.2] else [] := by
  by_cases h : event.1 = k <;> simp [valuesOf, List.filter_append, h]

theorem valuesOf_eq_nil {k : κ} {events : List (κ × β)} (h : k ∉ events.map (·.1)) :
    valuesOf k events = [] := by
  rw [valuesOf, List.map_eq_nil_iff, List.filter_eq_nil_iff]
  intro event hevent heq
  exact h (List.mem_map.mpr ⟨event, hevent, by simpa using heq⟩)

theorem mem_keysOf {k : κ} {events : List (κ × β)} : k ∈ keysOf events ↔ k ∈ events.map (·.1) :=
  List.mem_dedup

namespace Keyed

/-- One more value under a key, which has the value `init` before the first one. -/
def record (f : ν → β → ν) (init : ν) (t : Keyed (Prod.fst : κ × ν → κ)) (event : κ × β) :
    Keyed (Prod.fst : κ × ν → κ) :=
  t.upsert (event.1, f ((t.get? event.1).elim init (·.2)) event.2)

def recordAll (f : ν → β → ν) (init : ν) (events : List (κ × β)) : Keyed (Prod.fst : κ × ν → κ) :=
  events.foldl (record f init) empty

variable {f : ν → β → ν} {init : ν} {events : List (κ × β)}

/-- The value under a key is the fold of what was recorded under it. -/
theorem mem_recordAll {k : κ} {v : ν} :
    (k, v) ∈ recordAll f init events ↔ k ∈ events.map (·.1) ∧
      v = (valuesOf k events).foldl f init := by
  induction events using List.reverseRecOn generalizing k v with
  | nil => simp [recordAll]
  | append_singleton events event ih =>
    have hold : ((recordAll f init events).get? event.1).elim init (·.2) =
        (valuesOf event.1 events).foldl f init := by
      by_cases hmem : event.1 ∈ events.map (·.1)
      · rw [get?_eq_some.mpr ⟨ih.mpr ⟨hmem, rfl⟩, rfl⟩]
        rfl
      · have hnone : (recordAll f init events).get? event.1 = none :=
          get?_eq_none.mpr fun x hx hkey => hmem (hkey ▸ (ih.mp hx).1)
        rw [hnone, valuesOf_eq_nil hmem]
        rfl
    have hstep : recordAll f init (events ++ [event]) =
        record f init (recordAll f init events) event := by
      rw [recordAll, List.foldl_append]
      rfl
    rw [hstep, record, mem_upsert, hold, valuesOf_concat, ih]
    by_cases heq : k = event.1
    · subst heq
      simp
    · simp [heq, Ne.symm heq]

/-- The value under a key, `init` where nothing was recorded. -/
theorem value_recordAll (k : κ) :
    ((recordAll f init events).get? k).elim init (·.2) = (valuesOf k events).foldl f init := by
  by_cases hmem : k ∈ events.map (·.1)
  · rw [get?_eq_some.mpr ⟨mem_recordAll.mpr ⟨hmem, rfl⟩, rfl⟩]
    rfl
  · have hnone : (recordAll f init events).get? k = none :=
      get?_eq_none.mpr fun x hx hkey => hmem (hkey ▸ (mem_recordAll.mp hx).1)
    rw [hnone, valuesOf_eq_nil hmem]
    rfl

theorem keys_recordAll {k : κ} :
    k ∈ (recordAll f init events).rows.map (·.1) ↔ k ∈ events.map (·.1) := by
  constructor
  · intro h
    obtain ⟨⟨k', v⟩, hrow, rfl⟩ := List.mem_map.mp h
    exact (mem_recordAll.mp hrow).1
  · intro h
    exact List.mem_map.mpr ⟨(k, _), mem_recordAll.mpr ⟨h, rfl⟩, rfl⟩

/-- Where different keys have different texts, the table has a row for each of them. -/
theorem recordAll_map_perm {g : κ → κ'}
    (hinj : ∀ k ∈ keysOf events, ∀ k' ∈ keysOf events, g k = g k' → k = k') :
    (recordAll f init (events.map (Prod.map g id))).rows.Perm
      ((keysOf events).map fun k => (g k, (valuesOf k events).foldl f init)) := by
  have hvalues {k : κ} (hk : k ∈ keysOf events) :
      valuesOf (g k) (events.map (Prod.map g id)) = valuesOf k events := by
    rw [valuesOf, List.filter_map, List.map_map, valuesOf]
    refine congrArg (List.map _) (List.filter_congr fun event hevent => decide_eq_decide.mpr ?_)
    have hevent' : event.1 ∈ keysOf events := mem_keysOf.mpr (List.mem_map.mpr ⟨event, hevent, rfl⟩)
    exact ⟨hinj _ hevent' k hk, congrArg g⟩
  have hnodup : ((keysOf events).map fun k => (g k, (valuesOf k events).foldl f init)).Nodup :=
    (List.nodup_dedup _).map_on fun k hk k' hk' heq => hinj k hk k' hk' (congrArg Prod.fst heq)
  refine (List.perm_ext_iff_of_nodup (rows_nodup _) hnodup).mpr ?_
  rintro ⟨text, v⟩
  rw [mem_rows, mem_recordAll, List.map_map, List.mem_map, List.mem_map]
  constructor
  · rintro ⟨⟨event, hevent, rfl⟩, rfl⟩
    have hk : event.1 ∈ keysOf events := mem_keysOf.mpr (List.mem_map.mpr ⟨event, hevent, rfl⟩)
    exact ⟨event.1, hk, Prod.ext rfl (congrArg (List.foldl f init) (hvalues hk).symm)⟩
  · rintro ⟨k, hk, heq⟩
    obtain ⟨rfl, rfl⟩ := Prod.mk.inj heq
    obtain ⟨event, hevent, rfl⟩ := List.mem_map.mp (mem_keysOf.mp hk)
    exact ⟨⟨event, hevent, rfl⟩, congrArg (List.foldl f init) (hvalues hk).symm⟩

/-- In any case the rows weigh no more than the keys. -/
theorem sum_recordAll_map_le (g : κ → κ') (weight : κ' → Nat) :
    ((recordAll f init (events.map (Prod.map g id))).rows.map fun row => weight row.1).sum ≤
      ((keysOf events).map fun k => weight (g k)).sum := by
  have hsubset : (recordAll f init (events.map (Prod.map g id))).rows.map (·.1) ⊆
      (keysOf events).map g := by
    intro text htext
    rw [keys_recordAll, List.map_map] at htext
    obtain ⟨event, hevent, rfl⟩ := List.mem_map.mp htext
    exact List.mem_map.mpr ⟨event.1, mem_keysOf.mpr (List.mem_map.mpr ⟨event, hevent, rfl⟩), rfl⟩
  obtain ⟨some, hperm, hsub⟩ := List.subperm_of_subset (recordAll f init _).nodup hsubset
  calc ((recordAll f init (events.map (Prod.map g id))).rows.map fun row => weight row.1).sum
      = (some.map weight).sum := by
        rw [(hperm.map weight).sum_eq, List.map_map]
        rfl
    _ ≤ (((keysOf events).map g).map weight).sum :=
      (hsub.map weight).sum_le_sum (fun _ _ => Nat.zero_le _)
    _ = ((keysOf events).map fun k => weight (g k)).sum := by
        rw [List.map_map]
        rfl

end Keyed

end

end LlmProxy.ProofKit
