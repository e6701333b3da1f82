import Mathlib.Data.List.Nodup
import Mathlib.Data.List.Perm.Basic
import Mathlib.Order.Lattice

/-! Tables in which no two rows have the same key: the map of a program, whose values carry their
keys, or a table of a database with a primary key.  A table lists its rows in some order, which its
operations do not promise to keep; what they promise is which rows are in it. -/

namespace LlmProxy.ProofKit

/-- The rows of a table, no two of them with the same key. -/
structure Keyed {α κ : Type} (key : α → κ) where
  rows : List α
  nodup : (rows.map key).Nodup

namespace Keyed

variable {α κ : Type} {key : α → κ}

instance : Membership α (Keyed key) where
  mem t x := x ∈ t.rows

theorem mem_rows {t : Keyed key} {x : α} : x ∈ t.rows ↔ x ∈ t := Iff.rfl

def empty : Keyed key := ⟨[], List.nodup_nil⟩

@[simp] theorem notMem_empty (x : α) : x ∉ (empty : Keyed key) := List.not_mem_nil

theorem eq_of_key {t : Keyed key} {x y : α} (hx : x ∈ t) (hy : y ∈ t) (h : key x = key y) : x = y :=
  List.inj_on_of_nodup_map t.nodup hx hy h

theorem rows_nodup (t : Keyed key) : t.rows.Nodup := t.nodup.of_map

/-- A table whose keys are among those of another one. -/
def filter (t : Keyed key) (p : α → Bool) : Keyed key :=
  ⟨t.rows.filter p, t.nodup.sublist (List.filter_sublist.map key)⟩

theorem mem_filter {t : Keyed key} {p : α → Bool} {x : α} : x ∈ t.filter p ↔ x ∈ t ∧ p x = true :=
  List.mem_filter

theorem filter_eq_self {t : Keyed key} {p : α → Bool} (h : ∀ x ∈ t, p x = true) :
    t.filter p = t := by
  cases t
  simp only [filter, mk.injEq]
  exact List.filter_eq_self.mpr h

variable [DecidableEq κ]

def get? (t : Keyed key) (k : κ) : Option α := t.rows.find? (key · = k)

theorem get?_eq_some {t : Keyed key} {k : κ} {x : α} : t.get? k = some x ↔ x ∈ t ∧ key x = k := by
  constructor
  · intro h
    exact ⟨List.mem_of_find?_eq_some h, by simpa using List.find?_some h⟩
  · rintro ⟨hx, rfl⟩
    cases hfound : t.get? (key x) with
    | none => exact absurd (List.find?_eq_none.mp hfound x hx) (by simp)
    | some y =>
      have hkey : key y = key x := by simpa using List.find?_some hfound
      rw [eq_of_key (List.mem_of_find?_eq_some hfound) hx hkey]

theorem get?_eq_none {t : Keyed key} {k : κ} : t.get? k = none ↔ ∀ x ∈ t, key x ≠ k := by
  simp [get?, List.find?_eq_none, mem_rows]

def erase (t : Keyed key) (k : κ) : Keyed key := t.filter (key · ≠ k)

@[simp] theorem mem_erase {t : Keyed key} {k : κ} {x : α} : x ∈ t.erase k ↔ x ∈ t ∧ key x ≠ k := by
  simp [erase, mem_filter]

/-- The rows after a row is put in the place of the one with its key, or at the end. -/
def upsertRows (key : α → κ) (x : α) (rows : List α) : List α :=
  if rows.any (key · = key x) then rows.map fun y => if key y = key x then x else y
  else rows ++ [x]

theorem map_upsertRows (x : α) (rows : List α) :
    (upsertRows key x rows).map key =
      if rows.any (key · = key x) then rows.map key else rows.map key ++ [key x] := by
  unfold upsertRows
  split
  · rw [List.map_map]
    refine List.map_congr_left fun y _ => ?_
    simp only [Function.comp_apply]
    split
    · next h => exact h.symm
    · rfl
  · simp

def upsert (t : Keyed key) (x : α) : Keyed key where
  rows := upsertRows key x t.rows
  nodup := by
    rw [map_upsertRows]
    split
    · exact t.nodup
    · next h =>
      have hfresh : key x ∉ t.rows.map key := by simpa using h
      exact t.nodup.append (List.nodup_singleton _) (List.disjoint_singleton.mpr hfresh)

@[simp] theorem mem_upsert {t : Keyed key} {x y : α} :
    y ∈ t.upsert x ↔ y = x ∨ y ∈ t ∧ key y ≠ key x := by
  show y ∈ upsertRows key x t.rows ↔ _
  unfold upsertRows
  split
  · next h =>
    obtain ⟨z, hz, hkey⟩ : ∃ z ∈ t, key z = key x := by simpa [mem_rows] using h
    simp only [List.mem_map, mem_rows]
    constructor
    · rintro ⟨w, hw, rfl⟩
      split
      · exact .inl rfl
      · next hne => exact .inr ⟨hw, hne⟩
    · rintro (rfl | ⟨hy, hne⟩)
      · exact ⟨z, hz, if_pos hkey⟩
      · exact ⟨y, hy, if_neg hne⟩
  · next h =>
    have hfresh : ∀ z ∈ t, key z ≠ key x := by simpa [mem_rows] using h
    simp only [List.mem_append, List.mem_singleton, mem_rows]
    constructor
    · rintro (hy | rfl)
      · exact .inr ⟨hy, hfresh y hy⟩
      · exact .inl rfl
    · rintro (rfl | ⟨hy, -⟩)
      · exact .inr rfl
      · exact .inl hy

/-- Rows with different keys are all written, over the rows with their keys. -/
theorem mem_foldl_upsert {xs : List α} {t : Keyed key} {y : α} (h : (xs.map key).Nodup) :
    y ∈ xs.foldl upsert t ↔ y ∈ xs ∨ y ∈ t ∧ ∀ x ∈ xs, key y ≠ key x := by
  induction xs generalizing t with
  | nil => simp
  | cons x xs ih =>
    obtain ⟨hfresh, hrest⟩ := List.nodup_cons.mp h
    have hx : ∀ x' ∈ xs, key x ≠ key x' := fun x' hx' heq =>
      hfresh (List.mem_map.mpr ⟨x', hx', heq.symm⟩)
    rw [List.foldl_cons, ih hrest, mem_upsert, List.mem_cons, List.forall_mem_cons]
    constructor
    · rintro (hy | ⟨rfl | ⟨hy, hne⟩, hall⟩)
      · exact .inl (.inr hy)
      · exact .inl (.inl rfl)
      · exact .inr ⟨hy, hne, hall⟩
    · rintro ((rfl | hy) | ⟨hy, hne, hall⟩)
      · exact .inr ⟨.inl rfl, hx⟩
      · exact .inl hy
      · exact .inr ⟨.inr ⟨hy, hne⟩, hall⟩

/-- A row is added unless there is one with its key. -/
def insertNew (t : Keyed key) (x : α) : Keyed key :=
  if h : key x ∈ t.rows.map key then t
  else
    { rows := t.rows ++ [x]
      nodup := by
        rw [List.map_append]
        exact t.nodup.append (List.nodup_singleton _) (List.disjoint_singleton.mpr h) }

theorem insertNew_of_mem {t : Keyed key} {x : α} (h : key x ∈ t.rows.map key) :
    t.insertNew x = t := by
  rw [insertNew, dif_pos h]

theorem rows_insertNew {t : Keyed key} {x : α} (h : key x ∉ t.rows.map key) :
    (t.insertNew x).rows = t.rows ++ [x] := by
  rw [insertNew, dif_neg h]

theorem rows_sublist_insertNew (t : Keyed key) (x : α) : t.rows.Sublist (t.insertNew x).rows := by
  by_cases h : key x ∈ t.rows.map key
  · rw [insertNew_of_mem h]
  · rw [rows_insertNew h]
    exact List.sublist_append_left _ _

theorem rows_sublist_foldl_insertNew (t : Keyed key) (xs : List α) :
    t.rows.Sublist (xs.foldl insertNew t).rows := by
  induction xs generalizing t with
  | nil => exact .refl _
  | cons x xs ih => exact (rows_sublist_insertNew t x).trans (ih (t.insertNew x))

/-- Rows with new and different keys are all added. -/
theorem foldl_insertNew {xs : List α} {t : Keyed key} (h : (t.rows.map key ++ xs.map key).Nodup) :
    (xs.foldl insertNew t).rows = t.rows ++ xs := by
  induction xs generalizing t with
  | nil => simp
  | cons x xs ih =>
    have hfresh : key x ∉ t.rows.map key := fun hmem =>
      List.disjoint_of_nodup_append h hmem (by simp)
    have hrows := rows_insertNew hfresh
    rw [List.foldl_cons, ih (by rw [hrows]; simpa using h), hrows, List.append_assoc,
      List.singleton_append]

/-- The rows that are left out when these are added one after the other. -/
def leftOut : Keyed key → List α → List α
  | _, [] => []
  | t, x :: xs =>
    if key x ∈ t.rows.map key then x :: t.leftOut xs else (t.insertNew x).leftOut xs

/-- Every row is in the table or left out. -/
theorem foldl_insertNew_perm (t : Keyed key) (xs : List α) :
    ((xs.foldl insertNew t).rows ++ t.leftOut xs).Perm (t.rows ++ xs) := by
  induction xs generalizing t with
  | nil => simp [leftOut]
  | cons x xs ih =>
    rw [List.foldl_cons, leftOut]
    split
    · next hmem =>
      rw [insertNew_of_mem hmem]
      exact List.perm_middle.trans (((ih t).cons x).trans List.perm_middle.symm)
    · next hfresh =>
      have hrest := ih (t.insertNew x)
      rwa [rows_insertNew hfresh, List.append_assoc, List.singleton_append] at hrest

/-- A row is left out because there is one with its key. -/
theorem key_mem_of_leftOut {t : Keyed key} {xs : List α} {x : α} (h : x ∈ t.leftOut xs) :
    key x ∈ (xs.foldl insertNew t).rows.map key := by
  induction xs generalizing t with
  | nil => simp [leftOut] at h
  | cons y xs ih =>
    rw [leftOut] at h
    rw [List.foldl_cons]
    split at h
    · next hmem =>
      rw [insertNew_of_mem hmem]
      rcases List.mem_cons.mp h with rfl | hrest
      · exact ((rows_sublist_foldl_insertNew t xs).map key).subset hmem
      · exact ih hrest
    · exact ih h

/-- In any case some of the rows are added, in their order. -/
theorem exists_foldl_insertNew (xs : List α) (t : Keyed key) :
    ∃ ys, ys.Sublist xs ∧ (xs.foldl insertNew t).rows = t.rows ++ ys := by
  induction xs generalizing t with
  | nil => exact ⟨[], .slnil, by simp⟩
  | cons x xs ih =>
    obtain ⟨ys, hsub, hrows⟩ := ih (t.insertNew x)
    rw [List.foldl_cons, hrows]
    by_cases hmem : key x ∈ t.rows.map key
    · exact ⟨ys, hsub.cons x, by rw [insertNew, dif_pos hmem]⟩
    · exact ⟨x :: ys, hsub.cons_cons x, by rw [insertNew, dif_neg hmem]; simp⟩

/-- All of the rows get into an empty table exactly when their keys are different. -/
theorem length_foldl_insertNew {xs : List α} :
    (xs.foldl insertNew (empty : Keyed key)).rows.length = xs.length ↔ (xs.map key).Nodup := by
  constructor
  · intro hlen
    obtain ⟨ys, hsub, hrows⟩ := exists_foldl_insertNew xs (empty : Keyed key)
    have hall : ys = xs := hsub.eq_of_length (by rw [← hlen, hrows]; rfl)
    have hnodup := (xs.foldl insertNew (empty : Keyed key)).nodup
    rwa [hrows, hall] at hnodup
  · intro hnodup
    rw [foldl_insertNew (by simpa [empty] using hnodup)]
    rfl

/-! ### As a function of the key -/

theorem get?_eq_of_mem {t t' : Keyed key} {k : κ}
    (h : ∀ x, key x = k → (x ∈ t ↔ x ∈ t')) : t.get? k = t'.get? k := by
  apply Option.ext
  intro x
  rw [get?_eq_some, get?_eq_some]
  exact and_congr_left fun hk => h x hk

/-- A row is found unless there was one with its key before. -/
theorem get?_insertNew (t : Keyed key) (x : α) (k : κ) :
    (t.insertNew x).get? k = (t.get? k).or (if key x = k then some x else none) := by
  unfold insertNew
  split
  · next hmem =>
    by_cases hk : key x = k
    · obtain ⟨y, hy, hkey⟩ := List.mem_map.mp hmem
      rw [get?_eq_some.mpr ⟨hy, hkey.trans hk⟩]
      rfl
    · rw [if_neg hk, Option.or_none]
  · simp only [get?, List.find?_append, List.find?_cons, List.find?_nil]
    by_cases hk : key x = k <;> simp [hk]

@[simp] theorem get?_empty : (empty : Keyed key).get? = fun _ => none := rfl

theorem get?_upsert (t : Keyed key) (x : α) :
    (t.upsert x).get? = Function.update t.get? (key x) (some x) := by
  funext k
  by_cases hk : k = key x
  · subst hk
    rw [Function.update_self, get?_eq_some]
    exact ⟨mem_upsert.mpr (.inl rfl), rfl⟩
  · rw [Function.update_of_ne hk]
    refine get?_eq_of_mem fun y hy => ?_
    have hne : key y ≠ key x := hy.trans_ne hk
    simp only [mem_upsert, hne, ne_eq, not_false_eq_true, and_true, or_iff_right_iff_imp]
    rintro rfl
    exact absurd rfl hne

theorem get?_erase (t : Keyed key) (k : κ) : (t.erase k).get? = Function.update t.get? k none := by
  funext k'
  by_cases hk : k' = k
  · subst hk
    rw [Function.update_self, get?_eq_none]
    exact fun x hx => (mem_erase.mp hx).2
  · rw [Function.update_of_ne hk]
    refine get?_eq_of_mem fun y hy => ?_
    have hne : key y ≠ k := hy.trans_ne hk
    simp [hne]

end Keyed

/-! ### Listings -/

/-- A listing of the rows in which this holds between each of them and those after it. -/
structure OrderedBy {α : Type} (r : α → α → Prop) (rows out : List α) : Prop where
  perm : out.Perm rows
  sorted : out.Pairwise r

/-- Rows can be listed by any key with an order. -/
theorem exists_orderedBy {α β : Type} [LinearOrder β] (f : α → β) (rows : List α) :
    ∃ out, OrderedBy (fun a b => f a ≤ f b) rows out := by
  let le := fun a b : α => decide (f a ≤ f b)
  refine ⟨rows.mergeSort le, List.mergeSort_perm rows le, ?_⟩
  have hsorted : (rows.mergeSort le).Pairwise (le · ·) := by
    refine List.pairwise_mergeSort (fun a b c hab hbc => ?_) (fun a b => ?_) rows
    · exact decide_eq_true (le_trans (of_decide_eq_true hab) (of_decide_eq_true hbc))
    · simpa [le] using le_total (f a) (f b)
  exact hsorted.imp of_decide_eq_true

namespace OrderedBy

variable {α : Type} {r : α → α → Prop} {rows out : List α}

/-- The first rows of a listing, and the rest. -/
theorem split (h : OrderedBy r rows out) (n : Nat) :
    (out.take n ++ out.drop n).Perm rows ∧ ∀ a ∈ out.take n, ∀ b ∈ out.drop n, r a b := by
  have hsplit := List.take_append_drop n out
  refine ⟨(List.Perm.of_eq hsplit).trans h.perm, ?_⟩
  exact (List.pairwise_append.mp (hsplit.symm ▸ h.sorted)).2.2

end OrderedBy

end LlmProxy.ProofKit
