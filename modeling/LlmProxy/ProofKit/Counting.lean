import Mathlib.Algebra.BigOperators.Group.List.Basic
import Mathlib.Algebra.Order.Group.Multiset
import Mathlib.Tactic.Abel

/-! Counting in a list of parties when one of them changes, what the parties hold together, and sums
over groups. -/

namespace LlmProxy.ProofKit

variable {α : Type}

/-- Replacing one element moves a count by what the old and the new element add to it. -/
theorem countP_set_add {xs : List α} {i : Nat} {x : α} (hx : xs[i]? = some x) (y : α)
    (p : α → Bool) :
    (xs.set i y).countP p + (if p x then 1 else 0) = xs.countP p + (if p y then 1 else 0) := by
  induction xs generalizing i with
  | nil => simp at hx
  | cons z zs ih =>
    cases i with
    | zero =>
      obtain rfl : z = x := by simpa using hx
      simp only [List.set_cons_zero, List.countP_cons]
      omega
    | succ i =>
      have := ih (i := i) (by simpa using hx)
      simp only [List.set_cons_succ, List.countP_cons]
      omega

/-- Replacing one element moves a sum by what the old and the new element add to it. -/
theorem sum_map_set_add {M : Type} [AddCommMonoid M] {xs : List α} {i : Nat} {x : α}
    (hx : xs[i]? = some x) (y : α) (f : α → M) :
    ((xs.set i y).map f).sum + f x = (xs.map f).sum + f y := by
  induction xs generalizing i with
  | nil => simp at hx
  | cons z zs ih =>
    cases i with
    | zero =>
      obtain rfl : z = x := by simpa using hx
      simp only [List.set_cons_zero, List.map_cons, List.sum_cons]
      abel
    | succ i =>
      have := ih (i := i) (by simpa using hx)
      simp only [List.set_cons_succ, List.map_cons, List.sum_cons]
      rw [add_assoc, this, add_assoc]

/-- A count is the sum over two kinds that exclude each other. -/
theorem countP_eq_add {xs : List α} {p q r : α → Bool} (h : ∀ x ∈ xs, p x = (q x || r x))
    (hdisjoint : ∀ x ∈ xs, q x = true → r x = false) : xs.countP p = xs.countP q + xs.countP r := by
  induction xs with
  | nil => rfl
  | cons x xs ih =>
    have hrest := ih (fun y hy => h y (by simp [hy])) fun y hy => hdisjoint y (by simp [hy])
    have hx := h x (by simp)
    have hor := hdisjoint x (by simp)
    simp only [List.countP_cons, hrest, hx]
    cases hq : q x with
    | false => simp [add_assoc]
    | true => simp [hor hq, add_right_comm]

/-- What the parties of a list hold, each at most one thing. -/
def holdings {β : Type} (f : α → Option β) (xs : List α) : Multiset β := ↑(xs.filterMap f)

theorem holdings_replicate {β : Type} (f : α → Option β) {x : α} (h : f x = none) (n : Nat) :
    holdings f (List.replicate n x) = 0 := by
  rw [holdings, List.filterMap_replicate_of_none h]
  rfl

theorem holdings_mono {β : Type} {f g : α → Option β} (h : ∀ x b, f x = some b → g x = some b)
    (xs : List α) : holdings f xs ≤ holdings g xs := by
  apply Multiset.coe_le.mpr
  apply List.Sublist.subperm
  induction xs with
  | nil => exact .slnil
  | cons x xs ih =>
    cases hf : f x with
    | some b =>
      rw [List.filterMap_cons_some hf, List.filterMap_cons_some (h x b hf)]
      exact ih.cons_cons b
    | none =>
      rw [List.filterMap_cons_none hf]
      cases hg : g x with
      | none => rwa [List.filterMap_cons_none hg]
      | some b =>
        rw [List.filterMap_cons_some hg]
        exact ih.cons b

/-- Replacing one party moves what the list holds by what the old and the new party hold. -/
theorem holdings_set_add {β : Type} (f : α → Option β) {xs : List α} {i : Nat} {x : α}
    (hx : xs[i]? = some x) (y : α) :
    holdings f (xs.set i y) + ↑(f x).toList = holdings f xs + ↑(f y).toList := by
  induction xs generalizing i with
  | nil => simp at hx
  | cons z zs ih =>
    have split (w : α) (ws : List α) : holdings f (w :: ws) = ↑(f w).toList + holdings f ws := by
      cases hw : f w <;> simp [holdings, hw]
    cases i with
    | zero =>
      obtain rfl : z = x := by simpa using hx
      rw [List.set_cons_zero, split, split]
      abel
    | succ i =>
      have := ih (i := i) (by simpa using hx)
      rw [List.set_cons_succ, split, split, add_assoc, this, add_assoc]

/-- A party that leaves takes with it what it holds. -/
theorem holdings_eraseIdx_add {β : Type} (f : α → Option β) {xs : List α} {i : Nat} {x : α}
    (hx : xs[i]? = some x) : holdings f (xs.eraseIdx i) + ↑(f x).toList = holdings f xs := by
  obtain ⟨hi, rfl⟩ := List.getElem?_eq_some_iff.mp hx
  have hperm := (List.getElem_cons_eraseIdx_perm hi).filterMap f
  rw [holdings, holdings, ← Multiset.coe_eq_coe.mpr hperm]
  cases hf : f xs[i] with
  | none => simp [hf]
  | some b =>
    rw [List.filterMap_cons_some hf, ← Multiset.cons_coe, ← Multiset.singleton_add, add_comm]
    rfl

section Holdings

variable {β : Type} (f : α → Option β) {xs : List α} {i : Nat} {x : α} {b : β}

/-- A party goes on; it takes something up; it lays something down. -/
theorem holdings_same (hx : xs[i]? = some x) (y : α) (hf : f y = f x) :
    holdings f (xs.set i y) = holdings f xs := by
  have := holdings_set_add f hx y
  rw [hf] at this
  exact add_right_cancel this

theorem holdings_gain (hx : xs[i]? = some x) (y : α) (hbefore : f x = none)
    (hafter : f y = some b) :
    holdings f (xs.set i y) = holdings f xs + {b} := by
  have := holdings_set_add f hx y
  rw [hbefore, hafter] at this
  simpa using this

theorem holdings_loss (hx : xs[i]? = some x) (y : α) (hbefore : f x = some b)
    (hafter : f y = none) :
    holdings f xs = holdings f (xs.set i y) + {b} := by
  have := holdings_set_add f hx y
  rw [hbefore, hafter] at this
  simpa using this.symm

/-- A party comes, or leaves, with nothing. -/
theorem holdings_cons (y : α) (hy : f y = none) : holdings f (y :: xs) = holdings f xs := by
  rw [holdings, List.filterMap_cons_none hy]
  rfl

theorem holdings_concat (y : α) (hy : f y = none) : holdings f (xs ++ [y]) = holdings f xs := by
  rw [holdings, List.filterMap_append, List.filterMap_cons_none hy, List.filterMap_nil,
    List.append_nil]
  rfl

theorem holdings_erase (hx : xs[i]? = some x) (hbefore : f x = none) :
    holdings f (xs.eraseIdx i) = holdings f xs := by
  have := holdings_eraseIdx_add f hx
  rw [hbefore] at this
  simpa using this

end Holdings

theorem coe_cons (x : α) (xs : List α) : ((x :: xs : List α) : Multiset α) = ↑xs + {x} := by
  rw [← Multiset.cons_coe, ← Multiset.singleton_add, add_comm]

/-- What a list of parties holds, where each holds a list of things and one of them is set apart. -/
theorem flatMap_set_perm {β : Type} (f : α → List β) {xs : List α} {i : Nat} (hi : i < xs.length)
    (y : α) : ((xs.set i y).flatMap f).Perm (f y ++ (xs.eraseIdx i).flatMap f) := by
  have := (List.set_perm_cons_eraseIdx hi y).flatMap_right f
  rwa [List.flatMap_cons] at this

theorem flatMap_perm_eraseIdx {β : Type} (f : α → List β) {xs : List α} {i : Nat} {x : α}
    (hx : xs[i]? = some x) : (xs.flatMap f).Perm (f x ++ (xs.eraseIdx i).flatMap f) := by
  obtain ⟨hi, rfl⟩ := List.getElem?_eq_some_iff.mp hx
  have := flatMap_set_perm f hi xs[i]
  rwa [List.set_getElem_self] at this

/-- An element other than the new one was there before. -/
theorem mem_of_mem_set_ne {xs : List α} {i : Nat} {x y : α} (h : x ∈ xs.set i y) (hne : x ≠ y) :
    x ∈ xs :=
  (List.mem_or_eq_of_mem_set h).resolve_right hne

/-- Over groups that no element is in twice and none is left out of, the sums of the groups add up
to the sum of all elements. -/
theorem sum_groups {κ M : Type} [DecidableEq κ] [AddCommMonoid M] (k : α → κ) (g : α → M)
    {keys : List κ} (hnodup : keys.Nodup) {xs : List α} (hmem : ∀ x ∈ xs, k x ∈ keys) :
    (keys.map fun key => ((xs.filter (k · = key)).map g).sum).sum = (xs.map g).sum := by
  induction xs with
  | nil => simp
  | cons x xs ih =>
    obtain ⟨hx, hxs⟩ := List.forall_mem_cons.mp hmem
    have hgroup (key : κ) : (((x :: xs).filter (k · = key)).map g).sum =
        (if key = k x then g x else 0) + ((xs.filter (k · = key)).map g).sum := by
      by_cases hkey : key = k x
      · simp [hkey]
      · simp [hkey, Ne.symm hkey]
    have hone : (keys.map fun key => if key = k x then g x else 0).sum = g x := by
      rw [List.sum_map_eq_nsmul_single (k x) _ fun key hne _ => if_neg hne,
        List.count_eq_one_of_mem hnodup hx, if_pos rfl, one_nsmul]
    simp only [hgroup, List.sum_map_add, hone, ih hxs, List.map_cons, List.sum_cons]

section Sums

theorem countP_eq_sum (p : α → Prop) [DecidablePred p] (xs : List α) :
    xs.countP p = (xs.map fun x => if p x then 1 else 0).sum := by
  induction xs with
  | nil => rfl
  | cons x xs ih => by_cases hx : p x <;> simp [hx, ih, Nat.add_comm]

variable {β M : Type} [AddCommMonoid M]

theorem sum_map_filter (p : α → Prop) [DecidablePred p] (f : α → M) (xs : List α) :
    ((xs.filter p).map f).sum = (xs.map fun x => if p x then f x else 0).sum := by
  induction xs with
  | nil => rfl
  | cons x xs ih => by_cases hx : p x <;> simp [hx, ih]

theorem sum_map_filterMap (g : α → Option β) (f : β → M) (xs : List α) :
    ((xs.filterMap g).map f).sum = (xs.map fun x => (g x).elim 0 f).sum := by
  induction xs with
  | nil => rfl
  | cons x xs ih => cases hx : g x <;> simp [hx, ih]

theorem sum_map_flatMap (g : α → List β) (f : β → M) (xs : List α) :
    ((xs.flatMap g).map f).sum = (xs.map fun x => ((g x).map f).sum).sum := by
  induction xs with
  | nil => rfl
  | cons x xs ih => simp [ih]

end Sums

/-- How many numbers fit between two bounds when each is at least `d` above all that follow it. -/
theorem mul_length_le_of_pairwise {d low high : Int} {xs : List Int} (hd : 0 ≤ d)
    (hapart : xs.Pairwise fun x y => y + d ≤ x) (hle : low ≤ high)
    (hbounds : ∀ x ∈ xs, low ≤ x ∧ x ≤ high) : d * xs.length ≤ high - low + d := by
  induction xs generalizing high with
  | nil =>
    simp only [List.length_nil, Nat.cast_zero, mul_zero]
    omega
  | cons x xs ih =>
    obtain ⟨hrest, hapart⟩ := List.pairwise_cons.mp hapart
    obtain ⟨⟨hlow, hhigh⟩, hbounds⟩ := List.forall_mem_cons.mp hbounds
    rcases xs.eq_nil_or_concat with rfl | ⟨_, y, rfl⟩
    · simp only [List.length_singleton, Nat.cast_one, mul_one]
      omega
    · -- the rest lies between `low` and `x - d`
      have hy := hrest y (by simp)
      have hylow := (hbounds y (by simp)).1
      have hmore := ih hapart (show low ≤ x - d by omega) fun z hz => by
        have := hrest z hz
        have := hbounds z hz
        omega
      rw [List.length_cons, Nat.cast_succ, mul_add, mul_one]
      omega

end LlmProxy.ProofKit
