import Mathlib.Data.List.Basic

/-! The binary heap of Go's `container/heap` over a slice: `swap` and `lessAt` are the slice's own
`Swap` and `Less`, `up` and `down` the two sift loops of the package, and `push`, `pop` and `remove`
its operations.  The order `less` is any strict weak order, that is, an asymmetric one with a
transitive complement.  Each operation rearranges the slice and keeps the heap order, and `pop`
takes out an element that no other element is less than. -/

namespace LlmProxy.ProofKit.BinaryHeap

variable {α : Type}

def swap (h : List α) (i j : Nat) : List α :=
  match h[i]?, h[j]? with
  | some a, some b => (h.set i b).set j a
  | _, _ => h

def lessAt (less : α → α → Bool) (h : List α) (i j : Nat) : Bool :=
  match h[i]?, h[j]? with
  | some a, some b => less a b
  | _, _ => false

def parent (i : Nat) : Nat := (i - 1) / 2

/-- The loop of `up` from index `j`, which reaches the root in at most `j` rounds. -/
def upFrom (less : α → α → Bool) : Nat → List α → Nat → List α
  | 0, h, _ => h
  | fuel + 1, h, j =>
    if parent j = j ∨ lessAt less h j (parent j) = false then h
    else upFrom less fuel (swap h (parent j) j) (parent j)

def up (less : α → α → Bool) (h : List α) (j : Nat) : List α := upFrom less (j + 1) h j

/-- The child of `i` that `down` compares with it: the right one when it exists and is less than
the left one. -/
def lesserChild (less : α → α → Bool) (h : List α) (i n : Nat) : Nat :=
  if 2 * i + 2 < n ∧ lessAt less h (2 * i + 2) (2 * i + 1) = true then 2 * i + 2 else 2 * i + 1

/-- The loop of `down` from index `i` in the first `n` elements: the slice and the last index. -/
def downFrom (less : α → α → Bool) : Nat → List α → Nat → Nat → List α × Nat
  | 0, h, i, _ => (h, i)
  | fuel + 1, h, i, n =>
    if n ≤ 2 * i + 1 then (h, i)
    else if lessAt less h (lesserChild less h i n) i = false then (h, i)
    else downFrom less fuel (swap h i (lesserChild less h i n)) (lesserChild less h i n) n

def down (less : α → α → Bool) (h : List α) (i0 n : Nat) : List α × Bool :=
  ((downFrom less n h i0 n).1, decide (i0 < (downFrom less n h i0 n).2))

def push (less : α → α → Bool) (h : List α) (x : α) : List α := up less (h ++ [x]) h.length

/-- `heap.Pop(h)`: the element taken out and the slice left, or nothing for an empty slice. -/
def pop (less : α → α → Bool) (h : List α) : Option (α × List α) :=
  let n := h.length - 1
  let h' := (down less (swap h 0 n) 0 n).1
  h'[n]?.map fun x => (x, h'.take n)

def remove (less : α → α → Bool) (h : List α) (i : Nat) : Option (α × List α) :=
  let n := h.length - 1
  let h' :=
    if n = i then h
    else
      let d := down less (swap h i n) i n
      if d.2 then d.1 else up less d.1 i
  h'[n]?.map fun x => (x, h'.take n)

/-! ### Exchanges -/

def moved (i j k : Nat) : Nat := if k = i then j else if k = j then i else k

@[simp] theorem moved_left (i j : Nat) : moved i j i = j := by simp [moved]

@[simp] theorem moved_right (i j : Nat) : moved i j j = i := by
  by_cases h : j = i <;> simp [moved, h]

theorem moved_of_ne {i j k : Nat} (hi : k ≠ i) (hj : k ≠ j) : moved i j k = k := by
  simp [moved, hi, hj]

theorem swap_perm (h : List α) (i j : Nat) : (swap h i j).Perm h := by
  rw [swap]
  split
  · rename_i a b ha hb
    obtain ⟨hi, rfl⟩ := List.getElem?_eq_some_iff.mp ha
    obtain ⟨hj, rfl⟩ := List.getElem?_eq_some_iff.mp hb
    exact List.set_set_perm hi hj
  · exact List.Perm.refl _

@[simp] theorem swap_length (h : List α) (i j : Nat) : (swap h i j).length = h.length :=
  (swap_perm h i j).length_eq

theorem swap_getElem? {h : List α} {i j : Nat} (hi : i < h.length) (hj : j < h.length) (k : Nat) :
    (swap h i j)[k]? = h[moved i j k]? := by
  simp only [swap, List.getElem?_eq_getElem hi, List.getElem?_eq_getElem hj]
  by_cases hkj : k = j
  · subst hkj
    rw [List.getElem?_set_self (by simpa using hj), moved_right, List.getElem?_eq_getElem hi]
  · rw [List.getElem?_set_ne (fun h => hkj h.symm)]
    by_cases hki : k = i
    · subst hki
      rw [List.getElem?_set_self hi, moved_left, List.getElem?_eq_getElem hj]
    · rw [List.getElem?_set_ne (fun h => hki h.symm), moved_of_ne hki hkj]

theorem lessAt_swap (less : α → α → Bool) {h : List α} {i j : Nat} (hi : i < h.length)
    (hj : j < h.length) (a b : Nat) :
    lessAt less (swap h i j) a b = lessAt less h (moved i j a) (moved i j b) := by
  simp only [lessAt, swap_getElem? hi hj]

theorem lessAt_congr {less : α → α → Bool} {h h' : List α} {a b : Nat} (ha : h[a]? = h'[a]?)
    (hb : h[b]? = h'[b]?) : lessAt less h a b = lessAt less h' a b := by
  simp only [lessAt, ha, hb]

/-! ### The order -/

structure StrictWeak (less : α → α → Bool) : Prop where
  asymm : ∀ a b, less a b = true → less b a = false
  trans_not : ∀ a b c, less a b = false → less b c = false → less a c = false

namespace StrictWeak

variable {less : α → α → Bool} {h : List α}

theorem lessAt_asymm (hw : StrictWeak less) {a b : Nat} (hab : lessAt less h a b = true) :
    lessAt less h b a = false := by
  rw [lessAt] at hab ⊢
  split at hab
  · rename_i x y hx hy
    simpa only [hx, hy] using hw.asymm x y hab
  · simp at hab

theorem lessAt_trans_not (hw : StrictWeak less) {a b c : Nat} (hb : b < h.length)
    (hab : lessAt less h a b = false) (hbc : lessAt less h b c = false) :
    lessAt less h a c = false := by
  rw [lessAt] at *
  rw [List.getElem?_eq_getElem hb] at hab hbc
  cases ha : h[a]? with
  | none => simp
  | some x =>
    cases hc : h[c]? with
    | none => simp
    | some z =>
      simp only [ha, hc] at hab hbc ⊢
      exact hw.trans_not _ _ _ hab hbc

theorem lessAt_of_lessAt_of_not (hw : StrictWeak less) {a b c : Nat} (hc : c < h.length)
    (hab : lessAt less h a b = true) (hcb : lessAt less h c b = false) :
    lessAt less h a c = true := by
  by_contra hac
  have := hw.lessAt_trans_not hc (by simpa using hac) hcb
  simp [hab] at this

end StrictWeak

theorem lessAt_irrefl {less : α → α → Bool} (hw : StrictWeak less) (h : List α) (a : Nat) :
    lessAt less h a a = false := by
  by_contra hne
  have htrue : lessAt less h a a = true := by simpa using hne
  have := hw.lessAt_asymm htrue
  simp [htrue] at this

def Ordered (less : α → α → Bool) (h : List α) (n : Nat) : Prop :=
  ∀ i, 0 < i → i < n → lessAt less h i (parent i) = false

def IsHeap (less : α → α → Bool) (h : List α) : Prop := Ordered less h h.length

theorem parent_lt {i : Nat} (hi : 0 < i) : parent i < i := by
  simp only [parent]; omega

theorem parent_eq_iff {i p : Nat} (hi : 0 < i) : parent i = p ↔ i = 2 * p + 1 ∨ i = 2 * p + 2 := by
  simp only [parent]; omega

theorem Ordered.congr {less : α → α → Bool} {h h' : List α} {n : Nat} (ho : Ordered less h n)
    (heq : ∀ k < n, h'[k]? = h[k]?) : Ordered less h' n := by
  intro i hi hin
  have hp := parent_lt hi
  rw [lessAt_congr (heq i hin) (heq (parent i) (by omega))]
  exact ho i hi hin

theorem Ordered.root {less : α → α → Bool} (hw : StrictWeak less) {h : List α} {n : Nat}
    (ho : Ordered less h n) (hn : n ≤ h.length) {i : Nat} (hi : i < n) :
    lessAt less h i 0 = false := by
  induction i using Nat.strongRecOn with
  | ind i ih =>
    by_cases h0 : i = 0
    · subst h0; exact lessAt_irrefl hw h 0
    · have hp := parent_lt (Nat.pos_of_ne_zero h0)
      exact hw.lessAt_trans_not (by omega) (ho i (by omega) hi) (ih (parent i) hp (by omega))

/-- What `up` needs of the order to start at `j`: only `j` may be less than its parent, and the
children of `j` are not less than that parent. -/
structure UpOrder (less : α → α → Bool) (h : List α) (n j : Nat) : Prop where
  pairs : ∀ i, 0 < i → i < n → i ≠ j → lessAt less h i (parent i) = false
  grand : ∀ c, 0 < c → c < n → parent c = j → 0 < j → lessAt less h c (parent j) = false

/-- What `down` needs of the order to start at `i`: the pairs that do not touch `i` are in order,
and the children of `i` are not less than its parent. -/
structure DownOrder (less : α → α → Bool) (h : List α) (n i : Nat) : Prop where
  pairs : ∀ k, 0 < k → k < n → k ≠ i → parent k ≠ i → lessAt less h k (parent k) = false
  grand : ∀ c, 0 < c → c < n → parent c = i → 0 < i → lessAt less h c (parent i) = false

/-! ### `up` -/

section Up

variable {less : α → α → Bool} {h : List α} {n j : Nat}

theorem UpOrder.swap (hw : StrictWeak less) (ho : UpOrder less h n j) (hn : n ≤ h.length)
    (hjn : j < n) (hj : 0 < j) (hless : lessAt less h j (parent j) = true) :
    UpOrder less (BinaryHeap.swap h (parent j) j) n (parent j) := by
  have hp := parent_lt hj
  have hsw := lessAt_swap less (show parent j < h.length by omega) (show j < h.length by omega)
  have hparent : 0 < parent j → lessAt less h (parent j) (parent (parent j)) = false :=
    fun h0 => ho.pairs (parent j) h0 (by omega) (by omega)
  have hsibling : ∀ i, 0 < i → i < n → i ≠ j → parent i = parent j →
      lessAt less h i (parent j) = false := by
    intro i hi hin hij hpi
    rw [← hpi]
    exact ho.pairs i hi hin hij
  constructor
  · intro i hi hin hip
    rw [hsw]
    by_cases hij : i = j
    · subst hij
      rw [moved_right, moved_left]
      exact hw.lessAt_asymm hless
    rw [moved_of_ne hip hij]
    by_cases hpi : parent i = parent j
    · rw [hpi, moved_left]
      have hlt := hw.lessAt_of_lessAt_of_not (show i < h.length by omega) hless
        (hsibling i hi hin hij hpi)
      exact hw.lessAt_asymm hlt
    by_cases hpj : parent i = j
    · rw [hpj, moved_right]
      exact ho.grand i hi hin hpj hj
    · rw [moved_of_ne hpi hpj]
      exact ho.pairs i hi hin hij
  · intro c hc hcn hcp h0
    have hpp := parent_lt h0
    rw [hsw, moved_of_ne (show parent (parent j) ≠ parent j by omega) (by omega)]
    by_cases hcj : c = j
    · subst hcj
      rw [moved_right]
      exact hparent h0
    · rw [moved_of_ne (by have := parent_lt hc; omega) hcj]
      exact hw.lessAt_trans_not (by omega) (hsibling c hc hcn hcj hcp) (hparent h0)

theorem UpOrder.ordered (ho : UpOrder less h n j)
    (hstop : 0 < j → lessAt less h j (parent j) = false) : Ordered less h n := by
  intro i hi hin
  by_cases hij : i = j
  · subst hij; exact hstop hi
  · exact ho.pairs i hi hin hij

theorem upFrom_ordered (hw : StrictWeak less) (fuel : Nat) (hfuel : j < fuel)
    (ho : UpOrder less h n j) (hn : n ≤ h.length) (hjn : j < n) :
    Ordered less (upFrom less fuel h j) n := by
  induction fuel generalizing h j with
  | zero => omega
  | succ fuel ih =>
    rw [upFrom]
    split
    · rename_i hstop
      refine ho.ordered fun h0 => ?_
      have := parent_lt h0
      exact hstop.resolve_left (by omega)
    · rename_i hgo
      simp only [not_or, Bool.not_eq_false] at hgo
      have h0 : 0 < j := by
        by_contra hj
        obtain rfl : j = 0 := by omega
        exact hgo.1 rfl
      have hp := parent_lt h0
      exact ih (by omega) (ho.swap hw hn hjn h0 hgo.2) (by simpa using hn) (by omega)

theorem upFrom_perm (fuel : Nat) (h : List α) (j : Nat) : (upFrom less fuel h j).Perm h := by
  induction fuel generalizing h j with
  | zero => exact List.Perm.refl _
  | succ fuel ih =>
    rw [upFrom]
    split
    · exact List.Perm.refl _
    · exact (ih _ _).trans (swap_perm _ _ _)

theorem up_perm (less : α → α → Bool) (h : List α) (j : Nat) : (up less h j).Perm h :=
  upFrom_perm _ _ _

theorem upFrom_getElem? (fuel : Nat) (hj : j < h.length) {k : Nat} (hk : j < k) :
    (upFrom less fuel h j)[k]? = h[k]? := by
  induction fuel generalizing h j with
  | zero => rfl
  | succ fuel ih =>
    rw [upFrom]
    split
    · rfl
    · have hp : parent j ≤ j := by simp only [parent]; omega
      rw [ih (by simp; omega) (by omega), swap_getElem? (by omega) hj,
        moved_of_ne (by omega) (by omega)]

end Up

/-! ### `down` -/

section Down

variable {less : α → α → Bool} {h : List α} {n i : Nat}

theorem lesserChild_cases (less : α → α → Bool) (h : List α) (i n : Nat) :
    lesserChild less h i n = 2 * i + 1 ∨ lesserChild less h i n = 2 * i + 2 ∧ 2 * i + 2 < n := by
  rw [lesserChild]
  split
  · rename_i hc; exact .inr ⟨rfl, hc.1⟩
  · exact .inl rfl

theorem lesserChild_min (hw : StrictWeak less) {c : Nat} (hc : 0 < c) (hcn : c < n)
    (hp : parent c = i) : lessAt less h c (lesserChild less h i n) = false := by
  rcases (parent_eq_iff hc).mp hp with rfl | rfl
  · unfold lesserChild
    split
    · rename_i hr; exact hw.lessAt_asymm hr.2
    · exact lessAt_irrefl hw _ _
  · unfold lesserChild
    split
    · exact lessAt_irrefl hw _ _
    · rename_i hr
      simpa [hcn] using hr

theorem DownOrder.swap (hw : StrictWeak less) (ho : DownOrder less h n i) (hn : n ≤ h.length)
    {c : Nat} (hc : 0 < c) (hcn : c < n) (hp : parent c = i)
    (hmin : ∀ d, 0 < d → d < n → parent d = i → lessAt less h d c = false)
    (hless : lessAt less h c i = true) :
    DownOrder less (BinaryHeap.swap h i c) n c ∧
      lessAt less (BinaryHeap.swap h i c) c (parent c) = false := by
  have hic : i < c := hp ▸ parent_lt hc
  have hsw := lessAt_swap less (show i < h.length by omega) (show c < h.length by omega)
  refine ⟨⟨?_, ?_⟩, ?_⟩
  · intro k hk hkn hkc hpk
    rw [hsw]
    by_cases hki : k = i
    · subst hki
      have := parent_lt hk
      rw [moved_left, moved_of_ne (show parent k ≠ k by omega) hpk]
      exact ho.grand c hc hcn hp hk
    rw [moved_of_ne hki hkc]
    by_cases hpi : parent k = i
    · rw [hpi, moved_left]
      exact hmin k hk hkn hpi
    · rw [moved_of_ne hpi hpk]
      exact ho.pairs k hk hkn hki hpi
  · intro d hd hdn hpd _
    have := parent_lt hd
    rw [hsw, hp, moved_left, moved_of_ne (show d ≠ i by omega) (by omega), ← hpd]
    exact ho.pairs d hd hdn (by omega) (by omega)
  · rw [hsw, moved_right, hp, moved_left]
    exact hw.lessAt_asymm hless

theorem DownOrder.ordered (ho : DownOrder less h n i)
    (habove : 0 < i → lessAt less h i (parent i) = false)
    (hbelow : ∀ c, 0 < c → c < n → parent c = i → lessAt less h c i = false) :
    Ordered less h n := by
  intro k hk hkn
  by_cases hki : k = i
  · subst hki; exact habove hk
  by_cases hpi : parent k = i
  · rw [hpi]; exact hbelow k hk hkn hpi
  · exact ho.pairs k hk hkn hki hpi

theorem lesserChild_stop (hw : StrictWeak less) (hn : n ≤ h.length)
    (hstop : n ≤ 2 * i + 1 ∨ lessAt less h (lesserChild less h i n) i = false) {c : Nat}
    (hc : 0 < c) (hcn : c < n) (hp : parent c = i) : lessAt less h c i = false := by
  have hrange := (parent_eq_iff hc).mp hp
  have hchild := lesserChild_cases less h i n
  refine hw.lessAt_trans_not (by omega) (lesserChild_min hw hc hcn hp) ?_
  exact hstop.resolve_left (by omega)

theorem downFrom_ordered (hw : StrictWeak less) (fuel : Nat) (hfuel : n ≤ fuel + i)
    (ho : DownOrder less h n i) (hn : n ≤ h.length)
    (habove : 0 < i → lessAt less h i (parent i) = false) :
    Ordered less (downFrom less fuel h i n).1 n := by
  induction fuel generalizing h i with
  | zero =>
    refine ho.ordered habove fun c hc hcn hp => ?_
    have := parent_lt hc
    omega
  | succ fuel ih =>
    rw [downFrom]
    split
    · rename_i hleaf
      exact ho.ordered habove fun c hc hcn hp => lesserChild_stop hw hn (.inl hleaf) hc hcn hp
    · rename_i hleaf
      split
      · rename_i hstop
        exact ho.ordered habove fun c hc hcn hp => lesserChild_stop hw hn (.inr hstop) hc hcn hp
      · rename_i hless
        have hchild := lesserChild_cases less h i n
        have hp : parent (lesserChild less h i n) = i :=
          (parent_eq_iff (by omega)).mpr (by omega)
        obtain ⟨hnext, hpair⟩ := ho.swap hw hn (by omega) (by omega) hp
          (fun d hd hdn hpd => lesserChild_min hw hd hdn hpd) (by simpa using hless)
        exact ih (by omega) hnext (by simpa using hn) fun _ => hpair

theorem downFrom_perm (fuel : Nat) (h : List α) (i n : Nat) :
    (downFrom less fuel h i n).1.Perm h := by
  induction fuel generalizing h i with
  | zero => exact List.Perm.refl _
  | succ fuel ih =>
    rw [downFrom]
    split
    · exact List.Perm.refl _
    · split
      · exact List.Perm.refl _
      · exact (ih _ _).trans (swap_perm _ _ _)

theorem downFrom_getElem? (fuel : Nat) (hn : n ≤ h.length) {k : Nat} (hk : n ≤ k) :
    (downFrom less fuel h i n).1[k]? = h[k]? := by
  induction fuel generalizing h i with
  | zero => rfl
  | succ fuel ih =>
    rw [downFrom]
    split
    · rfl
    · split
      · rfl
      · have hchild := lesserChild_cases less h i n
        rw [ih (by simpa using hn), swap_getElem? (by omega) (by omega),
          moved_of_ne (by omega) (by omega)]

theorem downFrom_index_le (less : α → α → Bool) (fuel : Nat) (h : List α) (i n : Nat) :
    i ≤ (downFrom less fuel h i n).2 := by
  induction fuel generalizing h i with
  | zero => exact Nat.le_refl _
  | succ fuel ih =>
    rw [downFrom]
    split
    · exact Nat.le_refl _
    · split
      · exact Nat.le_refl _
      · have hchild := lesserChild_cases less h i n
        have := ih (swap h i (lesserChild less h i n)) (lesserChild less h i n)
        omega

/-- `down` either leaves the slice as it is, with no child of `i` less than `i`, or moves the
element and restores the order. -/
theorem down_cases (hw : StrictWeak less) (ho : DownOrder less h n i) (hn : n ≤ h.length) :
    (down less h i n = (h, false) ∧
        ∀ c, 0 < c → c < n → parent c = i → lessAt less h c i = false) ∨
      ((down less h i n).2 = true ∧ Ordered less (down less h i n).1 n) := by
  rw [down]
  cases n with
  | zero => exact .inl ⟨by simp [downFrom], fun c _ hcn _ => by omega⟩
  | succ m =>
    rw [downFrom]
    split
    · rename_i hleaf
      exact .inl ⟨by simp, fun c hc hcn hp => lesserChild_stop hw hn (.inl hleaf) hc hcn hp⟩
    · rename_i hleaf
      split
      · rename_i hstop
        exact .inl ⟨by simp, fun c hc hcn hp => lesserChild_stop hw hn (.inr hstop) hc hcn hp⟩
      · rename_i hless
        have hchild := lesserChild_cases less h i (m + 1)
        have hp : parent (lesserChild less h i (m + 1)) = i :=
          (parent_eq_iff (by omega)).mpr (by omega)
        obtain ⟨hnext, hpair⟩ := ho.swap hw hn (by omega) (by omega) hp
          (fun d hd hdn hpd => lesserChild_min hw hd hdn hpd) (by simpa using hless)
        refine .inr ⟨?_, downFrom_ordered hw m (by omega) hnext (by simpa using hn) fun _ => hpair⟩
        have hge := downFrom_index_le less m (BinaryHeap.swap h i (lesserChild less h i (m + 1)))
          (lesserChild less h i (m + 1)) (m + 1)
        simp only [decide_eq_true_eq]
        omega

end Down

/-! ### The operations -/

section Operations

variable {less : α → α → Bool} {h : List α}

theorem push_perm (less : α → α → Bool) (h : List α) (x : α) : (push less h x).Perm (x :: h) :=
  (up_perm less _ _).trans (List.perm_append_singleton x h)

theorem push_isHeap (hw : StrictWeak less) (hh : IsHeap less h) (x : α) :
    IsHeap less (push less h x) := by
  have ho : UpOrder less (h ++ [x]) (h.length + 1) h.length := by
    constructor
    · intro i hi hin hne
      have hp := parent_lt hi
      have heq : ∀ k < h.length, (h ++ [x])[k]? = h[k]? := fun k hk =>
        List.getElem?_append_left hk
      rw [lessAt_congr (heq i (by omega)) (heq (parent i) (by omega))]
      exact hh i hi (by omega)
    · intro c hc hcn hp _
      have := parent_lt hc
      omega
  have hlen : (push less h x).length = h.length + 1 := (push_perm less h x).length_eq
  rw [IsHeap, hlen]
  exact upFrom_ordered hw (h.length + 1) (by omega) ho (by simp) (by omega)

/-- Cutting off the last element `x` of a rearrangement of `h` whose other elements are in
order. -/
theorem cut_last {h' : List α} {n : Nat} {x : α} (hperm : h'.Perm h) (hlen : h.length = n + 1)
    (hx : h'[n]? = some x) (ho : Ordered less h' n) :
    IsHeap less (h'.take n) ∧ (x :: h'.take n).Perm h := by
  have hlen' : h'.length = n + 1 := hperm.length_eq.trans hlen
  have hsplit : h'.take n ++ [x] = h' := by
    obtain ⟨hn, rfl⟩ := List.getElem?_eq_some_iff.mp hx
    rw [List.take_append_getElem, List.take_of_length_le (by omega)]
  constructor
  · rw [IsHeap, List.length_take, Nat.min_eq_left (by omega)]
    exact ho.congr fun k hk => List.getElem?_take_of_lt hk
  · refine List.Perm.trans ?_ hperm
    conv_rhs => rw [← hsplit]
    exact (List.perm_append_singleton x _).symm

/-- After the root or any other element `i` has been exchanged with the last one, the others are
in order except around `i`. -/
theorem swap_last_order (hw : StrictWeak less) {n i : Nat} (hh : IsHeap less h)
    (hlen : h.length = n + 1) (hi : i < n) : DownOrder less (swap h i n) n i := by
  have hsw := lessAt_swap less (show i < h.length by omega) (show n < h.length by omega)
  have hord : ∀ k, 0 < k → k < n → lessAt less h k (parent k) = false :=
    fun k hk hkn => hh k hk (by omega)
  constructor
  · intro k hk hkn hki hpi
    have hp := parent_lt hk
    rw [hsw, moved_of_ne hki (by omega), moved_of_ne hpi (by omega)]
    exact hord k hk hkn
  · intro c hc hcn hpc h0
    have hp := parent_lt hc
    have hpp := parent_lt h0
    rw [hsw, moved_of_ne (by omega) (by omega), moved_of_ne (by omega) (by omega)]
    have hci := hord c hc hcn
    rw [hpc] at hci
    exact hw.lessAt_trans_not (by omega) hci (hord i h0 hi)

theorem down_perm (less : α → α → Bool) (h : List α) (i n : Nat) : (down less h i n).1.Perm h :=
  downFrom_perm _ _ _ _

/-- `heap.Pop` takes out the root, keeps the order of the rest, and no element of the rest is
less than the one taken out. -/
theorem pop_spec (hw : StrictWeak less) (hh : IsHeap less h) (hne : h ≠ []) :
    ∃ x rest, pop less h = some (x, rest) ∧ IsHeap less rest ∧ (x :: rest).Perm h ∧
      ∀ y ∈ rest, less y x = false := by
  obtain ⟨n, hlen⟩ : ∃ n, h.length = n + 1 :=
    ⟨h.length - 1, by have := List.length_pos_of_ne_nil hne; omega⟩
  obtain ⟨x, hroot⟩ : ∃ x, h[0]? = some x := ⟨_, List.getElem?_eq_getElem (by omega)⟩
  have hlast : (down less (swap h 0 n) 0 n).1[n]? = some x := by
    rw [down, downFrom_getElem? n (by simp; omega) (Nat.le_refl n),
      swap_getElem? (by omega) (by omega), moved_right, hroot]
  have hord : Ordered less (down less (swap h 0 n) 0 n).1 n := by
    cases n with
    | zero => intro i _ hin; omega
    | succ m =>
      exact downFrom_ordered hw (m + 1) (by omega) (swap_last_order hw hh hlen (by omega))
        (by simp; omega) (by omega)
  have hperm : (down less (swap h 0 n) 0 n).1.Perm h :=
    (down_perm less _ _ _).trans (swap_perm _ _ _)
  obtain ⟨hrest, hcons⟩ := cut_last hperm hlen hlast hord
  refine ⟨x, _, ?_, hrest, hcons, fun y hy => ?_⟩
  · simp only [pop, hlen, Nat.add_sub_cancel, hlast, Option.map_some]
  · have hmem : y ∈ h := hcons.mem_iff.mp (List.mem_cons_of_mem _ hy)
    obtain ⟨i, hi, rfl⟩ := List.mem_iff_getElem.mp hmem
    have := hh.root hw (Nat.le_refl _) hi
    simpa only [lessAt, List.getElem?_eq_getElem hi, hroot] using this

/-- `heap.Remove` takes out the element at its index and keeps the order of the rest. -/
theorem remove_spec (hw : StrictWeak less) (hh : IsHeap less h) {i : Nat} {x : α}
    (hx : h[i]? = some x) :
    ∃ rest, remove less h i = some (x, rest) ∧ IsHeap less rest ∧ (x :: rest).Perm h := by
  obtain ⟨hi, -⟩ := List.getElem?_eq_some_iff.mp hx
  obtain ⟨n, hlen⟩ : ∃ n, h.length = n + 1 := ⟨h.length - 1, by omega⟩
  simp only [remove, hlen, Nat.add_sub_cancel]
  by_cases hni : n = i
  · -- The last element is cut off as it is.
    subst hni
    obtain ⟨hrest, hcons⟩ := cut_last (List.Perm.refl h) hlen hx fun k hk hkn =>
      hh k hk (by omega)
    exact ⟨_, by simp [hx], hrest, hcons⟩
  have hin : i < n := by omega
  have hdown := swap_last_order hw hh hlen hin
  have hlast : (swap h i n)[n]? = some x := by
    rw [swap_getElem? (by omega) (by omega), moved_right, hx]
  rcases down_cases hw hdown (by simp; omega) with ⟨hstay, hbelow⟩ | ⟨hmoved, hord⟩
  · -- The element from the end may still be less than its new parent: `up` takes over.
    have hup : UpOrder less (swap h i n) n i := by
      refine ⟨fun k hk hkn hki => ?_, hdown.grand⟩
      by_cases hpi : parent k = i
      · rw [hpi]; exact hbelow k hk hkn hpi
      · exact hdown.pairs k hk hkn hki hpi
    have hxlast : (up less (swap h i n) i)[n]? = some x := by
      rw [up, upFrom_getElem? _ (by simp; omega) hin, hlast]
    obtain ⟨hrest, hcons⟩ := cut_last ((up_perm less _ i).trans (swap_perm h i n)) hlen hxlast
      (upFrom_ordered hw (i + 1) (by omega) hup (by simp; omega) hin)
    exact ⟨_, by simp [hni, hstay, hxlast], hrest, hcons⟩
  · have hxlast : (down less (swap h i n) i n).1[n]? = some x := by
      rw [down, downFrom_getElem? n (by simp; omega) (Nat.le_refl n), hlast]
    obtain ⟨hrest, hcons⟩ := cut_last ((down_perm less _ _ _).trans (swap_perm h i n)) hlen hxlast
      hord
    exact ⟨_, by simp [hni, hmoved, hxlast], hrest, hcons⟩

@[simp] theorem pop_nil (less : α → α → Bool) : pop less ([] : List α) = none := by
  simp [pop, down, downFrom, swap]

end Operations

end LlmProxy.ProofKit.BinaryHeap
