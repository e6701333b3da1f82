import LlmProxy.Logging.Retention

/-! The loops of `PruneRequestLogsBySize` and `PruneDetailLogsBySize`.  They end, and what they
delete are the first batches of one listing of the table by age, as many as it takes to bring the
size down. -/

namespace LlmProxy.Storage

open ProofKit

/-- `PruneRequestLogsBySize`. -/
def PruneRequestLogsBySize (stamp : RequestLog → String) (maxBytes : Int) (t t' : Logs) : Prop :=
  PrunedBySize stamp (requestSize stamp) 500 maxBytes t t'

/-- `PruneDetailLogsBySize`. -/
def PruneDetailLogsBySize (stamp : DetailLog → String) (maxBytes : Int) (t t' : Details) : Prop :=
  PrunedBySize stamp (detailSize stamp) 100 maxBytes t t'

section Stamped

variable {α : Type} {key : α → String} {stamp : α → String} {size : α → Nat} {batch : Nat}
  {maxBytes : Int} {t t' : Keyed key} {sorted : List α}

/-- The table without the first `k` batches of a listing. -/
def afterBatches (batch : Nat) (sorted : List α) (k : Nat) (t : Keyed key) : Keyed key :=
  deleteRows (sorted.take (k * batch)) t

/-- The oldest `k` batches are gone, and `k` is the least number with which the size is within the
limit. -/
structure LeastBatches (stamp : α → String) (size : α → Nat) (batch : Nat) (maxBytes : Int)
    (t t' : Keyed key) (sorted : List α) (k : Nat) : Prop where
  listed : EarliestStamps stamp t.rows sorted
  left : t' = afterBatches batch sorted k t
  small : sizeBytes size t' ≤ maxBytes
  large : ∀ j < k, maxBytes < sizeBytes size (afterBatches batch sorted j t)

/-! ### Batch after batch -/

theorem deleteRows_nil (t : Keyed key) : deleteRows [] t = t :=
  Keyed.filter_eq_self fun _ _ => rfl

theorem deleteRows_append (first rest : List α) (t : Keyed key) :
    deleteRows (first ++ rest) t = deleteRows rest (deleteRows first t) := by
  simp only [deleteRows, Keyed.filter, Keyed.mk.injEq, List.filter_filter]
  refine List.filter_congr fun row _ => ?_
  rw [List.map_append, List.contains_append, Bool.not_or, Bool.and_comm]

@[simp] theorem afterBatches_zero (batch : Nat) (sorted : List α) (t : Keyed key) :
    afterBatches batch sorted 0 t = t := by
  rw [afterBatches, Nat.zero_mul, List.take_zero, deleteRows_nil]

theorem afterBatches_succ (batch : Nat) (sorted : List α) (k : Nat) (t : Keyed key) :
    afterBatches batch sorted (k + 1) t =
      afterBatches batch (sorted.drop batch) k (deleteRows (sorted.take batch) t) := by
  have htake : sorted.take ((k + 1) * batch) =
      sorted.take batch ++ (sorted.drop batch).take (k * batch) := by
    rw [Nat.succ_mul, Nat.add_comm, List.take_add]
  rw [afterBatches, htake, deleteRows_append, afterBatches]

/-- After a round the rest of its listing is a listing of the table. -/
theorem EarliestStamps.drop (h : EarliestStamps stamp t.rows sorted) (n : Nat) :
    EarliestStamps stamp (deleteRows (sorted.take n) t).rows (sorted.drop n) := by
  refine ⟨?_, h.sorted.drop⟩
  exact (deleteRows_rest (List.perm_append_comm.trans (h.split n).1)).symm

/-- The first rows of a listing go before any listing of the rest. -/
theorem EarliestStamps.extend (h : EarliestStamps stamp t.rows sorted) {n : Nat} {rest : List α}
    (hrest : EarliestStamps stamp (deleteRows (sorted.take n) t).rows rest) :
    EarliestStamps stamp t.rows (sorted.take n ++ rest) := by
  have hperm : rest.Perm (sorted.drop n) := hrest.perm.trans (h.drop n).perm.symm
  obtain ⟨hsplit, hbefore⟩ := h.split n
  refine ⟨(hperm.append_left _).trans hsplit,
    List.pairwise_append.mpr ⟨h.sorted.take, hrest.sorted, ?_⟩⟩
  exact fun a ha b hb => hbefore a ha b (hperm.mem_iff.mp hb)

/-- A round that finds less than a batch leaves nothing, so that the first batch of the longer
listing is that of the round in any case. -/
theorem EarliestStamps.split_extend (h : EarliestStamps stamp t.rows sorted) {n : Nat}
    {rest : List α} (hrest : EarliestStamps stamp (deleteRows (sorted.take n) t).rows rest) :
    (sorted.take n ++ rest).take n = sorted.take n ∧ (sorted.take n ++ rest).drop n = rest := by
  by_cases hn : n ≤ sorted.length
  · have hlength : (sorted.take n).length = n := List.length_take_of_le hn
    exact ⟨List.take_left' hlength, List.drop_left' hlength⟩
  · have hnone : sorted.drop n = [] := List.drop_eq_nil_of_le (by omega)
    have hperm : rest.Perm (sorted.drop n) := hrest.perm.trans (h.drop n).perm.symm
    obtain rfl : rest = [] := (hnone ▸ hperm).eq_nil
    rw [List.append_nil, List.take_take, Nat.min_self, List.drop_take]
    simp

/-- A round deletes the first batch of its listing; the batches of the rounds after it are those of
a listing of what is left. -/
theorem LeastBatches.head (hlarge : maxBytes < sizeBytes size t)
    (h : EarliestStamps stamp t.rows sorted) {rest : List α} {k : Nat}
    (hrest : LeastBatches stamp size batch maxBytes (deleteRows (sorted.take batch) t) t' rest k) :
    LeastBatches stamp size batch maxBytes t t' (sorted.take batch ++ rest) (k + 1) := by
  obtain ⟨htake, hdrop⟩ := h.split_extend hrest.listed
  have hafter (j : Nat) : afterBatches batch (sorted.take batch ++ rest) (j + 1) t =
      afterBatches batch rest j (deleteRows (sorted.take batch) t) := by
    rw [afterBatches_succ, htake, hdrop]
  refine ⟨h.extend hrest.listed, hrest.left.trans (hafter k).symm, hrest.small, fun j hj => ?_⟩
  cases j with
  | zero => rwa [afterBatches_zero]
  | succ j =>
    rw [hafter]
    exact hrest.large j (Nat.lt_of_succ_lt_succ hj)

/-- What is left to do after the first batch of a listing that has to go. -/
theorem LeastBatches.tail {k : Nat}
    (h : LeastBatches stamp size batch maxBytes t t' sorted (k + 1)) :
    LeastBatches stamp size batch maxBytes (deleteRows (sorted.take batch) t) t'
      (sorted.drop batch) k := by
  refine ⟨h.listed.drop batch, ?_, h.small, fun j hj => ?_⟩
  · rw [h.left, afterBatches_succ]
  · rw [← afterBatches_succ]
    exact h.large (j + 1) (Nat.succ_lt_succ hj)

/-! ### The loop -/

theorem leastBatches_of_rounds
    (hrounds : Relation.ReflTransGen (SizeRound stamp size batch maxBytes) t t')
    (hsmall : sizeBytes size t' ≤ maxBytes) :
    ∃ sorted k, LeastBatches stamp size batch maxBytes t t' sorted k := by
  induction hrounds using Relation.ReflTransGen.head_induction_on with
  | refl =>
    obtain ⟨sorted, hsorted⟩ := exists_earliestStamps stamp t'.rows
    exact ⟨sorted, 0, hsorted, (afterBatches_zero ..).symm, hsmall, nofun⟩
  | head hround _ ih =>
    obtain ⟨rest, k, hrest⟩ := ih
    obtain ⟨hlarge, hsorted⟩ := hround
    exact ⟨_, k + 1, hrest.head hlarge hsorted⟩

theorem LeastBatches.rounds {k : Nat} (h : LeastBatches stamp size batch maxBytes t t' sorted k) :
    Relation.ReflTransGen (SizeRound stamp size batch maxBytes) t t' := by
  induction k generalizing t sorted with
  | zero =>
    rw [h.left, afterBatches_zero]
  | succ k ih =>
    have hlarge := h.large 0 (Nat.succ_pos k)
    rw [afterBatches_zero] at hlarge
    exact .head (.intro hlarge h.listed) (ih h.tail)

theorem prunedBySize_iff (hmax : 0 < maxBytes) :
    PrunedBySize stamp size batch maxBytes t t' ↔
      ∃ sorted k, LeastBatches stamp size batch maxBytes t t' sorted k := by
  rw [PrunedBySize, if_neg (Int.not_le.mpr hmax)]
  constructor
  · rintro ⟨hrounds, hsmall⟩
    exact leastBatches_of_rounds hrounds hsmall
  · rintro ⟨sorted, k, h⟩
    exact ⟨h.rounds, h.small⟩

theorem LeastBatches.eq_self {k : Nat} (h : LeastBatches stamp size batch maxBytes t t' sorted k)
    (hsmall : sizeBytes size t ≤ maxBytes) : t' = t := by
  cases k with
  | zero => rw [h.left, afterBatches_zero]
  | succ k =>
    have hlarge := h.large 0 (Nat.succ_pos k)
    rw [afterBatches_zero] at hlarge
    omega

/-- A loop whose rounds come to an end, and which deletes the oldest batches of a table until the
size is within the limit, and no more. -/
structure PrunesLeast (stamp : α → String) (size : α → Nat) (batch : Nat) (maxBytes : Int)
    (prune : Keyed key → Keyed key → Prop) : Prop where
  terminates : WellFounded fun t' t : Keyed key => SizeRound stamp size batch maxBytes t t'
  returns : ∀ t, ∃ t', prune t t'
  deletes : ∀ t t', prune t t' ↔ ∃ sorted k, LeastBatches stamp size batch maxBytes t t' sorted k
  nothing : ∀ t t', sizeBytes size t ≤ maxBytes → prune t t' → t' = t

theorem prunedBySize_prunesLeast (stamp : α → String) (size : α → Nat) (hbatch : 0 < batch)
    (hmax : 0 < maxBytes) : PrunesLeast stamp size batch maxBytes
      (PrunedBySize stamp size batch maxBytes : Keyed key → Keyed key → Prop) := by
  refine ⟨sizeRound_wellFounded hbatch hmax.le, exists_prunedBySize stamp size hbatch maxBytes,
    fun t t' => prunedBySize_iff hmax, fun t t' hsmall hpruned => ?_⟩
  obtain ⟨sorted, k, hleast⟩ := (prunedBySize_iff hmax).mp hpruned
  exact hleast.eq_self hsmall

end Stamped

/-- Both loops end, whatever is in the tables, and delete the oldest batches, of 500 requests and of
100 details, for the least number of batches that leaves the table within the limit. -/
theorem prune_by_size_least (stamp : RequestLog → String) (detailStamp : DetailLog → String)
    {maxBytes : Int} (hmax : 0 < maxBytes) :
    PrunesLeast stamp (requestSize stamp) 500 maxBytes (PruneRequestLogsBySize stamp maxBytes) ∧
      PrunesLeast detailStamp (detailSize detailStamp) 100 maxBytes
        (PruneDetailLogsBySize detailStamp maxBytes) :=
  ⟨prunedBySize_prunesLeast stamp _ (by decide) hmax,
    prunedBySize_prunesLeast detailStamp _ (by decide) hmax⟩

/-- A limit of one byte, which empties any table: the oldest rows go, and the last batch is
short. -/
theorem prune_by_size_one_byte :
    ∃ logs : Logs, logs.rows.length = 2 ∧
      PruneRequestLogsBySize (·.timestamp.text) 1 logs .empty := by
  let logs : Logs :=
    ⟨[{ id := "a", timestamp := startOfDay }, { id := "b", timestamp := halfSecondLater }],
    by decide⟩
  refine ⟨logs, rfl, ?_⟩
  have hprunes :=
    (prune_by_size_least (·.timestamp.text) (·.timestamp.text) (show (0 : Int) < 1 by decide)).1
  obtain ⟨sorted, hsorted⟩ := exists_earliestStamps (·.timestamp.text) logs.rows
  have hlength : sorted.length = 2 := hsorted.perm.length_eq
  have hgone : (afterBatches 500 sorted 1 logs).rows = [] := by
    rw [afterBatches, List.take_of_length_le (by omega)]
    exact (@deleteRows_rest _ _ logs [] sorted hsorted.perm).eq_nil
  have hempty : (Keyed.empty : Logs) = afterBatches 500 sorted 1 logs := by
    simp only [Keyed.empty, ← hgone]
  refine (hprunes.deletes logs .empty).mpr ⟨sorted, 1, hsorted, hempty, by decide, fun j hj => ?_⟩
  obtain rfl : j = 0 := by omega
  rw [afterBatches_zero]
  decide +kernel

end LlmProxy.Storage
