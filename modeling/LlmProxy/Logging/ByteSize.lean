import LlmProxy.Logging.Retention

/-! What the limits on the size of the log tables limit.  They are meant in bytes, and `LENGTH`
counts characters. -/

namespace LlmProxy.Storage

open ProofKit

/-! ### Texts -/

/-- A text of ASCII characters without a NUL. -/
def SingleBytes (text : String) : Prop := ∀ c ∈ text.toList, 0 < c.toNat ∧ c.toNat < 128

instance (text : String) : Decidable (SingleBytes text) :=
  inferInstanceAs (Decidable (∀ c ∈ _, _ ∧ _))

theorem utf8Size_eq_one_iff {c : Char} : c.utf8Size = 1 ↔ c.toNat < 128 := by
  rw [Char.utf8Size_eq_one_iff, UInt32.le_iff_toNat_le]
  exact Nat.lt_succ_iff.symm

theorem length_takeWhile_utf8Len (cs : List Char) :
    (cs.takeWhile fun c => c ≠ Char.ofNat 0).length ≤ String.utf8Len cs ∧
      ((cs.takeWhile fun c => c ≠ Char.ofNat 0).length = String.utf8Len cs ↔
        ∀ c ∈ cs, 0 < c.toNat ∧ c.toNat < 128) := by
  induction cs with
  | nil => simp
  | cons c cs ih =>
    obtain ⟨hle, hiff⟩ := ih
    have hpos := c.utf8Size_pos
    have hone := utf8Size_eq_one_iff (c := c)
    rw [String.utf8Len_cons, List.forall_mem_cons, ← hiff]
    by_cases hnul : c = Char.ofNat 0
    · have hzero : c.toNat = 0 := hnul ▸ rfl
      rw [List.takeWhile_cons_of_neg (by simpa using hnul), List.length_nil]
      omega
    · have hnat : c.toNat ≠ 0 := fun hzero => hnul (by rw [← hzero, Char.ofNat_toNat])
      rw [List.takeWhile_cons_of_pos (by simpa using hnul), List.length_cons]
      omega

theorem utf8Len_toList (text : String) : String.utf8Len text.toList = text.utf8ByteSize := by
  rw [← String.utf8ByteSize_ofList, String.ofList_toList]

theorem sqlLength_le (text : String) : sqlLength text ≤ text.utf8ByteSize :=
  utf8Len_toList text ▸ (length_takeWhile_utf8Len text.toList).1

theorem sqlLength_eq_iff {text : String} : sqlLength text = text.utf8ByteSize ↔ SingleBytes text :=
  utf8Len_toList text ▸ (length_takeWhile_utf8Len text.toList).2

/-- Of two sums with terms that are not greater in the one, the sums are equal if the terms are. -/
theorem sum_map_eq_iff {β : Type} {f g : β → Nat} (hle : ∀ x, f x ≤ g x) (xs : List β) :
    (xs.map f).sum ≤ (xs.map g).sum ∧
      ((xs.map f).sum = (xs.map g).sum ↔ ∀ x ∈ xs, f x = g x) := by
  induction xs with
  | nil => simp
  | cons x xs ih =>
    obtain ⟨hsum, hiff⟩ := ih
    have hx := hle x
    simp only [List.map_cons, List.sum_cons, List.forall_mem_cons, ← hiff]
    omega

/-! ### Tables -/

section Texts

variable {α : Type} {key : α → String} (texts : α → List String)

/-- The bytes of the texts of a row. -/
def rowBytes (row : α) : Nat := ((texts row).map String.utf8ByteSize).sum

/-- The bytes of the texts of a table. -/
def textBytes (t : Keyed key) : Nat := (t.rows.map (rowBytes texts)).sum

/-- The sum of `LENGTH` over some columns, and a constant for the others. -/
def columnsSize (overhead : Nat) (row : α) : Nat := ((texts row).map sqlLength).sum + overhead

/-- All texts of the table are of single bytes. -/
def TableSingleBytes (t : Keyed key) : Prop := ∀ row ∈ t, ∀ text ∈ texts row, SingleBytes text

/-- The size of a table is that of its texts in bytes, with a constant for each row, and the pruning
by size brings it below the limit. -/
structure SizeInBytes (stamp : α → String) (size : α → Nat) (overhead batch : Nat) (t : Keyed key) :
    Prop where
  size_eq : sizeBytes size t = (textBytes texts t + overhead * t.rows.length : Nat)
  pruned : ∀ maxBytes : Int, 0 < maxBytes → ∀ t', PrunedBySize stamp size batch maxBytes t t' →
    (textBytes texts t' + overhead * t'.rows.length : Nat) ≤ maxBytes

variable {texts}

theorem sum_columnsSize (overhead : Nat) (rows : List α) :
    (rows.map (columnsSize texts overhead)).sum =
      (rows.map fun row => ((texts row).map sqlLength).sum).sum + overhead * rows.length := by
  induction rows with
  | nil => simp
  | cons row rows ih =>
    simp only [List.map_cons, List.sum_cons, List.length_cons, ih, columnsSize, Nat.mul_add]
    omega

theorem size_eq_iff {overhead : Nat} {t : Keyed key} :
    sizeBytes (columnsSize texts overhead) t =
      (textBytes texts t + overhead * t.rows.length : Nat) ↔
      TableSingleBytes texts t := by
  have hrow (row : α) := sum_map_eq_iff sqlLength_le (texts row)
  rw [sizeBytes, sum_columnsSize, Int.ofNat_inj, Nat.add_right_cancel_iff]
  refine (sum_map_eq_iff (fun row => (hrow row).1) t.rows).2.trans (forall₂_congr fun row _ => ?_)
  exact (hrow row).2.trans (forall₂_congr fun text _ => sqlLength_eq_iff)

theorem TableSingleBytes.pruned {stamp : α → String} {overhead batch : Nat} {t t' : Keyed key}
    (h : TableSingleBytes texts t) {maxBytes : Int} (hmax : 0 < maxBytes)
    (hpruned : PrunedBySize stamp (columnsSize texts overhead) batch maxBytes t t') :
    (textBytes texts t' + overhead * t'.rows.length : Nat) ≤ maxBytes := by
  have hleft : TableSingleBytes texts t' := fun row hrow =>
    h row (hpruned.dropsOldest.sublist.subset hrow)
  rw [← size_eq_iff.mpr hleft]
  rw [PrunedBySize, if_neg (by omega)] at hpruned
  exact hpruned.2

theorem sizeInBytes_iff {stamp : α → String} {overhead batch : Nat} {t : Keyed key} :
    SizeInBytes texts stamp (columnsSize texts overhead) overhead batch t ↔
      TableSingleBytes texts t := by
  refine ⟨fun h => size_eq_iff.mp h.size_eq, fun h => ⟨size_eq_iff.mpr h, ?_⟩⟩
  intro maxBytes hmax t' hpruned
  exact h.pruned hmax hpruned

end Texts

/-- The columns that `RequestLogsSizeBytes` sums up. -/
def requestTexts (stamp : RequestLog → String) (row : RequestLog) : List String :=
  [row.id, row.sessionID, stamp row, row.apiKeyID, row.modelAlias, row.nodeID, row.actualModel,
    row.errorMsg]

/-- The columns that `DetailLogsSizeBytes` sums up. -/
def detailTexts (stamp : DetailLog → String) (row : DetailLog) : List String :=
  [row.traceID, row.sessionID, stamp row, row.requestBody, row.responseBody]

theorem requestSize_eq (stamp : RequestLog → String) :
    requestSize stamp = columnsSize (requestTexts stamp) 64 := by
  funext row
  simp only [requestSize, columnsSize, requestTexts, List.map_cons, List.map_nil, List.sum_cons,
    List.sum_nil]
  omega

theorem detailSize_eq (stamp : DetailLog → String) :
    detailSize stamp = columnsSize (detailTexts stamp) 0 := by
  funext row
  simp only [detailSize, columnsSize, detailTexts, List.map_cons, List.map_nil, List.sum_cons,
    List.sum_nil]
  omega

/-- The limits on the size of the log tables are limits in bytes exactly when all texts in them
consist of ASCII characters without a NUL. -/
theorem log_sizes_in_bytes_iff (stamp : RequestLog → String) (detailStamp : DetailLog → String)
    (logs : Logs) (details : Details) :
    (SizeInBytes (detailTexts detailStamp) detailStamp (detailSize detailStamp) 0 100 details ↔
        TableSingleBytes (detailTexts detailStamp) details) ∧
      (SizeInBytes (requestTexts stamp) stamp (requestSize stamp) 64 500 logs ↔
        TableSingleBytes (requestTexts stamp) logs) := by
  rw [detailSize_eq, requestSize_eq]
  exact ⟨sizeInBytes_iff, sizeInBytes_iff⟩

/-- A body of three characters with three bytes each: with a limit of 24 bytes nothing is pruned
from a table of 30 bytes. -/
theorem wide_body_over_limit :
    let stamp : DetailLog → String := (·.timestamp.text)
    let details : Details :=
      ⟨[{ traceID := "t", timestamp := startOfDay, requestBody := "日本語" }], List.nodup_singleton _⟩
    sizeBytes (detailSize stamp) details = 24 ∧ textBytes (detailTexts stamp) details = 30 ∧
      PrunedBySize stamp (detailSize stamp) 100 24 details details := by
  intro stamp details
  have hsize : sizeBytes (detailSize stamp) details = 24 := by decide +kernel
  refine ⟨hsize, by decide +kernel, ?_⟩
  rw [PrunedBySize, if_neg (by decide)]
  exact ⟨.refl, by omega⟩

end LlmProxy.Storage
