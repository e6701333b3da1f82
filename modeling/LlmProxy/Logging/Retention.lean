import LlmProxy.Storage.Logs
import Mathlib.Data.String.Basic
import Mathlib.Logic.Relation

/-! `RetentionCleaner`: the limits on the age, the number and the size of the rows of the two log
tables.  Each limit deletes from the old end of a table, so that what is left is its new end.  Rows
are old or new by the text in their column `timestamp`, which may be any text here. -/

namespace LlmProxy

open ProofKit

namespace Storage

/-! ### Sizes -/

/-- `LENGTH` of a text: its characters before the first NUL. -/
def sqlLength (text : String) : Nat := (text.toList.takeWhile fun c => c ≠ Char.ofNat 0).length

/-- What a row adds to `RequestLogsSizeBytes`. -/
def requestSize (stamp : RequestLog → String) (row : RequestLog) : Nat :=
  sqlLength row.id + sqlLength row.sessionID + sqlLength (stamp row) +
    sqlLength row.apiKeyID + sqlLength row.modelAlias + sqlLength row.nodeID +
    sqlLength row.actualModel + sqlLength row.errorMsg + 64

/-- What a row adds to `DetailLogsSizeBytes`. -/
def detailSize (stamp : DetailLog → String) (row : DetailLog) : Nat :=
  sqlLength row.traceID + sqlLength row.sessionID + sqlLength (stamp row) +
    sqlLength row.requestBody + sqlLength row.responseBody

section Stamped

variable {α : Type} {key : α → String} (stamp : α → String) (size : α → Nat)

/-- The size of a table, which is 0 if it is empty. -/
def sizeBytes (t : Keyed key) : Int := ((t.rows.map size).sum : Nat)

/-! ### Statements -/

/-- `ORDER BY timestamp DESC`. -/
def LatestStamps (rows out : List α) : Prop := OrderedBy (fun a b => ¬ stamp a < stamp b) rows out

/-- `ORDER BY timestamp ASC`. -/
def EarliestStamps (rows out : List α) : Prop := OrderedBy (fun a b => ¬ stamp b < stamp a) rows out

/-- `DELETE ... WHERE timestamp < ?`, if there is a cutoff. -/
def deleteBelow (cutoff : Option String) (t : Keyed key) : Keyed key :=
  t.filter fun row => cutoff.all fun c => !decide (stamp row < c)

/-- `PruneRequestLogs` and `PruneDetailLogs`, for columns and cutoffs of any text. -/
inductive PrunedBelow (maxRows : Int) (cutoff : Option String) (t : Keyed key) : Keyed key → Prop
  | byAge : maxRows ≤ 0 → PrunedBelow maxRows cutoff t (deleteBelow stamp cutoff t)
  | byRows {sorted : List α} : 0 < maxRows →
    LatestStamps stamp (deleteBelow stamp cutoff t).rows sorted →
      PrunedBelow maxRows cutoff t
        (deleteRows (sorted.drop maxRows.toNat) (deleteBelow stamp cutoff t))

/-- One round of the loop of `PruneRequestLogsBySize` and `PruneDetailLogsBySize`. -/
inductive SizeRound (batch : Nat) (maxBytes : Int) : Keyed key → Keyed key → Prop
  | intro {t : Keyed key} {sorted : List α} : maxBytes < sizeBytes size t →
    EarliestStamps stamp t.rows sorted →
      SizeRound batch maxBytes t (deleteRows (sorted.take batch) t)

/-- The loop: rounds until the size is small enough. -/
def PrunedBySize (batch : Nat) (maxBytes : Int) (t t' : Keyed key) : Prop :=
  if maxBytes ≤ 0 then t' = t
  else Relation.ReflTransGen (SizeRound stamp size batch maxBytes) t t' ∧
    sizeBytes size t' ≤ maxBytes

end Stamped

/-- With the texts of the times of the rows and of the cutoff this is the pruning of the log
tables. -/
theorem pruned_iff_prunedBelow {α : Type} {key : α → String} {time : α → Instant} {maxRows : Int}
    {cutoff : Option Instant} {t t' : Keyed key} :
    Pruned time maxRows cutoff t t' ↔
      PrunedBelow (fun row => (time row).text) maxRows (cutoff.map Instant.text) t t' := by
  have hbelow : deleteBelow (fun row => (time row).text) (cutoff.map Instant.text) t =
      deleteBefore time cutoff t := by
    cases cutoff <;> rfl
  constructor
  · rintro (hmax | ⟨hmax, hsorted⟩)
    · exact hbelow ▸ .byAge hmax
    · exact hbelow ▸ .byRows hmax (hbelow.symm ▸ ⟨hsorted.perm, hsorted.sorted⟩)
  · rintro (hmax | ⟨hmax, hsorted⟩)
    · exact hbelow.symm ▸ .byAge hmax
    · exact hbelow.symm ▸ .byRows hmax (hbelow ▸ ⟨hsorted.perm, hsorted.sorted⟩)

end Storage

namespace Logging

open Storage

/-- `RetentionCleaner`, with the limits of the two tables. -/
structure RetentionCleaner where
  basicMaxRows : Int := 0
  basicMaxDays : Int := 0
  basicMaxSizeMB : Int := 0
  detailMaxRows : Int := 0
  detailMaxDays : Int := 0
  detailMaxSizeMB : Int := 0

def mb : Int := 1024 * 1024

/-- The cutoff that a limit on the age gives.  `daysAgo` is the text of the time so many days before
now. -/
def cutoffOf (daysAgo : Int → String) (maxDays : Int) : Option String :=
  if 0 < maxDays then some (daysAgo maxDays) else none

/-- What `clean` does with one of the tables. -/
def TierCleaned {α : Type} {key : α → String} (stamp : α → String) (size : α → Nat) (batch : Nat)
    (maxRows maxSizeMB : Int) (cutoff : Option String) (t t' : Keyed key) : Prop :=
  ∃ mid, PrunedBelow stamp maxRows cutoff t mid ∧
    let maxBytes := wrapInt64 (maxSizeMB * mb)
    if 0 < maxSizeMB ∧ maxBytes < sizeBytes size mid then
      PrunedBySize stamp size batch maxBytes mid t'
    else t' = mid

/-- `clean`, without its reports and the vacuum. -/
def RetentionCleaner.Clean (r : RetentionCleaner) (stamp : RequestLog → String)
    (detailStamp : DetailLog → String) (daysAgo : Int → String) (tables tables' : Logs × Details) :
    Prop :=
  TierCleaned stamp (requestSize stamp) 500 r.basicMaxRows r.basicMaxSizeMB
      (cutoffOf daysAgo r.basicMaxDays) tables.1 tables'.1 ∧
    TierCleaned detailStamp (detailSize detailStamp) 100 r.detailMaxRows r.detailMaxSizeMB
      (cutoffOf daysAgo r.detailMaxDays) tables.2 tables'.2

end Logging

namespace Storage

section Stamped

variable {α : Type} {key : α → String} {stamp : α → String} {size : α → Nat}

/-! ### Listings -/

theorem exists_earliestStamps (stamp : α → String) (rows : List α) :
    ∃ out, EarliestStamps stamp rows out := by
  obtain ⟨out, hperm, hsorted⟩ := exists_orderedBy stamp rows
  exact ⟨out, hperm, hsorted.imp not_lt.mpr⟩

theorem exists_latestStamps (stamp : α → String) (rows : List α) :
    ∃ out, LatestStamps stamp rows out := by
  obtain ⟨out, hperm, hsorted⟩ := exists_earliestStamps stamp rows
  exact ⟨out.reverse, (List.reverse_perm out).trans hperm, List.pairwise_reverse.mpr hsorted⟩

/-! ### Deleting the oldest rows -/

/-- What is left of a table are rows of it, and no row that is gone is later than one of them. -/
structure DropsOldest (stamp : α → String) (t t' : Keyed key) : Prop where
  sublist : t'.rows.Sublist t.rows
  oldest : ∀ row ∈ t, row ∉ t' → ∀ other ∈ t', ¬ stamp other < stamp row

theorem DropsOldest.refl (t : Keyed key) : DropsOldest stamp t t :=
  ⟨.refl _, fun _ hrow hgone => absurd hrow hgone⟩

theorem DropsOldest.trans {t t' t'' : Keyed key} (h : DropsOldest stamp t t')
    (h' : DropsOldest stamp t' t'') : DropsOldest stamp t t'' := by
  refine ⟨h'.sublist.trans h.sublist, fun row hrow hgone other hother => ?_⟩
  by_cases hmid : row ∈ t'
  · exact h'.oldest row hmid hgone other hother
  · exact h.oldest row hrow hmid other (h'.sublist.subset hother)

theorem mem_deleteBelow {cutoff : Option String} {t : Keyed key} {row : α} :
    row ∈ deleteBelow stamp cutoff t ↔ row ∈ t ∧ ∀ c, cutoff = some c → ¬ stamp row < c := by
  simp only [deleteBelow, Keyed.mem_filter, Option.all_eq_true, Bool.not_eq_true',
    decide_eq_false_iff_not]

theorem deleteBelow_dropsOldest (stamp : α → String) (cutoff : Option String) (t : Keyed key) :
    DropsOldest stamp t (deleteBelow stamp cutoff t) := by
  refine ⟨List.filter_sublist, fun row hrow hgone other hother hlt => hgone ?_⟩
  refine mem_deleteBelow.mpr ⟨hrow, fun c hc hbelow => ?_⟩
  exact (mem_deleteBelow.mp hother).2 c hc (lt_trans hlt hbelow)

/-- Rows may be deleted that are not later than any of the others. -/
theorem deleteRows_dropsOldest {t : Keyed key} {kept gone : List α}
    (hperm : (kept ++ gone).Perm t.rows) (hsorted : ∀ a ∈ kept, ∀ b ∈ gone, ¬ stamp a < stamp b) :
    DropsOldest stamp t (deleteRows gone t) := by
  have hleft := deleteRows_rest hperm
  refine ⟨List.filter_sublist, fun row hrow hgone other hother => ?_⟩
  refine hsorted other (hleft.mem_iff.mp hother) row ?_
  have hmem := hperm.mem_iff.mpr hrow
  rw [List.mem_append] at hmem
  exact hmem.resolve_left fun hkept => hgone (hleft.mem_iff.mpr hkept)

theorem PrunedBelow.dropsOldest {maxRows : Int} {cutoff : Option String} {t t' : Keyed key}
    (h : PrunedBelow stamp maxRows cutoff t t') : DropsOldest stamp t t' := by
  have haged := deleteBelow_dropsOldest stamp cutoff t
  cases h with
  | byAge => exact haged
  | @byRows sorted hmax hsorted =>
    obtain ⟨hperm, hlater⟩ := hsorted.split maxRows.toNat
    exact haged.trans (deleteRows_dropsOldest hperm hlater)

theorem SizeRound.kept {batch : Nat} {maxBytes : Int} {t t' : Keyed key}
    (h : SizeRound stamp size batch maxBytes t t') :
    maxBytes < sizeBytes size t ∧ DropsOldest stamp t t' ∧
      t'.rows.length = t.rows.length - batch := by
  obtain ⟨hlarge, hsorted⟩ := h
  rename_i sorted
  obtain ⟨hsplit, hlater⟩ := hsorted.split batch
  have hperm := List.perm_append_comm.trans hsplit
  refine ⟨hlarge, deleteRows_dropsOldest hperm fun a ha b hb => hlater b hb a ha, ?_⟩
  · rw [(deleteRows_rest hperm).length_eq, List.length_drop, hsorted.perm.length_eq]

/-! ### The loop -/

/-- A table that is too large has rows, so that every round deletes some. -/
theorem SizeRound.length_lt {batch : Nat} (hbatch : 0 < batch) {maxBytes : Int}
    (hmax : 0 ≤ maxBytes) {t t' : Keyed key} (h : SizeRound stamp size batch maxBytes t t') :
    t'.rows.length < t.rows.length := by
  obtain ⟨hlarge, -, hlength⟩ := h.kept
  have hrows : t.rows ≠ [] := by
    intro hnil
    rw [sizeBytes, hnil] at hlarge
    simp at hlarge
    omega
  have := List.length_pos_of_ne_nil hrows
  omega

theorem sizeRound_wellFounded {batch : Nat} (hbatch : 0 < batch) {maxBytes : Int}
    (hmax : 0 ≤ maxBytes) :
    WellFounded fun t' t : Keyed key => SizeRound stamp size batch maxBytes t t' :=
  Subrelation.wf (fun h => h.length_lt hbatch hmax) (measure fun t : Keyed key => t.rows.length).wf

theorem exists_prunedBySize (stamp : α → String) (size : α → Nat) {batch : Nat}
    (hbatch : 0 < batch) (maxBytes : Int) (t : Keyed key) :
    ∃ t', PrunedBySize stamp size batch maxBytes t t' := by
  unfold PrunedBySize
  split
  · exact ⟨t, rfl⟩
  · next hpos =>
    have hwf : WellFounded fun t' t : Keyed key => SizeRound stamp size batch maxBytes t t' :=
      sizeRound_wellFounded hbatch (Int.not_le.mp hpos).le
    induction t using hwf.induction with
    | _ t ih =>
      by_cases hsize : sizeBytes size t ≤ maxBytes
      · exact ⟨t, .refl, hsize⟩
      · obtain ⟨sorted, hsorted⟩ := exists_earliestStamps stamp t.rows
        have hround : SizeRound stamp size batch maxBytes t (deleteRows (sorted.take batch) t) :=
          .intro (Int.not_le.mp hsize) hsorted
        obtain ⟨t', hrounds, hsmall⟩ := ih _ hround
        exact ⟨t', .head hround hrounds, hsmall⟩

theorem PrunedBySize.dropsOldest {batch : Nat} {maxBytes : Int} {t t' : Keyed key}
    (h : PrunedBySize stamp size batch maxBytes t t') : DropsOldest stamp t t' := by
  unfold PrunedBySize at h
  split at h
  · rw [h]
    exact .refl t
  · obtain ⟨hrounds, -⟩ := h
    induction hrounds with
    | refl => exact .refl t
    | tail _ hround ih => exact ih.trans hround.kept.2.1

/-! ### Tables within their limits -/

theorem exists_prunedBelow (stamp : α → String) (maxRows : Int) (cutoff : Option String)
    (t : Keyed key) :
    ∃ t', PrunedBelow stamp maxRows cutoff t t' := by
  by_cases hmax : 0 < maxRows
  · obtain ⟨sorted, hsorted⟩ := exists_latestStamps stamp (deleteBelow stamp cutoff t).rows
    exact ⟨_, .byRows hmax hsorted⟩
  · exact ⟨_, .byAge (Int.not_lt.mp hmax)⟩

theorem PrunedBelow.not_lt {maxRows : Int} {cutoff : Option String} {t t' : Keyed key}
    (h : PrunedBelow stamp maxRows cutoff t t') {row : α} (hrow : row ∈ t') {c : String}
    (hc : cutoff = some c) : ¬ stamp row < c := by
  have haged : row ∈ deleteBelow stamp cutoff t := by
    cases h with
    | byAge => exact hrow
    | byRows => exact (Keyed.mem_filter.mp hrow).1
  exact (mem_deleteBelow.mp haged).2 c hc

theorem PrunedBelow.length_le {maxRows : Int} (hmax : 0 < maxRows) {cutoff : Option String}
    {t t' : Keyed key} (h : PrunedBelow stamp maxRows cutoff t t') :
    (t'.rows.length : Int) ≤ maxRows := by
  cases h with
  | byAge hno => omega
  | @byRows sorted _ hsorted =>
    rw [(deleteRows_rest (hsorted.split maxRows.toNat).1).length_eq, List.length_take]
    omega

/-- A table within the limits is left as it is. -/
theorem PrunedBelow.eq_self {maxRows : Int} {cutoff : Option String} {t t' : Keyed key}
    (hrows : 0 < maxRows → (t.rows.length : Int) ≤ maxRows)
    (hage : ∀ c, cutoff = some c → ∀ row ∈ t, ¬ stamp row < c)
    (h : PrunedBelow stamp maxRows cutoff t t') : t' = t := by
  have hbelow : deleteBelow stamp cutoff t = t := Keyed.filter_eq_self fun row hrow =>
    (Keyed.mem_filter.mp (mem_deleteBelow.mpr ⟨hrow, fun c hc => hage c hc row hrow⟩)).2
  cases h with
  | byAge => exact hbelow
  | @byRows sorted hmax hsorted =>
    have hnone : sorted.drop maxRows.toNat = [] := by
      have hlength := hsorted.perm.length_eq
      rw [hbelow] at hlength
      have hfew := hrows hmax
      exact List.drop_eq_nil_of_le (by omega)
    rw [hnone, hbelow]
    exact Keyed.filter_eq_self fun _ _ => rfl

end Stamped

end Storage

namespace Logging

open Storage

/-! ### A cycle -/

section Tier

variable {α : Type} {key : α → String} {stamp : α → String} {size : α → Nat} {batch : Nat}
  {maxRows maxSizeMB : Int} {cutoff : Option String} {t t' : Keyed key}

/-- A table that is within its limits, and that is the new end of another one. -/
structure Retained (stamp : α → String) (size : α → Nat) (maxRows maxSizeMB : Int)
    (cutoff : Option String) (t t' : Keyed key) : Prop extends DropsOldest stamp t t' where
  rows : 0 < maxRows → (t'.rows.length : Int) ≤ maxRows
  age : ∀ c, cutoff = some c → ∀ row ∈ t', ¬ stamp row < c
  size : 0 < maxSizeMB → sizeBytes size t' ≤ maxSizeMB * mb

theorem exists_tierCleaned (hbatch : 0 < batch) (t : Keyed key) :
    ∃ t', TierCleaned stamp size batch maxRows maxSizeMB cutoff t t' := by
  obtain ⟨mid, hmid⟩ := exists_prunedBelow stamp maxRows cutoff t
  by_cases hlarge : 0 < maxSizeMB ∧ wrapInt64 (maxSizeMB * mb) < sizeBytes size mid
  · obtain ⟨t', ht'⟩ := exists_prunedBySize stamp size hbatch (wrapInt64 (maxSizeMB * mb)) mid
    exact ⟨t', mid, hmid, by simpa only [if_pos hlarge] using ht'⟩
  · exact ⟨mid, mid, hmid, by simp only [if_neg hlarge]⟩

/-- Pruning by size comes last, and it keeps what the other limits ask for because it only
deletes. -/
theorem TierCleaned.retained (hfits : 0 < maxSizeMB → FitsInt64 (maxSizeMB * mb))
    (h : TierCleaned stamp size batch maxRows maxSizeMB cutoff t t') :
    Retained stamp size maxRows maxSizeMB cutoff t t' := by
  obtain ⟨mid, hmid, hend⟩ := h
  have hsize (hpos : 0 < maxSizeMB) : wrapInt64 (maxSizeMB * mb) = maxSizeMB * mb :=
    wrapInt64_of_fits (hfits hpos)
  obtain ⟨hdrops, hsmall⟩ : DropsOldest stamp mid t' ∧
      (0 < maxSizeMB → sizeBytes size t' ≤ maxSizeMB * mb) := by
    by_cases hlarge : 0 < maxSizeMB ∧ wrapInt64 (maxSizeMB * mb) < sizeBytes size mid
    · simp only [if_pos hlarge] at hend
      refine ⟨hend.dropsOldest, fun hpos => ?_⟩
      rw [hsize hpos] at hend
      have hbytes : ¬ maxSizeMB * mb ≤ 0 := by simp only [mb]; omega
      rw [PrunedBySize, if_neg hbytes] at hend
      exact hend.2
    · simp only [if_neg hlarge] at hend
      subst hend
      refine ⟨.refl _, fun hpos => ?_⟩
      rw [← hsize hpos]
      exact Int.not_lt.mp fun hlt => hlarge ⟨hpos, hlt⟩
  refine ⟨hmid.dropsOldest.trans hdrops, fun hmax => ?_, fun c hc row hrow => ?_, hsmall⟩
  · exact (Int.ofNat_le.mpr hdrops.sublist.length_le).trans (hmid.length_le hmax)
  · exact hmid.not_lt (hdrops.sublist.subset hrow) hc

theorem Retained.eq_of_tierCleaned (hfits : 0 < maxSizeMB → FitsInt64 (maxSizeMB * mb))
    (h : Retained stamp size maxRows maxSizeMB cutoff t t') {t'' : Keyed key}
    (hagain : TierCleaned stamp size batch maxRows maxSizeMB cutoff t' t'') : t'' = t' := by
  obtain ⟨mid, hmid, hend⟩ := hagain
  rw [hmid.eq_self h.rows h.age] at hend
  have hsmall : ¬ (0 < maxSizeMB ∧ wrapInt64 (maxSizeMB * mb) < sizeBytes size t') := by
    rintro ⟨hpos, hlt⟩
    rw [wrapInt64_of_fits (hfits hpos)] at hlt
    exact absurd (h.size hpos) (Int.not_le.mpr hlt)
  simpa only [if_neg hsmall] using hend

end Tier

/-- The rounds come to an end, and a cycle leaves either table within all of its limits, as the new
end of what it was.  There is nothing left for another cycle at that time. -/
theorem clean_retains (r : RetentionCleaner) (stamp : RequestLog → String)
    (detailStamp : DetailLog → String) (daysAgo : Int → String)
    (hbasic : 0 < r.basicMaxSizeMB → FitsInt64 (r.basicMaxSizeMB * mb))
    (hdetail : 0 < r.detailMaxSizeMB → FitsInt64 (r.detailMaxSizeMB * mb))
    (tables : Logs × Details) :
    (∀ maxBytes : Int, 0 ≤ maxBytes →
      (WellFounded fun t' t : Logs => SizeRound stamp (requestSize stamp) 500 maxBytes t t') ∧
        WellFounded fun t' t : Details =>
          SizeRound detailStamp (detailSize detailStamp) 100 maxBytes t t') ∧
      (∃ tables', r.Clean stamp detailStamp daysAgo tables tables') ∧
      ∀ tables', r.Clean stamp detailStamp daysAgo tables tables' →
        Retained stamp (requestSize stamp) r.basicMaxRows r.basicMaxSizeMB
            (cutoffOf daysAgo r.basicMaxDays) tables.1 tables'.1 ∧
          Retained detailStamp (detailSize detailStamp) r.detailMaxRows r.detailMaxSizeMB
            (cutoffOf daysAgo r.detailMaxDays) tables.2 tables'.2 ∧
          ∀ tables'', r.Clean stamp detailStamp daysAgo tables' tables'' → tables'' = tables' := by
  refine ⟨fun maxBytes hmax => ⟨?_, ?_⟩, ?_, fun tables' hclean => ?_⟩
  · exact sizeRound_wellFounded (by decide) hmax
  · exact sizeRound_wellFounded (by decide) hmax
  · obtain ⟨logs, hlogs⟩ := exists_tierCleaned (show 0 < 500 by decide) tables.1
    obtain ⟨details, hdetails⟩ := exists_tierCleaned (show 0 < 100 by decide) tables.2
    exact ⟨(logs, details), hlogs, hdetails⟩
  · have hlogs := hclean.1.retained hbasic
    have hdetails := hclean.2.retained hdetail
    refine ⟨hlogs, hdetails, fun tables'' hagain => ?_⟩
    exact Prod.ext (hlogs.eq_of_tierCleaned hbasic hagain.1)
      (hdetails.eq_of_tierCleaned hdetail hagain.2)

/-- Of two requests at most one is left by a cleaner with room for one row. -/
theorem clean_retains_one :
    ∃ (r : RetentionCleaner) (tables tables' : Logs × Details), tables.1.rows.length = 2 ∧
      r.Clean (·.timestamp.text) (·.timestamp.text) (fun _ => startOfDay.text) tables tables' ∧
      (tables'.1.rows.length : Int) ≤ 1 := by
  let r : RetentionCleaner := { basicMaxRows := 1, basicMaxDays := 7, basicMaxSizeMB := 1 }
  let logs : Logs :=
    ⟨[{ id := "a", timestamp := startOfDay }, { id := "b", timestamp := halfSecondLater }],
    by decide⟩
  have hretains := clean_retains r (·.timestamp.text) (·.timestamp.text) (fun _ => startOfDay.text)
    (fun _ => by decide) (fun hpos => absurd hpos (by decide)) (logs, .empty)
  obtain ⟨tables', hclean⟩ := hretains.2.1
  exact ⟨r, (logs, .empty), tables', rfl, hclean, (hretains.2.2 tables' hclean).1.rows (by decide)⟩

end Logging

end LlmProxy
