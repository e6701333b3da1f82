import LlmProxy.Logging.AsyncLogger
import LlmProxy.Storage.LogRows

/-! The log pipeline over a database whose calls may fail.  A bulk insert is a transaction of
several calls, and an error of any of them ends it; the pipeline writes a line about the error and
goes on without the entries.  Nothing is pruned here. -/

namespace LlmProxy.Storage

open ProofKit

variable {T α : Type}

/-- The loop of a bulk insert, from the call with the number `k` on.  The first error ends it. -/
def execAll (exec : T → α → T) (fails : Nat → Bool) : Nat → List α → T → Option T
  | _, [], t => some t
  | k, x :: rest, t => if fails k then none else execAll exec fails (k + 1) rest (exec t x)

/-- `BulkInsertRequestLogs` and `BulkInsertDetailLogs`: the table after the call, and whether it
succeeded.  `fails` tells which of its calls to the database fail: `BeginTx`, `PrepareContext`, one
`ExecContext` for each entry, and `Commit`, in this order. -/
def transaction (exec : T → α → T) (fails : Nat → Bool) (t : T) (logs : List α) : T × Bool :=
  if logs.isEmpty then (t, true)
  else if fails 0 then (t, false)
  else if fails 1 then (t, false)
  else
    -- what the transaction has written is rolled back unless it is committed
    match execAll exec fails 2 logs t with
    | none => (t, false)
    | some written => if fails (logs.length + 2) then (t, false) else (written, true)

/-- A bulk insert of a run. -/
structure BulkInsert (α : Type) where
  logs : List α
  fails : Nat → Bool

/-- The table after some bulk inserts, with the rows that `INSERT OR IGNORE` has ignored and the
entries of the bulk inserts that did not succeed. -/
structure BulkRun {ρ : Type} (key : ρ → String) (α : Type) where
  table : Keyed key := .empty
  ignored : List ρ := []
  lost : List α := []

section

variable {ρ : Type} {key : ρ → String}

def BulkRun.insert (row : α → ρ) (r : BulkRun key α) (call : BulkInsert α) : BulkRun key α :=
  match transaction (fun t x => t.insertNew (row x)) call.fails r.table call.logs with
  | (table, true) => { r with table, ignored := r.ignored ++ r.table.leftOut (call.logs.map row) }
  | (table, false) => { r with table, lost := r.lost ++ call.logs }

def BulkRun.of (key : ρ → String) (row : α → ρ) (calls : List (BulkInsert α)) : BulkRun key α :=
  calls.foldl (BulkRun.insert row) {}

end

/-- The bulk inserts of a run into the two tables. -/
def requestInserts : List (BulkInsert RequestLog) → BulkRun RequestRow.id RequestLog :=
  BulkRun.of RequestRow.id requestRow

def detailInserts : List (BulkInsert DetailLog) → BulkRun DetailRow.traceID DetailLog :=
  BulkRun.of DetailRow.traceID detailRow

/-! ### All or nothing -/

variable {exec : T → α → T} {fails : Nat → Bool} {t t' : T} {logs : List α}

theorem execAll_some {k : Nat} (h : execAll exec fails k logs t = some t') :
    t' = logs.foldl exec t := by
  induction logs generalizing k t with
  | nil => exact (Option.some.inj h).symm
  | cons x rest ih =>
    rw [execAll] at h
    split at h
    · cases h
    · exact ih h

theorem execAll_none {k : Nat} (h : execAll exec fails k logs t = none) :
    ∃ j < k + logs.length, fails j = true := by
  induction logs generalizing k t with
  | nil => cases h
  | cons x rest ih =>
    rw [execAll] at h
    split at h
    · next hfails => exact ⟨k, by simp, hfails⟩
    · obtain ⟨j, hj, hfails⟩ := ih h
      exact ⟨j, by rw [List.length_cons]; omega, hfails⟩

/-- A transaction that fails has made no difference, and one of its calls has failed. -/
inductive AllOrNothing (exec : T → α → T) (fails : Nat → Bool) (t : T) (logs : List α) :
    T × Bool → Prop
  | all : AllOrNothing exec fails t logs (logs.foldl exec t, true)
  | nothing {k : Nat} (hk : k ≤ logs.length + 2) (hfails : fails k = true) :
      AllOrNothing exec fails t logs (t, false)

theorem transaction_allOrNothing (exec : T → α → T) (fails : Nat → Bool) (t : T) (logs : List α) :
    AllOrNothing exec fails t logs (transaction exec fails t logs) := by
  unfold transaction
  split
  · next hempty =>
    obtain rfl := List.isEmpty_iff.mp hempty
    exact .all
  split
  · next hfails => exact .nothing (Nat.zero_le _) hfails
  split
  · next hfails => exact .nothing (by omega) hfails
  split
  · next hnone =>
    obtain ⟨k, hk, hfails⟩ := execAll_none hnone
    exact .nothing (by omega) hfails
  · next written hsome =>
    split
    · next hfails => exact .nothing (le_refl _) hfails
    · rw [execAll_some hsome]
      exact .all

/-- A bulk insert of which a call to the database has failed. -/
def BulkInsert.Failed (call : BulkInsert α) : Prop := ∃ k ≤ call.logs.length + 2,
    call.fails k = true

section

variable {ρ : Type} {key : ρ → String} {row : α → ρ} {r : BulkRun key α}
  {calls : List (BulkInsert α)}

/-- What becomes of some entries: each is a row of the table, as it was logged; or its row was
ignored, because the table has one with its key; or it was lost by a bulk insert of which a call to
the database failed; or it is elsewhere. -/
structure StoredOrLost (scan : ρ → α) (entries elsewhere : List α) (calls : List (BulkInsert α))
    (r : BulkRun key α) : Prop where
  entries : entries.Perm (r.table.rows.map scan ++ r.ignored.map scan ++ r.lost ++ elsewhere)
  ignored : ∀ x ∈ r.ignored, key x ∈ r.table.rows.map key
  lost : ∀ x ∈ r.lost, ∃ call ∈ calls, x ∈ call.logs ∧ call.Failed

/-- The rows of the entries of some bulk inserts. -/
structure BulkRun.Of (row : α → ρ) (calls : List (BulkInsert α)) (r : BulkRun key α) : Prop where
  rows : ((calls.flatMap (·.logs)).map row).Perm (r.table.rows ++ r.ignored ++ r.lost.map row)
  ignored : ∀ x ∈ r.ignored, key x ∈ r.table.rows.map key
  lost : ∀ x ∈ r.lost, ∃ call ∈ calls, x ∈ call.logs ∧ call.Failed

theorem BulkRun.Of.insert (h : r.Of row calls) (call : BulkInsert α) :
    (r.insert row call).Of row (calls ++ [call]) := by
  have hlost : ∀ x ∈ r.lost, ∃ c ∈ calls ++ [call], x ∈ c.logs ∧ c.Failed := by
    intro x hx
    obtain ⟨c, hc, hmem⟩ := h.lost x hx
    exact ⟨c, List.mem_append_left _ hc, hmem⟩
  have hrows : (((calls ++ [call]).flatMap (·.logs)).map row).Perm
      (r.table.rows ++ r.ignored ++ r.lost.map row ++ call.logs.map row) := by
    rw [List.flatMap_append, List.flatMap_singleton, List.map_append]
    exact h.rows.append_right _
  have hcase :=
    transaction_allOrNothing (fun t x => t.insertNew (row x)) call.fails r.table call.logs
  unfold BulkRun.insert
  generalize transaction (fun t x => t.insertNew (row x)) call.fails r.table call.logs =
    result at hcase
  cases hcase with
  | all =>
    rw [← List.foldl_map (f := row) (g := Keyed.insertNew)]
    refine ⟨hrows.trans ?_, fun x hx => ?_, hlost⟩
    · -- the new rows are those added to the table and those left out of it
      have hnew := Keyed.foldl_insertNew_perm r.table (call.logs.map row)
      classical
      refine List.perm_iff_count.mpr fun x => ?_
      have := List.perm_iff_count.mp hnew x
      simp only [List.count_append] at this ⊢
      omega
    · rcases List.mem_append.mp hx with hx | hx
      · exact ((Keyed.rows_sublist_foldl_insertNew r.table _).map key).subset (h.ignored x hx)
      · exact Keyed.key_mem_of_leftOut hx
  | @nothing k hk hfails =>
    refine ⟨?_, h.ignored, fun x hx => ?_⟩
    · rwa [List.map_append, ← List.append_assoc]
    · rcases List.mem_append.mp hx with hx | hx
      · exact hlost x hx
      · exact ⟨call, by simp, hx, k, hk, hfails⟩

theorem bulkRun_of (key : ρ → String) (row : α → ρ) (calls : List (BulkInsert α)) :
    (BulkRun.of key row calls).Of row calls := by
  induction calls using List.reverseRecOn with
  | nil => exact ⟨.nil, by simp [BulkRun.of], by simp [BulkRun.of]⟩
  | append_singleton calls call ih =>
    rw [BulkRun.of, List.foldl_append]
    exact ih.insert call

/-- The entries that were handed to the bulk insert, and others beside them. -/
theorem BulkRun.Of.storedOrLost (h : r.Of row calls) {scan : ρ → α} (hscan : ∀ x, scan (row x) = x)
    {entries elsewhere handed : List α} (hhanded : calls.flatMap (·.logs) = handed)
    (hentries : entries.Perm (handed ++ elsewhere)) :
    StoredOrLost scan entries elsewhere calls r where
  entries := by
    have hread (xs : List α) : (xs.map row).map scan = xs := by simp [Function.comp_def, hscan]
    have hrows := h.rows.map scan
    rw [hread, hhanded, List.map_append, List.map_append, hread] at hrows
    exact hentries.trans (hrows.append_right _)
  ignored := h.ignored
  lost := h.lost

end

end LlmProxy.Storage

namespace LlmProxy.Logging

open ProofKit Storage

namespace AsyncLogger

variable {bufferSize : Nat} {s : AsyncLogger RequestLog DetailLog}

/-- However the parties interleave, also after `Close`, and whichever calls to the database fail: an
accepted entry can be read back as it was logged; or its row was ignored, because the table has one
with its id; or a call of its own bulk insert failed; or it waits in the channel, a batch or a call
of `Flush`.  After `Close` none waits if nothing was logged once it had begun and every `Flush` had
returned. -/
theorem accepted_stored_or_failed
    (h : (system RequestLog DetailLog bufferSize).Reachable System.always s)
    {requests : List (BulkInsert RequestLog)} {details : List (BulkInsert DetailLog)}
    (hrequests : requests.map (·.logs) = s.reqs.inserted)
    (hdetails : details.map (·.logs) = s.details.inserted) :
    StoredOrLost scanRequestLog s.reqs.accepted s.waitingReqs requests (requestInserts requests) ∧
      StoredOrLost scanDetail s.details.accepted s.waitingDetails details (detailInserts details) ∧
      ((system RequestLog DetailLog bufferSize).Reachable Orderly s → s.closed = true →
        s.waitingReqs = [] ∧ s.waitingDetails = []) := by
  have hkept := reachable_kept h
  refine ⟨?_, ?_, fun horderly => (reachable_sound horderly).none_waiting⟩
  · refine (bulkRun_of _ _ requests).storedOrLost scanRequestLog_requestRow ?_
      (hkept.reqs.accounted.trans List.perm_append_comm)
    rw [List.flatMap_def, hrequests]
  · refine (bulkRun_of _ _ details).storedOrLost scanDetail_detailRow ?_
      (hkept.details.accounted.trans List.perm_append_comm)
    rw [List.flatMap_def, hdetails]

def loggedAs (id : String) (promptTokens : Int) : RequestLog :=
  { id, timestamp := startOfDay, promptTokens }

/-- Two batches.  The commit of the first one fails; the second one has two entries of one id. -/
def failedCommit : List (BulkInsert RequestLog) :=
  [⟨[loggedAs "a" 1], (· = 3)⟩, ⟨[loggedAs "b" 2, loggedAs "b" 3], fun _ => false⟩]

theorem accepted_stored_or_failed_commit :
    ∃ s, (system RequestLog DetailLog 4).Reachable Orderly s ∧ s.closed = true ∧
      s.reqs.accepted = [loggedAs "a" 1, loggedAs "b" 2, loggedAs "b" 3] ∧
      (requestInserts failedCommit).lost = [loggedAs "a" 1] ∧
      (requestInserts failedCommit).ignored = [requestRow (loggedAs "b" 3)] ∧
      StoredOrLost scanRequestLog s.reqs.accepted [] failedCommit
        (requestInserts failedCommit) := by
  have hinit : (system RequestLog DetailLog 4).Reachable Orderly {} := .init rfl
  obtain ⟨s, hs, hclosed, haccepted, hreqs, hdetails⟩ := hinit.exists_of_exec
    (fun s : AsyncLogger RequestLog DetailLog => s.closed = true ∧
      s.reqs.accepted = [loggedAs "a" 1, loggedAs "b" 2, loggedAs "b" 3] ∧
      s.reqs.inserted = [[loggedAs "a" 1], [loggedAs "b" 2, loggedAs "b" 3]] ∧
        s.details.inserted = [])
    (show System.Admits (next 4) Orderly {} [.asyncLog (loggedAs "a" 1) false,
      .requestWorker .receive, .requestWorker .tick, .requestWorker .flush,
      .asyncLog (loggedAs "b" 2) false, .asyncLog (loggedAs "b" 3) false, .close,
      .requestWorker .stop, .requestWorker .receive, .requestWorker .receive,
      .requestWorker .receive, .requestWorker .flush, .detailWorker .stop, .detailWorker .receive,
      .detailWorker .flush, .closeReturn] by decide) (by decide)
  have hrequests : failedCommit.map (·.logs) = s.reqs.inserted := hreqs.symm
  have hnone : ([] : List (BulkInsert DetailLog)).map (·.logs) = s.details.inserted := hdetails.symm
  obtain ⟨hstored, -, hwaiting⟩ := accepted_stored_or_failed hs.to_always hrequests hnone
  rw [(hwaiting hs hclosed).1] at hstored
  exact ⟨s, hs, hclosed, haccepted, rfl, rfl, hstored⟩

end AsyncLogger

end LlmProxy.Logging
