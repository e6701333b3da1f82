import LlmProxy.ProofKit.Strconv
import LlmProxy.Proxy.Lines
import LlmProxy.Worker.RetryRun

/-! One attempt, byte by byte: the header, the status and the chunks that `Forward` hands to its
recorder, what of them reaches the client, and how the attempt ends. -/

namespace LlmProxy

open ProofKit

namespace Header

/-- The header after `h[k] = v` for every entry of another one. -/
def overlay (h other : Header) : Header := other.foldl (fun h entry => h.assign entry.1 entry.2) h

def keys (h : Header) : List String := h.map (·.1)

@[simp] theorem keys_cons (entry : String × List String) (h : Header) :
    keys (entry :: h) = entry.1 :: h.keys := rfl

theorem keys_assign (h : Header) (key : String) (vals : List String) :
    (h.assign key vals).keys = if key ∈ h.keys then h.keys else h.keys ++ [key] := by
  have hany : h.any (·.1 = key) = true ↔ key ∈ h.keys := by simp [keys]
  unfold assign
  by_cases hkey : key ∈ h.keys
  · rw [if_pos (hany.mpr hkey), if_pos hkey, keys, List.map_map]
    refine List.map_congr_left fun entry _ => ?_
    by_cases heq : entry.1 = key <;> simp [heq]
  · rw [if_neg (fun h => hkey (hany.mp h)), if_neg hkey, keys, List.map_append]
    rfl

theorem nodup_assign {h : Header} (hnodup : h.keys.Nodup) (key : String) (vals : List String) :
    (h.assign key vals).keys.Nodup := by
  rw [keys_assign]
  split
  · exact hnodup
  · next hkey =>
    refine List.nodup_append.mpr ⟨hnodup, by simp, ?_⟩
    rintro a ha b hb rfl
    exact hkey (List.mem_singleton.mp hb ▸ ha)

theorem nodup_addAll {h : Header} (hnodup : h.keys.Nodup) (other : Header) :
    (h.addAll other).keys.Nodup := by
  have hvalues (key : String) (vals : List String) {h : Header} (hnodup : h.keys.Nodup) :
      (vals.foldl (fun h v => h.add key v) h).keys.Nodup := by
    induction vals generalizing h with
    | nil => exact hnodup
    | cons v vals ih => exact ih (nodup_assign hnodup _ _)
  unfold addAll
  induction other generalizing h with
  | nil => exact hnodup
  | cons entry other ih => exact ih (hvalues entry.1 entry.2 hnodup)

/-- An overlay shows its own values, and the values below where it has none. -/
theorem get_overlay {other : Header} (hnodup : other.keys.Nodup) (h : Header) (key : String) :
    (h.overlay other).get key = if key ∈ other.keys then other.get key else h.get key := by
  unfold overlay
  induction other generalizing h with
  | nil => rfl
  | cons entry other ih =>
    rw [keys_cons, List.nodup_cons] at hnodup
    rw [List.foldl_cons, ih hnodup.2, get_assign, get_cons]
    by_cases hkey : key = entry.1
    · subst hkey
      simp [hnodup.1]
    · simp [hkey, Ne.symm hkey]

end Header

namespace Worker

open Logging Proxy Queue

/-! ### What an attempt hands to its writer -/

section

variable (request : Prepared) (resp : Response)

/-- The header that an attempt sets. -/
def headerOf : Header :=
  if request.isStream then streamHeader [] resp else Header.addAll [] resp.header

/-- The bytes of an attempt, write by write. -/
def chunksOf : List Bytes :=
  if request.isStream then (scan resp).1.map (· ++ [newline]) else [resp.body]

/-- The error that comes after all writes. -/
def tailErr : Option GoError := if request.isStream then (scan resp).2 else none

def wrapText : String :=
  if request.isStream then "proxy: stream forward: " else "proxy: write response to client: "

theorem headerOf_nodup : (headerOf request resp).keys.Nodup := by
  have hempty : Header.keys [] = [] := rfl
  have hadd := Header.nodup_addAll (h := []) (by simp [hempty]) resp.header
  unfold headerOf streamHeader Header.set
  split
  · exact Header.nodup_assign (Header.nodup_assign (Header.nodup_assign (Header.nodup_assign hadd
      _ _) _ _) _ _) _ _
  · exact hadd

end

/-- Writes one after another, from the `i`-th one of the attempt on: what is written, and the error
of the first write that fails, which is the last one made. -/
def push (writeErr : Nat → Option GoError) : Nat → List Bytes → List Bytes × Option GoError
  | _, [] => ([], none)
  | i, chunk :: chunks =>
    match writeErr i with
    | some e => ([chunk], some e)
    | none => (chunk :: (push writeErr (i + 1) chunks).1, (push writeErr (i + 1) chunks).2)

theorem push_eq_none {writeErr : Nat → Option GoError} {i : Nat} {chunks : List Bytes} :
    (push writeErr i chunks).2 = none ↔ ∀ j < chunks.length, writeErr (i + j) = none := by
  induction chunks generalizing i with
  | nil => simp [push]
  | cons chunk chunks ih =>
    rw [push]
    cases herr : writeErr i with
    | some e =>
      refine iff_of_false (by simp) fun h => ?_
      have := h 0 (by simp)
      simp [herr] at this
    | none =>
      simp only [ih]
      constructor
      · intro h j hj
        cases j with
        | zero => exact herr
        | succ j =>
          have := h j (by simpa using hj)
          rwa [Nat.add_assoc, Nat.add_comm 1] at this
      · intro h j hj
        have := h (j + 1) (by simpa using hj)
        rwa [Nat.add_assoc, Nat.add_comm 1]

/-- When no write fails, all is written. -/
theorem push_whole {writeErr : Nat → Option GoError} {i : Nat} {chunks : List Bytes}
    (h : (push writeErr i chunks).2 = none) : (push writeErr i chunks).1 = chunks := by
  induction chunks generalizing i with
  | nil => rfl
  | cons chunk chunks ih =>
    rw [push] at h ⊢
    cases herr : writeErr i with
    | some e => simp [herr] at h
    | none =>
      simp only [herr] at h ⊢
      rw [ih h]

namespace Outcome

/-- The response that an attempt passes to its writer, or the error that `Forward` returns without
one. -/
def reached (o : Outcome) : Except GoError (Prepared × Response) :=
  match o.prepared with
  | .error e => .error e
  | .ok request =>
    match o.reply with
    | .error e => .error (e.wrap "proxy: upstream request: ")
    | .ok resp =>
      if request.isStream then .ok (request, resp)
      else
        match resp.bodyErr with
        | some e => .error (e.wrap "proxy: read upstream response: ")
        | none => .ok (request, resp)

/-- The error and the status that an attempt is judged by. -/
def verdict (o : Outcome) : Option GoError × Int :=
  match o.reached with
  | .error e => (some e, 0)
  | .ok (request, resp) =>
    let err :=
      if PassesStatus resp then
        (push o.writeErr 0 (chunksOf request resp)).2.or (tailErr request resp)
      else tailErr request resp
    (err.map (·.wrap (wrapText request)), resp.statusCode)

def errorType (o : Outcome) : ErrorType := classifyError o.verdict.1 o.verdict.2

/-- The attempt is not a success. -/
def Fails (o : Outcome) : Prop := ¬(o.verdict.1 = none ∧ isRetryable o.errorType = false)

variable {o : Outcome} {request : Prepared} {resp : Response}

theorem fails_of_error {e : GoError} (h : o.reached = .error e) : o.Fails := by
  simp [Fails, verdict, h]

theorem fails_of_held (h : o.reached = .ok (request, resp))
    (hpass : ¬PassesStatus resp) : o.Fails := by
  rintro ⟨herr, hretry⟩
  rw [errorType, herr] at hretry
  simp only [verdict, h] at hretry
  exact hpass hretry

theorem reached_eq_ok : o.reached = .ok (request, resp) ↔
    o.prepared = .ok request ∧ o.reply = .ok resp ∧
      (request.isStream = true ∨ resp.bodyErr = none) := by
  unfold reached
  cases o.prepared with
  | error e => simp
  | ok request' =>
    cases o.reply with
    | error e => simp
    | ok resp' =>
      simp only [Except.ok.injEq]
      by_cases hstream : request'.isStream = true
      · rw [if_pos hstream]
        constructor
        · rintro ⟨⟩
          exact ⟨rfl, rfl, .inl hstream⟩
        · rintro ⟨rfl, rfl, -⟩
          rfl
      · rw [if_neg hstream]
        cases hbody : resp'.bodyErr with
        | some e =>
          refine iff_of_false (by simp) ?_
          rintro ⟨rfl, rfl, h⟩
          simp [hstream, hbody] at h
        | none =>
          constructor
          · rintro ⟨⟩
            exact ⟨rfl, rfl, .inr hbody⟩
          · rintro ⟨rfl, rfl, -⟩
            rfl

theorem failsEarly_iff_reached :
    o.FailsEarly ↔ ∀ request resp, o.reached = .ok (request, resp) → ¬PassesStatus resp := by
  constructor
  · intro h request resp hreached hpass
    obtain ⟨hp, hr, hbody⟩ := reached_eq_ok.mp hreached
    obtain ⟨hstream, herr⟩ := h request resp hp hr hpass
    rcases hbody with hbody | hbody
    · simp [hstream] at hbody
    · exact herr hbody
  · intro h request resp hp hr hpass
    have hno := fun hbody => h request resp (reached_eq_ok.mpr ⟨hp, hr, hbody⟩) hpass
    rw [← Bool.not_eq_true]
    exact ⟨fun hstream => hno (.inl hstream), fun herr => hno (.inr herr)⟩

/-- An attempt with a status that is passed on fails when a write or the stream does. -/
theorem fails_iff_passed (hreached : o.reached = .ok (request, resp)) (hpass : PassesStatus resp) :
    o.Fails ↔
      ¬((push o.writeErr 0 (chunksOf request resp)).2 = none ∧ tailErr request resp = none) := by
  have herr : o.verdict.1 = none ↔
      (push o.writeErr 0 (chunksOf request resp)).2 = none ∧ tailErr request resp = none := by
    simp only [verdict, hreached, if_pos hpass, Option.map_eq_none_iff, Option.or_eq_none_iff]
  have hstatus : o.verdict.2 = resp.statusCode := by simp only [verdict, hreached]
  rw [Fails, ← herr, not_iff_not]
  refine ⟨And.left, fun h => ⟨h, ?_⟩⟩
  rw [errorType, h, hstatus]
  exact hpass

theorem breaksOff_iff_fails : o.BreaksOff ↔ o.Fails ∧ ¬o.FailsEarly := by
  constructor
  · intro hbreaks
    refine ⟨?_, fun hearly => not_breaksOff_of_failsEarly hearly hbreaks⟩
    obtain ⟨request, resp, hp, hr, hpass, hbreak⟩ := hbreaks
    have hbody : request.isStream = true ∨ resp.bodyErr = none := by
      by_cases hstream : request.isStream = true
      · exact .inl hstream
      · rw [if_neg hstream] at hbreak
        exact .inr hbreak.1
    rw [fails_iff_passed (reached_eq_ok.mpr ⟨hp, hr, hbody⟩) hpass, push_eq_none]
    rintro ⟨hwrites, htail⟩
    by_cases hstream : request.isStream = true
    · rw [if_pos hstream] at hbreak
      rw [tailErr, if_pos hstream] at htail
      refine hbreak ⟨htail, fun i hi => ?_⟩
      simpa using hwrites i (by rwa [chunksOf, if_pos hstream, List.length_map])
    · rw [if_neg hstream] at hbreak
      refine hbreak.2 ?_
      simpa using hwrites 0 (by rw [chunksOf, if_neg hstream]; exact Nat.one_pos)
  · rintro ⟨hfails, hearly⟩
    rw [failsEarly_iff_reached] at hearly
    simp only [not_forall, not_not] at hearly
    obtain ⟨request, resp, hreached, hpass⟩ := hearly
    obtain ⟨hp, hr, hbody⟩ := reached_eq_ok.mp hreached
    rw [fails_iff_passed hreached hpass, push_eq_none] at hfails
    refine ⟨request, resp, hp, hr, hpass, ?_⟩
    by_cases hstream : request.isStream = true
    · rw [if_pos hstream]
      rintro ⟨hscan, hwrites⟩
      refine hfails ⟨fun j hj => ?_, by rw [tailErr, if_pos hstream, hscan]⟩
      rw [Nat.zero_add]
      exact hwrites j (by rwa [chunksOf, if_pos hstream, List.length_map] at hj)
    · rw [if_neg hstream]
      refine ⟨hbody.resolve_left hstream, fun hwrite => hfails ⟨fun j hj => ?_, if_neg hstream⟩⟩
      have : j < 1 := by rwa [chunksOf, if_neg hstream] at hj
      rw [Nat.zero_add, Nat.lt_one_iff.mp this]
      exact hwrite

theorem fails_of_failsEarly (h : o.FailsEarly) : o.Fails := by
  cases hreached : o.reached with
  | error e => exact fails_of_error hreached
  | ok reached => exact fails_of_held hreached (failsEarly_iff_reached.mp h _ _ hreached)

end Outcome

/-- `Commit` has no status 0. -/
def sentStatus (status : Int) : Int := if status = 0 then 200 else status

/-- The recorder and the surroundings after `Forward`, for an attempt with the outcome `o` that
starts from `s`. -/
inductive Delivered (o : Outcome) (src : Source) (s : World) : Recorder → World → Prop
  | nothing {e : GoError} (reached : o.reached = .error e) : Delivered o src s { src } s
  | held {request : Prepared} {resp : Response} (reached : o.reached = .ok (request, resp))
      (status : ¬Outcome.PassesStatus resp) :
      Delivered o src s
        { src, header := headerOf request resp, statusCode := resp.statusCode, wroteHeader := true,
          body := (chunksOf request resp).flatten } s
  | passed {request : Prepared} {resp : Response} (reached : o.reached = .ok (request, resp))
      (status : Outcome.PassesStatus resp) {w : Recorder} {s' : World} (committed : w.commit = true)
      (sent : Sent s s' (.writeHeader src (sentStatus resp.statusCode)
        (s.header.overlay (headerOf request resp)) ::
          (push o.writeErr 0 (chunksOf request resp)).1.map (.write src))) :
      Delivered o src s w s'

/-! ### The code does this -/

section Run

variable (inp : Inputs) (dec : Decoder)

theorem Recorder.assignAll_overlay (h : Header) (s : World) :
    runIn inp (Recorder.assignAll h) s = ((), { s with header := s.header.overlay h }) := by
  induction h generalizing s with
  | nil => rfl
  | cons entry rest ih => exact ih { s with header := s.header.assign entry.1 entry.2 }

/-- The state after `WriteHeader` on the client's writer by a recorder that commits. -/
def World.headed (s : World) (src : Source) (status : Int) (header : Header) : World :=
  { s with header := s.header.overlay header
           events := s.events ++ [.client (.writeHeader src status (s.header.overlay header))] }

theorem Recorder.commitNow_headed {r : Recorder} (hr : r.commit = false) (s : World) :
    runIn inp r.commitNow s = ({ r with commit := true, statusCode := sentStatus r.statusCode },
      s.headed r.src (sentStatus r.statusCode) r.header) := by
  simp only [Recorder.commitNow, hr, Bool.false_eq_true, ↓reduceIte, runIn_bind,
    Recorder.assignAll_overlay, runIn_run, runIn_pure, World.answer]
  rfl

/-- A relay into the buffer keeps every line. -/
theorem relay_held (scanErr : Option GoError) (lines : List Bytes) {w : Recorder} (hw : w.Buffering)
    (acc : StreamResult × Bool) (s : World) :
    ∃ result, runIn inp (relay dec scanErr lines w acc) s =
      ((result, scanErr, { w with body := w.body ++ (lines.map (· ++ [newline])).flatten }),
        s) := by
  induction lines generalizing w acc with
  | nil =>
    simp only [relay, runIn_pure, List.map_nil, List.flatten_nil, List.append_nil]
    cases scanErr <;> exact ⟨_, rfl⟩
  | cons line lines ih =>
    simp only [relay, runIn_bind, runIn_run, World.answer, Recorder.write_buffering inp hw,
      Recorder.flush_run]
    have hw' : ({ w with body := w.body ++ (line ++ [newline]) } : Recorder).Buffering := hw
    obtain ⟨result, hrun⟩ := ih hw'
      (account dec line ({ acc.1 with rawLines := acc.1.rawLines ++ [line] }, acc.2))
    refine ⟨result, hrun.trans ?_⟩
    simp

/-- A relay that is written through writes the lines up to the first write that fails. -/
theorem relay_passed (scanErr : Option GoError) (lines : List Bytes) {w : Recorder}
    (hw : w.Committed) (acc : StreamResult × Bool) (s : World)
    {pushed : List Bytes × Option GoError}
    (hpush : push (inp.outcome s.attempt).writeErr s.writes (lines.map (· ++ [newline])) = pushed) :
    ∃ result s', runIn inp (relay dec scanErr lines w acc) s =
      ((result, pushed.2.or scanErr, w), s') ∧
      Sent s s' (pushed.1.map (.write w.src)) := by
  induction lines generalizing acc s pushed with
  | nil =>
    subst hpush
    simp only [relay, runIn_pure]
    cases scanErr <;> exact ⟨_, s, rfl, .refl s⟩
  | cons line lines ih =>
    obtain ⟨s', hrun, hwrites, hsent⟩ := Recorder.write_committed inp hw (line ++ [newline]) s
    simp only [relay, runIn_bind, runIn_run, World.answer, hrun]
    rw [List.map_cons, push] at hpush
    cases herr : (inp.outcome s.attempt).writeErr s.writes with
    | some e =>
      simp only [herr] at hpush
      subst hpush
      exact ⟨_, s', rfl, hsent⟩
    | none =>
      simp only [herr] at hpush
      subst hpush
      simp only [runIn_bind, Recorder.flush_run]
      obtain ⟨result, s'', hrest, hsent'⟩ :=
        ih (account dec line ({ acc.1 with rawLines := acc.1.rawLines ++ [line] }, acc.2)) s' rfl
      rw [hsent.attempt, hwrites] at hrest hsent'
      exact ⟨result, s'', hrest, hsent.trans hsent'⟩

/-- A fresh recorder after a status that is passed on. -/
def Recorder.through (src : Source) (header : Header) (status : Int) : Recorder :=
  { src, header, statusCode := sentStatus status, wroteHeader := true, commit := true }

section

variable (src : Source) (header : Header) {status : Int} (s : World)

theorem Recorder.writeHeader_held (h : isRetryable (classifyError none status) = true) :
    runIn inp (Recorder.writeHeader { src, header } status) s =
      ({ src, header, statusCode := status, wroteHeader := true }, s) := by
  simp only [Recorder.writeHeader, Bool.false_eq_true, ↓reduceIte, h, runIn_pure]

theorem Recorder.writeHeader_headed (h : isRetryable (classifyError none status) = false) :
    runIn inp (Recorder.writeHeader { src, header } status) s =
      (Recorder.through src header status, s.headed src (sentStatus status) header) := by
  simp only [Recorder.writeHeader, Bool.false_eq_true, ↓reduceIte, h]
  exact Recorder.commitNow_headed inp rfl s

theorem World.sent_headed : Sent s (s.headed src status header)
    [.writeHeader src status (s.header.overlay header)] :=
  ⟨rfl, rfl⟩

end

/-- `Forward` from an answer of the upstream on, whose error and status are those of the outcome. -/
def Answers (p : Prog (Option ForwardResult × Option GoError × Recorder)) (o : Outcome)
    (src : Source) (s : World) : Prop :=
  ∃ res w s', runIn inp p s = ((res, o.verdict.1, w), s') ∧ statusOf res w = o.verdict.2 ∧
    (res = none → ∃ e, o.reached = .error e) ∧ Delivered o src s w s'

variable {o : Outcome} {request : Prepared} {resp : Response} {s : World}

theorem answerStream_delivered (hreached : o.reached = .ok (request, resp))
    (hstream : request.isStream = true) (hs : inp.outcome s.attempt = o) (hwrites : s.writes = 0)
    (src : Source) : Answers inp (answerStream dec { src } resp) o src s := by
  have hheader : headerOf request resp = streamHeader [] resp := if_pos hstream
  have hchunks : chunksOf request resp = (scan resp).1.map (· ++ [newline]) := if_pos hstream
  have htail : tailErr request resp = (scan resp).2 := if_pos hstream
  have hwrap : wrapText request = "proxy: stream forward: " := if_pos hstream
  cases hpass : isRetryable (classifyError none resp.statusCode) with
  | true =>
    have hheld : ¬Outcome.PassesStatus resp := by simp [Outcome.PassesStatus, hpass]
    have hverdict :
        o.verdict = ((scan resp).2.map (·.wrap "proxy: stream forward: "), resp.statusCode) := by
      simp only [Outcome.verdict, hreached, if_neg hheld, htail, hwrap]
    obtain ⟨result, hrelay⟩ := relay_held inp dec (scan resp).2 (scan resp).1
      (w :=
        { src, header := streamHeader [] resp, statusCode := resp.statusCode, wroteHeader := true })
      ⟨rfl, rfl⟩ ({}, false) s
    refine ⟨some { statusCode := resp.statusCode, stream := some result }, _, s, ?_, ?_, nofun,
      .held hreached hheld⟩
    · simp only [answerStream, runIn_bind, Recorder.writeHeader_held inp _ _ _ hpass, forwardStream,
        hrelay, runIn_pure, hverdict, hheader, hchunks, List.nil_append]
    · rw [hverdict]
      rfl
  | false =>
    obtain ⟨pushed, hpush⟩ :
        ∃ pushed, push o.writeErr 0 ((scan resp).1.map (· ++ [newline])) = pushed :=
      ⟨_, rfl⟩
    have hverdict : o.verdict = ((pushed.2.or (scan resp).2).map (·.wrap "proxy: stream forward: "),
        resp.statusCode) := by
      simp only [Outcome.verdict, hreached, if_pos (show Outcome.PassesStatus resp from hpass),
        hchunks, hpush, htail, hwrap]
    have hpushed :
        push (inp.outcome s.attempt).writeErr s.writes ((scan resp).1.map (· ++ [newline])) =
          pushed := by
      rw [← hpush, ← hs, ← hwrites]
    obtain ⟨result, s', hrelay, hsent⟩ := relay_passed inp dec (scan resp).2 (scan resp).1
      (w := .through src (streamHeader [] resp) resp.statusCode) ⟨rfl, rfl⟩ ({}, false)
      (s.headed src (sentStatus resp.statusCode) (streamHeader [] resp)) hpushed
    refine ⟨some { statusCode := resp.statusCode, stream := some result },
      .through src (streamHeader [] resp) resp.statusCode, s', ?_, ?_, nofun,
      .passed hreached hpass rfl ?_⟩
    · simp only [answerStream, runIn_bind, Recorder.writeHeader_headed inp _ _ _ hpass,
        forwardStream, hrelay, runIn_pure, hverdict]
    · rw [hverdict]
      rfl
    · rw [hheader, hchunks, hpush]
      exact (World.sent_headed src _ s).trans hsent

theorem answerBody_delivered (hreached : o.reached = .ok (request, resp))
    (hbody : resp.bodyErr = none) (hstream : request.isStream = false)
    (hs : inp.outcome s.attempt = o) (hwrites : s.writes = 0) (src : Source) :
    Answers inp (answerBody { src } resp) o src s := by
  have hplain : ¬request.isStream = true := by simp [hstream]
  have hheader : headerOf request resp = Header.addAll [] resp.header := if_neg hplain
  have hchunks : chunksOf request resp = [resp.body] := if_neg hplain
  have htail : tailErr request resp = none := if_neg hplain
  have hwrap : wrapText request = "proxy: write response to client: " := if_neg hplain
  cases hpass : isRetryable (classifyError none resp.statusCode) with
  | true =>
    have hheld : ¬Outcome.PassesStatus resp := by simp [Outcome.PassesStatus, hpass]
    have hverdict : o.verdict = (none, resp.statusCode) := by
      simp only [Outcome.verdict, hreached, if_neg hheld, htail, Option.map_none]
    have hwrite := Recorder.write_buffering inp
      (r := { src, header := Header.addAll [] resp.header, statusCode := resp.statusCode,
              wroteHeader := true }) ⟨rfl, rfl⟩ resp.body s
    refine ⟨some { statusCode := resp.statusCode, body := resp.body }, _, s, ?_, ?_, nofun,
      .held hreached hheld⟩
    · simp only [answerBody, hbody, runIn_bind, Recorder.writeHeader_held inp _ _ _ hpass, hwrite,
        runIn_pure, hverdict, hheader, hchunks, Option.map_none, List.nil_append, List.flatten_cons,
        List.flatten_nil, List.append_nil]
    · rw [hverdict]
      rfl
  | false =>
    have hpush : push o.writeErr 0 [resp.body] = ([resp.body], o.writeErr 0) := by
      rw [push]
      cases o.writeErr 0 <;> rfl
    have hverdict : o.verdict = ((o.writeErr 0).map (·.wrap "proxy: write response to client: "),
        resp.statusCode) := by
      simp only [Outcome.verdict, hreached, if_pos (show Outcome.PassesStatus resp from hpass),
        hchunks, hpush, htail, hwrap, Option.or_none]
    obtain ⟨s', hwrite, -, hsent⟩ := Recorder.write_committed inp
      (r := .through src (Header.addAll [] resp.header) resp.statusCode) ⟨rfl, rfl⟩ resp.body
      (s.headed src (sentStatus resp.statusCode) (Header.addAll [] resp.header))
    have herr : (inp.outcome (s.headed src (sentStatus resp.statusCode)
        (Header.addAll [] resp.header)).attempt).writeErr (s.headed src (sentStatus resp.statusCode)
        (Header.addAll [] resp.header)).writes = o.writeErr 0 := by
      rw [← hs, ← hwrites]
      rfl
    rw [herr] at hwrite
    refine ⟨some { statusCode := resp.statusCode, body := resp.body },
      .through src (Header.addAll [] resp.header) resp.statusCode, s', ?_, ?_, nofun,
      .passed hreached hpass rfl ?_⟩
    · simp only [answerBody, hbody, runIn_bind, Recorder.writeHeader_headed inp _ _ _ hpass, hwrite,
        runIn_pure, hverdict]
    · rw [hverdict]
      rfl
    · rw [hheader, hchunks, hpush]
      exact (World.sent_headed src _ s).trans hsent

/-- One attempt: `Forward` with a fresh recorder ends as the outcome says. -/
theorem forward_delivered (node : ModelNode) (hwrites : s.writes = 0) (src : Source) :
    Answers inp (forward dec node { src }) (inp.outcome s.attempt) src s := by
  obtain ⟨o, ho⟩ : ∃ o, inp.outcome s.attempt = o := ⟨_, rfl⟩
  rw [ho]
  cases hp : o.prepared with
  | error e =>
    have hreached : o.reached = .error e := by simp only [Outcome.reached, hp]
    refine ⟨none, { src }, s, ?_, ?_, fun _ => ⟨_, hreached⟩, .nothing hreached⟩
    · simp only [forward, runIn_bind, runIn_run, World.answer, ho, hp, runIn_pure, Outcome.verdict,
        hreached]
    · simp only [statusOf, Outcome.verdict, hreached]
  | ok request =>
    cases hr : o.reply with
    | error e =>
      have hreached : o.reached = .error (e.wrap "proxy: upstream request: ") := by
        simp only [Outcome.reached, hp, hr]
      refine ⟨none, { src }, s, ?_, ?_, fun _ => ⟨_, hreached⟩, .nothing hreached⟩
      · simp only [forward, runIn_bind, runIn_run, World.answer, ho, hp, hr, runIn_pure,
          Outcome.verdict, hreached]
      · simp only [statusOf, Outcome.verdict, hreached]
    | ok resp =>
      have hrun : runIn inp (forward dec node { src }) s =
          runIn inp (if request.isStream then answerStream dec { src } resp
            else answerBody { src } resp) s := by
        simp only [forward, runIn_bind, runIn_run, World.answer, ho, hp, hr]
      rw [Answers, hrun]
      cases hstream : request.isStream with
      | true =>
        have hreached : o.reached = .ok (request, resp) := by
          simp only [Outcome.reached, hp, hr, hstream, if_true]
        exact answerStream_delivered inp dec hreached hstream ho hwrites src
      | false =>
        cases hbody : resp.bodyErr with
        | some e =>
          have hreached : o.reached = .error (e.wrap "proxy: read upstream response: ") := by
            simp only [Outcome.reached, hp, hr, hstream, hbody, Bool.false_eq_true, if_false]
          refine ⟨none, { src }, s, ?_, ?_, fun _ => ⟨_, hreached⟩, .nothing hreached⟩
          · simp only [Bool.false_eq_true, if_false, answerBody, hbody, runIn_pure, Outcome.verdict,
              hreached]
          · simp only [statusOf, Outcome.verdict, hreached]
        | none =>
          have hreached : o.reached = .ok (request, resp) := by
            simp only [Outcome.reached, hp, hr, hstream, hbody, Bool.false_eq_true, if_false]
          exact answerBody_delivered inp hreached hbody hstream ho hwrites src

end Run

/-! ### A stream that reaches the client -/

/-- The bytes that an event brings to the client. -/
def Event.bytes : Event → Bytes
  | client (.write _ bytes) => bytes
  | client (.writeHeader ..) | started .. => []

def written (events : List Event) : Bytes := events.flatMap Event.bytes

theorem written_append (events events' : List Event) :
    written (events ++ events') = written events ++ written events' :=
  List.flatMap_append

theorem written_writes (src : Source) (chunks : List Bytes) :
    written ((chunks.map (ClientCall.write src)).map .client) = chunks.flatten := by
  induction chunks with
  | nil => rfl
  | cons chunk chunks ih =>
    rw [List.flatten_cons, ← ih]
    rfl

/-- The body has the length that the header declares, unless it is cut short. -/
def KeepsLength (resp : Response) : Prop :=
  ∀ n : Nat, resp.header.get "Content-Length" = [formatInt n] →
    resp.body.length ≤ n ∧ (resp.bodyErr = none → resp.body.length = n)

/-- Between the two states the client has got the body as it is, and no more bytes than its header
declares. -/
def Verbatim (resp : Response) (s s' : World) : Prop :=
  written s'.events = written s.events ++ resp.body ∧
    ∀ n : Nat, resp.header.get "Content-Length" = [formatInt n] →
      (written s'.events).length ≤ (written s.events).length + n

/-- What a writer that accepts every write gets of a stream. -/
theorem forwardStream_written (inp : Inputs) (dec : Decoder) {w : Recorder} (hw : w.Committed)
    {resp : Response} (s : World)
    (hfits : ∀ line ∈ splitLines resp.body, line.length < maxTokenSize)
    (haccepts : ∀ i, (inp.outcome s.attempt).writeErr i = none) :
    written (runIn inp (forwardStream dec w resp) s).2.events = written s.events ++
      relayed resp.body := by
  have hnone : (push (inp.outcome s.attempt).writeErr s.writes
      (((splitLines resp.body).map dropCR).map (· ++ [newline]))).2 = none :=
    push_eq_none.mpr fun j _ => haccepts _
  obtain ⟨result, s', hrun, hsent⟩ := relay_passed inp dec resp.bodyErr
    ((splitLines resp.body).map dropCR) hw ({}, false) s rfl
  rw [push_whole hnone] at hsent
  rw [forwardStream, scan_of_fits hfits, hrun, hsent.events, written_append, written_writes,
    List.map_map, ← List.flatMap_def]
  rfl

/-- A stream is relayed verbatim exactly when its lines end with line feeds only. -/
theorem stream_verbatim_iff (inp : Inputs) (dec : Decoder) (w : Recorder) (hw : w.Committed)
    (resp : Response) (hlength : KeepsLength resp) (s : World)
    (hfits : ∀ line ∈ splitLines resp.body, line.length < maxTokenSize)
    (haccepts : ∀ i, (inp.outcome s.attempt).writeErr i = none) :
    Verbatim resp s (runIn inp (forwardStream dec w resp) s).2 ↔ LineFeedsOnly resp.body := by
  rw [Verbatim, forwardStream_written inp dec hw s hfits haccepts, ← relayed_eq_iff]
  constructor
  · rintro ⟨hbytes, -⟩
    exact List.append_cancel_left hbytes
  · intro hbody
    rw [hbody]
    refine ⟨rfl, fun n hn => ?_⟩
    have := (hlength n hn).1
    rw [List.length_append]
    omega

/-- Events that end with line feeds. -/
theorem stream_verbatim_events :
    let resp : Response := { statusCode := 200, body := asciiBytes "data: x\n\ndata: [DONE]\n\n" }
    let inp : Inputs := { candidates := [], choice := fun _ => 0,
                          outcome := fun _ => ⟨.ok ⟨true⟩, .ok resp, fun _ => none⟩ }
    let dec : Decoder := ⟨fun _ => none, fun _ => none⟩
    let w : Recorder :=
      { src := .attempt 1, statusCode := 200, wroteHeader := true, commit := true }
    Verbatim resp {} (runIn inp (forwardStream dec w resp) {}).2 :=
  (stream_verbatim_iff _ _ _ ⟨rfl, rfl⟩ _ (fun n h => by simp [Header.get] at h) _ (by decide)
    (fun _ => rfl)).mpr (by decide)

/-- A JSON body with a declared length and without a line end: the client gets one byte more. -/
theorem stream_longer_than_declared :
    let resp : Response := { statusCode := 400, header := [("Content-Length", ["2"])],
                             body := asciiBytes "\x7b\x7d" }
    let inp : Inputs := { candidates := [], choice := fun _ => 0,
                          outcome := fun _ => ⟨.ok ⟨true⟩, .ok resp, fun _ => none⟩ }
    let dec : Decoder := ⟨fun _ => none, fun _ => none⟩
    let w : Recorder :=
      { src := .attempt 1, statusCode := 400, wroteHeader := true, commit := true }
    (∀ line ∈ splitLines resp.body, line.length < maxTokenSize) ∧
      resp.header.get "Content-Length" = [formatInt resp.body.length] ∧
      written (runIn inp (forwardStream dec w resp) {}).2.events = resp.body ++ [newline] ∧
      ¬Verbatim resp {} (runIn inp (forwardStream dec w resp) {}).2 := by
  intro resp inp dec w
  have hwritten : written (runIn inp (forwardStream dec w resp) {}).2.events = resp.body ++
      [newline] := by
    decide
  refine ⟨by decide, by decide, hwritten, fun h => ?_⟩
  have := h.1
  rw [hwritten] at this
  simp [written] at this

end Worker

end LlmProxy
