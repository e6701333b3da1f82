import Mathlib.Algebra.Order.BigOperators.Group.List
import Mathlib.Tactic.Linarith
import LlmProxy.ProofKit.System
import LlmProxy.RateLimit.LimiterRun

/-! The limiter over a whole history of calls, one after the other, on a cache that is empty at
first.  The sliding-window rule counts what was admitted and recorded in this minute, and a share of
the minute before.  The limiter decides by this rule as far as the cache still has the counters of
the minute before: it drops them 61 seconds after the first increment, which may be in this
minute. -/

namespace LlmProxy.RateLimit

open ProofKit Storage Program

structure Admission where
  keyID : String
  modelAlias : String
  minute : Int

structure Recording where
  keyID : String
  modelAlias : String
  minute : Int
  tokens : Int

/-- The cache of a limiter at a time, and what really happened before: the calls that were admitted
and the tokens that were recorded. -/
structure Ledger where
  clock : Nat
  cache : MemoryCache := {}
  admitted : List Admission := []
  recorded : List Recording := []

namespace Ledger

/-- The calls of a layer admitted in a minute. -/
def admittedIn (s : Ledger) (scope : Scope) (id : String) (minute : Int) : Nat :=
  s.admitted.countP fun a => scope.idOf a.keyID a.modelAlias = id ∧ a.minute = minute

/-- The tokens of a layer recorded in a minute. -/
def tokensIn (s : Ledger) (scope : Scope) (id : String) (minute : Int) : Int :=
  ((s.recorded.filter fun r => scope.idOf r.keyID r.modelAlias = id ∧ r.minute = minute).map
    (·.tokens)).sum

inductive Action
  | wait (duration : Nat)
  | allow (keyID modelAlias : String)
  | record (keyID modelAlias : String) (tokens : Int)
  | sweep

/-- What `AllowRequest` returns, and the cache that it leaves. -/
def callAllow (l : Limiter) (s : Ledger) (keyID modelAlias : String) :
    Limiter.AllowResult × MemoryCache :=
  eval (serve s.clock) (l.allowRequest keyID modelAlias) s.cache

def next (l : Limiter) (s : Ledger) : Action → Ledger
  | .wait duration => { s with clock := s.clock + duration }
  | .allow keyID modelAlias =>
    { s with
      cache := (s.callAllow l keyID modelAlias).2
      admitted :=
        if (s.callAllow l keyID modelAlias).1.allowed then
          ⟨keyID, modelAlias, minuteOf s.clock⟩ :: s.admitted
        else s.admitted }
  | .record keyID modelAlias tokens =>
    { s with
      cache := (eval (serve s.clock) (Limiter.recordTokens keyID modelAlias tokens) s.cache).2
      recorded :=
        if 0 < tokens then ⟨keyID, modelAlias, minuteOf s.clock, tokens⟩ :: s.recorded
        else s.recorded }
  | .sweep => { s with cache := s.cache.sweep s.clock }

def start (clock : Nat) : Ledger := { clock }

def system (l : Limiter) : System Ledger Action :=
  .ofNext (fun s => ∃ clock, s = start clock) fun s a => some (next l s a)

/-- The sliding-window rule for a call. -/
def SlidingWindow (l : Limiter) (s : Ledger) (keyID modelAlias : String) : Prop :=
  (∀ layer ∈ l.rpmLayers keyID modelAlias, 0 < layer.limit →
    (1 + s.admittedIn layer.scope layer.id (minuteOf s.clock) +
      s.admittedIn layer.scope layer.id (minuteOf s.clock - 1) * (60 - secondOf s.clock) / 60 : ℚ) ≤
      layer.limit) ∧
  ∀ layer ∈ l.tpmLayers keyID modelAlias, 0 < layer.limit →
    (s.tokensIn layer.scope layer.id (minuteOf s.clock) +
      s.tokensIn layer.scope layer.id (minuteOf s.clock - 1) * (60 - secondOf s.clock) / 60 : ℚ) <
      layer.limit

instance (l : Limiter) (s : Ledger) (keyID modelAlias : String) :
    Decidable (SlidingWindow l s keyID modelAlias) :=
  inferInstanceAs (Decidable (_ ∧ _))

/-- Each counter of the minute before that a call reads has not expired, or had nothing to count. -/
def PreviousKept (l : Limiter) (s : Ledger) (keyID modelAlias : String) : Prop :=
  (∀ layer ∈ l.rpmLayers keyID modelAlias, 0 < layer.limit →
    s.admittedIn layer.scope layer.id (minuteOf s.clock - 1) = 0 ∨
      (s.cache.live s.clock (rpmKey layer.scope layer.id (minuteOf s.clock - 1))).isSome) ∧
  ∀ layer ∈ l.tpmLayers keyID modelAlias, 0 < layer.limit →
    s.tokensIn layer.scope layer.id (minuteOf s.clock - 1) = 0 ∨
      (s.cache.live s.clock (tpmKey layer.scope layer.id (minuteOf s.clock - 1))).isSome

instance (l : Limiter) (s : Ledger) (keyID modelAlias : String) :
    Decidable (PreviousKept l s keyID modelAlias) :=
  inferInstanceAs (Decidable (_ ∧ _))

/-- No counter leaves the range of its type. -/
def NoOverflow (l : Limiter) (s : Ledger) : Action → Prop
  | .allow keyID modelAlias =>
    ∀ layer ∈ l.rpmLayers keyID modelAlias,
      (s.admittedIn layer.scope layer.id (minuteOf s.clock) : Int) + 1 < 2 ^ 63
  | .record keyID modelAlias tokens =>
    ∀ scope ∈ [Scope.global, .model, .key],
      s.tokensIn scope (scope.idOf keyID modelAlias) (minuteOf s.clock) + tokens < 2 ^ 63
  | .wait _ | .sweep => True

instance (l : Limiter) (s : Ledger) : (a : Action) → Decidable (NoOverflow l s a)
  | .allow .. => inferInstanceAs (Decidable (∀ layer ∈ _, _))
  | .record .. => inferInstanceAs (Decidable (∀ scope ∈ _, _))
  | .wait _ | .sweep => instDecidableTrue

/-! ### What the cache tracks -/

end Ledger

theorem mem_charged {l : Limiter} {keyID modelAlias : String} {ts : Int} {w : Counter} :
    w ∈ charged ts (l.rpmLayers keyID modelAlias) ↔
      w.kind = .rpm ∧ w.minute = ts ∧ w.scope.idOf keyID modelAlias = w.id ∧
        0 < l.rpmLimit w.scope w.id := by
  simp only [charged, List.mem_map, List.mem_filter, decide_eq_true_eq]
  constructor
  · rintro ⟨layer, ⟨hmem, hlimit⟩, rfl⟩
    obtain ⟨hid, heq⟩ := mem_rpmLayers hmem
    exact ⟨rfl, rfl, hid.symm, heq ▸ hlimit⟩
  · obtain ⟨kind, scope, id, minute⟩ := w
    dsimp only
    rintro ⟨rfl, rfl, rfl, hlimit⟩
    refine ⟨⟨scope, scope.idOf keyID modelAlias, l.rpmLimit scope _⟩, ⟨?_, hlimit⟩, rfl⟩
    cases scope <;> simp [Limiter.rpmLayers, Scope.idOf, Limiter.rpmLimit]

theorem mem_tokenCounters {keyID modelAlias : String} {ts : Int} {w : Counter} :
    w ∈ tokenCounters ts keyID modelAlias ↔
      w.kind = .tpm ∧ w.minute = ts ∧ w.scope.idOf keyID modelAlias = w.id := by
  obtain ⟨kind, scope, id, minute⟩ := w
  cases scope <;> simp [tokenCounters, Scope.idOf] <;> grind

namespace Ledger

/-- What the limiter counts of the history: the calls of a layer only if there is a limit. -/
def usage (l : Limiter) (s : Ledger) (w : Counter) : Int :=
  match w.kind with
  | .rpm => if 0 < l.rpmLimit w.scope w.id then s.admittedIn w.scope w.id w.minute else 0
  | .tpm => s.tokensIn w.scope w.id w.minute

theorem usage_rpm {l : Limiter} {s : Ledger} {w : Counter} (hkind : w.kind = .rpm)
    (hlimit : 0 < l.rpmLimit w.scope w.id) :
    usage l s w = s.admittedIn w.scope w.id w.minute := by
  simp [usage, hkind, hlimit]

theorem usage_rpmLayer {l : Limiter} {s : Ledger} {keyID modelAlias : String}
    {layer : Limiter.Layer} (hl : layer ∈ l.rpmLayers keyID modelAlias) (hlimit : 0 < layer.limit)
    (minute : Int) :
    usage l s (layer.counter .rpm minute) = s.admittedIn layer.scope layer.id minute :=
  usage_rpm rfl ((mem_rpmLayers hl).2 ▸ hlimit)

theorem usage_tpm {l : Limiter} {s : Ledger} {w : Counter} (hkind : w.kind = .tpm) :
    usage l s w = s.tokensIn w.scope w.id w.minute := by
  simp [usage, hkind]

/-- The cache tracks the history, in which every record is of a positive number of tokens. -/
structure Inv (l : Limiter) (s : Ledger) : Prop where
  tallies : Tallies s.clock s.cache (usage l s)
  tokens : ∀ r ∈ s.recorded, 0 < r.tokens

theorem usage_nonneg {l : Limiter} {s : Ledger} (h : ∀ r ∈ s.recorded, 0 < r.tokens)
    (w : Counter) : 0 ≤ usage l s w := by
  unfold usage
  split
  · split <;> omega
  · apply List.sum_nonneg
    intro x hx
    obtain ⟨r, hr, rfl⟩ := List.mem_map.mp hx
    exact (h r (List.mem_of_mem_filter hr)).le

theorem usage_admission (l : Limiter) (s : Ledger) (c : MemoryCache) (keyID modelAlias : String)
    (ts : Int) :
    usage l { s with cache := c, admitted := ⟨keyID, modelAlias, ts⟩ :: s.admitted } =
      raised 1 (usage l s) (charged ts (l.rpmLayers keyID modelAlias)) := by
  funext w
  rw [raised, (charged_nodup ..).count]
  simp only [mem_charged, usage, admittedIn, List.countP_cons, decide_eq_true_eq]
  cases hkind : w.kind with
  | tpm => simp [tokensIn]
  | rpm =>
    by_cases hlimit : 0 < l.rpmLimit w.scope w.id
    · simp [hlimit, eq_comm, and_comm]
    · simp [hlimit]

theorem usage_recording (l : Limiter) (s : Ledger) (c : MemoryCache) (keyID modelAlias : String)
    (ts tokens : Int) :
    usage l { s with cache := c, recorded := ⟨keyID, modelAlias, ts, tokens⟩ :: s.recorded } =
      raised tokens (usage l s) (tokenCounters ts keyID modelAlias) := by
  funext w
  rw [raised, (tokenCounters_nodup ..).count]
  simp only [mem_tokenCounters, usage, tokensIn, List.filter_cons, decide_eq_true_eq]
  cases hkind : w.kind with
  | rpm => simp [admittedIn]
  | tpm =>
    by_cases hw : w.scope.idOf keyID modelAlias = w.id ∧ ts = w.minute
    · simp [hw, add_comm]
    · have hnot : ¬ (w.minute = ts ∧ w.scope.idOf keyID modelAlias = w.id) :=
        fun h => hw ⟨h.2, h.1.symm⟩
      simp [hw, hnot]

theorem start_inv (l : Limiter) (clock : Nat) : Inv l (start clock) := by
  refine ⟨?_, by simp [start]⟩
  have hzero : usage l (start clock) = fun _ => 0 := by
    funext w
    cases hkind : w.kind <;> simp [usage, start, admittedIn, tokensIn, hkind]
  rw [hzero]
  exact Tracks.empty _ _

theorem charged_fits {l : Limiter} {s : Ledger} (h : Inv l s) {keyID modelAlias : String}
    (hok : NoOverflow l s (.allow keyID modelAlias)) :
    ∀ w ∈ charged (minuteOf s.clock) (l.rpmLayers keyID modelAlias),
      0 ≤ usage l s w ∧ usage l s w + 1 < 2 ^ 63 := by
  intro w hw
  refine ⟨usage_nonneg h.tokens w, ?_⟩
  obtain ⟨layer, hmem, rfl⟩ := List.mem_map.mp hw
  obtain ⟨-, -, -, hlimit⟩ := mem_charged.mp hw
  rw [usage_rpm rfl hlimit]
  exact hok layer (List.mem_of_mem_filter hmem)

theorem allow_inv {l : Limiter} {s : Ledger} (h : Inv l s) {keyID modelAlias : String}
    (hok : NoOverflow l s (.allow keyID modelAlias)) :
    Inv l (next l s (.allow keyID modelAlias)) := by
  refine ⟨?_, h.tokens⟩
  obtain ⟨-, htally⟩ := allowRequest_run h.tallies (charged_fits h hok)
    (show eval _ _ _ = ((s.callAllow l keyID modelAlias).1, (s.callAllow l keyID modelAlias).2) from
      rfl)
  rw [next]
  split
  · next hallowed =>
    rw [usage_admission]
    simpa [hallowed] using htally
  · next hrejected =>
    show Tallies s.clock _ (usage l s)
    simpa [hrejected] using htally

theorem record_inv {l : Limiter} {s : Ledger} (h : Inv l s) {keyID modelAlias : String}
    {tokens : Int} (hok : NoOverflow l s (.record keyID modelAlias tokens)) :
    Inv l (next l s (.record keyID modelAlias tokens)) := by
  rw [next]
  split
  · next hpos =>
    refine ⟨?_, by simpa [hpos] using h.tokens⟩
    rw [usage_recording]
    refine recordTokens_run h.tallies (fun w hw => ?_) hpos
    obtain ⟨hkind, hminute, hid⟩ := mem_tokenCounters.mp hw
    have hnonneg := usage_nonneg (l := l) h.tokens w
    have hroom := hok w.scope (by cases w.scope <;> simp)
    rw [hid, ← hminute, ← usage_tpm (l := l) hkind] at hroom
    constructor <;> omega
  · next hpos =>
    refine ⟨?_, h.tokens⟩
    rw [Limiter.recordTokens, if_pos (not_lt.mp hpos)]
    exact h.tallies

theorem wait_inv {l : Limiter} {s : Ledger} (h : Inv l s) (duration : Nat) :
    Inv l (next l s (.wait duration)) := by
  refine ⟨?_, h.tokens⟩
  have hle : s.clock ≤ s.clock + duration := Nat.le_add_right ..
  refine Tracks.advance h.tallies hle (fun w => (minuteOf_mono hle).trans) fun w e hlive hopen => ?_
  exact Tracks.not_expired h.tallies hlive hopen

theorem reachable_inv {l : Limiter} {s : Ledger} (hs : (system l).Reachable (NoOverflow l) s) :
    Inv l s := by
  refine hs.invariant (Inv l) ?_ ?_
  · rintro _ ⟨clock, rfl⟩
    exact start_inv l clock
  · intro s a s' _ h hok hstep
    obtain rfl := Option.some.inj hstep
    cases a with
    | wait duration => exact wait_inv h duration
    | allow keyID modelAlias => exact allow_inv h hok
    | record keyID modelAlias tokens => exact record_inv h hok
    | sweep => exact ⟨Tracks.sweep h.tallies, h.tokens⟩

/-! ### The decision -/

theorem kept_count {l : Limiter} {s : Ledger} (h : Inv l s) {w : Counter}
    (hkept : usage l s w = 0 ∨ (s.cache.live s.clock w.key).isSome) :
    s.cache.count s.clock w.key = usage l s w := by
  rcases hkept with hzero | hlive
  · rw [hzero]
    exact (Tracks.count_cases h.tallies w).elim (·.trans hzero) id
  · exact Tracks.count_eq h.tallies (.inl hlive)

theorem estimated_second (curr prev : Int) (second : Nat) :
    Limiter.estimated curr prev (second / 60) = curr + prev * (60 - second) / 60 := by
  unfold Limiter.estimated
  ring

/-- What the cache shows of the minute before is no more than there was. -/
theorem estimated_le {l : Limiter} {s : Ledger} (h : Inv l s) (curr : Int) (w : Counter) :
    Limiter.estimated curr (s.cache.count s.clock w.key) (secondOf s.clock / 60) ≤
      Limiter.estimated curr (usage l s w) (secondOf s.clock / 60) := by
  have hcount : s.cache.count s.clock w.key ≤ usage l s w := by
    rcases Tracks.count_cases h.tallies w with heq | hzero
    · exact heq.le
    · exact hzero ▸ usage_nonneg h.tokens w
  have hshare : (0 : ℚ) ≤ 1 - secondOf s.clock / 60 := sub_nonneg.mpr (secondOf_div_le_one _)
  unfold Limiter.estimated
  gcongr

theorem room_iff {l : Limiter} {s : Ledger} (h : Inv l s) {keyID modelAlias : String}
    (hkept : PreviousKept l s keyID modelAlias) :
    Room l s.clock s.cache (usage l s) keyID modelAlias ↔ SlidingWindow l s keyID modelAlias := by
  refine and_congr (forall₂_congr fun layer hl => imp_congr_right fun hlimit => ?_)
    (forall₂_congr fun layer hl => imp_congr_right fun hlimit => ?_)
  · have husage := usage_rpmLayer (s := s) hl hlimit
    have hprev := kept_count h (w := layer.counter .rpm (minuteOf s.clock - 1)) (by
      rw [husage]
      exact_mod_cast hkept.1 layer hl hlimit)
    rw [hprev, estimated_second, husage, husage]
    push_cast
    rw [add_comm (1 : ℚ)]
  · have husage (minute : Int) : usage l s (layer.counter .tpm minute) =
        s.tokensIn layer.scope layer.id minute := usage_tpm rfl
    have hprev := kept_count h (w := layer.counter .tpm (minuteOf s.clock - 1)) (by
      rw [husage]
      exact hkept.2 layer hl hlimit)
    rw [hprev, estimated_second, husage, husage]

/-- Whatever the cache has dropped, a call that the sliding-window rule admits is allowed. -/
theorem allows_within_window {l : Limiter} {s : Ledger}
    (hs : (system l).Reachable (NoOverflow l) s) {keyID modelAlias : String}
    (hok : NoOverflow l s (.allow keyID modelAlias))
    (hwindow : SlidingWindow l s keyID modelAlias) :
    (s.callAllow l keyID modelAlias).1.allowed = true := by
  have h := reachable_inv hs
  refine (allowRequest_run h.tallies (charged_fits h hok) rfl).1.mpr ⟨?_, ?_⟩
  · intro layer hl hlimit
    have husage := usage_rpmLayer (s := s) hl hlimit
    have hle := estimated_le h (usage l s (layer.counter .rpm (minuteOf s.clock)) + 1)
      (layer.counter .rpm (minuteOf s.clock - 1))
    refine hle.trans ?_
    rw [estimated_second, husage, husage]
    have hrule := hwindow.1 layer hl hlimit
    push_cast
    rwa [add_comm (1 : ℚ)] at hrule
  · intro layer hl hlimit
    have hle := estimated_le h (usage l s (layer.counter .tpm (minuteOf s.clock)))
      (layer.counter .tpm (minuteOf s.clock - 1))
    refine hle.trans_lt ?_
    rw [estimated_second]
    exact hwindow.2 layer hl hlimit

/-- In every run without an overflow, a call for which the cache still has the counters of the
minute before is decided by the sliding-window rule. -/
theorem decides_by_sliding_window {l : Limiter} {s : Ledger}
    (hs : (system l).Reachable (NoOverflow l) s) {keyID modelAlias : String}
    (hok : NoOverflow l s (.allow keyID modelAlias))
    (hkept : PreviousKept l s keyID modelAlias) :
    (s.callAllow l keyID modelAlias).1.allowed = true ↔ SlidingWindow l s keyID modelAlias := by
  have h := reachable_inv hs
  rw [← room_iff h hkept]
  exact (allowRequest_run h.tallies (charged_fits h hok) rfl).1

/-- A call and its tokens at the start of minute 1 are counted in full a minute later. -/
theorem decides_by_sliding_window_kept :
    ∃ (l : Limiter) (s : Ledger), (system l).Reachable (NoOverflow l) s ∧
      s.admittedIn .global "" (minuteOf s.clock - 1) = 1 ∧
      s.tokensIn .global "" (minuteOf s.clock - 1) = 5 ∧
      ((s.callAllow l "key" "model").1.allowed = true ↔ SlidingWindow l s "key" "model") := by
  let l : Limiter := { global := { rpm := 1, tpm := 9 } }
  have hinit : (system l).Reachable (NoOverflow l) (start (60 * second)) := .init ⟨_, rfl⟩
  have hok : System.Admits (fun s a => some (next l s a)) (NoOverflow l) (start (60 * second))
      [.allow "key" "model", .record "key" "model" 5, .wait (60 * second)] := by decide +kernel
  obtain ⟨s, hs, hok, hkept, hcalls, htokens⟩ := System.Reachable.exists_of_exec
    (fun s => NoOverflow l s (.allow "key" "model") ∧ PreviousKept l s "key" "model" ∧
      s.admittedIn .global "" (minuteOf s.clock - 1) = 1 ∧
      s.tokensIn .global "" (minuteOf s.clock - 1) = 5)
    hinit hok (by decide +kernel)
  exact ⟨l, s, hs, hcalls, htokens, decides_by_sliding_window hs hok hkept⟩

/-- With a limit of one call a minute, a call at the start of minute 1 is forgotten 62 seconds
later: a second call is allowed, although the rule counts 58/60 of the first. -/
theorem previous_minute_forgotten :
    ∃ (l : Limiter) (s : Ledger), (system l).Reachable (NoOverflow l) s ∧
      NoOverflow l s (.allow "key" "model") ∧
      (s.callAllow l "key" "model").1.allowed = true ∧ ¬ SlidingWindow l s "key" "model" := by
  let l : Limiter := { global := { rpm := 1 } }
  have hinit : (system l).Reachable (NoOverflow l) (start (60 * second)) := .init ⟨_, rfl⟩
  have hok : System.Admits (fun s a => some (next l s a)) (NoOverflow l) (start (60 * second))
      [.allow "key" "model", .wait (62 * second)] := by decide +kernel
  obtain ⟨s, hs, hbad⟩ := System.Reachable.exists_of_exec
    (fun s => NoOverflow l s (.allow "key" "model") ∧
      (s.callAllow l "key" "model").1.allowed = true ∧ ¬ SlidingWindow l s "key" "model")
    hinit hok (by decide +kernel)
  exact ⟨l, s, hs, hbad⟩

end Ledger

end LlmProxy.RateLimit
