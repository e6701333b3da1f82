import LlmProxy.ProofKit.Counting
import LlmProxy.ProofKit.System
import LlmProxy.RateLimit.Reserving

/-! Any number of calls of `AllowRequest` and `RecordTokens` on one cache, interleaved in any order:
a step is one operation on the clock or the cache.  As long as no counter expires while a call that
uses it is under way, a counter of requests is the number of the places in it, so that a limit is
never exceeded within a minute. -/

namespace LlmProxy.RateLimit

open ProofKit Storage

/-- A call of `AllowRequest`: when it was made, what is left of its code, and the places that it
has. -/
structure Call where
  keyID : String
  modelAlias : String
  started : Nat
  code : Prog Limiter.AllowResult
  reservation : Reservation := {}

namespace Call

def new (l : Limiter) (keyID modelAlias : String) (started : Nat) : Call :=
  { keyID, modelAlias, started, code := l.allowRequest keyID modelAlias }

def running (call : Call) : Bool :=
  match call.code with
  | .done _ => false
  | .call .. => true

/-- The call has returned true. -/
def allowed (call : Call) : Bool :=
  match call.code with
  | .done result => result.allowed
  | .call .. => false

/-- The counters of the limits that apply to the call, once it has read the clock. -/
def slots (l : Limiter) (call : Call) : List Slot :=
  match call.reservation.minute with
  | none => []
  | some ts => l.slots call.keyID call.modelAlias ts

/-- The minute of the call: that in which it has read the clock, and until then that in which it was
made. -/
def minute (call : Call) : Int := call.reservation.minute.getD (minuteOf call.started)

/-- The counters of the limits that apply to the call in its minute, whatever its code does. -/
def counters (l : Limiter) (call : Call) : List Slot :=
  l.slots call.keyID call.modelAlias call.minute

/-- The call has incremented the counter and not undone it. -/
def holds (w : Slot) (call : Call) : Bool := call.reservation.holds w

/-- The call after its next operation and the answer to it. -/
def after (call : Call) (op : Op) (rest : op.Ans → Prog Limiter.AllowResult) (r : op.Ans) : Call :=
  { call with code := rest r, reservation := call.reservation.after op r }

/-- A call keeps to its places: what is left of its code does, and each place is in a counter of its
own, which is of a minute that has begun. -/
structure Orderly (l : Limiter) (clock : Nat) (call : Call) : Prop where
  obeys : Program.Obeys (reserving l call.keyID call.modelAlias)
    (Settled l call.keyID call.modelAlias) call.code call.reservation
  nodup : (call.reservation.held.map (·.1)).Nodup
  mine : ∀ p ∈ call.reservation.held, ∃ w ∈ call.slots l, p.1 = w.key
  begun : ∀ w ∈ call.slots l, w.minute ≤ minuteOf clock

variable {l : Limiter} {clock : Nat} {call : Call} {op : Op}
  {rest : op.Ans → Prog Limiter.AllowResult} {r : op.Ans}

theorem Orderly.next (h : call.Orderly l clock) (hcode : call.code = .call op rest) :
    Reserves l call.keyID call.modelAlias call.reservation op ∧
      ∀ r, Answers op r → Program.Obeys (reserving l call.keyID call.modelAlias)
        (Settled l call.keyID call.modelAlias) (rest r) (call.reservation.after op r) := by
  have hobeys := h.obeys
  rw [hcode] at hobeys
  exact hobeys _ rfl

theorem slots_after {held : List (String × Int)}
    (h : call.reservation.after op r = { minute := call.reservation.minute, held }) :
    (call.after op rest r).slots l = call.slots l := by
  show (match (call.reservation.after op r).minute with
    | none => []
    | some ts => l.slots call.keyID call.modelAlias ts) = call.slots l
  rw [h]
  rfl

theorem held_after (rest : op.Ans → Prog Limiter.AllowResult) {held : List (String × Int)}
    (h : call.reservation.after op r = { minute := call.reservation.minute, held }) :
    (call.after op rest r).reservation.held = held :=
  congrArg Reservation.held h

/-- An operation within the minute of the call changes its places only. -/
theorem Orderly.after_held (h : call.Orderly l clock) (hcode : call.code = .call op rest)
    (hr : Answers op r) {held : List (String × Int)}
    (hafter : call.reservation.after op r = { minute := call.reservation.minute, held })
    (hnodup : (held.map (·.1)).Nodup) (hmine : ∀ p ∈ held, ∃ w ∈ call.slots l, p.1 = w.key) :
    (call.after op rest r).Orderly l clock := by
  refine ⟨(h.next hcode).2 r hr, ?_, ?_, ?_⟩
  · rwa [held_after rest hafter]
  · rwa [held_after rest hafter, slots_after hafter]
  · rw [slots_after hafter]
    exact h.begun

end Call

structure Traffic where
  clock : Nat
  cache : MemoryCache := {}
  calls : List Call := []
  /-- What is left of the calls of `RecordTokens`. -/
  records : List (Prog (Option GoError)) := []
  /-- Whether the entry under a key has expired. -/
  expired : String → Bool := fun _ => false

namespace Traffic

inductive Action
  | allow (keyID modelAlias : String)
  | record (keyID modelAlias : String) (tokens : Int)
  /-- The next operation of a call of `AllowRequest`. -/
  | advance (i : Nat)
  /-- The next operation of a call of `RecordTokens`. -/
  | advanceRecord (i : Nat)
  | wait (duration : Nat)
  | sweep

/-- The operation of a call, with its answer. -/
def perform (s : Traffic) (i : Nat) (call : Call) (op : Op)
    (rest : op.Ans → Prog Limiter.AllowResult) : Traffic :=
  { s with
    cache := (serve s.clock op s.cache).2
    calls := s.calls.set i (call.after op rest (serve s.clock op s.cache).1) }

def performRecord (s : Traffic) (i : Nat) (op : Op) (rest : op.Ans → Prog (Option GoError)) :
    Traffic :=
  { s with
    cache := (serve s.clock op s.cache).2
    records := s.records.set i (rest (serve s.clock op s.cache).1) }

def wait (s : Traffic) (duration : Nat) : Traffic :=
  { s with
    clock := s.clock + duration
    expired := fun key =>
      s.expired key || (s.cache.live s.clock key).any (·.expired (s.clock + duration)) }

def next (l : Limiter) (s : Traffic) : Action → Option Traffic
  | .allow keyID modelAlias =>
    some { s with calls := s.calls ++ [.new l keyID modelAlias s.clock] }
  | .record keyID modelAlias tokens =>
    some { s with records := s.records ++ [Limiter.recordTokens keyID modelAlias tokens] }
  | .advance i =>
    match s.calls[i]? with
    | none => none
    | some call =>
      match call.code with
      | .done _ => none
      | .call op rest => some (s.perform i call op rest)
  | .advanceRecord i =>
    match s.records[i]? with
    | none | some (.done _) => none
    | some (.call op rest) => some (s.performRecord i op rest)
  | .wait duration => some (s.wait duration)
  | .sweep => some { s with cache := s.cache.sweep s.clock }

def start (clock : Nat) : Traffic := { clock }

def system (l : Limiter) : System Traffic Action :=
  .ofNext (fun s => ∃ clock, s = start clock) (next l)

/-- The calls that have returned true and that the limit of a counter applies to. -/
def admitted (l : Limiter) (s : Traffic) (w : Slot) : Nat :=
  s.calls.countP fun call => call.allowed && w ∈ call.counters l

/-- The calls under way that have incremented a counter and not undone it. -/
def inFlight (s : Traffic) (w : Slot) : Nat :=
  s.calls.countP fun call => call.running && call.holds w

/-- The next operation of the call keeps the counters in the range of their type. -/
def NoOverflow (s : Traffic) (call : Call) : Prop :=
  match call.code with
  | .call (.incrBy key delta _) _ => FitsInt64 (s.cache.count s.clock key + delta)
  | .call .now _ | .call (.get _) _ | .done _ => True

instance (s : Traffic) : (call : Call) → Decidable (NoOverflow s call)
  | { code := .call (.incrBy ..) _, .. } => inferInstanceAs (Decidable (FitsInt64 _))
  | { code := .call .now _, .. } | { code := .call (.get _) _, .. } | { code := .done _, .. } =>
    instDecidableTrue

/-- No counter of a call expires while the call is under way, and no counter leaves the range of its
type. -/
def Undisturbed (l : Limiter) (s : Traffic) : Action → Prop
  | .wait duration =>
    ∀ call ∈ s.calls, call.running = true → ∀ w ∈ call.slots l,
      ∀ e ∈ s.cache.live s.clock w.key, e.expired (s.clock + duration) = false
  | .advance i => ∀ call ∈ s.calls[i]?, NoOverflow s call
  | .allow .. | .record .. | .advanceRecord _ | .sweep => True

instance (l : Limiter) (s : Traffic) : (a : Action) → Decidable (Undisturbed l s a)
  | .wait _ => inferInstanceAs (Decidable (∀ call ∈ s.calls, _))
  | .advance i => inferInstanceAs (Decidable (∀ call ∈ s.calls[i]?, _))
  | .allow .. | .record .. | .advanceRecord _ | .sweep => instDecidableTrue

/-! ### The invariant -/

/-- A counter that is still counted in: that of a call that starts now or later, or of a call under
way. -/
def InUse (l : Limiter) (s : Traffic) (w : Slot) : Prop :=
  minuteOf s.clock ≤ w.minute ∨ ∃ call ∈ s.calls, call.running = true ∧ w ∈ call.slots l

/-- The calls with a place in a counter. -/
def holders (s : Traffic) (w : Slot) : Nat := s.calls.countP (Call.holds w)

/-- The operations of `RecordTokens` touch no counter of requests. -/
def TokenOp : Op → Prop
  | .incrBy key _ _ => ∀ w : Slot, w.key ≠ key
  | .now | .get _ => True

structure Inv (l : Limiter) (s : Traffic) : Prop where
  tracks : Tracks Slot.key Slot.minute (s.expired ·.key = false) s.clock s.cache
    fun w => s.holders w
  inUse : ∀ w, InUse l s w → s.expired w.key = false
  ordered : ∀ w n, s.calls.countP (·.reservation.holdsWithin w n) ≤ n
  calls : ∀ call ∈ s.calls, call.Orderly l s.clock
  records : ∀ p ∈ s.records, p.Calls TokenOp

theorem start_inv (l : Limiter) (clock : Nat) : Inv l (start clock) where
  tracks := Tracks.empty _ _
  inUse _ _ := rfl
  ordered w n := by simp [start]
  calls := by simp [start]
  records := by simp [start]

theorem mem_slots_minute {l : Limiter} {keyID modelAlias : String} {ts : Int} {w : Slot}
    (h : w ∈ l.slots keyID modelAlias ts) : w.minute = ts := by
  obtain ⟨layer, -, rfl⟩ := List.mem_map.mp h
  rfl

/-- A new call has no places. -/
theorem allow_inv {l : Limiter} {s : Traffic} (h : Inv l s) (keyID modelAlias : String) :
    Inv l { s with calls := s.calls ++ [.new l keyID modelAlias s.clock] } := by
  refine ⟨h.tracks.weaken (fun _ hw => hw) fun w => ?_, ?_, ?_, ?_, h.records⟩
  · simp [holders, Call.holds, Reservation.holds, Call.new]
  · rintro w (hminute | ⟨call, hmem, hrunning, hw⟩)
    · exact h.inUse w (.inl hminute)
    · rcases List.mem_append.mp hmem with hold | hnew
      · exact h.inUse w (.inr ⟨call, hold, hrunning, hw⟩)
      · obtain rfl := List.mem_singleton.mp hnew
        simp [Call.slots, Call.new] at hw
  · intro w n
    simpa [Reservation.holdsWithin, Call.new] using h.ordered w n
  · intro call hmem
    rcases List.mem_append.mp hmem with hold | hnew
    · exact h.calls call hold
    · obtain rfl := List.mem_singleton.mp hnew
      exact ⟨allowRequest_obeys .., by simp [Call.new], by simp [Call.new],
        by simp [Call.slots, Call.new]⟩

theorem wait_inv {l : Limiter} {s : Traffic} (h : Inv l s) {duration : Nat}
    (hok : Undisturbed l s (.wait duration)) : Inv l (s.wait duration) := by
  have hle : s.clock ≤ s.clock + duration := Nat.le_add_right ..
  refine ⟨h.tracks.advance hle ?_ ?_, ?_, h.ordered, ?_, h.records⟩
  · intro w hw
    exact (Bool.or_eq_false_iff.mp hw).1
  · intro w e hlive hw
    have hkept := (Bool.or_eq_false_iff.mp hw).2
    rw [hlive] at hkept
    exact hkept
  · intro w hw
    have hkept : ∀ e, s.cache.live s.clock w.key = some e →
        e.expired (s.clock + duration) = false := by
      intro e hlive
      rcases hw with hminute | ⟨call, hmem, hrunning, hw⟩
      · exact h.tracks.not_expired hlive hminute
      · exact hok call hmem hrunning w hw e hlive
    have hbefore : InUse l s w := hw.imp_left (minuteOf_mono hle).trans
    refine Bool.or_eq_false_iff.mpr ⟨h.inUse w hbefore, ?_⟩
    cases hlive : s.cache.live s.clock w.key with
    | none => rfl
    | some e => exact hkept e hlive
  · intro call hmem
    have horderly := h.calls call hmem
    exact ⟨horderly.obeys, horderly.nodup, horderly.mine,
      fun w hw => (horderly.begun w hw).trans (minuteOf_mono hle)⟩

theorem slot_ne_tpmKey (w : Slot) (scope : Scope) (id : String) (ts : Int) :
    w.key ≠ tpmKey scope id ts := by
  intro h
  have hcounter : (⟨.rpm, w.scope, w.id, w.minute⟩ : Counter) = ⟨.tpm, scope, id, ts⟩ :=
    Counter.key_injective h
  simp at hcounter

theorem incrAll_calls (delta : Int) {keys : List String}
    (hkeys : ∀ key ∈ keys, ∀ w : Slot, w.key ≠ key) :
    (Limiter.incrAll delta keys).Calls TokenOp := by
  induction keys with
  | nil => trivial
  | cons key rest ih =>
    refine ⟨hkeys key (by simp), fun r => ?_⟩
    cases r with
    | error e => trivial
    | ok v => exact ih fun key' hkey' => hkeys key' (by simp [hkey'])

theorem recordTokens_calls (keyID modelAlias : String) (tokens : Int) :
    (Limiter.recordTokens keyID modelAlias tokens).Calls TokenOp := by
  rw [Limiter.recordTokens]
  split
  · trivial
  · refine ⟨trivial, fun now => incrAll_calls tokens fun key hkey w => ?_⟩
    simp only [List.mem_cons, List.not_mem_nil, or_false] at hkey
    rcases hkey with rfl | rfl | rfl <;> exact slot_ne_tpmKey w _ _ _

theorem performRecord_inv {l : Limiter} {s : Traffic} (h : Inv l s) {i : Nat} {op : Op}
    {rest : op.Ans → Prog (Option GoError)} (hi : s.records[i]? = some (.call op rest)) :
    Inv l (s.performRecord i op rest) := by
  obtain ⟨hop, hrest⟩ := h.records _ (List.mem_of_getElem? hi)
  refine ⟨?_, h.inUse, h.ordered, h.calls, ?_⟩
  · cases op with
    | now => exact h.tracks
    | get key => exact h.tracks
    | incrBy key delta ttl => exact h.tracks.incrBy_frame hop delta ttl
  · intro p hp
    rcases List.mem_or_eq_of_mem_set hp with hold | rfl
    · exact h.records p hold
    · exact hrest _

/-! ### An operation of a call -/

variable {l : Limiter} {s : Traffic} {i : Nat} {call : Call}

/-- A step of a call keeps the invariant if it keeps what concerns the counters and the call. -/
theorem Inv.set (h : Inv l s) (hi : s.calls[i]? = some call) (hrunning : call.running = true)
    {call' : Call} {cache : MemoryCache}
    (htracks : Tracks Slot.key Slot.minute (s.expired ·.key = false) s.clock cache
      fun w => (s.calls.set i call').countP (Call.holds w))
    (hordered : ∀ w n, (s.calls.set i call').countP (·.reservation.holdsWithin w n) ≤ n)
    (horderly : call'.Orderly l s.clock)
    (hslots : ∀ w ∈ call'.slots l, minuteOf s.clock ≤ w.minute ∨ w ∈ call.slots l) :
    Inv l { s with cache, calls := s.calls.set i call' } := by
  refine ⟨htracks, fun w hw => h.inUse w ?_, hordered, ?_, h.records⟩
  · rcases hw with hminute | ⟨other, hmem, hother, hw⟩
    · exact .inl hminute
    · rcases List.mem_or_eq_of_mem_set hmem with hold | rfl
      · exact .inr ⟨other, hold, hother, hw⟩
      · rcases hslots w hw with hminute | hslot
        · exact .inl hminute
        · exact .inr ⟨call, List.mem_of_getElem? hi, hrunning, hslot⟩
  · intro other hmem
    rcases List.mem_or_eq_of_mem_set hmem with hold | rfl
    · exact h.calls other hold
    · exact horderly

/-- The places do not change. -/
theorem Inv.same_places (h : Inv l s) (hi : s.calls[i]? = some call) {call' : Call}
    (hheld : call'.reservation.held = call.reservation.held) :
    (∀ w, (s.calls.set i call').countP (Call.holds w) = s.holders w) ∧
      ∀ w n, (s.calls.set i call').countP (·.reservation.holdsWithin w n) ≤ n := by
  constructor
  · intro w
    have hcount := countP_set_add hi call' (Call.holds w)
    have hholds : call'.holds w = call.holds w := by
      simp [Call.holds, Reservation.holds, hheld]
    rw [hholds] at hcount
    exact Nat.add_right_cancel hcount
  · intro w n
    have hcount := countP_set_add hi call' (·.reservation.holdsWithin w n)
    have hholds : call'.reservation.holdsWithin w n = call.reservation.holdsWithin w n := by
      simp [Reservation.holdsWithin, hheld]
    rw [hholds] at hcount
    exact (Nat.add_right_cancel hcount).trans_le (h.ordered w n)

theorem slots_of_minute {ts : Int} (h : call.reservation.minute = some ts) :
    call.slots l = l.slots call.keyID call.modelAlias ts := by
  simp [Call.slots, h]

theorem counters_of_minute {ts : Int} (h : call.reservation.minute = some ts) :
    call.counters l = call.slots l := by
  simp [Call.counters, Call.minute, Call.slots, h]

/-- A place is taken that was free before, as the last one. -/
theorem Inv.take_place (h : Inv l s) (hi : s.calls[i]? = some call) {call' : Call} {w : Slot}
    (hfree : call.holds w = false)
    (hheld : call'.reservation.held = call.reservation.held ++ [(w.key, (s.holders w : Int) + 1)]) :
    (∀ w', (((s.calls.set i call').countP (Call.holds w') : Nat) : Int) =
        Function.update (fun w => (s.holders w : Int)) w (s.holders w + 1) w') ∧
      ∀ w' n, (s.calls.set i call').countP (·.reservation.holdsWithin w' n) ≤ n := by
  constructor
  · intro w'
    have hcount := countP_set_add hi call' (Call.holds w')
    have hholds : call'.holds w' = (call.holds w' || decide (w' = w)) := by
      rw [Call.holds, Call.holds, ← Reservation.holds_take w (s.holders w + 1), Reservation.holds,
        Reservation.holds, hheld]
    by_cases hw : w' = w
    · subst hw
      simp only [hholds, hfree, decide_true, Bool.or_true, if_true, Bool.false_eq_true,
        if_false] at hcount
      rw [Function.update_self, holders]
      omega
    · simp only [hholds, hw, decide_false, Bool.or_false] at hcount
      rw [Function.update_of_ne hw, holders]
      omega
  · intro w' n
    have hcount := countP_set_add hi call' (·.reservation.holdsWithin w' n)
    have hholds : call'.reservation.holdsWithin w' n =
        (call.reservation.holdsWithin w' n || decide (w' = w ∧ (s.holders w : Int) + 1 ≤ n)) := by
      rw [← Reservation.holdsWithin_take, Reservation.holdsWithin, Reservation.holdsWithin, hheld]
    have hold := h.ordered w' n
    by_cases hlast : w' = w ∧ (s.holders w : Int) + 1 ≤ n
    · -- the first `n` places have room for all the holders and the new one
      have hle : s.calls.countP (·.reservation.holdsWithin w' n) ≤ s.holders w' :=
        List.countP_mono_left fun _ _ hwithin => Reservation.holds_of_holdsWithin hwithin
      obtain ⟨rfl, hroom⟩ := hlast
      split at hcount <;> split at hcount <;> omega
    · simp only [hholds, hlast, decide_false, Bool.or_false] at hcount
      omega

theorem Inv.give_place (h : Inv l s) (hi : s.calls[i]? = some call) {call' : Call} {w : Slot}
    (hnodup : (call.reservation.held.map (·.1)).Nodup) (htaken : call.holds w = true)
    (hheld : call'.reservation.held = call.reservation.held.eraseP (·.1 = w.key)) :
    (∀ w', (((s.calls.set i call').countP (Call.holds w') : Nat) : Int) =
        Function.update (fun w => (s.holders w : Int)) w (s.holders w + -1) w') ∧
      ∀ w' n, (s.calls.set i call').countP (·.reservation.holdsWithin w' n) ≤ n := by
  constructor
  · intro w'
    have hcount := countP_set_add hi call' (Call.holds w')
    have hholds : call'.holds w' = (call.holds w' && decide (w' ≠ w)) := by
      rw [Call.holds, Call.holds, ← Reservation.holds_give hnodup, Reservation.holds,
        Reservation.holds, hheld]
    by_cases hw : w' = w
    · subst hw
      simp only [hholds, htaken, ne_eq, not_true_eq_false, decide_false, Bool.and_false,
        Bool.false_eq_true, if_false, if_true] at hcount
      rw [Function.update_self, holders]
      omega
    · simp only [hholds, ne_eq, hw, not_false_eq_true, decide_true, Bool.and_true] at hcount
      rw [Function.update_of_ne hw, holders]
      omega
  · intro w' n
    have hcount := countP_set_add hi call' (·.reservation.holdsWithin w' n)
    have hfewer : call'.reservation.holdsWithin w' n = true →
        call.reservation.holdsWithin w' n = true := by
      intro hwithin
      apply Reservation.holdsWithin_give (w := w)
      rwa [Reservation.holdsWithin, ← hheld]
    have hold := h.ordered w' n
    split at hcount <;> split at hcount
    · omega
    · omega
    · next hnot hnew => exact absurd (hfewer hnew) hnot
    · omega

theorem now_inv (h : Inv l s) (hi : s.calls[i]? = some call)
    {rest : Op.Ans .now → Prog Limiter.AllowResult} (hcode : call.code = .call .now rest) :
    Inv l (s.perform i call .now rest) := by
  have horderly := h.calls call (List.mem_of_getElem? hi)
  obtain ⟨hnone, hnext⟩ := horderly.next hcode
  have hempty : call.reservation.held = [] := by
    rw [List.eq_nil_iff_forall_not_mem]
    intro p hp
    obtain ⟨w, hw, -⟩ := horderly.mine p hp
    have hnone' : call.reservation.minute = none := hnone
    simp [Call.slots, hnone'] at hw
  have hheld : (call.after .now rest s.clock).reservation.held = call.reservation.held := rfl
  obtain ⟨hholders, hordered⟩ := h.same_places hi hheld
  refine h.set hi (by simp [Call.running, hcode])
    (h.tracks.weaken (fun _ hw => hw) fun w => congrArg Nat.cast (hholders w)) hordered
    ⟨hnext _ trivial, horderly.nodup, ?_, ?_⟩ ?_
  · intro p hp
    have hp' : p ∈ call.reservation.held := hp
    simp [hempty] at hp'
  · intro w hw
    exact (mem_slots_minute hw).le
  · intro w hw
    exact .inl (mem_slots_minute hw).ge

theorem get_inv (h : Inv l s) (hi : s.calls[i]? = some call) {key : String}
    {rest : Op.Ans (.get key) → Prog Limiter.AllowResult}
    (hcode : call.code = .call (.get key) rest) :
    Inv l (s.perform i call (.get key) rest) := by
  have horderly := h.calls call (List.mem_of_getElem? hi)
  have hanswer : Answers (.get key) (s.cache.get s.clock key) := by
    rintro w rfl
    rcases h.tracks.count_cases w with hcount | hcount
    · exact (Int.natCast_nonneg _).trans_eq hcount.symm
    · exact hcount.symm.le
  have hheld : (call.after (.get key) rest (s.cache.get s.clock key)).reservation.held =
      call.reservation.held := rfl
  obtain ⟨hholders, hordered⟩ := h.same_places hi hheld
  exact h.set hi (by simp [Call.running, hcode])
    (h.tracks.weaken (fun _ hw => hw) fun w => congrArg Nat.cast (hholders w)) hordered
    (horderly.after_held hcode hanswer rfl horderly.nodup horderly.mine) fun w hw => .inr hw

/-- A call under way increments or decrements a counter of its own. -/
theorem Inv.incrBy_tracks (h : Inv l s) (hmem : call ∈ s.calls) (hrunning : call.running = true)
    {w : Slot} (hw : w ∈ call.slots l) {delta : Int}
    (hfits : FitsInt64 (s.cache.count s.clock w.key + delta)) :
    ∃ cache, serve s.clock (.incrBy w.key delta Limiter.ttl) s.cache =
        (.ok (s.holders w + delta), cache) ∧
      Tracks Slot.key Slot.minute (s.expired ·.key = false) s.clock cache
        (Function.update (fun w => (s.holders w : Int)) w (s.holders w + delta)) := by
  have hopen : s.expired w.key = false := h.inUse w (.inr ⟨call, hmem, hrunning, hw⟩)
  rw [h.tracks.count_eq (.inr hopen)] at hfits
  obtain ⟨hvalue, htracks⟩ :=
    h.tracks.incrBy Slot.key_injective hopen ((h.calls call hmem).begun w hw) hfits
  exact ⟨_, Prod.ext (congrArg Except.ok hvalue) rfl, htracks⟩

theorem take_inv (h : Inv l s) (hi : s.calls[i]? = some call) {w : Slot}
    {rest : Op.Ans (.incrBy w.key 1 Limiter.ttl) → Prog Limiter.AllowResult}
    (hcode : call.code = .call (.incrBy w.key 1 Limiter.ttl) rest) (hw : w ∈ call.slots l)
    (hfree : w.key ∉ call.reservation.held.map (·.1))
    (hfits : FitsInt64 (s.cache.count s.clock w.key + 1)) :
    Inv l (s.perform i call (.incrBy w.key 1 Limiter.ttl) rest) := by
  have hmem := List.mem_of_getElem? hi
  have hrunning : call.running = true := by simp [Call.running, hcode]
  have horderly := h.calls call hmem
  obtain ⟨cache, hserve, htracks⟩ := h.incrBy_tracks hmem hrunning hw hfits
  have hafter : call.reservation.after (.incrBy w.key 1 Limiter.ttl) (.ok (s.holders w + 1)) =
      { minute := call.reservation.minute
        held := call.reservation.held ++ [(w.key, (s.holders w : Int) + 1)] } :=
    Reservation.after_take _ _ Limiter.ttl
  have hfree' : call.holds w = false := by
    rw [Call.holds, Bool.eq_false_iff, ne_eq, Reservation.holds_eq_true]
    exact hfree
  obtain ⟨hholders, hordered⟩ := h.take_place hi hfree' (Call.held_after rest hafter)
  unfold perform
  rw [hserve]
  refine h.set hi hrunning (htracks.weaken (fun _ hopen => hopen) hholders) hordered
    (horderly.after_held hcode ⟨_, rfl⟩ hafter ?_ ?_) fun w' hw' =>
      .inr (Call.slots_after hafter ▸ hw')
  · rw [List.map_append]
    exact horderly.nodup.append (List.nodup_singleton _) (List.disjoint_singleton.mpr hfree)
  · intro p hp
    rcases List.mem_append.mp hp with hold | hnew
    · exact horderly.mine p hold
    · obtain rfl := List.mem_singleton.mp hnew
      exact ⟨w, hw, rfl⟩

theorem give_inv (h : Inv l s) (hi : s.calls[i]? = some call) {w : Slot}
    {rest : Op.Ans (.incrBy w.key (-1) Limiter.ttl) → Prog Limiter.AllowResult}
    (hcode : call.code = .call (.incrBy w.key (-1) Limiter.ttl) rest) (hw : w ∈ call.slots l)
    (htaken : w.key ∈ call.reservation.held.map (·.1))
    (hfits : FitsInt64 (s.cache.count s.clock w.key + -1)) :
    Inv l (s.perform i call (.incrBy w.key (-1) Limiter.ttl) rest) := by
  have hmem := List.mem_of_getElem? hi
  have hrunning : call.running = true := by simp [Call.running, hcode]
  have horderly := h.calls call hmem
  obtain ⟨cache, hserve, htracks⟩ := h.incrBy_tracks hmem hrunning hw hfits
  have hafter : call.reservation.after (.incrBy w.key (-1) Limiter.ttl)
      (.ok (s.holders w + -1)) =
      { minute := call.reservation.minute
        held := call.reservation.held.eraseP (·.1 = w.key) } :=
    Reservation.after_give _ (s.holders w + -1) Limiter.ttl
  obtain ⟨hholders, hordered⟩ := h.give_place hi horderly.nodup
    (Reservation.holds_eq_true.mpr htaken) (Call.held_after rest hafter)
  have hsub := List.eraseP_sublist (p := fun p : String × Int => decide (p.1 = w.key))
    (l := call.reservation.held)
  unfold perform
  rw [hserve]
  exact h.set hi hrunning (htracks.weaken (fun _ hopen => hopen) hholders) hordered
    (horderly.after_held hcode ⟨_, rfl⟩ hafter (horderly.nodup.sublist (hsub.map _))
      fun p hp => horderly.mine p (hsub.subset hp))
    fun w' hw' => .inr (Call.slots_after hafter ▸ hw')

theorem perform_inv (h : Inv l s) (hi : s.calls[i]? = some call) {op : Op}
    {rest : op.Ans → Prog Limiter.AllowResult} (hcode : call.code = .call op rest)
    (hok : Undisturbed l s (.advance i)) : Inv l (s.perform i call op rest) := by
  cases op with
  | now => exact now_inv h hi hcode
  | get key => exact get_inv h hi hcode
  | incrBy key delta ttl =>
    have hfits := hok call hi
    rw [NoOverflow, hcode] at hfits
    have horderly := h.calls call (List.mem_of_getElem? hi)
    obtain ⟨rfl, ⟨rfl, hfree, ts, hts, w, hw, rfl⟩ | ⟨rfl, htaken⟩⟩ := (horderly.next hcode).1
    · exact take_inv h hi hcode (slots_of_minute hts ▸ hw) hfree hfits
    · obtain ⟨w, hw, rfl⟩ : ∃ w ∈ call.slots l, key = w.key := by
        obtain ⟨p, hp, rfl⟩ := List.mem_map.mp htaken
        exact horderly.mine p hp
      exact give_inv h hi hcode hw htaken hfits

theorem reachable_inv (hs : (system l).Reachable (Undisturbed l) s) : Inv l s := by
  refine hs.invariant (Inv l) ?_ ?_
  · rintro _ ⟨clock, rfl⟩
    exact start_inv l clock
  · intro s a s' _ h hok hstep
    cases a with
    | allow keyID modelAlias =>
      obtain rfl := Option.some.inj hstep
      exact allow_inv h keyID modelAlias
    | record keyID modelAlias tokens =>
      obtain rfl := Option.some.inj hstep
      refine ⟨h.tracks, h.inUse, h.ordered, h.calls, fun p hp => ?_⟩
      rcases List.mem_append.mp hp with hold | hnew
      · exact h.records p hold
      · exact List.mem_singleton.mp hnew ▸ recordTokens_calls keyID modelAlias tokens
    | advance i =>
      have hstep' : next l s (.advance i) = some s' := hstep
      rw [next] at hstep'
      split at hstep'
      · cases hstep'
      · next call hi =>
        split at hstep'
        · cases hstep'
        · next op rest hcode =>
          obtain rfl := Option.some.inj hstep'
          exact perform_inv h hi hcode hok
    | advanceRecord i =>
      have hstep' : next l s (.advanceRecord i) = some s' := hstep
      rw [next] at hstep'
      split at hstep'
      · cases hstep'
      · cases hstep'
      · next op rest hi =>
        obtain rfl := Option.some.inj hstep'
        exact performRecord_inv h hi
    | wait duration =>
      obtain rfl := Option.some.inj hstep
      exact wait_inv h hok
    | sweep =>
      obtain rfl := Option.some.inj hstep
      exact ⟨h.tracks.sweep, h.inUse, h.ordered, h.calls, h.records⟩

/-! ### What the counters show -/

/-- An admitted call has a place in each of its counters, within the limit. -/
theorem allowed_place (h : call.Orderly l s.clock) (hallowed : call.allowed = true) {w : Slot}
    (hw : w ∈ call.counters l) :
    ∃ v, (w.key, v) ∈ call.reservation.held ∧ v ≤ l.rpmLimit w.scope w.id := by
  have hsettled := h.obeys
  cases hcode : call.code with
  | call op rest => simp [Call.allowed, hcode] at hallowed
  | done result =>
    rw [hcode] at hsettled
    have htrue : result.allowed = true := by simpa [Call.allowed, hcode] using hallowed
    have hall : Settled l call.keyID call.modelAlias call.reservation result := hsettled
    rw [Settled, if_pos htrue] at hall
    obtain ⟨layer, hlayer, rfl⟩ := List.mem_map.mp hw
    obtain ⟨hmem, hlimit⟩ := List.mem_filter.mp hlayer
    obtain ⟨ts, hminute, v, hv, hle⟩ := hall layer hmem (by simpa using hlimit)
    have hts : call.minute = ts := by simp [Call.minute, hminute]
    exact ⟨v, hts ▸ hv, (mem_rpmLayers hmem).2 ▸ hle⟩

theorem rejected_empty (h : call.Orderly l s.clock) (hreturned : call.running = false)
    (hrejected : call.allowed = false) : call.reservation.held = [] := by
  have hsettled := h.obeys
  cases hcode : call.code with
  | call op rest => simp [Call.running, hcode] at hreturned
  | done result =>
    rw [hcode] at hsettled
    have hfalse : ¬ result.allowed = true := by simpa [Call.allowed, hcode] using hrejected
    have hall : Settled l call.keyID call.modelAlias call.reservation result := hsettled
    rwa [Settled, if_neg hfalse] at hall

/-- A call has a place in a counter exactly if it was admitted on it or is under way with it. -/
theorem holds_iff (h : call.Orderly l s.clock) (w : Slot) :
    call.holds w =
      (call.allowed && decide (w ∈ call.counters l) || call.running && call.holds w) := by
  cases hrunning : call.running with
  | true =>
    have hnot : call.allowed = false := by
      cases hcode : call.code <;> simp_all [Call.running, Call.allowed]
    simp [hnot]
  | false =>
    cases hallowed : call.allowed with
    | false => simp [Call.holds, Reservation.holds, rejected_empty h hrunning hallowed]
    | true =>
      simp only [Bool.true_and, Bool.false_and, Bool.or_false]
      rw [Bool.eq_iff_iff, decide_eq_true_eq, Call.holds, Reservation.holds_eq_true]
      constructor
      · intro hkey
        obtain ⟨p, hp, hpw⟩ := List.mem_map.mp hkey
        obtain ⟨w', hw', hpw'⟩ := h.mine p hp
        rw [Slot.key_injective (hpw.symm.trans hpw')]
        cases hminute : call.reservation.minute with
        | none => simp [Call.slots, hminute] at hw'
        | some ts => rwa [counters_of_minute hminute]
      · intro hw
        obtain ⟨v, hv, -⟩ := allowed_place h hallowed hw
        exact List.mem_map_of_mem hv

theorem holders_eq (h : Inv l s) (w : Slot) : s.holders w = s.admitted l w + s.inFlight w := by
  refine countP_eq_add (fun call hmem => holds_iff (h.calls call hmem) w) fun call _ hadmitted => ?_
  have hallowed : call.allowed = true := (Bool.and_eq_true_iff.mp hadmitted).1
  cases hcode : call.code <;> simp_all [Call.running, Call.allowed]

theorem admitted_le (h : Inv l s) {w : Slot} (hlimit : 0 < l.rpmLimit w.scope w.id) :
    (s.admitted l w : Int) ≤ l.rpmLimit w.scope w.id := by
  have hwithin : s.admitted l w ≤
      s.calls.countP (·.reservation.holdsWithin w (l.rpmLimit w.scope w.id).toNat) := by
    refine List.countP_mono_left fun call hmem hadmitted => ?_
    obtain ⟨hallowed, hw⟩ := Bool.and_eq_true_iff.mp hadmitted
    obtain ⟨v, hv, hle⟩ := allowed_place (h.calls call hmem) hallowed (of_decide_eq_true hw)
    refine List.any_eq_true.mpr ⟨_, hv, ?_⟩
    simp only [decide_eq_true_eq, true_and]
    omega
  have := h.ordered w (l.rpmLimit w.scope w.id).toNat
  omega

/-- In every run in which no counter expires while a call that uses it is under way: a counter of
requests that has not expired is the number of calls that have returned true and that its limit
applies to, and of calls under way that have incremented it and not undone it; a call that has
returned false is in no counter; and no more calls than a limit that applies to them return true in
one minute. -/
theorem counters_count_calls (hs : (system l).Reachable (Undisturbed l) s) :
    (∀ w : Slot, s.expired w.key = false →
      s.cache.count s.clock w.key = s.admitted l w + s.inFlight w) ∧
    (∀ call ∈ s.calls, call.running = false → call.allowed = false →
      ∀ w, call.holds w = false) ∧
    ∀ w : Slot, 0 < l.rpmLimit w.scope w.id → (s.admitted l w : Int) ≤ l.rpmLimit w.scope w.id := by
  have h := reachable_inv hs
  refine ⟨fun w hw => ?_, fun call hmem hreturned hrejected w => ?_, fun w => admitted_le h⟩
  · rw [h.tracks.count_eq (.inr hw), holders_eq h w]
    push_cast
    rfl
  · simp [Call.holds, Reservation.holds, rejected_empty (h.calls call hmem) hreturned hrejected]

/-- With a limit of one call a minute, a second call has incremented the counter and not undone it
yet: the counter is 2, one for the call admitted and one for the call under way. -/
theorem counters_count_calls_two :
    ∃ l s, (system l).Reachable (Undisturbed l) s ∧ l.rpmLimit .global "" = 1 ∧
      s.admitted l ⟨.global, "", 1⟩ = 1 ∧ s.cache.count s.clock (rpmKey .global "" 1) = 2 ∧
      (s.admitted l ⟨.global, "", 1⟩ : Int) ≤ l.rpmLimit .global "" := by
  let l : Limiter := { global := { rpm := 1 } }
  have hinit : (system l).Reachable (Undisturbed l) (start (60 * second)) := .init ⟨_, rfl⟩
  have hok : System.Admits (next l) (Undisturbed l) (start (60 * second))
      [.allow "key" "model", .allow "other" "model", .advance 0, .advance 1, .wait second,
        .advance 0, .advance 1, .advance 0, .advance 1] := by decide +kernel
  obtain ⟨s, hs, hlive, hcalls, hflight⟩ := System.Reachable.exists_of_exec
    (fun s => s.expired (rpmKey .global "" 1) = false ∧ s.admitted l ⟨.global, "", 1⟩ = 1 ∧
      s.inFlight ⟨.global, "", 1⟩ = 1)
    hinit hok (by decide +kernel)
  obtain ⟨hcount, -, hlimit⟩ := counters_count_calls hs
  refine ⟨l, s, hs, rfl, hcalls, ?_, hlimit ⟨.global, "", 1⟩ (by decide)⟩
  have hsum := hcount ⟨.global, "", 1⟩ hlive
  rw [hcalls, hflight] at hsum
  exact hsum

end Traffic

end LlmProxy.RateLimit
