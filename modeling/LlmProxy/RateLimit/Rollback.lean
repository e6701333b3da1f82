import LlmProxy.RateLimit.Charging
import LlmProxy.Storage.Cache

/-! The counters after a call of `AllowRequest` that runs to its end over any cache.  The call
raises some counters of its own by one and leaves all the others.  One that is not allowed takes
back what it has raised, except for the decrements that the cache refuses: `undo` discards their
errors. -/

namespace LlmProxy.RateLimit

open ProofKit Storage Program

variable {σ : Type}

/-- The operations on a cache, for a call that reads the clock at a given time. -/
def serveFrom (C : Cache σ) (clock : Nat) : (op : Op) → σ → op.Ans × σ
  | .now, s => (clock, s)
  | .get key, s => C.get s key
  | .incrBy key delta ttl, s => C.incrBy s key delta ttl

/-- The key of a decrement that has failed. -/
def refused : (op : Op) → op.Ans → List String
  | .incrBy key delta _, .error _ => if delta < 0 then [key] else []
  | _, _ => []

/-- The operations on a cache, with a list of the decrements that have failed. -/
def watch (C : Cache σ) (clock : Nat) (op : Op) (t : σ × List String) : op.Ans × σ × List String :=
  let r := serveFrom C clock op t.1
  (r.1, r.2, t.2 ++ refused op r.1)

/-- The decrements that fail in a run of a program. -/
def refusals {α : Type} (C : Cache σ) (clock : Nat) (p : Prog α) (s : σ) : List String :=
  (p.eval (watch C clock) (s, [])).2.2

/-- The counters in the course of a call that began in the state `s₀`. -/
structure Balance (C : Cache σ) (l : Limiter) (keyID modelAlias : String) (clock : Nat) (s₀ : σ)
    (g : Charges) (t : σ × List String) : Prop where
  minute : ∀ ts, g.minute = some ts → ts = minuteOf clock
  nodup : g.held.Nodup
  held : ∀ key ∈ g.held, ∃ w ∈ l.slots keyID modelAlias (minuteOf clock), key = w.key
  kept : t.2 = g.kept
  count : ∀ key, C.count t.1 key =
    if key ∈ g.held then wrapInt64 (C.count s₀ key + 1) else C.count s₀ key

variable {C : Cache σ} {l : Limiter} {keyID modelAlias : String} {clock : Nat} {s₀ s : σ}
  {g : Charges} {t : σ × List String}

theorem Balance.start (s₀ : σ) : Balance C l keyID modelAlias clock s₀ {} (s₀, []) where
  minute _ h := by cases h
  nodup := List.nodup_nil
  held _ h := by cases h
  kept := rfl
  count _ := rfl

/-- An increment of a counter that the call has not raised. -/
theorem Balance.raise (h : Balance C l keyID modelAlias clock s₀ g t) {key : String}
    (hfresh : key ∉ g.held) (hslot : ∃ w ∈ l.slots keyID modelAlias (minuteOf clock), key = w.key)
    (hcount : C.count s = Function.update (C.count t.1) key (wrapInt64 (C.count t.1 key + 1))) :
    Balance C l keyID modelAlias clock s₀ { g with held := g.held ++ [key] } (s, t.2) where
  minute := h.minute
  nodup := h.nodup.append (List.nodup_singleton key) (List.disjoint_singleton.mpr hfresh)
  held key' hkey' := by
    rcases List.mem_append.mp hkey' with hbefore | hlast
    · exact h.held key' hbefore
    · exact List.mem_singleton.mp hlast ▸ hslot
  kept := h.kept
  count key' := by
    show C.count s key' = _
    by_cases hkey : key' = key
    · subst hkey
      rw [hcount, Function.update_self, h.count, if_neg hfresh, if_pos (by simp)]
    · rw [hcount, Function.update_of_ne hkey, h.count]
      simp [hkey]

/-- A decrement of a counter that the call has raised. -/
theorem Balance.lower (h : Balance C l keyID modelAlias clock s₀ g t) {key : String}
    (hheld : key ∈ g.held)
    (hcount : C.count s = Function.update (C.count t.1) key (wrapInt64 (C.count t.1 key + -1))) :
    Balance C l keyID modelAlias clock s₀ { g with held := g.held.erase key } (s, t.2) where
  minute := h.minute
  nodup := h.nodup.erase key
  held key' hkey' := h.held key' (List.mem_of_mem_erase hkey')
  kept := h.kept
  count key' := by
    show C.count s key' = _
    by_cases hkey : key' = key
    · subst hkey
      rw [hcount, Function.update_self, h.count, if_pos hheld, if_neg h.nodup.not_mem_erase]
      exact wrapInt64_succ_pred (C.count_fits s₀ key')
    · rw [hcount, Function.update_of_ne hkey, h.count]
      simp [List.mem_erase_of_ne hkey]

theorem Balance.step (h : Balance C l keyID modelAlias clock s₀ g t) {op : Op}
    (hop : Charging l keyID modelAlias g op) :
    Balance C l keyID modelAlias clock s₀ (g.after op (watch C clock op t).1)
      (watch C clock op t).2 := by
  cases op with
  | now =>
    refine ⟨?_, h.nodup, h.held, (List.append_nil _).trans h.kept, h.count⟩
    rintro ts ⟨⟩
    rfl
  | get key =>
    refine ⟨h.minute, h.nodup, h.held, (List.append_nil _).trans h.kept, fun key' => ?_⟩
    exact (congrFun (C.count_get t.1 key) key').trans (h.count key')
  | incrBy key delta ttl =>
    have hanswer : (watch C clock (.incrBy key delta ttl) t).1 = (C.incrBy t.1 key delta ttl).1 :=
      rfl
    have hstate : (watch C clock (.incrBy key delta ttl) t).2 = ((C.incrBy t.1 key delta ttl).2,
      t.2 ++ refused (.incrBy key delta ttl) (C.incrBy t.1 key delta ttl).1) := rfl
    rw [hanswer, hstate]
    have herror := C.count_incrBy_error t.1 key delta ttl
    have hok := C.count_incrBy_ok t.1 key delta ttl
    generalize C.incrBy t.1 key delta ttl = r at herror hok ⊢
    obtain ⟨_ | v, s⟩ := r
    · next e =>
      have hsame : C.count s = C.count t.1 := herror e rfl
      rcases hop with ⟨rfl, -, -⟩ | ⟨rfl, -⟩
      · exact ⟨h.minute, h.nodup, h.held, by simpa [refused, Charges.after] using h.kept,
          fun key' => (congrFun hsame key').trans (h.count key')⟩
      · exact ⟨h.minute, h.nodup, h.held, by simp [refused, h.kept, Charges.after],
          fun key' => (congrFun hsame key').trans (h.count key')⟩
    · rcases hop with ⟨rfl, hfresh, ts, hts, hslot⟩ | ⟨rfl, hheld⟩
      · obtain rfl := h.minute ts hts
        simpa [refused, Charges.after] using h.raise hfresh hslot (hok v (by decide) rfl)
      · simpa [refused, Charges.after] using h.lower hheld (hok v (by decide) rfl)

theorem eval_watch {α : Type} (C : Cache σ) (clock : Nat) (p : Prog α) (s : σ)
    (failed : List String) :
    (p.eval (watch C clock) (s, failed)).1 = (p.eval (serveFrom C clock) s).1 ∧
      (p.eval (watch C clock) (s, failed)).2.1 = (p.eval (serveFrom C clock) s).2 := by
  induction p generalizing s failed with
  | done a => exact ⟨rfl, rfl⟩
  | call op next ih => exact ih _ _ _

/-- The counters after a call. -/
theorem allowRequest_balance (C : Cache σ) (l : Limiter) (keyID modelAlias : String) (clock : Nat)
    (s₀ : σ) :
    ∃ g, Balance C l keyID modelAlias clock s₀ g
        (((l.allowRequest keyID modelAlias).eval (serveFrom C clock) s₀).2,
          refusals C clock (l.allowRequest keyID modelAlias) s₀) ∧
      Refunded g ((l.allowRequest keyID modelAlias).eval (serveFrom C clock) s₀).1 := by
  have hstart : Balance C l keyID modelAlias clock s₀ {} (s₀, []) := .start s₀
  obtain ⟨hresult, hstate⟩ := eval_watch C clock (l.allowRequest keyID modelAlias) s₀ []
  rw [← hresult, ← hstate]
  exact (allowRequest_charges l keyID modelAlias).eval
    (fun _ _ _ h => ⟨rfl, fun hop => ⟨trivial, h.step hop⟩⟩) hstart

/-- A call that is not allowed leaves every counter as it was, exactly when the cache has refused
none of the decrements with which the call takes its increments back. -/
theorem counters_restored_iff (C : Cache σ) (l : Limiter) (keyID modelAlias : String) (clock : Nat)
    (s₀ : σ)
    (hfailed : ((l.allowRequest keyID modelAlias).eval (serveFrom C clock) s₀).1.allowed = false ∨
      ((l.allowRequest keyID modelAlias).eval (serveFrom C clock) s₀).1.err ≠ none) :
    (∀ w : Counter,
      C.count ((l.allowRequest keyID modelAlias).eval (serveFrom C clock) s₀).2 w.key =
        C.count s₀ w.key) ↔
      refusals C clock (l.allowRequest keyID modelAlias) s₀ = [] := by
  obtain ⟨g, hbalance, hrefunded⟩ := allowRequest_balance C l keyID modelAlias clock s₀
  have hback : g.RolledBack := hrefunded hfailed
  rw [show refusals C clock _ s₀ = g.kept from hbalance.kept]
  constructor
  · intro hsame
    refine List.eq_nil_iff_forall_not_mem.mpr fun key hkey => ?_
    have hheld := (hback key).mpr hkey
    obtain ⟨w, -, rfl⟩ := hbalance.held key hheld
    have hcount := hbalance.count w.key
    rw [if_pos hheld, show C.count _ w.key = C.count s₀ w.key from
      hsame ⟨.rpm, w.scope, w.id, w.minute⟩] at hcount
    exact wrapInt64_succ_ne _ hcount.symm
  · intro hkept w
    have hnot : w.key ∉ g.held := fun hheld => by
      simpa [hkept] using (hback w.key).mp hheld
    rw [hbalance.count, if_neg hnot]

/-- Limits of which none is reached yet. -/
def roomy : Limiter :=
  { global := { rpm := 5 }, modelLimits := fun _ => some { rpm := 5 } }

/-- A cache of which the fourth operation fails: for `roomy`, the second increment. -/
def brieflyDown : Cache (MemoryCache × Nat) :=
  (MemoryCache.cache 0).failing fun n => if n = 3 then some { text := "i/o timeout" } else none

theorem counters_restored_one_failure :
    ((roomy.allowRequest "k" "m").eval (serveFrom brieflyDown 0) ({}, 0)).1.allowed = false ∧
      ∀ w : Counter,
        brieflyDown.count
            ((roomy.allowRequest "k" "m").eval (serveFrom brieflyDown 0) ({}, 0)).2 w.key =
          brieflyDown.count ({}, 0) w.key :=
  ⟨by decide +kernel,
    (counters_restored_iff brieflyDown roomy "k" "m" 0 ({}, 0) (.inl (by decide +kernel))).mpr
      (by decide +kernel)⟩

/-- A cache that fails from the fourth operation on, as with a context that is done by then. -/
def canceledAtThree : Cache (MemoryCache × Nat) :=
  (MemoryCache.cache 0).failing fun n => if 3 ≤ n then some ContextEnd.canceled.err else none

/-- The decrement of the first counter fails with the increment of the second: the request was not
admitted, and the counter of all requests keeps it. -/
theorem counter_kept_when_canceled :
    let w : Counter := ⟨.rpm, .global, "", 0⟩
    ((roomy.allowRequest "k" "m").eval (serveFrom canceledAtThree 0) ({}, 0)).1.allowed = false ∧
      canceledAtThree.count ({}, 0) w.key = 0 ∧
      canceledAtThree.count
        ((roomy.allowRequest "k" "m").eval (serveFrom canceledAtThree 0) ({}, 0)).2 w.key = 1 := by
  decide +kernel

end LlmProxy.RateLimit
