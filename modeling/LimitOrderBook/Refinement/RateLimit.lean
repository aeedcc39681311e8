import LimitOrderBook.Api.RateLimit
import LimitOrderBook.Lib.TokenBucket

/-!
# `Refinement.RateLimit` — the limiter keeps one token bucket a client

The limiter of the source keeps a map from clients to buckets, and drops buckets that are full when there are too
many. Here it is shown that a client sees a bucket of its own.

* **Runs.** `log` is a run's calls with their answers, and `history` those of one client, the latest first. `exec_eq`
  says what one call does: it finds a bucket, refills it and spends from it if it can.
* **Levels.** `level` is what the bucket of a client holds at an instant, stored or not. A call of another client does
  not change it from then on (`level_exec_of_ne`): a bucket that it drops is full, and counts as full when missing.
* **Late calls.** The source moves `last_refill` to the instant of the call, also when this is earlier. `Settled` says
  that no call so far that touched the bucket came later than an instant, and `InOrder` that every call came settled.
* **The tie.** `Tracked` says that, read late enough, the stored bucket holds the allowance of `Lib.TokenBucket` after
  the client's own history. `answer_of_inOrder` is the decision on a call that follows from it.
-/

namespace LimitOrderBook

open TokenBucket

/-! ## Instants -/

theorem asSecs_zero : asSecs 0 = 0 := by simp [asSecs]

/-- Seconds keep the order of instants. -/
theorem asSecs_le {s t : Instant} : asSecs s ≤ asSecs t ↔ s ≤ t := by
  unfold asSecs
  rw [div_le_div_iff_of_pos_right (by norm_num), Nat.cast_le]

theorem asSecs_nonneg (t : Nat) : 0 ≤ asSecs t := by
  have h := asSecs_le.mpr (Nat.zero_le t)
  rwa [asSecs_zero] at h

/-- The seconds between two instants are the difference of their seconds. -/
theorem asSecs_sub {s t : Instant} (h : s ≤ t) : asSecs (t - s) = asSecs t - asSecs s := by
  unfold asSecs
  rw [Nat.cast_sub h, sub_div]

theorem asSecs_inj {s t : Instant} (h : asSecs s = asSecs t) : s = t :=
  Nat.le_antisymm (asSecs_le.mp h.le) (asSecs_le.mp h.ge)

/-! ## The calls of a run -/

/-- The calls of a run with their answers. -/
def RateLimiter.log (config : RateLimitConfig) (attempts : List Attempt) : List (Attempt × Bool) :=
  attempts.zip (run config attempts).2

/-- The calls of one client, with their instants and answers. -/
def callsOf (client : IpAddr) (log : List (Attempt × Bool)) : List (Instant × Bool) :=
  (log.filter fun e => e.1.client = client).map fun e => (e.1.now, e.2)

/-- The calls of a client that were answered `true` at an instant from `s` to `t`. -/
def granted (client : IpAddr) (s t : Instant) (log : List (Attempt × Bool)) : Nat :=
  log.countP fun e => e.1.client = client ∧ s ≤ e.1.now ∧ e.1.now ≤ t ∧ e.2

/-- The calls of one client, the latest first, in seconds. -/
def history (client : IpAddr) (log : List (Attempt × Bool)) : List (Rat × Bool) :=
  ((callsOf client log).map fun call => (asSecs call.1, call.2)).reverse

/-- Histories of successive runs are appended. -/
theorem history_append (client : IpAddr) (log : List (Attempt × Bool)) (a : Attempt) (answer : Bool) :
    history client (log ++ [(a, answer)])
      = if a.client = client then (asSecs a.now, answer) :: history client log
        else history client log := by
  unfold history callsOf
  rw [List.filter_append, List.map_append, List.map_append, List.reverse_append]
  by_cases h : a.client = client
  · simp [h]
  · simp [h]

namespace RateLimiter

variable {config : RateLimitConfig} {l : RateLimiter} {a : Attempt} {client : IpAddr} {now τ : Instant}

@[simp] theorem run_append (config : RateLimitConfig) (done : List Attempt) (a : Attempt) :
    run config (done ++ [a])
      = (((run config done).1.exec a).1, (run config done).2 ++ [((run config done).1.exec a).2]) := by
  unfold run
  rw [Machine.run_append, Machine.run_cons, Machine.run_nil]

theorem log_append (config : RateLimitConfig) (done : List Attempt) (a : Attempt) :
    log config (done ++ [a]) = log config done ++ [(a, ((run config done).1.exec a).2)] := by
  have hlength : done.length = (run config done).2.length := (Machine.length_run _ _).symm
  unfold log
  rw [run_append, List.zip_append hlength]
  rfl

/-! ## One call -/

/-- The tokens that a call finds. -/
def found (l : RateLimiter) (client : IpAddr) (now : Instant) : Rat :=
  min (l.refilled ((l.retained now)[client]?.getD ⟨l.burst, now⟩) now) l.burst

/-- The bucket that a call leaves. -/
def spent (l : RateLimiter) (a : Attempt) : Bucket :=
  ⟨l.found a.client a.now - cost (decide (1 ≤ l.found a.client a.now)), a.now⟩

/-- **What a call does**: it takes a token if it finds a whole one, and writes the bucket back. -/
theorem exec_eq (l : RateLimiter) (a : Attempt) :
    l.exec a = ({ l with buckets := (l.retained a.now).insert a.client (l.spent a) },
      decide (1 ≤ l.found a.client a.now)) := by
  show (if 1 ≤ l.found a.client a.now then _ else _) = _
  unfold spent
  by_cases h : 1 ≤ l.found a.client a.now
  · rw [if_pos h, decide_eq_true h, cost_true]
    rfl
  · rw [if_neg h, decide_eq_false h, cost_false, sub_zero]
    rfl

@[simp] theorem config_exec (l : RateLimiter) (a : Attempt) : (l.exec a).1.config = l.config := by
  rw [exec_eq]

theorem config_run (config : RateLimitConfig) (attempts : List Attempt) :
    (run config attempts).1.config = config := by
  have hkeep : ∀ (l : RateLimiter) (a : Attempt), l.config = config → (l.exec a).1.config = config := by
    intro l a h
    rw [config_exec, h]
  exact Machine.run_invariant hkeep rfl attempts

theorem answer_iff : (l.exec a).2 = true ↔ 1 ≤ l.found a.client a.now := by
  rw [exec_eq]
  exact decide_eq_true_iff

theorem bucket_exec_self :
    (l.exec a).1.buckets[a.client]?
      = some ⟨l.found a.client a.now - cost (l.exec a).2, a.now⟩ := by
  rw [exec_eq]
  exact Std.ExtTreeMap.getElem?_insert_self

/-- Another client's bucket is kept or dropped. -/
theorem bucket_exec_of_ne (h : a.client ≠ client) :
    (l.exec a).1.buckets[client]? = (l.retained a.now)[client]? := by
  rw [exec_eq]
  dsimp only
  rw [Std.ExtTreeMap.getElem?_insert, if_neg (by simpa using h)]

/-- **The `retain` pass** keeps a bucket, or drops it because it has refilled completely. -/
theorem retained_cases (l : RateLimiter) (now : Instant) (client : IpAddr) :
    (l.retained now)[client]? = l.buckets[client]?
      ∨ ∃ b, l.buckets[client]? = some b ∧ l.burst ≤ l.refilled b now
          ∧ (l.retained now)[client]? = none := by
  unfold retained
  split
  · rw [Std.ExtTreeMap.getElem?_filter']
    cases hb : l.buckets[client]? with
    | none => exact Or.inl rfl
    | some b =>
        by_cases hfull : l.refilled b now < l.burst
        · exact Or.inl (by simp [hfull])
        · refine Or.inr ⟨b, rfl, not_lt.mp hfull, ?_⟩
          rw [Option.filter_some, if_neg (by simpa using hfull)]
  · exact Or.inl rfl

theorem found_le_burst (l : RateLimiter) (client : IpAddr) (now : Instant) : l.found client now ≤ l.burst :=
  min_le_right _ _

theorem burst_nonneg (l : RateLimiter) : 0 ≤ l.burst := Nat.cast_nonneg l.config.burst.toNat

/-- The tokens of a client at an instant, if nothing else happens to its bucket. -/
def level (l : RateLimiter) (client : IpAddr) (τ : Instant) : Rat :=
  TokenBucket.level l.burst l.config.refillPerSecond
    (l.buckets[client]?.map fun b => (b.tokens, asSecs b.lastRefill)) (asSecs τ)

theorem refilled_eq {b : Bucket} (h : b.lastRefill ≤ now) :
    l.refilled b now = b.tokens + l.config.refillPerSecond * (asSecs now - asSecs b.lastRefill) := by
  unfold refilled
  rw [asSecs_sub h, mul_comm]

theorem level_of_none (h : l.buckets[client]? = none) : l.level client τ = l.burst := by
  unfold level
  rw [h]
  rfl

theorem level_of_some {b : Bucket} (h : l.buckets[client]? = some b) (hlast : b.lastRefill ≤ τ) :
    l.level client τ = min (l.refilled b τ) l.burst := by
  unfold level
  rw [h, refilled_eq hlast]
  rfl

/-- A bucket that is read later holds no less. -/
theorem refilled_mono (hrate : 0 ≤ l.config.refillPerSecond) (b : Bucket) (h : now ≤ τ) :
    l.refilled b now ≤ l.refilled b τ := by
  have hsecs : asSecs (now - b.lastRefill) ≤ asSecs (τ - b.lastRefill) :=
    asSecs_le.mpr (Nat.sub_le_sub_right h _)
  have hgain := mul_le_mul_of_nonneg_right hsecs hrate
  unfold refilled
  linarith

/-- A call finds the level of the bucket, also when the `retain` pass has just dropped it. -/
theorem found_eq_level (hlast : ∀ b, l.buckets[client]? = some b → b.lastRefill ≤ now) :
    l.found client now = l.level client now := by
  have hnew : l.refilled ⟨l.burst, now⟩ now = l.burst := by
    unfold refilled
    rw [Nat.sub_self, asSecs_zero, zero_mul, add_zero]
  unfold found
  rcases l.retained_cases now client with hkept | ⟨b, hb, hfull, hdropped⟩
  · rw [hkept]
    cases hb : l.buckets[client]? with
    | none => rw [level_of_none hb, Option.getD_none, hnew, min_self]
    | some b => rw [level_of_some hb (hlast b hb), Option.getD_some]
  · rw [hdropped, level_of_some hb (hlast b hb), Option.getD_none, hnew, min_self, min_eq_right hfull]

/-- The client's own call leaves the level it found less what it took. -/
theorem level_exec_self (hlast : ∀ b, l.buckets[a.client]? = some b → b.lastRefill ≤ a.now) (τ : Instant) :
    (l.exec a).1.level a.client τ
      = TokenBucket.level l.burst l.config.refillPerSecond
          (some (l.level a.client a.now - cost (l.exec a).2, asSecs a.now)) (asSecs τ) := by
  unfold level
  rw [bucket_exec_self, found_eq_level hlast]
  unfold level burst
  rw [config_exec]
  rfl

/-- A call of another client changes nothing that can be read at `τ`, unless it drops the bucket at a later
    instant. -/
theorem level_exec_of_ne (hrate : 0 ≤ l.config.refillPerSecond) (hne : a.client ≠ client)
    (hlast : ∀ b, l.buckets[client]? = some b → b.lastRefill ≤ τ)
    (hdrop : client ∈ l.buckets → client ∉ l.retained a.now → a.now ≤ τ) :
    (l.exec a).1.level client τ = l.level client τ := by
  have hbucket := bucket_exec_of_ne (l := l) hne
  rcases l.retained_cases a.now client with hkept | ⟨b, hb, hfull, hdropped⟩
  · unfold level burst
    rw [hbucket, hkept, config_exec]
  · rw [hdropped] at hbucket
    have hnow : a.now ≤ τ := by
      apply hdrop
      · rw [Std.ExtTreeMap.mem_iff_isSome_getElem?, hb]
        rfl
      · rw [Std.ExtTreeMap.mem_iff_isSome_getElem?, hdropped]
        exact Bool.false_ne_true
    -- full at the call, so full at `τ`
    have hfull' : l.burst ≤ l.refilled b τ := hfull.trans (refilled_mono hrate b hnow)
    rw [level_of_none hbucket, level_of_some hb (hlast b hb), min_eq_right hfull']
    unfold burst
    rw [config_exec]

/-! ## Late calls -/

/-- A call touches a client's bucket: it is the client's own, or it drops the bucket. -/
def Touches (l : RateLimiter) (a : Attempt) (client : IpAddr) : Prop :=
  a.client = client ∨ client ∈ l.buckets ∧ client ∉ l.retained a.now

instance (l : RateLimiter) (a : Attempt) (client : IpAddr) : Decidable (l.Touches a client) :=
  inferInstanceAs (Decidable (_ ∨ _))

/-- No call of the run touched the client's bucket at an instant later than `τ`. -/
def Settled (client : IpAddr) (τ : Instant) : RateLimiter → List Attempt → Prop
  | _, [] => True
  | l, a :: rest => (l.Touches a client → a.now ≤ τ) ∧ Settled client τ (l.exec a).1 rest

instance decidableSettled (client : IpAddr) (τ : Instant) :
    (l : RateLimiter) → (done : List Attempt) → Decidable (Settled client τ l done)
  | _, [] => inferInstanceAs (Decidable True)
  | l, a :: rest =>
      have := decidableSettled client τ (l.exec a).1 rest
      inferInstanceAs (Decidable ((l.Touches a client → a.now ≤ τ) ∧ _))

/-- After the calls `done`, no call of `todo` comes at an earlier instant than a call before it that
    touched the same client's bucket. -/
def InOrderAfter (l : RateLimiter) : List Attempt → List Attempt → Prop
  | _, [] => True
  | done, a :: todo => Settled a.client a.now l done ∧ InOrderAfter l (done ++ [a]) todo

instance decidableInOrderAfter (l : RateLimiter) :
    (done todo : List Attempt) → Decidable (InOrderAfter l done todo)
  | _, [] => inferInstanceAs (Decidable True)
  | done, a :: todo =>
      have := decidableInOrderAfter l (done ++ [a]) todo
      inferInstanceAs (Decidable (Settled a.client a.now l done ∧ _))

/-- No call of the run is late. -/
def InOrder (config : RateLimitConfig) (attempts : List Attempt) : Prop :=
  InOrderAfter (new config) [] attempts

instance (config : RateLimitConfig) (attempts : List Attempt) : Decidable (InOrder config attempts) :=
  decidableInOrderAfter _ _ _

theorem settled_append {done : List Attempt} :
    Settled client τ l (done ++ [a])
      ↔ Settled client τ l done ∧ ((Machine.run exec l done).1.Touches a client → a.now ≤ τ) := by
  induction done generalizing l with
  | nil => simp [Settled]
  | cons b done ih =>
      rw [List.cons_append, Settled, Settled, ih, and_assoc]
      rfl

/-- A client's own calls are no later than an instant at which its bucket is settled. -/
theorem Settled.own {done : List Attempt} (h : Settled client τ l done) :
    ∀ b ∈ done, b.client = client → b.now ≤ τ := by
  induction done generalizing l with
  | nil => simp
  | cons b done ih =>
      intro c hc hclient
      rcases List.mem_cons.mp hc with rfl | hc
      · exact h.1 (Or.inl hclient)
      · exact ih h.2 c hc hclient

theorem InOrderAfter.append_left {done todo more : List Attempt}
    (h : InOrderAfter l done (todo ++ more)) : InOrderAfter l done todo := by
  induction todo generalizing done with
  | nil => trivial
  | cons a todo ih => exact ⟨h.1, ih h.2⟩

theorem InOrderAfter.append_right {done todo more : List Attempt}
    (h : InOrderAfter l done (todo ++ more)) : InOrderAfter l (done ++ todo) more := by
  induction todo generalizing done with
  | nil =>
      rw [List.append_nil]
      exact h
  | cons a todo ih =>
      have hrest := ih h.2
      rwa [List.append_assoc] at hrest

/-- Calls whose instants never decrease are in order, whatever they touch. -/
theorem settled_of_forall_le {done : List Attempt} (h : ∀ b ∈ done, b.now ≤ τ) :
    Settled client τ l done := by
  induction done generalizing l with
  | nil => trivial
  | cons b done ih =>
      obtain ⟨hb, hdone⟩ := List.forall_mem_cons.mp h
      exact ⟨fun _ => hb, ih hdone⟩

theorem inOrderAfter_of_sorted {done todo : List Attempt}
    (h : (done ++ todo).Pairwise fun a b => a.now ≤ b.now) : InOrderAfter l done todo := by
  induction todo generalizing done with
  | nil => trivial
  | cons a todo ih =>
      have hdone : ∀ b ∈ done, b.now ≤ a.now :=
        fun b hb => (List.pairwise_append.mp h).2.2 b hb a List.mem_cons_self
      refine ⟨settled_of_forall_le hdone, ih ?_⟩
      rw [List.append_assoc]
      exact h

/-! ## The bucket and the history -/

/-- What the client's own calls leave of its tokens at `τ`. -/
def owed (config : RateLimitConfig) (done : List Attempt) (client : IpAddr) (τ : Instant) : Rat :=
  allowance config.burstF64 config.refillPerSecond (history client (log config done)) (asSecs τ)

/-- **The tie between the bucket and the calls.** Once a client's bucket is settled, it holds what the
    client's own calls leave. -/
def Tracked (config : RateLimitConfig) (done : List Attempt) : Prop :=
  ∀ client τ, Settled client τ (new config) done →
    (∀ b, (run config done).1.buckets[client]? = some b → b.lastRefill ≤ τ)
      ∧ (run config done).1.level client τ = owed config done client τ

theorem burst_run (config : RateLimitConfig) (done : List Attempt) :
    (run config done).1.burst = config.burstF64 := by
  unfold burst
  rw [config_run]

theorem tracked_nil (config : RateLimitConfig) : Tracked config [] := by
  intro client τ _
  have hnone : (run config []).1.buckets[client]? = none := by
    show (∅ : Std.ExtTreeMap IpAddr Bucket)[client]? = none
    simp
  refine ⟨?_, ?_⟩
  · intro b hb
    rw [hnone] at hb
    cases hb
  · rw [level_of_none hnone, burst_run]
    rfl

/-- A call that is not late is answered as the client's own calls decide. -/
theorem Tracked.answer_iff {done : List Attempt} (h : Tracked config done)
    (hsettled : Settled a.client a.now (new config) done) :
    ((run config done).1.exec a).2 = true ↔ 1 ≤ owed config done a.client a.now := by
  obtain ⟨hlast, hlevel⟩ := h a.client a.now hsettled
  rw [RateLimiter.answer_iff, found_eq_level hlast, hlevel]

/-- **A call that is not late keeps the tie**, for its own client and for all others. -/
theorem Tracked.append {done : List Attempt} (hrate : 0 ≤ config.refillPerSecond)
    (h : Tracked config done) (hsettled : Settled a.client a.now (new config) done) :
    Tracked config (done ++ [a]) := by
  intro client τ hlater
  obtain ⟨hdone, htouch⟩ := settled_append.mp hlater
  have hstate : (run config (done ++ [a])).1 = ((run config done).1.exec a).1 := by rw [run_append]
  rw [hstate]
  by_cases hown : a.client = client
  · -- the call's own bucket: it was read and written at the instant of the call
    subst hown
    have hnow : a.now ≤ τ := htouch (Or.inl rfl)
    obtain ⟨hlast, hlevel⟩ := h a.client a.now hsettled
    refine ⟨?_, ?_⟩
    · intro b hb
      rw [bucket_exec_self] at hb
      obtain rfl := Option.some.inj hb
      exact hnow
    · rw [level_exec_self hlast, burst_run, config_run]
      unfold owed
      rw [log_append, history_append, if_pos rfl]
      exact level_take hlevel _ _
  · -- another client's bucket: it stays, or it was full when it was dropped
    obtain ⟨hlast, hlevel⟩ := h client τ hdone
    refine ⟨?_, ?_⟩
    · intro b hb
      rw [bucket_exec_of_ne hown] at hb
      rcases (run config done).1.retained_cases a.now client with hkept | ⟨-, -, -, hdropped⟩
      · exact hlast b (hkept ▸ hb)
      · rw [hdropped] at hb
        cases hb
    · have hrate' : 0 ≤ (run config done).1.config.refillPerSecond := by
        rw [config_run]
        exact hrate
      rw [level_exec_of_ne hrate' hown hlast fun hmem hout => htouch (Or.inr ⟨hmem, hout⟩), hlevel]
      unfold owed
      rw [log_append, history_append, if_neg hown]

/-- **Every call of a run in order keeps the tie.** -/
theorem tracked_of_inOrder (hrate : 0 ≤ config.refillPerSecond) {done todo : List Attempt}
    (h : InOrderAfter (new config) done todo) (hdone : Tracked config done) :
    Tracked config (done ++ todo) := by
  induction todo generalizing done with
  | nil =>
      rw [List.append_nil]
      exact hdone
  | cons a todo ih =>
      have hrest := ih h.2 (hdone.append hrate h.1)
      rwa [List.append_assoc] at hrest

/-- In a run in order, every call is answered as its client's own calls decide. -/
theorem answer_of_inOrder (hrate : 0 ≤ config.refillPerSecond) {done todo : List Attempt}
    (h : InOrder config (done ++ a :: todo)) :
    ((run config done).1.exec a).2 = true ↔ 1 ≤ owed config done a.client a.now :=
  (tracked_of_inOrder hrate h.append_left (tracked_nil config)).answer_iff h.append_right.1

end RateLimiter
end LimitOrderBook
