import Mathlib.Algebra.Order.Archimedean.Basic
import Mathlib.Data.Finset.Card
import Mathlib.Data.Finset.Image
import Mathlib.Data.List.Induction
import LimitOrderBook.Refinement.RateLimit

/-!
# `Properties.RateLimit` — what the limiter grants, and how much it remembers

What the limiter grants, and how much it remembers. `Refinement.RateLimit` shows that calls in order are answered as
one token bucket a client would answer them; here this is turned into bounds.

* **Windows.** `WithinLimit` says that on every window a client is granted at most the burst and what comes back over
  the window. It holds of calls in order (`withinLimit_of_inOrder`). Without refill it holds in whatever order they
  come, by another invariant: what was granted and what is held add up to no more than a burst (`grants_add_held_le`).
* **Late calls.** A late call breaks it, because it moves `last_refill` back and the time since is counted again
  (`lateAttempts`, `not_withinLimit_late`). So `limit_without_late_calls` is exact in the configuration.
* **One call.** `Allows` is the answer to a call in closed form, from the instants and answers of the client's own
  calls before it (`decision_in_closed_form`).
* **Memory.** A stored bucket was written by a call of its client (`stored`), and a call at the threshold keeps only
  buckets that have not refilled (`of_retained`). So after every call there are no more buckets than the threshold or
  than recent clients (`tracked_clients_bounded`). `crowd` is a run with as many clients as one asks for.
-/

namespace LimitOrderBook

open TokenBucket

namespace RateLimiter

variable {config : RateLimitConfig} {attempts : List Attempt} {client : IpAddr}

/-! ## The history of a run in order -/

theorem mem_history {log : List (Attempt × Bool)} {call : Rat × Bool} (h : call ∈ history client log) :
    ∃ e ∈ log, e.1.client = client ∧ call.1 = asSecs e.1.now := by
  unfold history callsOf at h
  rw [List.mem_reverse, List.map_map, List.mem_map] at h
  obtain ⟨e, he, rfl⟩ := h
  obtain ⟨hmem, hclient⟩ := List.mem_filter.mp he
  exact ⟨e, hmem, of_decide_eq_true hclient, rfl⟩

theorem mem_of_mem_log {e : Attempt × Bool} (h : e ∈ log config attempts) : e.1 ∈ attempts :=
  (List.of_mem_zip h).1

theorem lawful_of_inOrder (hrate : 0 ≤ config.refillPerSecond) (h : InOrder config attempts)
    (client : IpAddr) :
    Lawful config.burstF64 config.refillPerSecond (history client (log config attempts)) := by
  induction attempts using List.reverseRecOn with
  | nil => trivial
  | append_singleton done a ih =>
      have hdone := ih h.append_left
      rw [log_append, history_append]
      by_cases hown : a.client = client
      · subst hown
        rw [if_pos rfl]
        exact ⟨answer_of_inOrder hrate h, hdone⟩
      · rw [if_neg hown]
        exact hdone

theorem sorted_of_inOrder (h : InOrder config attempts) (client : IpAddr) :
    (history client (log config attempts)).Pairwise fun newer older => older.1 ≤ newer.1 := by
  induction attempts using List.reverseRecOn with
  | nil => exact List.Pairwise.nil
  | append_singleton done a ih =>
      have hdone := ih h.append_left
      rw [log_append, history_append]
      by_cases hown : a.client = client
      · subst hown
        rw [if_pos rfl]
        refine List.pairwise_cons.mpr ⟨?_, hdone⟩
        intro call hcall
        obtain ⟨e, he, hclient, htime⟩ := mem_history hcall
        rw [htime]
        exact asSecs_le.mpr (h.append_right.1.own e.1 (mem_of_mem_log he) hclient)
      · rw [if_neg hown]
        exact hdone

/-- The grants of a window, counted in the history. -/
theorem granted_eq (client : IpAddr) (s t : Instant) (log : List (Attempt × Bool)) :
    granted client s t log
      = grants ((history client log).filter fun call => asSecs s ≤ call.1 ∧ call.1 ≤ asSecs t) := by
  unfold granted grants history callsOf
  rw [List.countP_filter, List.countP_reverse, List.countP_map, List.countP_map, List.countP_filter]
  apply List.countP_congr
  intro e _
  simp only [Function.comp_apply, asSecs_le, Bool.and_eq_true, decide_eq_true_eq]
  tauto

/-! ## The limit on windows -/

/-- On every window, every client got at most the burst and what comes back over the window. -/
def WithinLimit (config : RateLimitConfig) (attempts : List Attempt) : Prop :=
  ∀ client s t, s ≤ t →
    (granted client s t (log config attempts) : Rat)
      ≤ config.burstF64 + config.refillPerSecond * asSecs (t - s)

/-- **Calls in order** stay within the limit. -/
theorem withinLimit_of_inOrder (hrate : 0 ≤ config.refillPerSecond) (h : InOrder config attempts) :
    WithinLimit config attempts := by
  intro client s t hst
  have hburst : 0 ≤ config.burstF64 := Nat.cast_nonneg config.burst.toNat
  rw [granted_eq, asSecs_sub hst]
  exact grants_window_le (lawful_of_inOrder hrate h client) (sorted_of_inOrder h client) hrate hburst
    (asSecs_le.mpr hst)

/-! ## Limiters that do not refill -/

/-- The tokens a client holds, before any come back; a client without a bucket holds a full one. -/
def held (l : RateLimiter) (client : IpAddr) : Rat :=
  (l.buckets[client]?.map Bucket.tokens).getD l.burst

theorem held_of_some {l : RateLimiter} {b : Bucket} (h : l.buckets[client]? = some b) :
    l.held client = b.tokens := by
  unfold held
  rw [h]
  rfl

theorem held_of_none {l : RateLimiter} (h : l.buckets[client]? = none) : l.held client = l.burst := by
  unfold held
  rw [h]
  rfl

/-- Without refill a bucket stays as it is. -/
theorem refilled_of_no_refill {l : RateLimiter} (hrate : l.config.refillPerSecond = 0) (b : Bucket)
    (now : Instant) : l.refilled b now = b.tokens := by
  unfold refilled
  rw [hrate, mul_zero, add_zero]

/-- Without refill a call finds no more than the client holds. -/
theorem found_le_held {l : RateLimiter} (hrate : l.config.refillPerSecond = 0) (client : IpAddr)
    (now : Instant) : l.found client now ≤ l.held client := by
  rcases l.retained_cases now client with hkept | ⟨b, hb, hfull, -⟩
  · cases hb : l.buckets[client]? with
    | none =>
        rw [held_of_none hb]
        exact found_le_burst l client now
    | some b =>
        rw [held_of_some hb]
        unfold found
        rw [hkept, hb, Option.getD_some, refilled_of_no_refill hrate]
        exact min_le_left _ _
  · -- a bucket that was dropped was full
    rw [refilled_of_no_refill hrate] at hfull
    rw [held_of_some hb]
    exact (found_le_burst l client now).trans hfull

/-- A client's own call takes from what it holds. -/
theorem held_exec_self (l : RateLimiter) (a : Attempt) :
    (l.exec a).1.held a.client = l.found a.client a.now - cost (l.exec a).2 :=
  held_of_some bucket_exec_self

/-- A call of another client gives it nothing. -/
theorem held_exec_of_ne {l : RateLimiter} {a : Attempt} (hrate : l.config.refillPerSecond = 0)
    (hne : a.client ≠ client) : (l.exec a).1.held client ≤ l.held client := by
  have hbucket := bucket_exec_of_ne (l := l) hne
  have hburst : (l.exec a).1.burst = l.burst := by
    unfold burst
    rw [config_exec]
  rcases l.retained_cases a.now client with hkept | ⟨b, hb, hfull, hdropped⟩
  · unfold held
    rw [hbucket, hkept, hburst]
  · rw [refilled_of_no_refill hrate] at hfull
    rw [hdropped] at hbucket
    rw [held_of_none hbucket, held_of_some hb, hburst]
    exact hfull

/-- **Without refill no client ever gets more than one burst**, in whatever order the calls come. -/
theorem grants_add_held_le (hrate : config.refillPerSecond = 0) (attempts : List Attempt)
    (client : IpAddr) :
    (grants (history client (log config attempts)) : Rat) + (run config attempts).1.held client
      ≤ config.burstF64 := by
  induction attempts using List.reverseRecOn with
  | nil =>
      have hnone : (run config []).1.buckets[client]? = none := Std.ExtTreeMap.getElem?_empty
      rw [held_of_none hnone]
      exact (zero_add _).le
  | append_singleton done a ih =>
      have hstate : (run config (done ++ [a])).1 = ((run config done).1.exec a).1 := by rw [run_append]
      have hrate' : (run config done).1.config.refillPerSecond = 0 := by rw [config_run, hrate]
      rw [hstate, log_append, history_append]
      by_cases hown : a.client = client
      · subst hown
        have hfound := found_le_held hrate' a.client a.now
        rw [if_pos rfl, grants_cons, held_exec_self]
        linarith
      · have hheld := held_exec_of_ne hrate' hown
        rw [if_neg hown]
        linarith

/-! ## What is stored -/

theorem of_retained {l : RateLimiter} {now : Instant} {b : Bucket}
    (h : (l.retained now)[client]? = some b) :
    l.buckets[client]? = some b ∧ (maxTrackedClients ≤ l.buckets.size → l.refilled b now < l.burst) := by
  unfold retained at h
  split at h
  · rw [Std.ExtTreeMap.getElem?_filter', Option.filter_eq_some_iff] at h
    exact ⟨h.1, fun _ => of_decide_eq_true h.2⟩
  · rename_i hroom
    exact ⟨h, fun hfull => absurd hfull hroom⟩

theorem refilled_nonneg {l : RateLimiter} (hrate : 0 ≤ l.config.refillPerSecond) {b : Bucket}
    (hb : 0 ≤ b.tokens) (now : Instant) : 0 ≤ l.refilled b now :=
  add_nonneg hb (mul_nonneg (asSecs_nonneg _) hrate)

/-- What a call finds is no debt. -/
theorem found_nonneg {l : RateLimiter} (hrate : 0 ≤ l.config.refillPerSecond)
    (h : ∀ b, l.buckets[client]? = some b → 0 ≤ b.tokens) (now : Instant) : 0 ≤ l.found client now := by
  apply le_min _ l.burst_nonneg
  apply refilled_nonneg hrate
  cases hb : (l.retained now)[client]? with
  | none => exact l.burst_nonneg
  | some b => exact h b (of_retained hb).1

/-- A stored bucket has no debt and was written by a call of its client. -/
theorem stored (hrate : 0 ≤ config.refillPerSecond) (attempts : List Attempt) {b : Bucket}
    (h : (run config attempts).1.buckets[client]? = some b) :
    0 ≤ b.tokens ∧ ⟨client, b.lastRefill⟩ ∈ attempts := by
  induction attempts using List.reverseRecOn generalizing client b with
  | nil =>
      have hnone : (run config []).1.buckets[client]? = none := Std.ExtTreeMap.getElem?_empty
      rw [hnone] at h
      cases h
  | append_singleton done a ih =>
      have hstate : (run config (done ++ [a])).1 = ((run config done).1.exec a).1 := by rw [run_append]
      have hrate' : 0 ≤ (run config done).1.config.refillPerSecond := by
        rw [config_run]
        exact hrate
      rw [hstate] at h
      by_cases hown : a.client = client
      · subst hown
        rw [bucket_exec_self] at h
        obtain rfl := Option.some.inj h
        refine ⟨?_, List.mem_append_right _ List.mem_cons_self⟩
        -- a call that takes a token found a whole one
        cases hanswer : ((run config done).1.exec a).2 with
        | true =>
            rw [cost_true]
            exact sub_nonneg.mpr (answer_iff.mp hanswer)
        | false =>
            rw [cost_false, sub_zero]
            exact found_nonneg hrate' (fun b hb => (ih hb).1) a.now
      · rw [bucket_exec_of_ne hown] at h
        obtain ⟨htokens, hmem⟩ := ih (of_retained h).1
        exact ⟨htokens, List.mem_append_left _ hmem⟩

/-! ## When the limit holds -/

theorem held_nonneg (hrate : 0 ≤ config.refillPerSecond) (attempts : List Attempt) (client : IpAddr) :
    0 ≤ (run config attempts).1.held client := by
  cases hb : (run config attempts).1.buckets[client]? with
  | none =>
      rw [held_of_none hb]
      exact burst_nonneg _
  | some b =>
      rw [held_of_some hb]
      exact (stored hrate attempts hb).1

/-- Without refill all calls stay within the limit. -/
theorem withinLimit_of_no_refill (hrate : config.refillPerSecond = 0) (attempts : List Attempt) :
    WithinLimit config attempts := by
  intro client s t hst
  have hgrants := grants_add_held_le hrate attempts client
  have hheld := held_nonneg hrate.ge attempts client
  have hfewer : (granted client s t (log config attempts) : Rat)
      ≤ grants (history client (log config attempts)) := by
    rw [granted_eq, Nat.cast_le]
    exact List.filter_sublist.countP_le
  rw [hrate, zero_mul, add_zero]
  linarith

/-- A limiter without a burst grants nothing. -/
theorem withinLimit_of_no_burst (hrate : 0 ≤ config.refillPerSecond) (hburst : config.burst = 0)
    (attempts : List Attempt) : WithinLimit config attempts := by
  intro client s t hst
  have hzero : config.burstF64 = 0 := by
    unfold RateLimitConfig.burstF64
    rw [hburst]
    rfl
  have hnone : granted client s t (log config attempts) = 0 := by
    induction attempts using List.reverseRecOn with
    | nil => rfl
    | append_singleton done a ih =>
        have hanswer : ((run config done).1.exec a).2 = false := by
          rw [Bool.eq_false_iff]
          intro htrue
          have hfound := (answer_iff.mp htrue).trans (found_le_burst _ _ _)
          rw [burst_run, hzero] at hfound
          linarith
        unfold granted at ih ⊢
        rw [log_append, List.countP_append, ih, hanswer]
        simp
  rw [hnone, hzero, Nat.cast_zero, zero_add]
  exact mul_nonneg hrate (asSecs_nonneg _)

/-! ## A late call breaks the limit -/

/-- A burst of calls at one instant. -/
def flood (client : IpAddr) (n : Nat) (t : Instant) : List Attempt := List.replicate n ⟨client, t⟩

/-- A burst at `t`, a late call at instant 0, and one more call at `t`. -/
def lateAttempts (client : IpAddr) (n : Nat) (t : Instant) : List Attempt :=
  flood client n t ++ [⟨client, 0⟩] ++ [⟨client, t⟩]

/-- Calls of one client at one instant come in order. -/
theorem flood_inOrder (config : RateLimitConfig) (client : IpAddr) (n : Nat) (t : Instant) :
    InOrder config (flood client n t) := by
  apply inOrderAfter_of_sorted
  rw [List.nil_append, flood, List.pairwise_replicate]
  exact Or.inr (Nat.le_refl t)

theorem flood_succ (client : IpAddr) (n : Nat) (t : Instant) :
    flood client (n + 1) t = flood client n t ++ [⟨client, t⟩] := List.replicate_succ'

theorem allowance_flood (burst rate : Rat) (n : Nat) (t : Rat) :
    allowance burst rate (List.replicate n (t, true)) t = burst - n := by
  induction n with
  | zero => simp [allowance]
  | succ n ih =>
      have hn : (0 : Rat) ≤ n := Nat.cast_nonneg n
      rw [List.replicate_succ, allowance_cons, ih, cost_true, sub_self, mul_zero, add_zero, Nat.cast_succ,
        min_eq_right (by linarith)]
      ring

/-- A burst is granted in full. -/
theorem history_flood (hrate : 0 ≤ config.refillPerSecond) (client : IpAddr) (t : Instant) {n : Nat}
    (hn : n ≤ config.burst.toNat) :
    history client (log config (flood client n t)) = List.replicate n (asSecs t, true) := by
  induction n with
  | zero => rfl
  | succ n ih =>
      have ih := ih (Nat.le_of_succ_le hn)
      have hanswer : ((run config (flood client n t)).1.exec ⟨client, t⟩).2 = true := by
        have hin : InOrder config (flood client n t ++ [⟨client, t⟩]) := by
          rw [← flood_succ]
          exact flood_inOrder config client (n + 1) t
        rw [answer_of_inOrder hrate hin]
        unfold owed
        rw [ih, allowance_flood]
        have hcast : ((n + 1 : Nat) : Rat) ≤ config.burstF64 := Nat.cast_le.mpr hn
        push_cast at hcast
        linarith
      rw [flood_succ, log_append, history_append, if_pos rfl, ih, hanswer, List.replicate_succ]

/-- A burst that is not zero grants at least one call. -/
theorem one_le_burst (h : config.burst ≠ 0) : 1 ≤ config.burstF64 := by
  have hpos : 1 ≤ config.burst.toNat := by
    apply Nat.one_le_iff_ne_zero.mpr
    intro hzero
    exact h (UInt32.toNat_inj.mp hzero)
  exact Nat.one_le_cast.mpr hpos

/-- A burst leaves an empty bucket. -/
theorem bucket_flood (hrate : 0 ≤ config.refillPerSecond) (hburst : config.burst ≠ 0) (client : IpAddr)
    (t : Instant) :
    (run config (flood client config.burst.toNat t)).1.buckets[client]? = some ⟨0, t⟩ := by
  have htracked : Tracked config (flood client config.burst.toNat t) :=
    tracked_of_inOrder hrate (flood_inOrder config client _ t) (tracked_nil config)
  have hsettled : Settled client t (new config) (flood client config.burst.toNat t) := by
    apply settled_of_forall_le
    intro a ha
    rw [(List.mem_replicate.mp ha).2]
  have hlevel := (htracked client t hsettled).2
  unfold owed at hlevel
  rw [history_flood hrate client t (Nat.le_refl _), allowance_flood] at hlevel
  -- the last call of the burst wrote the bucket
  obtain ⟨n, hn⟩ : ∃ n, config.burst.toNat = n + 1 := by
    apply Nat.exists_eq_succ_of_ne_zero
    intro hzero
    exact hburst (UInt32.toNat_inj.mp hzero)
  obtain ⟨b, hb, hlast⟩ : ∃ b,
      (run config (flood client config.burst.toNat t)).1.buckets[client]? = some b ∧ b.lastRefill = t := by
    rw [hn, flood_succ, run_append]
    exact ⟨_, bucket_exec_self, rfl⟩
  have hone := one_le_burst hburst
  rw [level_of_some hb hlast.le, burst_run] at hlevel
  unfold refilled at hlevel
  rw [hlast, Nat.sub_self, asSecs_zero, zero_mul, add_zero] at hlevel
  have hempty : b.tokens = 0 := by
    have hzero : config.burstF64 - (config.burst.toNat : Rat) = 0 := sub_self _
    rw [hzero] at hlevel
    rcases min_choice b.tokens config.burstF64 with h | h <;> linarith
  rw [hb, ← hempty, ← hlast]

/-- **One late call is enough**: with a burst and a refill, it makes the limiter grant one call too many at
    the instant of the burst. -/
theorem not_withinLimit_late (hrate : 0 < config.refillPerSecond) (hburst : config.burst ≠ 0)
    (client : IpAddr) {t : Instant} (ht : 1 ≤ asSecs t * config.refillPerSecond) :
    ¬WithinLimit config (lateAttempts client config.burst.toNat t) := by
  have hone := one_le_burst hburst
  have hempty := bucket_flood hrate.le hburst client t
  have hgranted : granted client t t (log config (flood client config.burst.toNat t)) = config.burst.toNat := by
    rw [granted_eq, history_flood hrate.le client t (Nat.le_refl _)]
    simp [grants, List.countP_replicate]
  have hconfig := config_run config (flood client config.burst.toNat t)
  generalize hl : (run config (flood client config.burst.toNat t)).1 = l at hempty hconfig
  -- the late call finds nothing, and writes the bucket back as of instant 0
  have hlate : (l.exec ⟨client, 0⟩).1.buckets[client]? = some ⟨0, 0⟩ := by
    have hrefilled : l.refilled ⟨0, t⟩ 0 = 0 := by
      unfold refilled
      rw [Nat.zero_sub, asSecs_zero, zero_mul, add_zero]
    have hfound : l.found client 0 = 0 := by
      rcases l.retained_cases 0 client with hkept | ⟨b, hb, hfull, -⟩
      · unfold found
        rw [hkept, hempty, Option.getD_some, hrefilled]
        exact min_eq_left l.burst_nonneg
      · rw [hempty] at hb
        obtain rfl := Option.some.inj hb
        rw [hrefilled] at hfull
        unfold burst at hfull
        rw [hconfig] at hfull
        linarith
    rw [bucket_exec_self, exec_eq]
    dsimp only
    rw [hfound, decide_eq_false (by norm_num), cost_false, sub_zero]
  -- the time since instant 0 is counted once more
  have hagain : ((l.exec ⟨client, 0⟩).1.exec ⟨client, t⟩).2 = true := by
    rw [answer_iff, found_eq_level, level_of_some hlate (Nat.zero_le _)]
    · apply le_min
      · unfold refilled
        rw [config_exec, hconfig, Nat.sub_zero, zero_add]
        exact ht
      · unfold burst
        rw [config_exec, hconfig]
        exact hone
    · intro b hb
      rw [hlate] at hb
      obtain rfl := Option.some.inj hb
      exact Nat.zero_le _
  intro hwithin
  have htoo := hwithin client t t (Nat.le_refl t)
  rw [lateAttempts, log_append, log_append, run_append, hl, hagain, Nat.sub_self, asSecs_zero, mul_zero,
    add_zero] at htoo
  have hcount : config.burst.toNat + 1 ≤ granted client t t
      (log config (flood client config.burst.toNat t) ++ [(⟨client, 0⟩, (l.exec ⟨client, 0⟩).2)]
        ++ [(⟨client, t⟩, true)]) := by
    unfold granted at hgranted ⊢
    rw [List.countP_append, List.countP_append, hgranted, List.countP_singleton, List.countP_singleton]
    simp
  have hcast : ((config.burst.toNat + 1 : Nat) : Rat) ≤ config.burstF64 :=
    (Nat.cast_le.mpr hcount).trans htoo
  unfold RateLimitConfig.burstF64 at hcast
  push_cast at hcast
  linarith

/-! ## Clocks that are read before the lock is taken -/

/-- Twelve calls of one client with the default limits: ten at second 5, one that read the clock at second
    0 but entered the lock later, and one more at second 5. -/
def overtaken : List Attempt := lateAttempts (.v4 1) 10 5000000000

/-- The limiter grants eleven of them at second 5. -/
theorem overtaken_breaks_limit :
    (run .default overtaken).2 = List.replicate 10 true ++ [false, true]
      ∧ ¬WithinLimit .default overtaken := by
  refine ⟨by decide +kernel, ?_⟩
  intro h
  have hwindow := h (.v4 1) 5000000000 5000000000 (Nat.le_refl _)
  revert hwindow
  decide +kernel

/-- **The rate limit, without late calls.** The limit holds on every window of every client, for all runs
    in which no call is late, and for all runs of a limiter without a burst or without refill; every other
    limiter breaks it in some run. -/
theorem limit_without_late_calls (config : RateLimitConfig) (hrate : 0 ≤ config.refillPerSecond) :
    (∀ attempts, config.burst = 0 ∨ config.refillPerSecond = 0 ∨ InOrder config attempts →
        WithinLimit config attempts)
      ∧ ((∀ attempts, WithinLimit config attempts) ↔ config.burst = 0 ∨ config.refillPerSecond = 0) := by
  have henough : ∀ attempts, config.burst = 0 ∨ config.refillPerSecond = 0 ∨ InOrder config attempts →
      WithinLimit config attempts := by
    rintro attempts (hburst | hnone | horder)
    · exact withinLimit_of_no_burst hrate hburst attempts
    · exact withinLimit_of_no_refill hnone attempts
    · exact withinLimit_of_inOrder hrate horder
  refine ⟨henough, ?_, ?_⟩
  · intro hall
    by_contra hboth
    obtain ⟨hburst, hrefill⟩ := not_or.mp hboth
    have hpos : 0 < config.refillPerSecond := lt_of_le_of_ne hrate (Ne.symm hrefill)
    -- long enough for one token to come back
    obtain ⟨n, hn⟩ := exists_nat_ge (1 / config.refillPerSecond)
    have hsecs : asSecs (n * 1000000000) = n := by
      unfold asSecs
      push_cast
      ring
    have ht : 1 ≤ asSecs (n * 1000000000) * config.refillPerSecond := by
      rw [hsecs]
      exact (div_le_iff₀ hpos).mp hn
    exact not_withinLimit_late hpos hburst (.v4 0) ht (hall _)
  · rintro (hburst | hnone) attempts
    · exact henough attempts (Or.inl hburst)
    · exact henough attempts (Or.inr (Or.inl hnone))

/-- Two clients whose calls enter the lock out of order, each in its own order. -/
theorem limit_without_late_calls_default :
    WithinLimit .default [⟨.v4 1, 5000000000⟩, ⟨.v4 2, 3000000000⟩, ⟨.v4 1, 5000000000⟩]
      ∧ ¬∀ attempts, WithinLimit .default attempts := by
  obtain ⟨henough, hnever⟩ := limit_without_late_calls .default (by decide +kernel)
  refine ⟨henough _ (Or.inr (Or.inr (by decide +kernel))), ?_⟩
  rw [hnever]
  decide +kernel

/-! ## A crowd

So many clients call at once that the next call drops every bucket that has refilled by then. -/

/-- The first calls of `n` clients, all at one instant. -/
def crowd (n : Nat) (t : Instant) : List Attempt := (List.range n).map fun i => ⟨.v4 (BitVec.ofNat 32 i), t⟩

theorem crowd_succ (n : Nat) (t : Instant) : crowd (n + 1) t = crowd n t ++ [⟨.v4 (BitVec.ofNat 32 n), t⟩] := by
  unfold crowd
  rw [List.range_succ, List.map_append]
  rfl

theorem now_of_mem_crowd {n : Nat} {t : Instant} {a : Attempt} (h : a ∈ crowd n t) : a.now = t := by
  obtain ⟨i, -, rfl⟩ := List.mem_map.mp h
  rfl

theorem crowd_sorted (n : Nat) (t : Instant) : (crowd n t).Pairwise fun a b => a.now ≤ b.now := by
  unfold crowd
  rw [List.pairwise_map]
  exact List.pairwise_of_forall fun _ _ => Nat.le_refl t

/-- Up to the threshold every new client has a bucket of its own. -/
theorem size_crowd (hrate : 0 ≤ config.refillPerSecond) (t : Instant) {n : Nat} (hn : n ≤ maxTrackedClients) :
    (run config (crowd n t)).1.buckets.size = n := by
  induction n with
  | zero => rfl
  | succ n ih =>
      have ih := ih (Nat.le_of_succ_le hn)
      have hnew : (.v4 (BitVec.ofNat 32 n) : IpAddr) ∉ (run config (crowd n t)).1.buckets := by
        intro hmem
        obtain ⟨b, hb⟩ := Option.isSome_iff_exists.mp (Std.ExtTreeMap.mem_iff_isSome_getElem?.mp hmem)
        obtain ⟨i, hi, heq⟩ := List.mem_map.mp (stored hrate _ hb).2
        have hbits := congrArg BitVec.toNat (IpAddr.v4.inj (congrArg Attempt.client heq))
        have hi := List.mem_range.mp hi
        unfold maxTrackedClients at hn
        rw [BitVec.toNat_ofNat, BitVec.toNat_ofNat, Nat.mod_eq_of_lt (by omega), Nat.mod_eq_of_lt (by omega)] at hbits
        omega
      have hretained : (run config (crowd n t)).1.retained t = (run config (crowd n t)).1.buckets := by
        unfold retained
        rw [if_neg (by omega)]
      rw [crowd_succ, run_append, exec_eq]
      dsimp only
      rw [hretained, Std.ExtTreeMap.size_insert, if_neg (by rwa [Std.ExtTreeMap.contains_iff_mem]), ih]

/-- The first client calls once. -/
theorem crowd_filter {n : Nat} (hn : n < maxTrackedClients) (t : Instant) :
    (crowd (n + 1) t).filter (fun a => a.client = .v4 0) = [⟨.v4 0, t⟩] := by
  induction n with
  | zero => rfl
  | succ n ih =>
      have hother : ¬BitVec.ofNat 32 (n + 1) = 0#32 := by
        intro heq
        have hbits := congrArg BitVec.toNat heq
        unfold maxTrackedClients at hn
        rw [BitVec.toNat_ofNat, Nat.mod_eq_of_lt (by omega)] at hbits
        exact Nat.succ_ne_zero n hbits
      rw [crowd_succ, List.filter_append, ih (Nat.lt_of_succ_lt hn)]
      simp [hother]

/-- At the threshold a call drops the buckets of those who have not called for as long as a bucket takes to fill. -/
theorem bucket_of_idle (hrate : 0 ≤ config.refillPerSecond) {done : List Attempt} {a : Attempt}
    (hfull : maxTrackedClients ≤ (run config done).1.buckets.size)
    (hidle : ∀ e ∈ done, config.burstF64 ≤ asSecs (a.now - e.now) * config.refillPerSecond)
    (hclient : a.client ≠ client) : (run config (done ++ [a])).1.buckets[client]? = none := by
  rw [run_append, bucket_exec_of_ne hclient]
  cases hb : ((run config done).1.retained a.now)[client]? with
  | none => rfl
  | some b =>
      obtain ⟨hkept, hrefilling⟩ := of_retained hb
      obtain ⟨htokens, hcall⟩ := stored hrate _ hkept
      have hless := hrefilling hfull
      unfold refilled burst at hless
      rw [config_run] at hless
      have hback := hidle _ hcall
      dsimp only at hback
      linarith

/-- A crowd at the threshold, and a minute later one client more. -/
def crowdAndOne : List Attempt := crowd maxTrackedClients 0 ++ [⟨.v4 10000, 60000000000⟩]

theorem crowdAndOne_sorted : crowdAndOne.Pairwise fun a b => a.now ≤ b.now := by
  unfold crowdAndOne
  refine List.pairwise_append.mpr ⟨crowd_sorted _ 0, List.pairwise_singleton _ _, ?_⟩
  intro a ha b _
  rw [now_of_mem_crowd ha]
  exact Nat.zero_le _

/-! ## The decision in closed form -/

/-- What the answer to a call depends on: the instant of the call, and the instants and answers of the
    calls before it. -/
def Allows (config : RateLimitConfig) (mine : List (Instant × Bool)) (now : Instant) : Prop :=
  ∀ i t, (mine.map Prod.fst ++ [now])[i]? = some t →
    1 + ((mine.drop i).countP Prod.snd : Rat) ≤ config.burstF64 + config.refillPerSecond * asSecs (now - t)

/-- A call in seconds. -/
def inSecs (call : Instant × Bool) : Rat × Bool := (asSecs call.1, call.2)

/-- Seconds tell instants apart. -/
theorem inSecs_injective : Function.Injective inSecs := by
  rintro ⟨s, b⟩ ⟨t, c⟩ h
  obtain ⟨hs, hb⟩ := Prod.mk.inj h
  exact Prod.ext (asSecs_inj hs) hb

theorem history_eq (client : IpAddr) (log : List (Attempt × Bool)) :
    history client log = ((callsOf client log).map inSecs).reverse := rfl

/-- The grants from a call on, counted in either direction. -/
theorem grants_from (call : Instant × Bool) (later : List (Instant × Bool)) :
    grants ((later.map inSecs).reverse ++ [inSecs call]) = (call :: later).countP Prod.snd := by
  unfold grants
  rw [← List.reverse_cons, ← List.map_cons, List.countP_reverse, List.countP_map]
  rfl

/-- The closed form of the allowance, in the instants of the source. -/
theorem allows_iff {mine : List (Instant × Bool)} {now : Instant} (hmine : ∀ call ∈ mine, call.1 ≤ now) :
    Allows config mine now
      ↔ 1 ≤ allowance config.burstF64 config.refillPerSecond (mine.map inSecs).reverse (asSecs now) := by
  rw [le_allowance_iff]
  constructor
  · intro h
    constructor
    · -- the present call itself
      have hnow := h mine.length now (by simp)
      rw [List.drop_length, List.countP_nil, Nat.sub_self, asSecs_zero] at hnow
      simpa using hnow
    · intro newer t granted older hsplit
      have hmap : mine.map inSecs = older.reverse ++ (t, granted) :: newer.reverse := by
        rw [← List.reverse_reverse (mine.map inSecs), hsplit]
        simp
      obtain ⟨pre, rest, rfl, -, hrest⟩ := List.map_eq_append_iff.mp hmap
      obtain ⟨call, post, rfl, hcall, hpost⟩ := List.map_eq_cons_iff.mp hrest
      have hindex := h pre.length call.1 (by simp)
      obtain ⟨htime, -⟩ := Prod.mk.inj hcall
      rw [List.drop_left, asSecs_sub (hmine call (by simp)), htime] at hindex
      have hgrants := grants_from call post
      rw [hpost, List.reverse_reverse, hcall] at hgrants
      rw [hgrants]
      exact hindex
  · rintro ⟨hburst, hsplits⟩ i t hi
    by_cases hlast : i < mine.length
    · rw [List.getElem?_append_left (by simpa using hlast), List.getElem?_map,
        List.getElem?_eq_getElem hlast] at hi
      obtain rfl : mine[i].1 = t := by simpa using hi
      have hmine' : mine.take i ++ mine[i] :: mine.drop (i + 1) = mine := by
        rw [← List.drop_eq_getElem_cons hlast, List.take_append_drop]
      have hsplit : (mine.map inSecs).reverse = ((mine.drop (i + 1)).map inSecs).reverse
          ++ inSecs mine[i] :: ((mine.take i).map inSecs).reverse := by
        have hwhole := congrArg (fun calls => (calls.map inSecs).reverse) hmine'
        rw [← hwhole, List.map_append, List.map_cons, List.reverse_append, List.reverse_cons,
          List.append_assoc]
        rfl
      have hone := hsplits _ _ _ _ hsplit
      have hgrants := grants_from mine[i] (mine.drop (i + 1))
      rw [← List.drop_eq_getElem_cons hlast] at hgrants
      rw [asSecs_sub (hmine _ (List.getElem_mem hlast)), ← hgrants]
      exact hone
    · -- nothing was granted from the present call on
      have hlt := (List.getElem?_eq_some_iff.mp hi).1
      rw [List.length_append, List.length_map, List.length_singleton] at hlt
      obtain rfl : i = mine.length := by omega
      obtain rfl : now = t := by simpa using hi
      rw [List.drop_length, List.countP_nil, Nat.sub_self, asSecs_zero]
      simpa using hburst

/-- The instants of a client's calls do not depend on the answers. -/
theorem callsOf_map_fst (config : RateLimitConfig) (attempts : List Attempt) (client : IpAddr) :
    (callsOf client (log config attempts)).map Prod.fst
      = (attempts.filter fun a => a.client = client).map Attempt.now := by
  induction attempts using List.reverseRecOn with
  | nil => rfl
  | append_singleton done a ih =>
      rw [log_append, List.filter_append, List.map_append, ← ih]
      unfold callsOf
      rw [List.filter_append, List.map_append, List.map_append]
      by_cases hown : a.client = client
      · simp [hown]
      · simp [hown]

theorem mem_callsOf {log : List (Attempt × Bool)} {call : Instant × Bool} (h : call ∈ callsOf client log) :
    ∃ e ∈ log, call = (e.1.now, e.2) := by
  obtain ⟨e, he, rfl⟩ := List.mem_map.mp h
  exact ⟨e, (List.mem_filter.mp he).1, rfl⟩

/-- **The decision in closed form.** When the instants never decrease, a call is granted exactly when, for
    every call `i` of the client so far, the grants since then and one more fit into the burst and what
    came back since then. So a client is answered as if it were alone. -/
theorem decision_in_closed_form (config : RateLimitConfig) (hrate : 0 ≤ config.refillPerSecond)
    (attempts : List Attempt) (hsorted : attempts.Pairwise fun a b => a.now ≤ b.now) :
    (∀ before a after, attempts = before ++ a :: after →
        ((run config attempts).2[before.length]? = some true
          ↔ Allows config (callsOf a.client (log config before)) a.now))
      ∧ ∀ client, callsOf client (log config attempts)
          = callsOf client (log config (attempts.filter fun a => a.client = client)) := by
  have horder : ∀ calls : List Attempt, (calls.Pairwise fun a b => a.now ≤ b.now) → InOrder config calls :=
    fun calls h => inOrderAfter_of_sorted h
  constructor
  · rintro before a after rfl
    have hanswer : (run config (before ++ a :: after)).2[before.length]?
        = some ((run config before).1.exec a).2 := by
      unfold run
      rw [Machine.run_append, List.getElem?_append_right (Machine.length_run _ _).le,
        Machine.length_run, Nat.sub_self]
      rfl
    have hearlier : ∀ call ∈ callsOf a.client (log config before), call.1 ≤ a.now := by
      intro call hcall
      obtain ⟨e, he, rfl⟩ := mem_callsOf hcall
      exact (List.pairwise_append.mp hsorted).2.2 e.1 (mem_of_mem_log he) a List.mem_cons_self
    rw [hanswer, Option.some.injEq, answer_of_inOrder hrate (horder _ hsorted), allows_iff hearlier]
    rfl
  · intro client
    -- both runs answer the client's calls lawfully, and the calls are the same
    have hwhole := lawful_of_inOrder hrate (horder _ hsorted) client
    have halone := lawful_of_inOrder hrate (horder _ (hsorted.filter fun a => a.client = client)) client
    have htimes : (callsOf client (log config attempts)).map Prod.fst
        = (callsOf client (log config (attempts.filter fun a => a.client = client))).map Prod.fst := by
      rw [callsOf_map_fst, callsOf_map_fst, List.filter_filter]
      simp
    have hsecs : ∀ calls : List (Instant × Bool),
        ((calls.map inSecs).reverse).map Prod.fst = ((calls.map Prod.fst).map asSecs).reverse := by
      intro calls
      rw [List.map_reverse, List.map_map, List.map_map]
      rfl
    have hhistory := hwhole.eq_of_times halone (by rw [history_eq, history_eq, hsecs, hsecs, htimes])
    rw [history_eq, history_eq] at hhistory
    exact List.map_injective_iff.mpr inSecs_injective (List.reverse_injective hhistory)

/-- Ten calls at once use up the burst. The next call comes too early and is refused; at five seconds the calls
    since then, granted or not, leave room for one. Of a client whose bucket was dropped the calls are answered as
    if nobody else had called. -/
theorem decision_in_closed_form_default :
    ¬Allows .default (List.replicate 10 (0, true)) 1000000000
      ∧ Allows .default (List.replicate 10 (0, true) ++ [(1000000000, false)]) 5000000000
      ∧ (run .default crowdAndOne).1.buckets[(.v4 0 : IpAddr)]? = none
      ∧ callsOf (.v4 0) (log .default (crowdAndOne ++ [⟨.v4 0, 60000000000⟩]))
        = [(0, true), (60000000000, true)] := by
  have hrate : (0 : Rat) ≤ RateLimitConfig.default.refillPerSecond := by decide +kernel
  refine ⟨?_, ?_, ?_, ?_⟩
  · have hrefused := (decision_in_closed_form .default hrate
      (flood (.v4 1) 10 0 ++ [⟨.v4 2, 500000000⟩, ⟨.v4 1, 1000000000⟩]) (by decide)).1
      (flood (.v4 1) 10 0 ++ [⟨.v4 2, 500000000⟩]) ⟨.v4 1, 1000000000⟩ [] rfl
    have hearly : callsOf (.v4 1) (log .default (flood (.v4 1) 10 0 ++ [⟨.v4 2, 500000000⟩]))
        = List.replicate 10 (0, true) := by decide +kernel
    have hanswers : (run .default (flood (.v4 1) 10 0 ++ [⟨.v4 2, 500000000⟩, ⟨.v4 1, 1000000000⟩])).2
        = List.replicate 11 true ++ [false] := by decide +kernel
    dsimp only at hrefused
    rw [hanswers, hearly] at hrefused
    intro hallows
    cases hrefused.mpr hallows
  · have hgranted := (decision_in_closed_form .default hrate
      (flood (.v4 1) 10 0 ++ [⟨.v4 1, 1000000000⟩, ⟨.v4 1, 5000000000⟩]) (by decide)).1
      (flood (.v4 1) 10 0 ++ [⟨.v4 1, 1000000000⟩]) ⟨.v4 1, 5000000000⟩ [] rfl
    have hlate : callsOf (.v4 1) (log .default (flood (.v4 1) 10 0 ++ [⟨.v4 1, 1000000000⟩]))
        = List.replicate 10 (0, true) ++ [(1000000000, false)] := by decide +kernel
    have hanswers : (run .default (flood (.v4 1) 10 0 ++ [⟨.v4 1, 1000000000⟩, ⟨.v4 1, 5000000000⟩])).2
        = List.replicate 10 true ++ [false, true] := by decide +kernel
    dsimp only at hgranted
    rw [hanswers, hlate] at hgranted
    exact hgranted.mp rfl
  · unfold crowdAndOne
    refine bucket_of_idle hrate (size_crowd hrate 0 (Nat.le_refl _)).ge ?_ (by decide)
    intro e he
    rw [now_of_mem_crowd he]
    decide +kernel
  · have hsorted : (crowdAndOne ++ [(⟨.v4 0, 60000000000⟩ : Attempt)]).Pairwise fun a b => a.now ≤ b.now := by
      refine List.pairwise_append.mpr ⟨crowdAndOne_sorted, List.pairwise_singleton _ _, ?_⟩
      intro a ha b hb
      rw [List.mem_singleton.mp hb]
      rcases List.mem_append.mp ha with ha | ha
      · rw [now_of_mem_crowd ha]
        exact Nat.zero_le _
      · rw [List.mem_singleton.mp ha]
    have halone := (decision_in_closed_form .default hrate _ hsorted).2 (.v4 0)
    have hmine : (crowdAndOne ++ [(⟨.v4 0, 60000000000⟩ : Attempt)]).filter (fun a => a.client = .v4 0)
        = [⟨.v4 0, 0⟩, ⟨.v4 0, 60000000000⟩] := by
      unfold crowdAndOne
      rw [List.filter_append, List.filter_append, maxTrackedClients, crowd_filter (by decide)]
      rfl
    rw [halone, hmine]
    decide +kernel

/-! ## How many clients are tracked -/

/-- The clients that made a call in the last `burst / refill_per_second` seconds. -/
def recentClients (config : RateLimitConfig) (attempts : List Attempt) (now : Instant) : Finset IpAddr :=
  ((attempts.filter fun a => a.now ≤ now
    ∧ asSecs (now - a.now) ≤ config.burstF64 / config.refillPerSecond).map Attempt.client).toFinset

/-- **The limiter remembers the recently active clients.** After every call it tracks no more buckets than
    the threshold, or than clients that made a call while a bucket refills. -/
theorem tracked_clients_bounded (config : RateLimitConfig) (hrate : 0 < config.refillPerSecond)
    (attempts : List Attempt) (hsorted : attempts.Pairwise fun a b => a.now ≤ b.now)
    (before : List Attempt) (a : Attempt) (hdone : before ++ [a] <+: attempts) :
    (run config (before ++ [a])).1.buckets.size
      ≤ max maxTrackedClients (recentClients config (before ++ [a]) a.now).card := by
  have hstate : (run config (before ++ [a])).1 = ((run config before).1.exec a).1 := by rw [run_append]
  have hconfig := config_run config before
  rw [hstate, exec_eq]
  dsimp only
  by_cases hroom : (run config before).1.buckets.size < maxTrackedClients
  · -- below the threshold: at most one bucket more
    have hretained : (run config before).1.retained a.now = (run config before).1.buckets := by
      unfold retained
      rw [if_neg (not_le.mpr hroom)]
    have hinsert := Std.ExtTreeMap.size_insert_le (t := (run config before).1.buckets) (k := a.client)
      (v := (run config before).1.spent a)
    rw [hretained]
    exact le_max_of_le_left (by omega)
  · -- above it only buckets that are still refilling stay, and their clients called while they do
    apply le_max_of_le_right
    rw [← Std.ExtTreeMap.length_keys, ← List.toFinset_card_of_nodup Std.ExtTreeMap.nodup_keys]
    apply Finset.card_le_card
    intro client hclient
    rw [List.mem_toFinset, Std.ExtTreeMap.mem_keys, Std.ExtTreeMap.mem_insert] at hclient
    unfold recentClients
    rw [List.mem_toFinset, List.mem_map]
    rcases hclient with hown | hmem
    · obtain rfl := Std.LawfulEqOrd.eq_of_compare hown
      refine ⟨a, List.mem_filter.mpr ⟨List.mem_append_right _ List.mem_cons_self, ?_⟩, rfl⟩
      rw [Nat.sub_self, asSecs_zero]
      exact decide_eq_true ⟨Nat.le_refl _, div_nonneg (Nat.cast_nonneg _) hrate.le⟩
    · obtain ⟨b, hb⟩ := Option.isSome_iff_exists.mp (Std.ExtTreeMap.mem_iff_isSome_getElem?.mp hmem)
      obtain ⟨hkept, hrefilling⟩ := of_retained hb
      obtain ⟨htokens, hcall⟩ := stored hrate.le before hkept
      have hnow : b.lastRefill ≤ a.now := by
        have hpart := hsorted.sublist hdone.sublist
        exact (List.pairwise_append.mp hpart).2.2 _ hcall a List.mem_cons_self
      have hidle : asSecs (a.now - b.lastRefill) ≤ config.burstF64 / config.refillPerSecond := by
        have hless := hrefilling (not_lt.mp hroom)
        unfold refilled burst at hless
        rw [hconfig] at hless
        rw [le_div_iff₀ hrate]
        linarith
      exact ⟨_, List.mem_filter.mpr ⟨List.mem_append_left _ hcall, decide_eq_true ⟨hnow, hidle⟩⟩, rfl⟩

/-- A crowd fills the table of buckets; a minute later one client more is tracked in no more space. -/
theorem tracked_clients_bounded_default :
    (run .default (crowd maxTrackedClients 0)).1.buckets.size = maxTrackedClients
      ∧ (run .default crowdAndOne).1.buckets.size ≤ maxTrackedClients := by
  have hrate : (0 : Rat) < RateLimitConfig.default.refillPerSecond := by decide +kernel
  refine ⟨size_crowd hrate.le 0 (Nat.le_refl _), ?_⟩
  have hsorted := crowdAndOne_sorted
  unfold crowdAndOne at hsorted ⊢
  have hbound := tracked_clients_bounded .default hrate _ hsorted (crowd maxTrackedClients 0)
    ⟨.v4 10000, 60000000000⟩ List.prefix_rfl
  have hidle : (crowd maxTrackedClients 0).filter (fun a => a.now ≤ 60000000000
      ∧ asSecs (60000000000 - a.now)
        ≤ RateLimitConfig.default.burstF64 / RateLimitConfig.default.refillPerSecond) = [] := by
    rw [List.filter_eq_nil_iff]
    intro a ha
    rw [now_of_mem_crowd ha]
    decide +kernel
  have hrecent : (recentClients .default (crowd maxTrackedClients 0 ++ [⟨.v4 10000, 60000000000⟩])
      60000000000).card ≤ 1 := by
    unfold recentClients
    rw [List.filter_append, hidle, List.nil_append]
    refine (List.toFinset_card_le _).trans ?_
    rw [List.length_map]
    exact List.length_filter_le _ _
  exact hbound.trans (max_le (Nat.le_refl _) (hrecent.trans (by decide)))

end RateLimiter
end LimitOrderBook
