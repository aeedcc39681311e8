import Mathlib.Algebra.Order.Field.Basic
import Mathlib.Data.List.Basic
import Mathlib.Tactic.Linarith
import Mathlib.Tactic.Ring

/-!
# `Lib.TokenBucket` — the token bucket as a function of the calls made

A bucket holds at most `burst` tokens and gains `rate` of them per unit of time; a call is granted when it
finds a whole token, which it takes. `allowance` says what a call finds from the earlier calls alone, as a
minimum over them; `level` says the same of a bucket that stores its tokens and refills when it is read.

A history is `Lawful` if each of its calls is granted exactly when its allowance is a whole token. Such a history is
determined by the instants of its calls (`Lawful.eq_of_times`), its grants in any window are bounded by the burst and
what came back in the window (`grants_window_le`), and `le_allowance_iff` states the allowance without recursion: one
inequality for each earlier call. `level_take` is the step lemma of the stored bucket.
-/

namespace TokenBucket

variable {K : Type}

/-- The number of calls that were granted. -/
def grants (hist : List (K × Bool)) : Nat := hist.countP Prod.snd

@[simp] theorem grants_nil : grants ([] : List (K × Bool)) = 0 := rfl

/-! ## What a client may still take -/

section Allowance

variable [Field K]

/-- What a call takes from the bucket. -/
def cost (granted : Bool) : K := if granted then 1 else 0

@[simp] theorem cost_true : cost true = (1 : K) := rfl

@[simp] theorem cost_false : cost false = (0 : K) := rfl

/-- A call more is what it cost more. -/
theorem grants_cons (t : K) (granted : Bool) (older : List (K × Bool)) :
    (grants ((t, granted) :: older) : K) = cost granted + grants older := by
  cases granted <;> simp [grants, add_comm]

variable [LinearOrder K]

/-- The tokens at time `τ` after the calls `hist`, the latest first, each with its time and answer. -/
def allowance (burst rate : K) : List (K × Bool) → K → K
  | [], _ => burst
  | (t, granted) :: older, τ => min burst (allowance burst rate older t - cost granted + rate * (τ - t))

/-- Every call was granted exactly when it found a whole token. -/
def Lawful (burst rate : K) : List (K × Bool) → Prop
  | [] => True
  | (t, granted) :: older => (granted = true ↔ 1 ≤ allowance burst rate older t) ∧ Lawful burst rate older

variable {burst rate : K} {hist : List (K × Bool)} {c s t τ : K}

/-- The allowance behind a call: what it left, and what came back since. -/
theorem allowance_cons (t : K) (granted : Bool) (older : List (K × Bool)) (τ : K) :
    allowance burst rate ((t, granted) :: older) τ
      = min burst (allowance burst rate older t - cost granted + rate * (τ - t)) := rfl

/-- The calls at `s` or later. -/
def since (s : K) (hist : List (K × Bool)) : List (K × Bool) := hist.filter fun call => s ≤ call.1

theorem grants_since_cons (s t : K) (granted : Bool) (older : List (K × Bool)) :
    (grants (since s ((t, granted) :: older)) : K)
      = (if s ≤ t then cost granted else 0) + grants (since s older) := by
  unfold since
  by_cases h : s ≤ t
  · rw [List.filter_cons_of_pos (by simpa using h), grants_cons, if_pos h]
  · rw [List.filter_cons_of_neg (by simpa using h), if_neg h, zero_add]

/-- **The answers are determined by the times**: two lawful histories of the same calls are equal. -/
theorem Lawful.eq_of_times {hist hist' : List (K × Bool)} (h : Lawful burst rate hist)
    (h' : Lawful burst rate hist') (htimes : hist.map Prod.fst = hist'.map Prod.fst) : hist = hist' := by
  induction hist generalizing hist' with
  | nil => exact (List.map_eq_nil_iff.mp htimes.symm).symm
  | cons call older ih =>
      obtain ⟨t, granted⟩ := call
      cases hist' with
      | nil => cases htimes
      | cons call' older' =>
          obtain ⟨t', granted'⟩ := call'
          obtain ⟨htime, htimes⟩ := List.cons.inj htimes
          obtain rfl := ih h.2 h'.2 htimes
          obtain rfl : t = t' := htime
          rw [Bool.eq_iff_iff.mpr (h.1.trans h'.1.symm)]

variable [IsStrictOrderedRing K]

/-- **The allowance in closed form**: the least, over the earlier calls, of the burst and what came back
    since the call, less what was granted from the call on. -/
theorem le_allowance_iff :
    c ≤ allowance burst rate hist τ
      ↔ c ≤ burst ∧ ∀ newer t granted older, hist = newer ++ (t, granted) :: older →
          c + grants (newer ++ [(t, granted)]) ≤ burst + rate * (τ - t) := by
  induction hist generalizing c τ with
  | nil => simp [allowance]
  | cons call rest ih =>
      obtain ⟨t₀, g₀⟩ := call
      rw [allowance_cons, le_min_iff]
      apply and_congr_right
      intro _
      have hshift : c ≤ allowance burst rate rest t₀ - cost g₀ + rate * (τ - t₀)
          ↔ c + cost g₀ - rate * (τ - t₀) ≤ allowance burst rate rest t₀ := by
        constructor <;> intro h <;> linarith
      rw [hshift, ih]
      constructor
      · rintro ⟨hburst, hrest⟩ newer t granted older hsplit
        cases newer with
        | nil =>
            -- the latest call itself
            obtain ⟨⟨rfl, rfl⟩, rfl⟩ := by simpa using hsplit
            rw [List.nil_append, grants_cons, grants_nil, Nat.cast_zero]
            linarith
        | cons call newer =>
            injection hsplit with hcall hsplit
            subst hcall
            have hlater := hrest newer t granted older hsplit
            rw [List.cons_append, grants_cons]
            linarith
      · intro h
        constructor
        · have hnow := h [] t₀ g₀ rest rfl
          rw [List.nil_append, grants_cons, grants_nil, Nat.cast_zero] at hnow
          linarith
        · intro newer t granted older hsplit
          have hlater := h ((t₀, g₀) :: newer) t granted older (by rw [hsplit]; rfl)
          rw [List.cons_append, grants_cons] at hlater
          linarith

/-! ## The rate limit -/

/-- Whatever is left and what was granted since `s` came out of one burst and the time since `s`. -/
theorem add_grants_le (hsorted : hist.Pairwise fun newer older => older.1 ≤ newer.1) (hrate : 0 ≤ rate)
    (hs : s ≤ τ) (hc : c ≤ allowance burst rate hist τ) :
    c + grants (since s hist) ≤ burst + rate * (τ - s) := by
  induction hist generalizing c τ with
  | nil =>
      have hgain := mul_nonneg hrate (sub_nonneg.mpr hs)
      have hburst : c ≤ burst := hc
      simp only [since, List.filter_nil, grants_nil, Nat.cast_zero]
      linarith
  | cons call older ih =>
      obtain ⟨t, granted⟩ := call
      obtain ⟨holder, hsorted⟩ := List.pairwise_cons.mp hsorted
      rw [allowance_cons, le_min_iff] at hc
      rw [grants_since_cons]
      by_cases ht : s ≤ t
      · have hold := ih hsorted ht (c := c + cost granted - rate * (τ - t)) (by linarith)
        rw [if_pos ht]
        linarith
      · -- no call is in the window
        have hnone : since s older = [] := by
          apply List.filter_eq_nil_iff.mpr
          intro call hcall
          simpa using lt_of_le_of_lt (holder call hcall) (not_le.mp ht)
        have hgain := mul_nonneg hrate (sub_nonneg.mpr hs)
        rw [if_neg ht, hnone, grants_nil, Nat.cast_zero]
        linarith [hc.1]

/-- **The rate limit.** In every window the calls granted are at most the burst and what comes back over
    the window. -/
theorem grants_window_le (hlawful : Lawful burst rate hist)
    (hsorted : hist.Pairwise fun newer older => older.1 ≤ newer.1) (hrate : 0 ≤ rate)
    (hburst : 0 ≤ burst) (hst : s ≤ t) :
    (grants (hist.filter fun call => s ≤ call.1 ∧ call.1 ≤ t) : K) ≤ burst + rate * (t - s) := by
  induction hist with
  | nil =>
      have hgain := mul_nonneg hrate (sub_nonneg.mpr hst)
      simp only [List.filter_nil, grants_nil, Nat.cast_zero]
      linarith
  | cons call older ih =>
      obtain ⟨t₀, granted⟩ := call
      obtain ⟨hnow, hlawful⟩ := hlawful
      have hrest := (List.pairwise_cons.mp hsorted).2
      by_cases hin : s ≤ t₀ ∧ t₀ ≤ t
      · rw [List.filter_cons_of_pos (by simpa using hin), grants_cons]
        cases granted with
        | false =>
            rw [cost_false, zero_add]
            exact ih hlawful hrest
        | true =>
            -- the latest grant of the window found a token that none of the others took
            have hfound := add_grants_le hrest hrate hin.1 (hnow.mp rfl)
            have hfewer : (grants (older.filter fun call => s ≤ call.1 ∧ call.1 ≤ t) : K)
                ≤ grants (since s older) := by
              rw [Nat.cast_le]
              refine List.Sublist.countP_le ?_
              apply List.monotone_filter_right older
              intro call hcall
              simp only [decide_eq_true_eq] at hcall ⊢
              exact hcall.1
            have hgain := mul_le_mul_of_nonneg_left (sub_le_sub_right hin.2 s) hrate
            rw [cost_true]
            linarith
      · rw [List.filter_cons_of_neg (by simpa using hin)]
        exact ih hlawful hrest

/-! ## Buckets that refill when they are read -/

/-- The tokens at `τ` in a bucket that held `tokens` at time `last`; no bucket is a full one. -/
def level (burst rate : K) : Option (K × K) → K → K
  | none, _ => burst
  | some (tokens, last), τ => min (tokens + rate * (τ - last)) burst

omit [IsStrictOrderedRing K] in
/-- Taking from what the history leaves adds the call to the history. -/
theorem level_take (h : c = allowance burst rate hist t) (granted : Bool) (τ : K) :
    level burst rate (some (c - cost granted, t)) τ = allowance burst rate ((t, granted) :: hist) τ := by
  rw [allowance_cons, ← h, min_comm]
  rfl

end Allowance
end TokenBucket
