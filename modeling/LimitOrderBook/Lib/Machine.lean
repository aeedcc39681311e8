import Mathlib.Data.List.Forall2
import Mathlib.Tactic.Common

/-!
# `Lib.Machine` — runs of a step function with outputs

A step function reads one input and returns the next state and an output. `run` is the run of a total
step over a list of inputs, `tryRun` the run of a step that may fail to return. Nothing here knows what
the states are; the rules are the ones every run argument uses.

* **Computations that may fail.** Small rules for `Except`: what a bind that returned has done, and when a `mapM`
  returns.
* **Total runs.** Splitting a run (`run_append`), carrying an invariant (`run_invariant`, `run_history`), mapping a run
  along functions on states and inputs (`run_map`), leaving inputs out (`run_filter`). `Always` is a condition on every
  state of a run.
* **Runs that may fail.** `Stays` and `Admits` are conditions on the states and the inputs on the way. With them
  `tryRun_progress` shows that a run returns, and `tryRun_refines` matches a machine that may fail step by step
  against a total one.
-/

namespace Machine

variable {σ τ ι κ ο π ε : Type}

/-! ## Computations that may fail -/

@[simp] theorem ok_bind {α β : Type} (a : α) (f : α → Except ε β) :
    ((.ok a : Except ε α) >>= f) = f a := rfl

@[simp] theorem error_bind {α β : Type} (e : ε) (f : α → Except ε β) :
    ((.error e : Except ε α) >>= f) = .error e := rfl

@[simp] theorem pure_eq_ok {α : Type} (a : α) : (pure a : Except ε α) = .ok a := rfl

/-- A sequence that returned made both its parts. -/
theorem bind_eq_ok {α β : Type} {x : Except ε α} {f : α → Except ε β} {b : β} :
    (x >>= f) = .ok b ↔ ∃ a, x = .ok a ∧ f a = .ok b := by
  cases x <;> simp

/-- A computation that returned a part of its result returned the whole. -/
theorem of_map_fst {α β : Type} {x : Except ε (α × β)} {a : α} (h : x.map Prod.fst = .ok a) :
    ∃ b, x = .ok (a, b) := by
  cases x with
  | error e => cases h
  | ok r => exact ⟨r.2, by rw [← Except.ok.inj h]⟩

/-- A call that returns through both of its kinds of failure. -/
theorem of_map_map_ok {δ α β : Type} {x : Except ε (Except δ α)} {f : α → β} {b : β}
    (h : x.map (fun res => res.map f) = .ok (.ok b)) : ∃ a, x = .ok (.ok a) ∧ f a = b := by
  cases x with
  | error e => cases h
  | ok res =>
      cases res with
      | error d => cases h
      | ok a => exact ⟨a, rfl, Except.ok.inj (Except.ok.inj h)⟩

/-- Mapping a computation that returns on every element. -/
theorem mapM_eq_ok {α β : Type} {f : α → Except ε β} {g : α → β} {xs : List α}
    (h : ∀ x ∈ xs, f x = .ok (g x)) : xs.mapM f = .ok (xs.map g) := by
  induction xs with
  | nil => rfl
  | cons x xs ih =>
      rw [List.mapM_cons, h x List.mem_cons_self, ok_bind,
        ih fun y hy => h y (List.mem_cons_of_mem x hy)]
      rfl

/-- Mapping a computation returns what it returns on each element in turn. -/
theorem mapM_ok_iff {α β : Type} {f : α → Except ε β} {xs : List α} {ys : List β} :
    xs.mapM f = .ok ys ↔ List.Forall₂ (fun x y => f x = .ok y) xs ys := by
  induction xs generalizing ys with
  | nil =>
      rw [List.forall₂_nil_left_iff, List.mapM_nil, pure_eq_ok, Except.ok.injEq]
      exact eq_comm
  | cons x xs ih =>
      rw [List.mapM_cons, bind_eq_ok, List.forall₂_cons_left_iff]
      constructor
      · rintro ⟨y, hy, hrest⟩
        obtain ⟨ys', hys, hrest⟩ := bind_eq_ok.mp hrest
        cases hrest
        exact ⟨y, ys', hy, ih.mp hys, rfl⟩
      · rintro ⟨y, ys', hy, hys, rfl⟩
        refine ⟨y, hy, bind_eq_ok.mpr ⟨ys', ih.mpr hys, rfl⟩⟩

/-! Computations that fail but keep what they did to a state. -/

theorem run_bind {α β : Type} {x : StateM σ α} {f : α → StateM σ β} {s s' : σ} {a : α}
    (h : x.run s = (a, s')) : (x >>= f).run s = (f a).run s' := by
  rw [StateT.run_bind, h]
  rfl

theorem run_ofExcept {α : Type} (x : Except ε α) (s : σ) :
    (ofExcept x : ExceptT ε (StateM σ) α).run.run s = (x, s) := by
  cases x <;> rfl

theorem run_bind_of_ok {α β : Type} {x : ExceptT ε (StateM σ) α} {f : α → ExceptT ε (StateM σ) β} {s s' : σ}
    {a : α} (h : x.run.run s = (.ok a, s')) : (x >>= f).run.run s = (f a).run.run s' := by
  rw [ExceptT.run_bind, run_bind h]

theorem run_bind_of_error {α β : Type} {x : ExceptT ε (StateM σ) α} {f : α → ExceptT ε (StateM σ) β}
    {s s' : σ} {e : ε} (h : x.run.run s = (.error e, s')) : (x >>= f).run.run s = (.error e, s') := by
  rw [ExceptT.run_bind, run_bind h]
  rfl

/-- A computation that ends without an error has not met one. -/
theorem of_run_bind_ok {α β : Type} {x : ExceptT ε (StateM σ) α} {f : α → ExceptT ε (StateM σ) β} {s s'' : σ} {b : β}
    (h : (x >>= f).run.run s = (.ok b, s'')) :
    ∃ a s', x.run.run s = (.ok a, s') ∧ (f a).run.run s' = (.ok b, s'') := by
  cases hx : x.run.run s with
  | mk result s' =>
      cases result with
      | error e =>
          rw [run_bind_of_error hx] at h
          cases h
      | ok a =>
          rw [run_bind_of_ok hx] at h
          exact ⟨a, s', rfl, h⟩

/-! ## Machines -/

/-- The run of a total step: the last state and the outputs, in order. -/
def run (step : σ → ι → σ × ο) : σ → List ι → σ × List ο
  | s, [] => (s, [])
  | s, i :: is =>
      let next := step s i
      let rest := run step next.1 is
      (rest.1, next.2 :: rest.2)

/-- The run of a step that may fail; the first failure ends it. -/
def tryRun (step : σ → ι → Except ε (σ × ο)) : σ → List ι → Except ε (σ × List ο)
  | s, [] => .ok (s, [])
  | s, i :: is =>
      match step s i with
      | .error e => .error e
      | .ok (s', o) =>
          match tryRun step s' is with
          | .error e => .error e
          | .ok (s'', os) => .ok (s'', o :: os)

/-- Every state a failing run visits satisfies `G`, for as long as the steps return. -/
def Stays (G : σ → Prop) (step : σ → ι → Except ε (σ × ο)) : σ → List ι → Prop
  | s, [] => G s
  | s, i :: is => G s ∧ ∀ s' o, step s i = .ok (s', o) → Stays G step s' is

/-- Every input a failing run reads meets `P` in the state that reads it, for as long as the steps return. -/
def Admits (P : σ → ι → Prop) (step : σ → ι → Except ε (σ × ο)) : σ → List ι → Prop
  | _, [] => True
  | s, i :: is => P s i ∧ ∀ s' o, step s i = .ok (s', o) → Admits P step s' is

/-- Every state a total run visits satisfies `G`. -/
def Always (G : σ → Prop) (step : σ → ι → σ × ο) : σ → List ι → Prop
  | s, [] => G s
  | s, i :: is => G s ∧ Always G step (step s i).1 is

instance decidableStays (G : σ → Prop) [DecidablePred G] (step : σ → ι → Except ε (σ × ο)) :
    (s : σ) → (is : List ι) → Decidable (Stays G step s is)
  | s, [] => inferInstanceAs (Decidable (G s))
  | s, i :: is =>
      match h : step s i with
      | .error _ => decidable_of_iff (G s) (by simp [Stays, h])
      | .ok (s', _) =>
          have := decidableStays G step s' is
          decidable_of_iff (G s ∧ Stays G step s' is) (by simp [Stays, h])

instance decidableAdmits (P : σ → ι → Prop) [∀ s i, Decidable (P s i)] (step : σ → ι → Except ε (σ × ο)) :
    (s : σ) → (is : List ι) → Decidable (Admits P step s is)
  | _, [] => isTrue trivial
  | s, i :: is =>
      match h : step s i with
      | .error _ => decidable_of_iff (P s i) (by simp [Admits, h])
      | .ok (s', _) =>
          have := decidableAdmits P step s' is
          decidable_of_iff (P s i ∧ Admits P step s' is) (by simp [Admits, h])

/-! ## Total runs -/

section Total

variable {step : σ → ι → σ × ο}

@[simp] theorem run_nil (s : σ) : run step s [] = (s, []) := rfl

@[simp] theorem run_cons (s : σ) (i : ι) (is : List ι) :
    run step s (i :: is)
      = ((run step (step s i).1 is).1, (step s i).2 :: (run step (step s i).1 is).2) := rfl

/-- One output for each input. -/
@[simp] theorem length_run (s : σ) (is : List ι) : (run step s is).2.length = is.length := by
  induction is generalizing s with
  | nil => rfl
  | cons i is ih => simp [ih]

/-- A run is the run of its first part and, from where that ends, the run of the rest. -/
theorem run_append (s : σ) (is js : List ι) :
    run step s (is ++ js)
      = ((run step (run step s is).1 js).1, (run step s is).2 ++ (run step (run step s is).1 js).2) := by
  induction is generalizing s with
  | nil => simp
  | cons i is ih => simp [ih]

/-- **The invariant rule.** What every step preserves, every run preserves. -/
theorem run_invariant {Inv : σ → Prop} (hstep : ∀ s i, Inv s → Inv (step s i).1) {s : σ}
    (hs : Inv s) (is : List ι) : Inv (run step s is).1 := by
  induction is generalizing s with
  | nil => exact hs
  | cons i is ih => exact ih (hstep s i hs)

/-- The invariant rule for inputs that all meet `P`. -/
theorem run_invariant_of {Inv : σ → Prop} {P : ι → Prop} (hstep : ∀ s i, Inv s → P i → Inv (step s i).1)
    {s : σ} (hs : Inv s) {is : List ι} (his : ∀ i ∈ is, P i) : Inv (run step s is).1 := by
  induction is generalizing s with
  | nil => exact hs
  | cons i is ih =>
      obtain ⟨hi, his⟩ := List.forall_mem_cons.mp his
      exact ih (hstep s i hs hi) his

/-- **The history rule.** What every step passes on, with its input and output added to the history, holds
    after every run, with the whole run added. -/
theorem run_history {Inv : σ → List ι → List ο → Prop}
    (hstep : ∀ s js ps i, Inv s js ps → Inv (step s i).1 (js ++ [i]) (ps ++ [(step s i).2]))
    {s : σ} {js : List ι} {ps : List ο} (hs : Inv s js ps) (is : List ι) :
    Inv (run step s is).1 (js ++ is) (ps ++ (run step s is).2) := by
  induction is generalizing s js ps with
  | nil =>
      rw [run_nil, List.append_nil, List.append_nil]
      exact hs
  | cons i is ih =>
      have hrest := ih (hstep s js ps i hs)
      rw [List.append_assoc, List.append_assoc] at hrest
      exact hrest

/-- **The homomorphism rule.** If one step of the image is the image of one step, on every input that meets
    `P` and from every state that meets the invariant, then the run of the image is the image of the
    run. -/
theorem run_map_of {step' : τ → κ → τ × π} {Inv : σ → Prop} {P : ι → Prop} {h : σ → τ} {f : ι → κ}
    {g : ο → π} (hinv : ∀ s i, Inv s → P i → Inv (step s i).1)
    (hstep : ∀ s i, Inv s → P i → step' (h s) (f i) = (h (step s i).1, g (step s i).2))
    {s : σ} (hs : Inv s) {is : List ι} (his : ∀ i ∈ is, P i) :
    run step' (h s) (is.map f) = (h (run step s is).1, (run step s is).2.map g) := by
  induction is generalizing s with
  | nil => rfl
  | cons i is ih =>
      obtain ⟨hi, his⟩ := List.forall_mem_cons.mp his
      simp [hstep s i hs hi, ih (hinv s i hs hi) his]

/-- The homomorphism rule for all inputs. -/
theorem run_map {step' : τ → κ → τ × π} {Inv : σ → Prop} {h : σ → τ} {f : ι → κ} {g : ο → π}
    (hinv : ∀ s i, Inv s → Inv (step s i).1)
    (hstep : ∀ s i, Inv s → step' (h s) (f i) = (h (step s i).1, g (step s i).2))
    {s : σ} (hs : Inv s) (is : List ι) :
    run step' (h s) (is.map f) = (h (run step s is).1, (run step s is).2.map g) :=
  run_map_of (P := fun _ => True) (fun s i h _ => hinv s i h) (fun s i h _ => hstep s i h) hs
    (fun _ _ => trivial)

/-- **The deletion rule.** `hide` takes from a state what some inputs leave in it. If the inputs that
    `keep` drops change nothing else, and the others do the same with and without it, then deleting the
    dropped inputs from a run takes their outputs away and nothing else that shows. -/
theorem run_filter {Inv : σ → Prop} {hide : σ → σ} {keep : ι → Bool} {quiet : ο → Prop}
    (hinv : ∀ s i, Inv s → Inv (step s i).1)
    (hdrop : ∀ s i, Inv s → quiet (step s i).2 → keep i = false → hide (step s i).1 = hide s)
    (hkeep : ∀ s i, Inv s → quiet (step s i).2 → keep i = true →
      step (hide s) i = (hide (step s i).1, (step s i).2))
    {s : σ} (hs : Inv s) (is : List ι) (hquiet : ∀ o ∈ (run step s is).2, quiet o) :
    run step (hide s) (is.filter keep)
      = (hide (run step s is).1, ((is.zip (run step s is).2).filter fun r => keep r.1).map Prod.snd) := by
  induction is generalizing s with
  | nil => rfl
  | cons i is ih =>
      rw [run_cons] at hquiet ⊢
      obtain ⟨hnow, hlater⟩ := List.forall_mem_cons.mp hquiet
      have ih := ih (hinv s i hs) hlater
      cases hi : keep i with
      | false =>
          rw [← hdrop s i hs hnow hi, List.filter_cons_of_neg (by simp [hi]), ih, List.zip_cons_cons,
            List.filter_cons_of_neg (by simp [hi])]
      | true =>
          rw [List.filter_cons_of_pos hi, run_cons, hkeep s i hs hnow hi, ih, List.zip_cons_cons,
            List.filter_cons_of_pos (by simp [hi])]
          rfl

theorem Always.start {G : σ → Prop} {s : σ} {is : List ι} (h : Always G step s is) : G s := by
  cases is with
  | nil => exact h
  | cons i is => exact h.1

/-- A condition holds on a run if it holds on both of its parts. -/
theorem always_append {G : σ → Prop} {s : σ} {is js : List ι} :
    Always G step s (is ++ js) ↔ Always G step s is ∧ Always G step (run step s is).1 js := by
  induction is generalizing s with
  | nil => exact ⟨fun h => ⟨h.start, h⟩, fun h => h.2⟩
  | cons i is ih =>
      show G s ∧ Always G step (step s i).1 (is ++ js) ↔ (G s ∧ Always G step (step s i).1 is) ∧ _
      rw [ih, and_assoc]
      rfl

/-- What always holds of a run always holds of its image. -/
theorem Always.map_of {step' : τ → κ → τ × π} {Inv G : σ → Prop} {G' : τ → Prop} {P : ι → Prop} {h : σ → τ}
    {f : ι → κ} {g : ο → π} (hinv : ∀ s i, Inv s → P i → Inv (step s i).1)
    (hstep : ∀ s i, Inv s → P i → step' (h s) (f i) = (h (step s i).1, g (step s i).2))
    (hG : ∀ s, G s → G' (h s)) {s : σ} (hs : Inv s) {is : List ι} (his : ∀ i ∈ is, P i)
    (halways : Always G step s is) : Always G' step' (h s) (is.map f) := by
  induction is generalizing s with
  | nil => exact hG s halways
  | cons i is ih =>
      obtain ⟨hi, his⟩ := List.forall_mem_cons.mp his
      refine ⟨hG s halways.1, ?_⟩
      rw [hstep s i hs hi]
      exact ih (hinv s i hs hi) his halways.2

/-- Always means after every part of the inputs. -/
theorem always_iff_prefix {G : σ → Prop} {s : σ} {is : List ι} :
    Always G step s is ↔ ∀ js, js <+: is → G (run step s js).1 := by
  induction is generalizing s with
  | nil => simp [Always]
  | cons i is ih =>
      unfold Always
      rw [ih]
      constructor
      · rintro ⟨hs, hrest⟩ js hjs
        cases js with
        | nil => exact hs
        | cons j js =>
            obtain ⟨rfl, hjs'⟩ := List.cons_prefix_cons.mp hjs
            exact hrest js hjs'
      · intro h
        refine ⟨h [] (List.nil_prefix ..), ?_⟩
        intro js hjs
        exact h (i :: js) (List.cons_prefix_cons.mpr ⟨rfl, hjs⟩)

end Total

/-! ## Runs that may fail -/

section Failing

variable {step : σ → ι → Except ε (σ × ο)} {G : σ → Prop}

@[simp] theorem tryRun_nil (s : σ) : tryRun step s [] = .ok (s, []) := rfl

/-- A step that returns is peeled off the front of a run. -/
theorem tryRun_cons {s s' : σ} {i : ι} {o : ο} (h : step s i = .ok (s', o)) (is : List ι) :
    tryRun step s (i :: is) = (tryRun step s' is).map fun r => (r.1, o :: r.2) := by
  simp only [tryRun, h]
  cases tryRun step s' is <;> rfl

/-- A run that returned made its first step, and then ran on from there. -/
theorem tryRun_cons_ok {s s'' : σ} {i : ι} {is : List ι} {os : List ο}
    (h : tryRun step s (i :: is) = .ok (s'', os)) :
    ∃ s' o os', step s i = .ok (s', o) ∧ tryRun step s' is = .ok (s'', os') ∧ os = o :: os' := by
  cases hs : step s i with
  | error e => simp [tryRun, hs] at h
  | ok r =>
      obtain ⟨s', o⟩ := r
      cases hr : tryRun step s' is with
      | error e => simp [tryRun, hs, hr] at h
      | ok r =>
          obtain ⟨t, os'⟩ := r
          simp only [tryRun, hs, hr, Except.ok.injEq, Prod.mk.injEq] at h
          obtain ⟨rfl, rfl⟩ := h
          exact ⟨s', o, os', rfl, hr, rfl⟩

/-- A run that returned goes on where it ended. -/
theorem tryRun_append {s s' : σ} {is : List ι} {os : List ο} (h : tryRun step s is = .ok (s', os))
    (js : List ι) :
    tryRun step s (is ++ js) = (tryRun step s' js).map fun r => (r.1, os ++ r.2) := by
  induction is generalizing s os with
  | nil =>
      simp only [tryRun_nil, Except.ok.injEq, Prod.mk.injEq] at h
      obtain ⟨rfl, rfl⟩ := h
      cases hj : tryRun step s js <;> simp [hj, Except.map]
  | cons i is ih =>
      obtain ⟨t, o, os', hstep, hrest, rfl⟩ := tryRun_cons_ok h
      rw [List.cons_append, tryRun_cons hstep, ih hrest]
      cases tryRun step s' js <;> rfl

/-- A run that returned made its first part, and then ran on from there. -/
theorem tryRun_append_ok {s s'' : σ} {is js : List ι} {os : List ο}
    (h : tryRun step s (is ++ js) = .ok (s'', os)) :
    ∃ s' os' os'', tryRun step s is = .ok (s', os') ∧ tryRun step s' js = .ok (s'', os'')
      ∧ os = os' ++ os'' := by
  induction is generalizing s os with
  | nil => exact ⟨s, [], os, rfl, h, rfl⟩
  | cons i is ih =>
      obtain ⟨t, o, rest, hstep, hrest, rfl⟩ := tryRun_cons_ok h
      obtain ⟨s', os', os'', hfirst, hthen, rfl⟩ := ih hrest
      refine ⟨s', o :: os', os'', ?_, hthen, rfl⟩
      rw [tryRun_cons hstep, hfirst]
      rfl

theorem Stays.start {s : σ} {is : List ι} (h : Stays G step s is) : G s := by
  cases is with
  | nil => exact h
  | cons i is => exact h.1

/-- What holds on a run holds on its first part. -/
theorem Stays.append_left {s : σ} {is js : List ι} (h : Stays G step s (is ++ js)) :
    Stays G step s is := by
  induction is generalizing s with
  | nil => exact h.start
  | cons i is ih => exact ⟨h.1, fun s' o hs => ih (h.2 s' o hs)⟩

/-- Inputs that meet `P` in every state are admitted from any of them. -/
theorem Admits.of_forall {P : σ → ι → Prop} {is : List ι} (h : ∀ s, ∀ i ∈ is, P s i) (s : σ) :
    Admits P step s is := by
  induction is generalizing s with
  | nil => trivial
  | cons i is ih =>
      refine ⟨h s i List.mem_cons_self, ?_⟩
      intro s' o _
      exact ih (fun s j hj => h s j (List.mem_cons_of_mem i hj)) s'

/-- Inputs that are admitted are admitted up to any of them. -/
theorem Admits.append_left {P : σ → ι → Prop} {s : σ} {is js : List ι} (h : Admits P step s (is ++ js)) :
    Admits P step s is := by
  induction is generalizing s with
  | nil => trivial
  | cons i is ih => exact ⟨h.1, fun s' o hs => ih (h.2 s' o hs)⟩

/-- **The progress rule.** `Inv` relates a state to the inputs still to come. If from such a state the next
    input is answered and the rest is still to come, then every part of the inputs is answered. -/
theorem tryRun_progress {Inv : σ → List ι → Prop}
    (hstep : ∀ s i is, Inv s (i :: is) → ∃ s' o, step s i = .ok (s', o) ∧ Inv s' is)
    {s : σ} {is todo : List ι} (hs : Inv s (is ++ todo)) :
    ∃ s' os, tryRun step s is = .ok (s', os) ∧ Inv s' todo := by
  induction is generalizing s with
  | nil => exact ⟨s, [], rfl, hs⟩
  | cons i is ih =>
      obtain ⟨s', o, hone, hrest⟩ := hstep s i (is ++ todo) hs
      obtain ⟨s'', os, hrun, htodo⟩ := ih hrest
      exact ⟨s'', o :: os, by rw [tryRun_cons hone, hrun]; rfl, htodo⟩

/-- **The refinement rule.** `Rel` relates a machine that may fail to a total one. If, from related
    states and under the guard, the failing step returns what the total step returns and ends related,
    then a whole guarded run returns, with the outputs of the total run. -/
theorem tryRun_refines {step' : τ → ι → τ × ο} {Rel : σ → τ → Prop}
    (hstep : ∀ s t i, Rel s t → (∀ s' o, step s i = .ok (s', o) → G s') →
      ∃ s', step s i = .ok (s', (step' t i).2) ∧ Rel s' (step' t i).1)
    {s : σ} {t : τ} {is : List ι} (hrel : Rel s t) (hguard : Stays G step s is) :
    ∃ s', tryRun step s is = .ok (s', (run step' t is).2) ∧ Rel s' (run step' t is).1 := by
  induction is generalizing s t with
  | nil => exact ⟨s, rfl, hrel⟩
  | cons i is ih =>
      obtain ⟨s', hs, hrel'⟩ := hstep s t i hrel (fun s' o h => (hguard.2 s' o h).start)
      obtain ⟨s'', hr, hrel''⟩ := ih hrel' (hguard.2 s' _ hs)
      exact ⟨s'', by rw [tryRun_cons hs, hr]; rfl, hrel''⟩

/-- **The guard of a failing machine, seen on the total one.** From related states every step returns
    and the guards agree on the results; where they hold, the results are related again. -/
theorem stays_iff_always {step' : τ → ι → τ × ο} {Rel : σ → τ → Prop} {G' : τ → Prop}
    (hguard : ∀ s t, Rel s t → (G s ↔ G' t))
    (hstep : ∀ s t i, Rel s t → ∃ s', step s i = .ok (s', (step' t i).2)
      ∧ (G s' ↔ G' (step' t i).1) ∧ (G' (step' t i).1 → Rel s' (step' t i).1))
    {s : σ} {t : τ} {is : List ι} (hrel : Rel s t) :
    Stays G step s is ↔ Always G' step' t is := by
  induction is generalizing s t with
  | nil => exact hguard s t hrel
  | cons i is ih =>
      obtain ⟨s', hs, hguard', hrel'⟩ := hstep s t i hrel
      unfold Stays Always
      rw [hguard s t hrel]
      apply and_congr_right
      intro _
      constructor
      · intro h
        have hstays := h s' _ hs
        exact (ih (hrel' (hguard'.mp hstays.start))).mp hstays
      · intro h s'' o hs''
        rw [hs] at hs''
        cases hs''
        exact (ih (hrel' h.start)).mpr h

end Failing
end Machine
