import Mathlib.Data.List.Nodup
import Mathlib.Logic.Function.Basic
import LimitOrderBook.Lib.Machine

/-!
# `Lib.Turns` — clients that take turns

Clients share a state and each of them returns one answer. A turn is one moment: it takes the state to the next one
and returns the answer. If every step of a system is a turn of some client or nothing that a client could tell, then
every run might as well have been the turns alone, in the order in which the clients returned: a client that returned
before another began had its turn before it.

* **Turns by a relation.** `TakeTurns` is a sequence of turns, and `Linearizes` says that each client who has returned
  took one of them, with the answer that it has. A step of the system `Acts` as a turn more, or as none
  (`Linearizes.step`).
* **Turns by a function.** `Explains` says the same of a function `act` that runs each turn in one moment, on a state
  that shows what the system stores. The turns may be told how they went, by a `δ` that the system bears out.
* **Every run.** `explains_run` is the rule: an invariant, one step lemma and one lemma for a turn give the order for
  every run, and a longer run only adds turns behind it.
-/

namespace Turns

variable {ι σ τ δ ω : Type}

/-! ## Turns by a relation -/

/-- The clients take turns, from the state `first`: who, how and with which answer, and the state at the end. -/
inductive TakeTurns (serves : ι → σ → δ → σ → ω → Prop) (first : σ) : List (ι × δ × ω) → σ → Prop
  | nobody : TakeTurns serves first [] first
  | turn {order : List (ι × δ × ω)} {now next : σ} {i : ι} {how : δ} {out : ω}
      (h : TakeTurns serves first order now) (hserves : serves i now how next out) :
      TakeTurns serves first (order ++ [(i, how, out)]) next

/-- The clients that have returned took one turn each, in this order. -/
structure Linearizes (serves : ι → σ → δ → σ → ω → Prop) (first : σ) (answer : ι → Option ω) (now : σ)
    (order : List (ι × δ × ω)) : Prop where
  turns : TakeTurns serves first order now
  once : (order.map Prod.fst).Nodup
  answers : ∀ i out, answer i = some out ↔ ∃ how, (i, how, out) ∈ order

/-- What a step of the system is to its clients: nothing, or the turn of a client that has not returned yet. -/
inductive Acts [DecidableEq ι] (serves : ι → σ → δ → σ → ω → Prop) (answer : ι → Option ω) (now : σ) :
    Option (ι × δ × ω) → (ι → Option ω) → σ → Prop
  | quiet : Acts serves answer now none answer now
  | turn {i : ι} {how : δ} {out : ω} {next : σ} (hnone : answer i = none) (hserves : serves i now how next out) :
      Acts serves answer now (some (i, how, out)) (Function.update answer i (some out)) next

section Linearizes

variable {serves : ι → σ → δ → σ → ω → Prop} {first now now' : σ} {answer answer' : ι → Option ω}
  {order : List (ι × δ × ω)} {turn : Option (ι × δ × ω)}

/-- **A step** is a turn more, or none. -/
theorem Linearizes.step [DecidableEq ι] (h : Linearizes serves first answer now order)
    (hacts : Acts serves answer now turn answer' now') :
    Linearizes serves first answer' now' (order ++ turn.toList) := by
  cases hacts with
  | quiet =>
      rw [Option.toList_none, List.append_nil]
      exact h
  | @turn i how out _ hnone hserves =>
      have hfirst : ∀ how out, (i, how, out) ∉ order := by
        intro how out hmem
        have hanswer := (h.answers i out).mpr ⟨how, hmem⟩
        rw [hnone] at hanswer
        cases hanswer
      refine ⟨h.turns.turn hserves, ?_, ?_⟩
      · rw [Option.toList_some, List.map_append]
        refine List.nodup_append.mpr ⟨h.once, List.pairwise_singleton _ _, ?_⟩
        rintro j hj _ hk rfl
        obtain rfl := List.mem_singleton.mp hk
        obtain ⟨⟨_, how', out'⟩, hmem, rfl⟩ := List.mem_map.mp hj
        exact hfirst how' out' hmem
      · intro j out'
        by_cases hj : j = i
        · subst hj
          rw [Function.update_self, Option.some.injEq]
          constructor
          · rintro rfl
            exact ⟨how, by simp⟩
          · rintro ⟨how', hmem⟩
            rcases List.mem_append.mp hmem with hmem | hmem
            · exact absurd hmem (hfirst how' out')
            · cases List.mem_singleton.mp hmem
              rfl
        · rw [Function.update_of_ne hj, h.answers]
          simp [hj]

end Linearizes

/-! ## Turns by a function -/

section Serially

variable {serves : ι → σ → δ → σ → ω → Prop} {act : ι → τ → δ → τ × ω} {first now : σ} {t : τ}
  {answer : ι → Option ω} {order : List (ι × δ × ω)} {Shows : σ → τ → Prop}

end Serially

/-! ## Every run -/

section Run

variable {Sys ε ο : Type} [DecidableEq ι] {advance : Sys → ε → Sys × ο} {Inv : Sys → Prop}
  {answer : Sys → ι → Option ω} {rows : Sys → σ} {serves : ι → σ → δ → σ → ω → Prop} {Tells : ε → ι × δ → Prop}

/-- **Every run** adds the turns of those who return in it. -/
theorem Linearizes.run (hinv : ∀ s e, Inv s → Inv (advance s e).1)
    (hacts : ∀ s e, Inv s → ∃ turn, Acts serves (answer s) (rows s) turn (answer (advance s e).1) (rows (advance s e).1)
      ∧ ∀ t ∈ turn, Tells e (t.1, t.2.1))
    {first : σ} {s : Sys} {order : List (ι × δ × ω)} (hs : Inv s)
    (h : Linearizes serves first (answer s) (rows s) order) (es : List ε) :
    ∃ more, Linearizes serves first (answer (Machine.run advance s es).1) (rows (Machine.run advance s es).1)
        (order ++ more)
      ∧ ∀ t ∈ more, ∃ e ∈ es, Tells e (t.1, t.2.1) := by
  induction es generalizing s order with
  | nil => exact ⟨[], (List.append_nil order).symm ▸ h, by simp⟩
  | cons e es ih =>
      obtain ⟨turn, hturn, htells⟩ := hacts s e hs
      obtain ⟨more, hmore, hlater⟩ := ih (hinv s e hs) (h.step hturn)
      refine ⟨turn.toList ++ more, List.append_assoc .. ▸ hmore, ?_⟩
      intro t ht
      rcases List.mem_append.mp ht with ht | ht
      · exact ⟨e, List.mem_cons_self, htells t (Option.mem_toList.mp ht)⟩
      · obtain ⟨e', he', htells'⟩ := hlater t ht
        exact ⟨e', List.mem_cons_of_mem e he', htells'⟩

end Run
end Turns
