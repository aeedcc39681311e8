import LimitOrderBook.Lib.Table

/-!
# `Lib.Statement` — what a client learns of its statements

A statement can fail before it takes effect, and it can take effect while its answer is lost. The client cannot
tell the two apart: it reports the same error.
-/

/-- What becomes of a statement between the client and the database. -/
inductive Delivery where
  | answered
  | failed
  | answerLost
deriving DecidableEq, Repr

namespace Delivery

variable {σ α ε : Type}

/-- A query: what it finds, if its answer arrives. -/
def query (delivery : Delivery) (failed : ε) (found : α) : Except ε α :=
  match delivery with
  | .answered => .ok found
  | _ => .error failed

/-- A statement that writes: the state that it leaves, and what the client makes of its answer. -/
def write (delivery : Delivery) (failed : ε) (s : σ) (done : σ × Except ε α) : σ × Except ε α :=
  match delivery with
  | .answered => done
  | .failed => (s, .error failed)
  | .answerLost => (done.1, .error failed)

theorem query_eq_ok {delivery : Delivery} {failed : ε} {found a : α} (h : delivery.query failed found = .ok a) :
    found = a := by
  cases delivery with
  | answered => exact Except.ok.inj h
  | failed => cases h
  | answerLost => cases h

/-- A write leaves the state as it was, or takes effect. -/
theorem fst_write (delivery : Delivery) (failed : ε) (s : σ) (done : σ × Except ε α) :
    (delivery.write failed s done).1 = s ∨ (delivery.write failed s done).1 = done.1 := by
  cases delivery with
  | answered => exact Or.inr rfl
  | failed => exact Or.inl rfl
  | answerLost => exact Or.inr rfl

/-- A write that changes nothing is answered with an error. -/
theorem write_error (delivery : Delivery) (failed e : ε) (s : σ) :
    ∃ e', delivery.write failed s (s, (.error e : Except ε α)) = (s, .error e') := by
  cases delivery with
  | answered => exact ⟨e, rfl⟩
  | failed => exact ⟨failed, rfl⟩
  | answerLost => exact ⟨failed, rfl⟩

end Delivery

namespace Table

variable {ρ ε : Type} {schema : Schema ρ}

/-- `INSERT INTO … RETURNING`: `taken` is the error for a key that is taken, `failed` the one for any other
    failure; `referenced` says that the foreign keys of the row hold. -/
def insertReturning (t : Table schema) (referenced : Bool) (taken failed : ε) (r : ρ) : Table schema × Except ε ρ :=
  match t.insert r with
  | .error .unique => (t, .error taken)
  | .error .check => (t, .error failed)
  | .ok t' => if referenced then (t', .ok r) else (t, .error failed)

/-- The row goes in and its client learns it, or learns of a failure; or nothing changes. -/
theorem write_insertReturning_cases (t : Table schema) (delivery : Delivery) (referenced : Bool) (taken failed : ε)
    (r : ρ) :
    (∃ e, delivery.write failed t (t.insertReturning referenced taken failed r) = (t, .error e))
      ∨ ∃ t' result, delivery.write failed t (t.insertReturning referenced taken failed r) = (t', result)
        ∧ t.insert r = .ok t' ∧ referenced = true
        ∧ (delivery = .answered ∧ result = .ok r ∨ delivery = .answerLost ∧ result = .error failed) := by
  unfold insertReturning
  split
  next => exact Or.inl (delivery.write_error failed taken t)
  next => exact Or.inl (delivery.write_error failed failed t)
  next t' hinsert =>
    cases referenced with
    | false => exact Or.inl (delivery.write_error failed failed t)
    | true =>
        cases delivery with
        | answered => exact Or.inr ⟨t', .ok r, rfl, hinsert, rfl, Or.inl ⟨rfl, rfl⟩⟩
        | failed => exact Or.inl ⟨failed, rfl⟩
        | answerLost => exact Or.inr ⟨t', .error failed, rfl, hinsert, rfl, Or.inr ⟨rfl, rfl⟩⟩

end Table
