import Mathlib.Data.List.Sort
import LimitOrderBook.Api.CreateInstruments
import LimitOrderBook.Lib.Statement

/-!
# `Api.ReadInstruments` — reading instruments (`src/api/instruments.rs`)
-/

namespace LimitOrderBook

/-- The collation that the database orders text by. -/
structure Collation where
  le : String → String → Bool
  total : ∀ s s', (le s s' || le s' s) = true
  trans : ∀ s s' s'', le s s' = true → le s' s'' = true → le s s'' = true

def failedToListInstruments : ApiError := ⟨.internalServerError, "failed to list instruments"⟩

def failedToLoadInstrument : ApiError := ⟨.internalServerError, "failed to load instrument"⟩

/-- Lists every instrument, ordered by symbol. -/
def listInstruments (collation : Collation) (instruments : Table instrumentsSchema) (delivery : Delivery) :
    Except ApiError (List InstrumentResponse) :=
  delivery.query failedToListInstruments
    (instruments.rows.insertionSort fun row row' => collation.le row.symbol row'.symbol = true)

/-- Returns one instrument by id. -/
def getInstrument (instruments : Table instrumentsSchema) (delivery : Delivery) (instrumentId : Uuid) :
    Except ApiError InstrumentResponse := do
  match ← delivery.query failedToLoadInstrument (instruments.rows.find? fun row => row.id == instrumentId) with
  | none => .error instrumentNotFound
  | some instrument => .ok instrument

end LimitOrderBook
