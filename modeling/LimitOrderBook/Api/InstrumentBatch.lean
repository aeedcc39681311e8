import LimitOrderBook.Api.CreateInstruments
import LimitOrderBook.Lib.TableLock

/-!
# `Api.InstrumentBatch` — a batch of instruments, statement by statement (`src/api/admin/instruments.rs`)

`Api.CreateInstruments` has the handler as one moment. Here it is the transaction that it sends: the beginning, an
insert for each request in turn, the commit. Between two of its statements other batches run theirs, an insert waits
for a row that shares its symbol and is not committed yet, and any statement can fail or lose its answer.
-/

namespace LimitOrderBook

open TableLock (Catalog Failure Transaction)

/-- How a failed insert of a batch is answered. -/
def instrumentsFailed : Failure → ApiError
  | .unique => instrumentsAlreadyExist
  | .other => failedToCreateInstruments

/-- A request to create instruments, with what the handler reads besides. -/
structure InstrumentBatch where
  requests : List CreateInstrumentRequest
  newId : Nat → Uuid
  now : Timestamp

namespace InstrumentBatch

/-- The loop of `create_instruments`, and the commit behind it. -/
def inserts (batch : InstrumentBatch) (turn : Nat) (instruments : List InstrumentResponse) :
    List CreateInstrumentRequest →
      Transaction Unit InstrumentResponse (Except ApiError (StatusCode × List InstrumentResponse))
  | [] => .commit (.error failedToCreateInstruments) (.ok (.created, instruments))
  | request :: requests =>
      let row := instrumentRow batch.now (batch.newId turn) request
      .insert (fun why => .error (instrumentsFailed why)) row
        (inserts batch (turn + 1) (instruments ++ [row]) requests)

/-- The handler of POST /admin/instruments. -/
def transaction (unicode : Unicode) (batch : InstrumentBatch) :
    Transaction Unit InstrumentResponse (Except ApiError (StatusCode × List InstrumentResponse)) :=
  if batch.requests.isEmpty then .finish (.error atLeastOneInstrument)
  else if maxInstrumentsPerRequest < batch.requests.length then .finish (.error tooManyInstruments)
  else
    match batch.requests.mapM (validateInstrument unicode) with
    | .error e => .finish (.error e)
    | .ok requests => .start (.error failedToCreateInstruments) (batch.inserts 0 [] requests)

end InstrumentBatch
end LimitOrderBook
