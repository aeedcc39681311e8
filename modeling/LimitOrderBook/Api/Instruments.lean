import LimitOrderBook.Api.Types
import LimitOrderBook.Lib.RowLock

/-!
# `Api.Instruments` — the status of an instrument (`src/api/admin/instruments.rs`)

`updateInstrumentStatus` is the transaction that the handler runs on the row of its instrument. Every
statement that fails is logged and answered with the same error.
-/

namespace LimitOrderBook

/-- Instrument categories supported by the PostgreSQL asset_class enum. -/
inductive AssetClass where
  | crypto
  | stock
  | futures
  | commodities
deriving DecidableEq, Repr

/-- Trading states supported by the PostgreSQL market_status enum. -/
inductive MarketStatus where
  | active
  | paused
  | delisted
deriving DecidableEq, Repr

/-- Instrument representation returned by the API: the row of the instruments table. -/
structure InstrumentResponse where
  id : Uuid
  symbol : String
  assetClass : AssetClass
  baseAsset : String
  quoteAsset : String
  priceScale : Int32
  quantityScale : Int32
  tickSize : Int64
  lotSize : Int64
  status : MarketStatus
  createdAt : Timestamp
deriving DecidableEq, Repr

structure UpdateInstrumentStatusRequest where
  status : MarketStatus
deriving DecidableEq, Repr

/-- The `matches!` of the source. -/
def validTransition : MarketStatus → MarketStatus → Bool
  | .active, .paused => true
  | .paused, .active => true
  | .active, .delisted => true
  | .paused, .delisted => true
  | .active, .active => true
  | .paused, .paused => true
  | .delisted, .delisted => true
  | _, _ => false

def failedToUpdateStatus : ApiError := ⟨.internalServerError, "failed to update instrument status"⟩

def instrumentNotFound : ApiError := ⟨.notFound, "instrument not found"⟩

def invalidStatusTransition : ApiError := ⟨.conflict, "invalid instrument status transition"⟩

def updateInstrumentStatus (request : UpdateInstrumentStatusRequest) :
    RowLock.Transaction InstrumentResponse (Except ApiError InstrumentResponse) :=
  .start (.error failedToUpdateStatus) <|
  .selectForUpdate (.error failedToUpdateStatus) fun row =>
    match row.map InstrumentResponse.status with
    | none => .finish (.error instrumentNotFound)
    | some currentStatus =>
        if !validTransition currentStatus request.status then .finish (.error invalidStatusTransition)
        else
          .update (.error failedToUpdateStatus) (fun row => { row with status := request.status })
            fun instrument => .commit (.error failedToUpdateStatus) (.ok instrument)

end LimitOrderBook
