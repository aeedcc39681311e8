import LimitOrderBook.Api.Instruments
import LimitOrderBook.Api.Text
import LimitOrderBook.Lib.Table

/-!
# `Api.CreateInstruments` — creating instruments (`src/api/admin/instruments.rs`, `migrations/`)

The handler validates the whole batch and then inserts it in one transaction. A transaction that does not
commit is rolled back, so the table is then the one before it.
-/

namespace LimitOrderBook

/-- `MAX_INSTRUMENTS_PER_REQUEST`. -/
def maxInstrumentsPerRequest : Nat := 100

/-- Values an administrator supplies when creating a market. -/
structure CreateInstrumentRequest where
  symbol : String
  assetClass : AssetClass
  baseAsset : String
  quoteAsset : String
  priceScale : Int32
  quantityScale : Int32
  tickSize : Int64
  lotSize : Int64
deriving DecidableEq, Repr

def atLeastOneInstrument : ApiError := ⟨.badRequest, "at least one instrument is required"⟩

def tooManyInstruments : ApiError := ⟨.badRequest, "cannot create more than 100 instruments"⟩

def emptySymbolOrAsset : ApiError := ⟨.badRequest, "symbol and asset codes cannot be empty"⟩

def sameAssets : ApiError := ⟨.badRequest, "base_asset and quote_asset must differ"⟩

def scalesOutOfRange : ApiError := ⟨.badRequest, "scales must be between 0 and 18"⟩

def sizesNotPositive : ApiError := ⟨.badRequest, "tick_size and lot_size must be positive"⟩

def invalidSymbol : ApiError := ⟨.badRequest, "symbol may contain only letters, numbers, and hyphens"⟩

def instrumentsAlreadyExist : ApiError := ⟨.conflict, "one or more instruments already exist"⟩

def failedToCreateInstruments : ApiError := ⟨.internalServerError, "failed to create instruments"⟩

/-- `(0..=18).contains`. -/
def validScale (scale : Int32) : Bool := 0 ≤ scale && scale ≤ 18

/-- `is_ascii_alphanumeric`, or a hyphen. -/
def validSymbolChar (character : Char) : Bool := character.isAlphanum || character == '-'

/-- The upper-case text that an instrument stores. -/
def normalized (unicode : Unicode) (text : String) : String := toAsciiUppercase (unicode.trim text)

/-- Normalizes and validates administrator-supplied instrument data. -/
def validateInstrument (unicode : Unicode) (request : CreateInstrumentRequest) :
    Except ApiError CreateInstrumentRequest :=
  let request := { request with
    symbol := normalized unicode request.symbol
    baseAsset := normalized unicode request.baseAsset
    quoteAsset := normalized unicode request.quoteAsset }
  if request.symbol.isEmpty || request.baseAsset.isEmpty || request.quoteAsset.isEmpty then
    .error emptySymbolOrAsset
  else if request.baseAsset == request.quoteAsset then .error sameAssets
  else if !validScale request.priceScale || !validScale request.quantityScale then .error scalesOutOfRange
  else if request.tickSize ≤ 0 || request.lotSize ≤ 0 then .error sizesNotPositive
  else if !request.symbol.toList.all validSymbolChar then .error invalidSymbol
  else .ok request

/-- The instruments table: the five constraints of the migration, and the keys. -/
def instrumentsSchema : Schema InstrumentResponse where
  check row :=
    (0 ≤ row.priceScale && row.priceScale ≤ 18)
      && (0 ≤ row.quantityScale && row.quantityScale ≤ 18)
      && 0 < row.tickSize
      && 0 < row.lotSize
      && row.baseAsset != row.quoteAsset
  distinct row row' := row.id != row'.id && row.symbol != row'.symbol
  distinct_comm row row' := by rw [bne_comm (a := row.id), bne_comm (a := row.symbol)]

/-- The row that is inserted for a request; `now()` is the start of the transaction. -/
def instrumentRow (now : Timestamp) (instrumentId : Uuid) (request : CreateInstrumentRequest) :
    InstrumentResponse :=
  { id := instrumentId
    symbol := request.symbol
    assetClass := request.assetClass
    baseAsset := request.baseAsset
    quoteAsset := request.quoteAsset
    priceScale := request.priceScale
    quantityScale := request.quantityScale
    tickSize := request.tickSize
    lotSize := request.lotSize
    status := .active
    createdAt := now }

/-- Which statements of the transaction take effect: its beginning, its inserts in turn, its commit. With
    `commits = false` the COMMIT took no effect and the transaction is rolled back. A COMMIT that took effect while
    its reply was lost is not here: it is the delivery of a turn in `Api.App`. -/
structure Connection where
  begins : Bool
  inserts : Nat → Bool
  commits : Bool

/-- The loop of `create_instruments`; `newId i` is what `Uuid::now_v7` yields in the turn `i`. -/
def insertInstruments (connection : Connection) (now : Timestamp) (newId : Nat → Uuid) (turn : Nat)
    (table : Table instrumentsSchema) (instruments : List InstrumentResponse) :
    List CreateInstrumentRequest → Except ApiError (Table instrumentsSchema × List InstrumentResponse)
  | [] => .ok (table, instruments)
  | request :: requests =>
      let row := instrumentRow now (newId turn) request
      if !connection.inserts turn then .error failedToCreateInstruments
      else
        match table.insert row with
        | .ok table => insertInstruments connection now newId (turn + 1) table (instruments ++ [row]) requests
        | .error .unique => .error instrumentsAlreadyExist
        | .error .check => .error failedToCreateInstruments

/-- Creates multiple instruments atomically. A statement that fails, or a COMMIT that takes no effect, leaves the
    table as it was. -/
def createInstruments (unicode : Unicode) (connection : Connection) (now : Timestamp) (newId : Nat → Uuid)
    (table : Table instrumentsSchema) (requests : List CreateInstrumentRequest) :
    Table instrumentsSchema × Except ApiError (StatusCode × List InstrumentResponse) :=
  if requests.isEmpty then (table, .error atLeastOneInstrument)
  else if maxInstrumentsPerRequest < requests.length then (table, .error tooManyInstruments)
  else
    match requests.mapM (validateInstrument unicode) with
    | .error e => (table, .error e)
    | .ok requests =>
        if !connection.begins then (table, .error failedToCreateInstruments)
        else
          match insertInstruments connection now newId 0 table [] requests with
          | .error e => (table, .error e)
          | .ok (inserted, instruments) =>
              if !connection.commits then (table, .error failedToCreateInstruments)
              else (inserted, .ok (.created, instruments))

end LimitOrderBook
