import LimitOrderBook.Domain
import LimitOrderBook.Lib.Json

/-!
# `Replay.Persistence` — events in a file (`src/replay/persistence.rs`)

A file holds the text that `serde_json` makes of the value that the derived `Serialize` makes of the events, and is
read back the same way. The derived `Deserialize` reads a struct from an object, in which it ignores what it does not
know, or from a list of its fields, and an enumeration from the name of the variant, alone or in an object with the
content.

`SerdeJson` is a printer with its parser and what is relied on: that a value is read back from its text, and a list
whose text ends early is not. `SerdeJson.pretty` is one. A `Disk` is the files under what their paths lead to, and a
write ends as its `Fate` says: all of the text is written, the file cannot be created, or the write breaks off.
-/

namespace LimitOrderBook

/-! ## Values -/

/-- A machine word as JSON. -/
def serializeWord (x : UInt64) : Json := .number x.toNat

def deserializeWord : Json → Option UInt64
  | .number n => if n < 2 ^ 64 then some (UInt64.ofNat n) else none
  | _ => none

/-- The value of a field, which has to be there once. -/
def fieldValue (fields : List (String × Json)) (name : String) : Option Json :=
  match fields.filter fun field => field.1 == name with
  | [field] => some field.2
  | _ => none

/-- The values of the fields of a struct. -/
def structValues (names : List String) : Json → Option (List Json)
  | .object fields => names.mapM (fieldValue fields)
  | .array items => if items.length = names.length then some items else none
  | _ => none

/-- A variant with its content; a variant alone has none. -/
def variantValue : Json → Option (String × Json)
  | .string variant => some (variant, .null)
  | .object [(variant, content)] => some (variant, content)
  | _ => none

def Side.serialize : Side → Json
  | .buy => .string "Buy"
  | .sell => .string "Sell"

def Side.deserialize (value : Json) : Option Side :=
  match variantValue value with
  | some ("Buy", .null) => some .buy
  | some ("Sell", .null) => some .sell
  | _ => none

def Order.serialize (order : Order) : Json :=
  .object [("id", serializeWord order.id), ("side", order.side.serialize), ("price", serializeWord order.price),
    ("remaining_qty", serializeWord order.remainingQty)]

def Order.deserialize (value : Json) : Option Order := do
  match ← structValues ["id", "side", "price", "remaining_qty"] value with
  | [id, side, price, remainingQty] =>
      some ⟨← deserializeWord id, ← Side.deserialize side, ← deserializeWord price, ← deserializeWord remainingQty⟩
  | _ => none

def Trade.serialize (trade : Trade) : Json :=
  .object [("maker_order_id", serializeWord trade.makerOrderId), ("taker_order_id", serializeWord trade.takerOrderId),
    ("price", serializeWord trade.price), ("quantity", serializeWord trade.quantity)]

def Trade.deserialize (value : Json) : Option Trade := do
  match ← structValues ["maker_order_id", "taker_order_id", "price", "quantity"] value with
  | [maker, taker, price, quantity] =>
      some ⟨← deserializeWord maker, ← deserializeWord taker, ← deserializeWord price, ← deserializeWord quantity⟩
  | _ => none

/-- An event under the name of its variant. -/
def BookEvent.serialize : BookEvent → Json
  | .orderAccepted order => .object [("OrderAccepted", .object [("order", order.serialize)])]
  | .orderCancelled orderId => .object [("OrderCancelled", .object [("order_id", serializeWord orderId)])]
  | .orderModified orderId newPrice newQuantity =>
      .object [("OrderModified", .object [("order_id", serializeWord orderId), ("new_price", serializeWord newPrice),
        ("new_quantity", serializeWord newQuantity)])]
  | .tradeExecuted trade => .object [("TradeExecuted", .object [("trade", trade.serialize)])]

def BookEvent.deserialize (value : Json) : Option BookEvent := do
  match ← variantValue value with
  | ("OrderAccepted", content) =>
      match ← structValues ["order"] content with
      | [order] => some (.orderAccepted (← Order.deserialize order))
      | _ => none
  | ("OrderCancelled", content) =>
      match ← structValues ["order_id"] content with
      | [orderId] => some (.orderCancelled (← deserializeWord orderId))
      | _ => none
  | ("OrderModified", content) =>
      match ← structValues ["order_id", "new_price", "new_quantity"] content with
      | [orderId, newPrice, newQuantity] =>
          some (.orderModified (← deserializeWord orderId) (← deserializeWord newPrice) (← deserializeWord newQuantity))
      | _ => none
  | ("TradeExecuted", content) =>
      match ← structValues ["trade"] content with
      | [trade] => some (.tradeExecuted (← Trade.deserialize trade))
      | _ => none
  | _ => none

def serializeEvents (events : List BookEvent) : Json := .array (events.map BookEvent.serialize)

def deserializeEvents : Json → Option (List BookEvent)
  | .array items => items.mapM BookEvent.deserialize
  | _ => none

/-! ## Text -/

abbrev Text := List Char

/-- The printer and the parser of `serde_json`. A value nested less than 128 deep is read back from its text, and a
    list whose text ends early is not read. -/
structure SerdeJson where
  toWriterPretty : Json → Text
  fromReader : Text → Option Json
  fromReader_toWriterPretty : ∀ value, value.depth < 128 → fromReader (toWriterPretty value) = some value
  fromReader_of_part : ∀ items part rest, (Json.array items).depth < 128 →
    part ++ rest = toWriterPretty (.array items) → rest ≠ [] → fromReader part = none

/-- Text in the format of `serde_json`, with its limit on recursion. -/
def SerdeJson.pretty : SerdeJson where
  toWriterPretty := Json.pretty 0
  fromReader := Json.parse 127
  fromReader_toWriterPretty _ h := Json.parse_pretty (Nat.le_of_lt_succ h)
  fromReader_of_part _ _ _ hdepth h hne := Json.parse_of_part (Nat.le_of_lt_succ hdepth) h hne

/-! ## Files -/

/-- The files that can be read, and which of them a path leads to. -/
structure Disk (κ : Type) where
  locate : String → κ
  files : κ → Option Text

/-- What becomes of a write: all of the text is written, the file cannot be created, or the write breaks off. -/
inductive Fate where
  | written
  | notCreated
  | cut (length : Nat)
deriving DecidableEq, Repr

/-- `Box<dyn Error>`, by what it is made of. -/
inductive RunError where
  | file
  | json
  | book (e : OrderBookError)
deriving DecidableEq, Repr

section Files

variable {κ : Type} [DecidableEq κ]

def Disk.write (disk : Disk κ) (path : String) (text : Text) : Disk κ :=
  { disk with files := Function.update disk.files (disk.locate path) (some text) }

/-- `File::create` and a write of the text. -/
def writeFile (disk : Disk κ) (fate : Fate) (path : String) (text : Text) : Disk κ × Except RunError Unit :=
  match fate with
  | .written => (disk.write path text, .ok ())
  | .notCreated => (disk, .error .file)
  | .cut length => (disk.write path (text.take length), .error .json)

def saveEventsToFile (serde : SerdeJson) (disk : Disk κ) (fate : Fate) (events : List BookEvent) (path : String) :
    Disk κ × Except RunError Unit :=
  writeFile disk fate path (serde.toWriterPretty (serializeEvents events))

omit [DecidableEq κ] in
def loadEventsFromFile (serde : SerdeJson) (disk : Disk κ) (path : String) : Except RunError (List BookEvent) :=
  match disk.files (disk.locate path) with
  | none => .error .file
  | some text =>
      match (serde.fromReader text).bind deserializeEvents with
      | none => .error .json
      | some events => .ok events

end Files
end LimitOrderBook
