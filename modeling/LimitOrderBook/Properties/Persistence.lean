import LimitOrderBook.Replay.Persistence

/-!
# `Properties.Persistence` — what is saved is what is loaded

What is saved is what is loaded. Each value is read back from what it is written as, from machine words to lists of
events, so a saved list of events is loaded as it was (`load_after_save`). The parser of JSON limits the nesting of
what it reads; a list of events is never nested so deeply (`depth_events`).

A write can break off, or fail before it changes anything (`writeFile_frame`). A write that breaks off leaves a text
that is not read (`loadEvents_of_part`): no part of a log is ever mistaken for a log. Both are proved from the rules
of `Lib.Json`, which say what is read of a printed value and of a part of one.
-/

namespace LimitOrderBook

/-! ## Values -/

@[simp] theorem deserializeWord_serializeWord (x : UInt64) : deserializeWord (serializeWord x) = some x := by
  have hlt : x.toNat < 2 ^ 64 := x.toNat_lt
  show (if x.toNat < 2 ^ 64 then some (UInt64.ofNat x.toNat) else none) = some x
  rw [if_pos hlt, UInt64.ofNat_toNat]

@[simp] theorem Side.deserialize_serialize (side : Side) : Side.deserialize side.serialize = some side := by
  cases side <;> rfl

@[simp] theorem Order.deserialize_serialize (order : Order) : Order.deserialize order.serialize = some order := by
  have hvalues : structValues ["id", "side", "price", "remaining_qty"] order.serialize
      = some [serializeWord order.id, order.side.serialize, serializeWord order.price,
        serializeWord order.remainingQty] := rfl
  unfold Order.deserialize
  rw [hvalues]
  simp

@[simp] theorem Trade.deserialize_serialize (trade : Trade) : Trade.deserialize trade.serialize = some trade := by
  have hvalues : structValues ["maker_order_id", "taker_order_id", "price", "quantity"] trade.serialize
      = some [serializeWord trade.makerOrderId, serializeWord trade.takerOrderId, serializeWord trade.price,
        serializeWord trade.quantity] := rfl
  unfold Trade.deserialize
  rw [hvalues]
  simp

/-- **An event is read back** from its value. -/
theorem BookEvent.deserialize_serialize (e : BookEvent) : BookEvent.deserialize e.serialize = some e := by
  cases e with
  | orderAccepted order =>
      show (Order.deserialize order.serialize >>= fun order => some (BookEvent.orderAccepted order)) = _
      rw [Order.deserialize_serialize]
      rfl
  | orderCancelled orderId =>
      show (deserializeWord (serializeWord orderId) >>= fun id => some (BookEvent.orderCancelled id)) = _
      rw [deserializeWord_serializeWord]
      rfl
  | orderModified orderId newPrice newQuantity =>
      show (do some (BookEvent.orderModified (← deserializeWord (serializeWord orderId))
        (← deserializeWord (serializeWord newPrice)) (← deserializeWord (serializeWord newQuantity)))) = _
      simp
  | tradeExecuted trade =>
      show (Trade.deserialize trade.serialize >>= fun trade => some (BookEvent.tradeExecuted trade)) = _
      rw [Trade.deserialize_serialize]
      rfl

/-- A list of events is read back as it was. -/
theorem deserializeEvents_serializeEvents (events : List BookEvent) :
    deserializeEvents (serializeEvents events) = some events := by
  show (events.map BookEvent.serialize).mapM BookEvent.deserialize = some events
  induction events with
  | nil => rfl
  | cons e events ih =>
      rw [List.map_cons, List.mapM_cons, BookEvent.deserialize_serialize, ih]
      rfl

/-! ## Nesting -/

theorem depth_event (e : BookEvent) : e.serialize.depth ≤ 3 := by
  cases e with
  | orderAccepted order => cases h : order.side <;> simp [BookEvent.serialize, Order.serialize, h, Side.serialize,
      serializeWord, Json.depth, Json.depthFields]
  | orderCancelled orderId => simp [BookEvent.serialize, serializeWord, Json.depth, Json.depthFields]
  | orderModified orderId newPrice newQuantity =>
      simp [BookEvent.serialize, serializeWord, Json.depth, Json.depthFields]
  | tradeExecuted trade =>
      simp [BookEvent.serialize, Trade.serialize, serializeWord, Json.depth, Json.depthFields]

/-- A list of events is within the limit of the parser. -/
theorem depth_events (events : List BookEvent) : (serializeEvents events).depth < 128 := by
  have hitems : Json.depthItems (events.map BookEvent.serialize) ≤ 3 := by
    induction events with
    | nil => exact Nat.zero_le _
    | cons e events ih => exact Nat.max_le.mpr ⟨depth_event e, ih⟩
  show Json.depthItems (events.map BookEvent.serialize) + 1 < 128
  omega

/-! ## Files -/

section Files

variable {κ : Type} [DecidableEq κ] {serde : SerdeJson} {disk : Disk κ} {path path' : String} {text : Text}

theorem files_write : (disk.write path text).files (disk.locate path) = some text := Function.update_self ..

/-- Other files are as they were. -/
theorem files_write_of_ne {file : κ} (h : file ≠ disk.locate path) :
    (disk.write path text).files file = disk.files file := Function.update_of_ne h ..

@[simp] theorem locate_writeFile (fate : Fate) : (writeFile disk fate path text).1.locate = disk.locate := by
  cases fate <;> rfl

/-- A write touches one file. -/
theorem writeFile_frame (fate : Fate) (text : Text) (h : disk.locate path' ≠ disk.locate path) :
    (writeFile disk fate path text).1.files (disk.locate path') = disk.files (disk.locate path') := by
  cases fate with
  | written => exact files_write_of_ne h
  | notCreated => rfl
  | cut length => exact files_write_of_ne h

theorem writeFile_ok {fate : Fate} {disk' : Disk κ} (h : writeFile disk fate path text = (disk', .ok ())) :
    disk' = disk.write path text := by
  cases fate with
  | written => exact (congrArg Prod.fst h).symm
  | notCreated => cases congrArg Prod.snd h
  | cut length => cases congrArg Prod.snd h

omit [DecidableEq κ] in
/-- A file with the text of some events is loaded as these events. -/
theorem loadEvents_of_text {events : List BookEvent}
    (h : disk.files (disk.locate path) = some (serde.toWriterPretty (serializeEvents events))) :
    loadEventsFromFile serde disk path = .ok events := by
  unfold loadEventsFromFile
  rw [h]
  dsimp only
  rw [serde.fromReader_toWriterPretty _ (depth_events events), Option.bind_some, deserializeEvents_serializeEvents]

omit [DecidableEq κ] in
/-- A file with a part of the text is not loaded. -/
theorem loadEvents_of_part {events : List BookEvent} {rest : Text} (hne : rest ≠ [])
    (htext : text ++ rest = serde.toWriterPretty (serializeEvents events))
    (h : disk.files (disk.locate path) = some text) : loadEventsFromFile serde disk path = .error .json := by
  unfold loadEventsFromFile
  rw [h]
  dsimp only
  rw [serde.fromReader_of_part _ text rest (depth_events events) htext hne]
  rfl

/-- **A log is loaded as it was saved, or not at all.** Whatever becomes of the write: if it reports no error, the path
    is loaded as the events, from this disk and from every one on which that file was left alone; if it reports one,
    then the disk is as it was, or the path is loaded as all of the events or as an error. A path that leads to another
    file is loaded as before. -/
theorem load_after_save (serde : SerdeJson) (disk : Disk κ) (fate : Fate) (events : List BookEvent) (path : String) :
    let (disk', result) := saveEventsToFile serde disk fate events path
    (result = .ok () → ∀ later : Disk κ, later.locate = disk'.locate →
        later.files (disk'.locate path) = disk'.files (disk'.locate path) →
        ∀ path', disk'.locate path' = disk'.locate path → loadEventsFromFile serde later path' = .ok events)
      ∧ (result ≠ .ok () → disk' = disk ∨ loadEventsFromFile serde disk' path = .ok events
        ∨ loadEventsFromFile serde disk' path = .error .json)
      ∧ ∀ path', disk.locate path' ≠ disk.locate path →
        loadEventsFromFile serde disk' path' = loadEventsFromFile serde disk path' := by
  obtain ⟨disk', result, hsave⟩ : ∃ disk' result, saveEventsToFile serde disk fate events path = (disk', result) :=
    ⟨_, _, rfl⟩
  have hlocate : disk'.locate = disk.locate := by
    rw [show disk' = _ from (congrArg Prod.fst hsave).symm]
    exact locate_writeFile fate
  rw [hsave]
  refine ⟨?_, ?_, ?_⟩
  · rintro rfl later hlater hsame path' hpath
    obtain rfl := writeFile_ok hsave
    refine loadEvents_of_text ?_
    rw [hlater, hpath, hsame]
    exact files_write
  · intro hfailed
    cases fate with
    | written => exact absurd (congrArg Prod.snd hsave).symm hfailed
    | notCreated => exact Or.inl (congrArg Prod.fst hsave).symm
    | cut length =>
        obtain rfl : disk.write path ((serde.toWriterPretty (serializeEvents events)).take length) = disk' :=
          congrArg Prod.fst hsave
        have hfile : (disk.write path ((serde.toWriterPretty (serializeEvents events)).take length)).files
            (disk.locate path) = some ((serde.toWriterPretty (serializeEvents events)).take length) := files_write
        have hsplit := List.take_append_drop length (serde.toWriterPretty (serializeEvents events))
        refine Or.inr ?_
        by_cases hrest : (serde.toWriterPretty (serializeEvents events)).drop length = []
        · rw [hrest, List.append_nil] at hsplit
          exact Or.inl (loadEvents_of_text (hfile.trans (congrArg some hsplit)))
        · exact Or.inr (loadEvents_of_part hrest hsplit hfile)
  · intro path' hne
    have hfile := writeFile_frame fate (serde.toWriterPretty (serializeEvents events)) hne
    have hdisk : disk' = (writeFile disk fate path (serde.toWriterPretty (serializeEvents events))).1 :=
      (congrArg Prod.fst hsave).symm
    unfold loadEventsFromFile
    rw [hlocate, hdisk, hfile]

end Files

/-- An order and its cancellation, saved in a file. -/
example : loadEventsFromFile .pretty (saveEventsToFile .pretty ⟨id, fun _ => none⟩ .written
    [.orderAccepted ⟨1, .buy, 100, 10⟩, .orderCancelled 1] "events.json").1 "events.json"
      = .ok [.orderAccepted ⟨1, .buy, 100, 10⟩, .orderCancelled 1] := by decide +kernel

end LimitOrderBook
