import LimitOrderBook.Api.CreateInstruments
import LimitOrderBook.Lib.Text

/-!
# `Properties.Instruments` — normal forms and batches of instruments

Normal forms of instruments, and batches of them.

Normalization trims white space and then raises letters to upper case. The two steps do not disturb each other, since
white space is no letter (`Unicode.SparesSymbols`), so a normal form is its own (`normalized_normalized`), and two
texts share it exactly if they are the same but for case and surrounding white space (`normalized_inj_iff`). What the
validator accepts is in normal form and within its bounds, and meets the constraints of the table
(`validateInstrument_ok_iff`, `check_instrumentRow`). `normalization_canonical` collects this.

So of an accepted batch only a symbol can fail. `Accepted` says that a batch is accepted as a whole, with the requests
in normal form. Its rows are `instrumentRows`, with new ids in turn; they join the table when no symbol is taken, by
the table or inside the batch, and otherwise the request is a conflict and the table is as before. The cases of the
handler are `createInstruments_ok`, `createInstruments_conflict` and `createInstruments_error`, and
`create_instruments_all_or_nothing` is the whole.
-/

namespace LimitOrderBook

/-! ## Normal forms -/

/-- White space is no letter, no digit and no hyphen. -/
def Unicode.SparesSymbols (unicode : Unicode) : Prop :=
  ∀ c : Char, c.isAlphanum = true ∨ c = '-' → unicode.isWhitespace c = false

section Normal

variable {unicode : Unicode} {s t : String}

theorem toList_trim (unicode : Unicode) (s : String) :
    (unicode.trim s).toList = Text.trim unicode.isWhitespace s.toList := String.toList_ofList

/-- Normalizing trims the text and raises its letters. -/
theorem toList_normalized (unicode : Unicode) (s : String) :
    (normalized unicode s).toList = (Text.trim unicode.isWhitespace s.toList).map Char.toUpper := by
  unfold normalized toAsciiUppercase
  rw [String.toList_ofList, toList_trim]

/-- Raising a character to upper case does not make it white space, or anything else. -/
theorem Unicode.SparesSymbols.isWhitespace_toUpper (h : unicode.SparesSymbols) (c : Char) :
    unicode.isWhitespace c.toUpper = unicode.isWhitespace c := by
  cases hlower : c.isLower with
  | true =>
      have hupper := Text.isUpper_toUpper hlower
      rw [h c (Or.inl (by simp [Text.isAlphanum_eq, hlower])),
        h c.toUpper (Or.inl (by simp [Text.isAlphanum_eq, hupper]))]
  | false => rw [Text.toUpper_eq_self hlower]

/-- **A normal form is its own.** -/
theorem normalized_normalized (h : unicode.SparesSymbols) (s : String) :
    normalized unicode (normalized unicode s) = normalized unicode s := by
  rw [← String.toList_inj, toList_normalized, toList_normalized, Text.trim_map h.isWhitespace_toUpper,
    Text.trim_trim, List.map_map]
  exact List.map_congr_left fun c _ => Text.toUpper_toUpper c

/-- **Two texts have one normal form** if and only if they are the same but for case and surrounding white
    space. -/
theorem normalized_inj_iff :
    normalized unicode s = normalized unicode t
      ↔ eqIgnoreAsciiCase (unicode.trim s) (unicode.trim t) = true := by
  unfold eqIgnoreAsciiCase
  rw [← String.toList_inj, toList_normalized, toList_normalized, Text.map_toUpper_inj_iff, beq_iff_eq, toList_trim,
    toList_trim]

/-- A character of a symbol in normal form. -/
theorem validSymbolChar_toUpper {c : Char} (h : validSymbolChar c.toUpper = true) :
    c.toUpper.isUpper = true ∨ c.toUpper.isDigit = true ∨ c.toUpper = '-' := by
  have hlower := Text.isLower_toUpper c
  simp only [validSymbolChar, Text.isAlphanum_eq, hlower, Bool.or_false, Bool.or_eq_true, beq_iff_eq] at h
  tauto

end Normal

/-! ## The validator -/

/-- What the validator demands of a request in normal form. -/
structure CreateInstrumentRequest.Acceptable (request : CreateInstrumentRequest) : Prop where
  symbol_ne : request.symbol ≠ ""
  baseAsset_ne : request.baseAsset ≠ ""
  quoteAsset_ne : request.quoteAsset ≠ ""
  assets_differ : request.baseAsset ≠ request.quoteAsset
  priceScale : validScale request.priceScale = true
  quantityScale : validScale request.quantityScale = true
  tickSize_pos : 0 < request.tickSize
  lotSize_pos : 0 < request.lotSize
  symbol_chars : ∀ c ∈ request.symbol.toList, validSymbolChar c = true

/-- A request with its texts in normal form. -/
def CreateInstrumentRequest.normalize (unicode : Unicode) (request : CreateInstrumentRequest) :
    CreateInstrumentRequest :=
  { request with
    symbol := normalized unicode request.symbol
    baseAsset := normalized unicode request.baseAsset
    quoteAsset := normalized unicode request.quoteAsset }

section Validator

variable {unicode : Unicode} {request accepted : CreateInstrumentRequest}

/-- **What the validator does**: it returns the normal form, if that is acceptable. -/
theorem validateInstrument_ok_iff :
    validateInstrument unicode request = .ok accepted
      ↔ accepted = request.normalize unicode ∧ accepted.Acceptable := by
  have hshape : validateInstrument unicode request
      = if (request.normalize unicode).symbol.isEmpty || (request.normalize unicode).baseAsset.isEmpty
            || (request.normalize unicode).quoteAsset.isEmpty then .error emptySymbolOrAsset
        else if (request.normalize unicode).baseAsset == (request.normalize unicode).quoteAsset then
          .error sameAssets
        else if !validScale (request.normalize unicode).priceScale
            || !validScale (request.normalize unicode).quantityScale then .error scalesOutOfRange
        else if (request.normalize unicode).tickSize ≤ 0 || (request.normalize unicode).lotSize ≤ 0 then
          .error sizesNotPositive
        else if !(request.normalize unicode).symbol.toList.all validSymbolChar then .error invalidSymbol
        else .ok (request.normalize unicode) := rfl
  rw [hshape]
  generalize request.normalize unicode = normal
  constructor
  · intro h
    split at h
    · cases h
    next hempty =>
      split at h
      · cases h
      next hassets =>
        split at h
        · cases h
        next hscales =>
          split at h
          · cases h
          next hsizes =>
            split at h
            · cases h
            next hsymbol =>
              cases h
              simp only [Bool.or_eq_true, not_or, String.isEmpty_iff] at hempty
              simp only [beq_iff_eq] at hassets
              simp only [Bool.or_eq_true, Bool.not_eq_true', not_or, Bool.not_eq_false] at hscales
              simp only [Bool.or_eq_true, decide_eq_true_eq, not_or, Int64.not_le] at hsizes
              simp only [Bool.not_eq_true', Bool.not_eq_false, List.all_eq_true] at hsymbol
              exact ⟨rfl, hempty.1.1, hempty.1.2, hempty.2, hassets, hscales.1, hscales.2, hsizes.1, hsizes.2,
                hsymbol⟩
  · rintro ⟨rfl, h⟩
    rw [if_neg (by simp [h.symbol_ne, h.baseAsset_ne, h.quoteAsset_ne]), if_neg (by simp [h.assets_differ]),
      if_neg (by simp [h.priceScale, h.quantityScale]),
      if_neg (by simp [Int64.not_le.mpr h.tickSize_pos, Int64.not_le.mpr h.lotSize_pos]),
      if_neg (by simpa using h.symbol_chars)]

/-- An accepted symbol is in normal form. -/
theorem symbol_of_validateInstrument (h : validateInstrument unicode request = .ok accepted) :
    accepted.symbol = normalized unicode request.symbol := by
  rw [(validateInstrument_ok_iff.mp h).1]
  unfold CreateInstrumentRequest.normalize
  rfl

/-- What the validator accepts meets the constraints of the table. -/
theorem check_instrumentRow (h : accepted.Acceptable) (now : Timestamp) (instrumentId : Uuid) :
    instrumentsSchema.check (instrumentRow now instrumentId accepted) = true := by
  have hprice := h.priceScale
  have hquantity := h.quantityScale
  unfold validScale at hprice hquantity
  simp only [instrumentsSchema, instrumentRow, hprice, hquantity, h.tickSize_pos, h.lotSize_pos,
    decide_true, Bool.true_and, bne_iff_ne]
  exact h.assets_differ

end Validator

/-- **Normalization is canonical and agrees with the schema.** What the validator returns it accepts again,
    unchanged; its symbol is not empty and made of upper-case letters, digits and hyphens; a row of it meets
    every constraint; and its numbers and its asset class are those of the request. Two accepted requests have
    one symbol if and only if theirs, trimmed, are the same but for case, so the table takes only one of
    them. -/
theorem normalization_canonical (unicode : Unicode) (hunicode : unicode.SparesSymbols) :
    (∀ request accepted, validateInstrument unicode request = .ok accepted →
      validateInstrument unicode accepted = .ok accepted
      ∧ accepted.symbol ≠ ""
      ∧ (∀ c ∈ accepted.symbol.toList, c.isUpper = true ∨ c.isDigit = true ∨ c = '-')
      ∧ (∀ now instrumentId, instrumentsSchema.check (instrumentRow now instrumentId accepted) = true)
      ∧ accepted.assetClass = request.assetClass
      ∧ accepted.priceScale = request.priceScale ∧ accepted.quantityScale = request.quantityScale
      ∧ accepted.tickSize = request.tickSize ∧ accepted.lotSize = request.lotSize)
    ∧ ∀ request accepted request' accepted', validateInstrument unicode request = .ok accepted →
      validateInstrument unicode request' = .ok accepted' →
      (accepted.symbol = accepted'.symbol
          ↔ eqIgnoreAsciiCase (unicode.trim request.symbol) (unicode.trim request'.symbol) = true)
      ∧ ∀ now now' id id', id ≠ id' →
        (instrumentsSchema.distinct (instrumentRow now id accepted) (instrumentRow now' id' accepted') = false
          ↔ eqIgnoreAsciiCase (unicode.trim request.symbol) (unicode.trim request'.symbol) = true) := by
  constructor
  · intro request accepted haccepted
    obtain ⟨hnormal, hacceptable⟩ := validateInstrument_ok_iff.mp haccepted
    have hcheck := check_instrumentRow hacceptable
    refine ⟨validateInstrument_ok_iff.mpr ⟨?_, hacceptable⟩, hacceptable.symbol_ne, ?_, hcheck, ?_⟩
    · rw [hnormal]
      unfold CreateInstrumentRequest.normalize
      simp only [normalized_normalized hunicode]
    · intro c hc
      have hvalid := hacceptable.symbol_chars c hc
      rw [symbol_of_validateInstrument haccepted, toList_normalized] at hc
      obtain ⟨d, -, rfl⟩ := List.mem_map.mp hc
      exact validSymbolChar_toUpper hvalid
    · rw [hnormal]
      unfold CreateInstrumentRequest.normalize
      exact ⟨rfl, rfl, rfl, rfl, rfl⟩
  · intro request accepted request' accepted' haccepted haccepted'
    obtain ⟨rfl, -⟩ := validateInstrument_ok_iff.mp haccepted
    obtain ⟨rfl, -⟩ := validateInstrument_ok_iff.mp haccepted'
    refine ⟨normalized_inj_iff, ?_⟩
    intro now now' id id' hid
    rw [← normalized_inj_iff]
    simp [instrumentsSchema, instrumentRow, CreateInstrumentRequest.normalize, hid]

/-- The tables of Unicode, on ASCII. -/
def asciiText : Unicode := ⟨Char.isWhitespace, String.toLower⟩

theorem asciiText_sparesSymbols : asciiText.SparesSymbols := by
  intro c hc
  show c.isWhitespace = false
  by_contra hspace
  rw [Bool.not_eq_false] at hspace
  simp only [Char.isWhitespace, Bool.or_eq_true, decide_eq_true_eq] at hspace
  rcases hspace with ((rfl | rfl) | rfl) | rfl <;> revert hc <;> decide

/-- A market spelt with blanks and in lower case. -/
def sampleMarket : CreateInstrumentRequest := ⟨" btc-usdt ", .crypto, " btc ", " usdt ", 2, 6, 1, 1000⟩

theorem normalization_canonical_btc :
    validateInstrument asciiText sampleMarket = .ok ⟨"BTC-USDT", .crypto, "BTC", "USDT", 2, 6, 1, 1000⟩
      ∧ validateInstrument asciiText ⟨"BTC-USDT", .crypto, "BTC", "USDT", 2, 6, 1, 1000⟩
        = .ok ⟨"BTC-USDT", .crypto, "BTC", "USDT", 2, 6, 1, 1000⟩ := by
  have hvalid : validateInstrument asciiText sampleMarket
      = .ok ⟨"BTC-USDT", .crypto, "BTC", "USDT", 2, 6, 1, 1000⟩ := by decide +kernel
  exact ⟨hvalid, ((normalization_canonical asciiText asciiText_sparesSymbols).1 _ _ hvalid).1⟩

/-! ## Batches -/

/-- Every statement of the transaction reaches the database. -/
structure Connection.Works (connection : Connection) : Prop where
  begins : connection.begins = true
  inserts : ∀ turn, connection.inserts turn = true
  commits : connection.commits = true

/-- The rows of a batch, from a turn on. -/
def instrumentRows (now : Timestamp) (newId : Nat → Uuid) (turn : Nat) (requests : List CreateInstrumentRequest) :
    List InstrumentResponse :=
  requests.mapIdx fun i request => instrumentRow now (newId (turn + i)) request

section Batches

variable {unicode : Unicode} {connection : Connection} {now : Timestamp} {newId : Nat → Uuid}
  {table table' : Table instrumentsSchema} {requests accepted : List CreateInstrumentRequest} {turn : Nat}
  {instruments out : List InstrumentResponse}

theorem instrumentRows_cons (request : CreateInstrumentRequest) :
    instrumentRows now newId turn (request :: requests)
      = instrumentRow now (newId turn) request :: instrumentRows now newId (turn + 1) requests := by
  unfold instrumentRows
  rw [List.mapIdx_cons, Nat.add_zero]
  simp only [Nat.add_assoc, Nat.add_comm 1]

theorem length_instrumentRows : (instrumentRows now newId turn requests).length = requests.length :=
  List.length_mapIdx

/-- The rows have the symbols of the requests. -/
theorem map_symbol_instrumentRows :
    (instrumentRows now newId turn requests).map InstrumentResponse.symbol
      = requests.map CreateInstrumentRequest.symbol := by
  induction requests generalizing turn with
  | nil => rfl
  | cons request requests ih =>
      rw [instrumentRows_cons, List.map_cons, List.map_cons, ih]
      rfl

/-- A row is that of a request, with an id of its own turn. -/
theorem mem_instrumentRows {row : InstrumentResponse} (hrow : row ∈ instrumentRows now newId turn requests) :
    ∃ i request, i < requests.length ∧ request ∈ requests ∧ row = instrumentRow now (newId (turn + i)) request := by
  obtain ⟨i, hi, rfl⟩ := List.mem_mapIdx.mp hrow
  exact ⟨i, requests[i], hi, List.getElem_mem hi, rfl⟩

/-- The inserts that the loop makes. -/
theorem insertInstruments_ok
    (h : insertInstruments connection now newId turn table instruments requests = .ok (table', out)) :
    table.insertAll (instrumentRows now newId turn requests) = .ok table'
      ∧ out = instruments ++ instrumentRows now newId turn requests := by
  induction requests generalizing turn table instruments with
  | nil =>
      cases h
      exact ⟨rfl, (List.append_nil _).symm⟩
  | cons request requests ih =>
      unfold insertInstruments at h
      dsimp only at h
      split at h
      · cases h
      · split at h
        next table₁ hinsert =>
          obtain ⟨hall, hout⟩ := ih h
          rw [instrumentRows_cons]
          refine ⟨?_, ?_⟩
          · unfold Table.insertAll
            rw [hinsert]
            exact hall
          · rw [hout, List.append_assoc]
            rfl
        · cases h
        · cases h

/-- On a connection that works the loop goes as far as its inserts. -/
theorem insertInstruments_of_insertAll (hworks : connection.Works)
    (h : table.insertAll (instrumentRows now newId turn requests) = .ok table') :
    insertInstruments connection now newId turn table instruments requests
      = .ok (table', instruments ++ instrumentRows now newId turn requests) := by
  induction requests generalizing turn table instruments with
  | nil =>
      cases h
      unfold instrumentRows
      rw [List.mapIdx_nil, List.append_nil]
      rfl
  | cons request requests ih =>
      rw [instrumentRows_cons] at h
      unfold Table.insertAll at h
      split at h
      next => cases h
      next table₁ hinsert =>
        have hrest : insertInstruments connection now newId (turn + 1) table₁
            (instruments ++ [instrumentRow now (newId turn) request]) requests = _ := ih h
        unfold insertInstruments
        dsimp only
        rw [hworks.inserts turn, hinsert, instrumentRows_cons]
        dsimp only
        rw [if_neg (by decide), hrest, List.append_assoc]
        rfl

/-- On a connection that works, requests that meet the checks fail on a key or not at all. -/
theorem insertInstruments_conflict (hworks : connection.Works)
    (hacceptable : ∀ request ∈ requests, request.Acceptable)
    (h : ∀ table', table.insertAll (instrumentRows now newId turn requests) ≠ .ok table') :
    insertInstruments connection now newId turn table instruments requests = .error instrumentsAlreadyExist := by
  induction requests generalizing turn table instruments with
  | nil => exact absurd rfl (h table)
  | cons request requests ih =>
      obtain ⟨hhead, hacceptable⟩ := List.forall_mem_cons.mp hacceptable
      rw [instrumentRows_cons] at h
      unfold Table.insertAll at h
      unfold insertInstruments
      dsimp only
      rw [hworks.inserts turn, if_neg (by decide)]
      cases hinsert : table.insert (instrumentRow now (newId turn) request) with
      | error v =>
          obtain rfl := Table.insert_error (check_instrumentRow hhead now (newId turn)) hinsert
          rfl
      | ok table₁ =>
          rw [hinsert] at h
          exact ih hacceptable h

/-- The keys of a batch under fresh ids are its symbols. -/
theorem pairwise_distinct_iff (hids : ∀ i < requests.length, ∀ j < requests.length, newId i = newId j → i = j)
    (hfresh : ∀ i < requests.length, ∀ row ∈ table.rows, row.id ≠ newId i) :
    ((table.rows ++ instrumentRows now newId 0 requests).Pairwise fun r r' =>
        instrumentsSchema.distinct r r' = true)
      ↔ (requests.map CreateInstrumentRequest.symbol).Nodup
        ∧ ∀ request ∈ requests, ∀ row ∈ table.rows, row.symbol ≠ request.symbol := by
  have hdistinct : ∀ r r', instrumentsSchema.distinct r r' = true ↔ r.id ≠ r'.id ∧ r.symbol ≠ r'.symbol := by
    intro r r'
    simp [instrumentsSchema]
  have hnew : (instrumentRows now newId 0 requests).Pairwise fun r r' => r.id ≠ r'.id := by
    rw [List.pairwise_iff_getElem]
    intro i j hi hj hij
    rw [length_instrumentRows] at hi hj
    simp only [instrumentRows, List.getElem_mapIdx, instrumentRow, Nat.zero_add]
    exact fun hid => absurd (hids i hi j hj hid) hij.ne
  have hsymbols : (instrumentRows now newId 0 requests).Pairwise (fun r r' => r.symbol ≠ r'.symbol)
      ↔ (requests.map CreateInstrumentRequest.symbol).Nodup := by
    have hmap : (instrumentRows now newId 0 requests).map InstrumentResponse.symbol
        = requests.map CreateInstrumentRequest.symbol := map_symbol_instrumentRows
    rw [← hmap]
    exact List.pairwise_map.symm
  simp only [List.pairwise_append, hdistinct, List.pairwise_and_iff, hsymbols]
  constructor
  · rintro ⟨-, ⟨-, hnodup⟩, hother⟩
    refine ⟨hnodup, ?_⟩
    intro request hrequest row hrow
    have hmem : request.symbol ∈ (instrumentRows now newId 0 requests).map InstrumentResponse.symbol := by
      rw [map_symbol_instrumentRows]
      exact List.mem_map_of_mem hrequest
    obtain ⟨row', hrow', hsymbol⟩ := List.mem_map.mp hmem
    rw [← hsymbol]
    exact (hother row hrow row' hrow').2
  · rintro ⟨hnodup, hother⟩
    have hold : table.rows.Pairwise fun r r' => r.id ≠ r'.id ∧ r.symbol ≠ r'.symbol :=
      table.unique.imp fun {r r'} h => (hdistinct r r').mp h
    refine ⟨List.pairwise_and_iff.mp hold, ⟨hnew, hnodup⟩, ?_⟩
    intro row hrow row' hrow'
    obtain ⟨i, request, hi, hrequest, rfl⟩ := mem_instrumentRows hrow'
    rw [Nat.zero_add]
    exact ⟨hfresh i hi row hrow, hother request hrequest row hrow⟩

/-- `accepted` is what the validator returns for the requests in turn. -/
def Accepted (unicode : Unicode) (requests accepted : List CreateInstrumentRequest) : Prop :=
  List.Forall₂ (fun request normal => validateInstrument unicode request = .ok normal) requests accepted

/-- Every request of an accepted batch is acceptable. -/
theorem Accepted.acceptable (h : Accepted unicode requests accepted) : ∀ request ∈ accepted, request.Acceptable := by
  unfold Accepted at h
  induction h with
  | nil => exact fun request hrequest => by cases hrequest
  | cons hvalid _ ih => exact List.forall_mem_cons.mpr ⟨(validateInstrument_ok_iff.mp hvalid).2, ih⟩

/-- The symbols of an accepted batch are in normal form. -/
theorem Accepted.map_symbol (h : Accepted unicode requests accepted) :
    accepted.map CreateInstrumentRequest.symbol = requests.map fun r => normalized unicode r.symbol := by
  unfold Accepted at h
  induction h with
  | nil => rw [List.map_nil, List.map_nil]
  | cons hvalid _ ih => rw [List.map_cons, List.map_cons, symbol_of_validateInstrument hvalid, ih]

/-- Two requests with symbols that are the same but for case and surrounding white space have one symbol in
    the batch. -/
theorem Accepted.not_nodup (h : Accepted unicode requests accepted) {request request' : CreateInstrumentRequest}
    (htwo : [request, request'].Sublist requests)
    (hsame : eqIgnoreAsciiCase (unicode.trim request.symbol) (unicode.trim request'.symbol) = true) :
    ¬(accepted.map CreateInstrumentRequest.symbol).Nodup := by
  intro hnodup
  rw [h.map_symbol] at hnodup
  have hpair := hnodup.sublist (htwo.map _)
  rw [List.map_cons, List.map_singleton, List.nodup_cons, normalized_inj_iff.mpr hsame] at hpair
  exact hpair.1 (List.mem_singleton_self _)

theorem instrumentRows_zero :
    instrumentRows now newId 0 requests = requests.mapIdx fun i request => instrumentRow now (newId i) request := by
  unfold instrumentRows
  simp only [Nat.zero_add]

/-- The handler lets a batch of 1 to 100 requests through. -/
theorem length_bounds_iff :
    ¬requests.isEmpty = true ∧ ¬maxInstrumentsPerRequest < requests.length
      ↔ 1 ≤ requests.length ∧ requests.length ≤ 100 := by
  have hsome : ¬requests.isEmpty = true ↔ 1 ≤ requests.length := by
    rw [List.isEmpty_iff]
    exact List.length_pos_iff.symm
  exact and_congr hsome Nat.not_lt

/-- What a batch that is created has done. -/
theorem createInstruments_ok {response : StatusCode × List InstrumentResponse}
    (h : createInstruments unicode connection now newId table requests = (table', .ok response)) :
    1 ≤ requests.length ∧ requests.length ≤ 100
      ∧ ∃ accepted, Accepted unicode requests accepted
        ∧ table.insertAll (instrumentRows now newId 0 accepted) = .ok table'
        ∧ response = (.created, instrumentRows now newId 0 accepted) := by
  unfold createInstruments at h
  split at h
  · cases h
  next hempty =>
    split at h
    · cases h
    next hmany =>
      obtain ⟨hsome, hmany⟩ := length_bounds_iff.mp ⟨hempty, hmany⟩
      refine ⟨hsome, hmany, ?_⟩
      split at h
      · cases h
      next accepted hvalid =>
        split at h
        · cases h
        next =>
          split at h
          · cases h
          next inserted instruments hinserts =>
            split at h
            · cases h
            next =>
              cases h
              obtain ⟨hall, hout⟩ := insertInstruments_ok hinserts
              refine ⟨accepted, Machine.mapM_ok_iff.mp hvalid, hall, ?_⟩
              rw [hout, List.nil_append]

/-- A batch that the validator and the table take is created, if the connection works. -/
theorem createInstruments_of_insertAll (hworks : connection.Works) (hsome : 1 ≤ requests.length)
    (hmany : requests.length ≤ 100) (haccepted : Accepted unicode requests accepted)
    (h : table.insertAll (instrumentRows now newId 0 accepted) = .ok table') :
    createInstruments unicode connection now newId table requests
      = (table', .ok (.created, instrumentRows now newId 0 accepted)) := by
  obtain ⟨hempty, hmany⟩ := length_bounds_iff.mpr ⟨hsome, hmany⟩
  unfold createInstruments
  rw [if_neg hempty, if_neg hmany, Machine.mapM_ok_iff.mpr haccepted]
  dsimp only
  rw [hworks.begins, if_neg (by decide), insertInstruments_of_insertAll hworks h]
  dsimp only
  rw [hworks.commits, if_neg (by decide), List.nil_append]

/-- A batch that the validator takes and the table does not is answered with a conflict. -/
theorem createInstruments_conflict (hworks : connection.Works) (hsome : 1 ≤ requests.length)
    (hmany : requests.length ≤ 100) (haccepted : Accepted unicode requests accepted)
    (h : ∀ table', table.insertAll (instrumentRows now newId 0 accepted) ≠ .ok table') :
    createInstruments unicode connection now newId table requests = (table, .error instrumentsAlreadyExist) := by
  obtain ⟨hempty, hmany⟩ := length_bounds_iff.mpr ⟨hsome, hmany⟩
  unfold createInstruments
  rw [if_neg hempty, if_neg hmany, Machine.mapM_ok_iff.mpr haccepted]
  dsimp only
  rw [hworks.begins, if_neg (by decide), insertInstruments_conflict hworks haccepted.acceptable h]

/-- **A batch that is not created leaves the table alone.** -/
theorem createInstruments_error {e : ApiError}
    (h : createInstruments unicode connection now newId table requests = (table', .error e)) : table' = table := by
  unfold createInstruments at h
  split at h
  · cases h
    rfl
  · split at h
    · cases h
      rfl
    · split at h
      · cases h
        rfl
      · split at h
        · cases h
          rfl
        · split at h
          · cases h
            rfl
          · split at h
            · cases h
              rfl
            · cases h

/-- **A batch is all or nothing, under an exact rule.** On a connection that works a batch is created if and
    only if it has 1 to 100 requests, the validator accepts each of them, and the symbols that it returns are
    distinct and not in the table. The table has then gained one active row for each request, which are also
    the response, in the order of the requests. A batch that the validator accepts and that is not created is
    answered with a conflict. In every other case, also when the connection fails, the table is the one before:
    so it is when two requests of the batch spell one symbol, by case or white space. -/
theorem create_instruments_all_or_nothing (unicode : Unicode) (connection : Connection) (now : Timestamp)
    (newId : Nat → Uuid) (table : Table instrumentsSchema) (requests : List CreateInstrumentRequest)
    (hids : ∀ i < requests.length, ∀ j < requests.length, newId i = newId j → i = j)
    (hfresh : ∀ i < requests.length, ∀ row ∈ table.rows, row.id ≠ newId i) (table' : Table instrumentsSchema)
    (result : Except ApiError (StatusCode × List InstrumentResponse))
    (hcreate : createInstruments unicode connection now newId table requests = (table', result)) :
    (connection.Works →
      ((∃ response, result = .ok response)
        ↔ 1 ≤ requests.length ∧ requests.length ≤ 100
          ∧ ∃ accepted, Accepted unicode requests accepted
            ∧ (accepted.map CreateInstrumentRequest.symbol).Nodup
            ∧ ∀ request ∈ accepted, ∀ row ∈ table.rows, row.symbol ≠ request.symbol)
      ∧ (1 ≤ requests.length → requests.length ≤ 100 → ∀ accepted, Accepted unicode requests accepted →
          result.isOk = true ∨ result = .error instrumentsAlreadyExist))
    ∧ (∀ response, result = .ok response →
        ∃ accepted, Accepted unicode requests accepted
          ∧ response = (.created, accepted.mapIdx fun i request => instrumentRow now (newId i) request)
          ∧ table'.rows = table.rows ++ accepted.mapIdx fun i request => instrumentRow now (newId i) request)
    ∧ (∀ e, result = .error e → table' = table)
    ∧ ∀ request request', [request, request'].Sublist requests →
        eqIgnoreAsciiCase (unicode.trim request.symbol) (unicode.trim request'.symbol) = true →
        table' = table ∧ ∃ e, result = .error e := by
  -- the keys of an accepted batch are its symbols
  have hkeys : ∀ accepted, Accepted unicode requests accepted →
      ((∃ table', table.insertAll (instrumentRows now newId 0 accepted) = .ok table')
        ↔ (accepted.map CreateInstrumentRequest.symbol).Nodup
          ∧ ∀ request ∈ accepted, ∀ row ∈ table.rows, row.symbol ≠ request.symbol) := by
    intro accepted haccepted
    have hlength : accepted.length = requests.length := haccepted.length_eq.symm
    rw [Table.insertAll_ok_iff, pairwise_distinct_iff (hlength ▸ hids) (hlength ▸ hfresh)]
    refine and_iff_right ?_
    intro row hrow
    obtain ⟨i, request, -, hrequest, rfl⟩ := mem_instrumentRows hrow
    exact check_instrumentRow (haccepted.acceptable request hrequest) now _
  have hdone : ∀ response, result = .ok response → 1 ≤ requests.length ∧ requests.length ≤ 100
      ∧ ∃ accepted, Accepted unicode requests accepted
        ∧ table.insertAll (instrumentRows now newId 0 accepted) = .ok table'
        ∧ response = (.created, instrumentRows now newId 0 accepted) := by
    rintro response rfl
    exact createInstruments_ok hcreate
  have hundone : ∀ e, result = .error e → table' = table := by
    rintro e rfl
    exact createInstruments_error hcreate
  refine ⟨?_, ?_, hundone, ?_⟩
  · intro hworks
    refine ⟨⟨?_, ?_⟩, ?_⟩
    · rintro ⟨response, hok⟩
      obtain ⟨hsome, hmany, accepted, haccepted, hall, -⟩ := hdone response hok
      exact ⟨hsome, hmany, accepted, haccepted, (hkeys accepted haccepted).mp ⟨table', hall⟩⟩
    · rintro ⟨hsome, hmany, accepted, haccepted, hsymbols⟩
      obtain ⟨table'', hall⟩ := (hkeys accepted haccepted).mpr hsymbols
      have hok := createInstruments_of_insertAll hworks hsome hmany haccepted hall
      rw [hcreate] at hok
      exact ⟨_, congrArg Prod.snd hok⟩
    · intro hsome hmany accepted haccepted
      by_cases h : ∃ table', table.insertAll (instrumentRows now newId 0 accepted) = .ok table'
      · obtain ⟨table'', hall⟩ := h
        have hok := createInstruments_of_insertAll hworks hsome hmany haccepted hall
        rw [hcreate] at hok
        exact Or.inl (congrArg (fun r => r.2.isOk) hok)
      · have hconflict := createInstruments_conflict hworks hsome hmany haccepted (not_exists.mp h)
        rw [hcreate] at hconflict
        exact Or.inr (congrArg Prod.snd hconflict)
  · intro response hok
    obtain ⟨-, -, accepted, haccepted, hall, hresponse⟩ := hdone response hok
    refine ⟨accepted, haccepted, ?_, ?_⟩
    · rw [hresponse, instrumentRows_zero]
    · rw [Table.insertAll_ok hall, instrumentRows_zero]
  · intro request request' htwo hsame
    cases result with
    | error e => exact ⟨hundone e rfl, e, rfl⟩
    | ok response =>
        obtain ⟨-, -, accepted, haccepted, hall, -⟩ := hdone response rfl
        exact absurd ((hkeys accepted haccepted).mp ⟨table', hall⟩).1 (haccepted.not_nodup htwo hsame)

end Batches

/-- Two markets in an empty table. -/
theorem create_instruments_all_or_nothing_two :
    ∃ table' response, createInstruments asciiText ⟨true, fun _ => true, true⟩ 0 (BitVec.ofNat 128) Table.empty
        [sampleMarket, { sampleMarket with symbol := "eth-usdt" }] = (table', .ok response)
      ∧ table'.rows.map InstrumentResponse.symbol = ["BTC-USDT", "ETH-USDT"] := by
  obtain ⟨table', result, hcreate⟩ : ∃ table' result,
      createInstruments asciiText ⟨true, fun _ => true, true⟩ 0 (BitVec.ofNat 128) Table.empty
        [sampleMarket, { sampleMarket with symbol := "eth-usdt" }] = (table', result) := ⟨_, _, rfl⟩
  obtain ⟨hcreated, hdone, -⟩ := create_instruments_all_or_nothing asciiText ⟨true, fun _ => true, true⟩ 0
    (BitVec.ofNat 128) Table.empty [sampleMarket, { sampleMarket with symbol := "eth-usdt" }] (by decide)
    (by simp) table' result hcreate
  have haccepted : Accepted asciiText [sampleMarket, { sampleMarket with symbol := "eth-usdt" }]
      [⟨"BTC-USDT", .crypto, "BTC", "USDT", 2, 6, 1, 1000⟩,
        ⟨"ETH-USDT", .crypto, "BTC", "USDT", 2, 6, 1, 1000⟩] :=
    .cons (by decide +kernel) (.cons (by decide +kernel) .nil)
  obtain ⟨response, rfl⟩ := (hcreated ⟨rfl, fun _ => rfl, rfl⟩).1.mpr
    ⟨by decide, by decide, _, haccepted, by decide, by simp⟩
  refine ⟨table', response, hcreate, ?_⟩
  obtain ⟨accepted, haccepted, -, hrows⟩ := hdone response rfl
  rw [hrows, Table.rows_empty, List.nil_append, ← instrumentRows_zero, map_symbol_instrumentRows,
    haccepted.map_symbol]
  decide +kernel

end LimitOrderBook
