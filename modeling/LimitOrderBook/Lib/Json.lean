import Mathlib.Data.List.Basic

/-!
# `Lib.Json` — JSON text, written and read

Values, a printer with an indentation of two and a parser with a limit on the nesting. Numbers are natural numbers;
a text with a sign, a fraction or an exponent is refused, and so is an escape of a surrogate.

* **Printing.** `pretty` lays a value out; `escape` and `quote` do the characters of a text.
* **Parsing.** A `Parser` returns a value with what is left of the text. The scanners of texts and numbers take all
  that belongs to them, and `parseList` reads what stands between two brackets. `parse` also asks that nothing but
  white space is left.
* **Reading what was printed.** `Reads` says that a value is read back in front of any text that may follow it. The
  proof goes along the value (`reads`, `reads_items`, `reads_fields`), with a lemma for each scanner, and ends in
  `parse_pretty`: what is printed is read back, if its nesting is within the limit.
* **Text that ends early.** A parser `Closes` if what it read is still read with more text behind it, and `Stops` if
  that holds whenever some text was left over. Texts and lists close; a value only stops, because a number goes on
  with the digits behind it (`parseWith_stops`). So the part of a printed list is not read (`parse_of_part`): the rest
  of the list would be left over.
-/

inductive Json where
  | null
  | bool (b : Bool)
  | number (n : Nat)
  | string (s : String)
  | array (items : List Json)
  | object (fields : List (String × Json))
deriving Repr

namespace Json

/-! ## Printing -/

/-- The hexadecimal digit of a number below 16. -/
def hexDigit (n : Nat) : Char := if n < 10 then Char.ofNat (48 + n) else Char.ofNat (87 + n)

/-- How a character stands in a string. -/
def escape (c : Char) : List Char :=
  if c = '"' then ['\\', '"']
  else if c = '\\' then ['\\', '\\']
  else if c = '\n' then ['\\', 'n']
  else if c = '\r' then ['\\', 'r']
  else if c = '\t' then ['\\', 't']
  else if c.toNat = 8 then ['\\', 'b']
  else if c.toNat = 12 then ['\\', 'f']
  else if c.toNat < 32 then ['\\', 'u', '0', '0', hexDigit (c.toNat / 16), hexDigit (c.toNat % 16)]
  else [c]

def quote (s : String) : List Char := '"' :: (s.toList.flatMap escape ++ ['"'])

def newline (level : Nat) : List Char := '\n' :: List.replicate (2 * level) ' '

mutual

/-- The text of a value that stands at a level. -/
def pretty (level : Nat) : Json → List Char
  | null => ['n', 'u', 'l', 'l']
  | bool true => ['t', 'r', 'u', 'e']
  | bool false => ['f', 'a', 'l', 's', 'e']
  | number n => Nat.toDigits 10 n
  | string s => quote s
  | array [] => ['[', ']']
  | array (item :: items) =>
      '[' :: (newline (level + 1) ++ (pretty (level + 1) item ++ prettyItems (level + 1) items ++ (newline level ++ [']'])))
  | object [] => ['{', '}']
  | object ((key, value) :: fields) =>
      '{' :: (newline (level + 1) ++ (quote key ++ (':' :: ' ' :: pretty (level + 1) value)
        ++ prettyFields (level + 1) fields ++ (newline level ++ ['}'])))

def prettyItems (level : Nat) : List Json → List Char
  | [] => []
  | item :: items => ',' :: (newline level ++ pretty level item) ++ prettyItems level items

def prettyFields (level : Nat) : List (String × Json) → List Char
  | [] => []
  | (key, value) :: fields =>
      ',' :: (newline level ++ (quote key ++ (':' :: ' ' :: pretty level value))) ++ prettyFields level fields

end

mutual

/-- How deep the brackets are nested. -/
def depth : Json → Nat
  | array items => depthItems items + 1
  | object fields => depthFields fields + 1
  | _ => 0

def depthItems : List Json → Nat
  | [] => 0
  | item :: items => max (depth item) (depthItems items)

def depthFields : List (String × Json) → Nat
  | [] => 0
  | (_, value) :: fields => max (depth value) (depthFields fields)

end

/-! ## Parsing -/

/-- What a parser reads, and what it leaves. -/
abbrev Parser (α : Type) := List Char → Option (α × List Char)

def isSpace (c : Char) : Bool := c == ' ' || c == '\n' || c == '\t' || c == '\r'

def skip (text : List Char) : List Char := text.dropWhile isSpace

def hexValue (c : Char) : Option Nat :=
  if '0' ≤ c ∧ c ≤ '9' then some (c.toNat - 48)
  else if 'a' ≤ c ∧ c ≤ 'f' then some (c.toNat - 87)
  else if 'A' ≤ c ∧ c ≤ 'F' then some (c.toNat - 55)
  else none

/-- The character of a code unit, unless it is a surrogate. -/
def ofHex (a b c d : Char) : Option Char := do
  let n := (((← hexValue a) * 16 + (← hexValue b)) * 16 + (← hexValue c)) * 16 + (← hexValue d)
  if n.isValidChar then some (Char.ofNat n) else none

def unescape : Char → Option Char
  | '"' => some '"'
  | '\\' => some '\\'
  | '/' => some '/'
  | 'n' => some '\n'
  | 'r' => some '\r'
  | 't' => some '\t'
  | 'b' => some (Char.ofNat 8)
  | 'f' => some (Char.ofNat 12)
  | _ => none

/-- A control character stands in a string only as an escape. -/
def plain (c : Char) : Option Char := if c.toNat < 32 then none else some c

def consChar (c : Option Char) (read : Option (List Char × List Char)) : Option (List Char × List Char) :=
  match c, read with
  | some c, some (s, text) => some (c :: s, text)
  | _, _ => none

/-- A string behind its opening quote. -/
def parseChars : Parser (List Char)
  | [] => none
  | '"' :: text => some ([], text)
  | '\\' :: 'u' :: a :: b :: c :: d :: text => consChar (ofHex a b c d) (parseChars text)
  | '\\' :: c :: text => consChar (unescape c) (parseChars text)
  | c :: text => consChar (plain c) (parseChars text)

/-- A character that makes a number more than its digits. -/
def continues (c : Char) : Bool := c.isDigit || c == '.' || c == 'e' || c == 'E'

/-- A natural number, without a leading zero. -/
def parseNumber : Parser Nat := fun text =>
  let digits := text.takeWhile Char.isDigit
  let rest := text.dropWhile Char.isDigit
  if digits = [] || (digits.head? == some '0' && digits.length != 1) || rest.head?.any continues then none
  else some (Nat.ofDigitChars 10 digits 0, rest)

section Lists

variable {α : Type} (parse : Parser α) (close : Char)

/-- The rest of a list behind one of its items; the fuel is the length of the text. -/
def parseRest : Nat → Parser (List α)
  | 0, _ => none
  | fuel + 1, text =>
      match skip text with
      | [] => none
      | c :: text =>
          if c = close then some ([], text)
          else if c = ',' then do
            let (item, text) ← parse text
            let (items, text) ← parseRest fuel text
            some (item :: items, text)
          else none

/-- A list behind its opening bracket. -/
def parseList : Parser (List α) := fun text =>
  match skip text with
  | [] => none
  | c :: rest =>
      if c = close then some ([], rest)
      else do
        let (item, text) ← parse (c :: rest)
        let (items, text) ← parseRest parse close text.length text
        some (item :: items, text)

/-- A field of an object. -/
def parseField : Parser (String × α) := fun text =>
  match skip text with
  | '"' :: text => do
      let (key, text) ← parseChars text
      match skip text with
      | ':' :: text => do
          let (value, text) ← parse text
          some ((String.ofList key, value), text)
      | _ => none
  | _ => none

end Lists

/-- A value whose parts are read by `nested`, if it may have parts. -/
def parseWith (nested : Option (Parser Json)) : Parser Json := fun text =>
  match skip text with
  | '"' :: text => (parseChars text).map fun (s, text) => (string (String.ofList s), text)
  | '[' :: text => do
      let parse ← nested
      (parseList parse ']' text).map fun (items, text) => (array items, text)
  | '{' :: text => do
      let parse ← nested
      (parseList (parseField parse) '}' text).map fun (fields, text) => (object fields, text)
  | 'n' :: 'u' :: 'l' :: 'l' :: text => some (null, text)
  | 't' :: 'r' :: 'u' :: 'e' :: text => some (bool true, text)
  | 'f' :: 'a' :: 'l' :: 's' :: 'e' :: text => some (bool false, text)
  | text => (parseNumber text).map fun (n, text) => (number n, text)

/-- A value with at most so many brackets nested. -/
def parseValue : Nat → Parser Json
  | 0 => parseWith none
  | depth + 1 => parseWith (some (parseValue depth))

/-- A text that is one value. -/
def parse (limit : Nat) (text : List Char) : Option Json :=
  match parseValue limit text with
  | none => none
  | some (value, rest) => if skip rest = [] then some value else none

/-! ## Reading what was printed -/

theorem skip_cons {c : Char} (h : isSpace c = false) (text : List Char) : skip (c :: text) = c :: text := by
  simp [skip, List.dropWhile, h]

theorem skip_newline (level : Nat) (text : List Char) : skip (newline level ++ text) = skip text := by
  have hspaces : ∀ n, skip (List.replicate n ' ' ++ text) = skip text := by
    intro n
    induction n with
    | zero => rfl
    | succ n ih => simpa [skip, List.replicate_succ, List.dropWhile, isSpace] using ih
  exact hspaces (2 * level)

/-- A digit that was printed has its value. -/
theorem hexValue_hexDigit : ∀ n < 16, hexValue (hexDigit n) = some n := by decide

/-- A backslash and a character other than `u` are read as the character they stand for. -/
theorem unescape_cases {c e : Char} (h : unescape e = some c) (hu : e ≠ 'u') (text : List Char) :
    parseChars ('\\' :: e :: text) = consChar (some c) (parseChars text) := by
  rw [parseChars, h]
  exact fun _ _ _ _ _ hc _ => hu hc

/-- A character that needs no escape is read as it stands. -/
theorem parseChars_plain {c : Char} (hquote : c ≠ '"') (hslash : c ≠ '\\') (text : List Char) :
    parseChars (c :: text) = consChar (plain c) (parseChars text) := by
  rw [parseChars]
  · exact hquote
  · exact fun _ _ _ _ _ hc _ => hslash hc
  · exact fun _ _ hc _ => hslash hc

/-- A character is read back from the way it was written. -/
theorem parseChars_escape (c : Char) (text : List Char) :
    parseChars (escape c ++ text) = consChar (some c) (parseChars text) := by
  unfold escape
  split
  next h =>
    subst h
    exact unescape_cases rfl (by decide) text
  split
  next h =>
    subst h
    exact unescape_cases rfl (by decide) text
  split
  next h =>
    subst h
    exact unescape_cases rfl (by decide) text
  split
  next h =>
    subst h
    exact unescape_cases rfl (by decide) text
  split
  next h =>
    subst h
    exact unescape_cases rfl (by decide) text
  split
  next h =>
    obtain rfl : c = Char.ofNat 8 := by rw [← h, Char.ofNat_toNat]
    exact unescape_cases rfl (by decide) text
  split
  next h =>
    obtain rfl : c = Char.ofNat 12 := by rw [← h, Char.ofNat_toNat]
    exact unescape_cases rfl (by decide) text
  split
  next h =>
    have hhigh := hexValue_hexDigit (c.toNat / 16) (by omega)
    have hlow := hexValue_hexDigit (c.toNat % 16) (by omega)
    have hhex : ofHex '0' '0' (hexDigit (c.toNat / 16)) (hexDigit (c.toNat % 16)) = some c := by
      have hzero : hexValue '0' = some 0 := by decide
      have hsum : c.toNat / 16 * 16 + c.toNat % 16 = c.toNat := by omega
      have hvalid : c.toNat.isValidChar := Or.inl (by omega)
      unfold ofHex
      simp only [hzero, hhigh, hlow, Option.bind_eq_bind, Option.bind_some, Nat.zero_mul, Nat.zero_add, hsum]
      rw [if_pos hvalid, Char.ofNat_toNat]
    show parseChars ('\\' :: 'u' :: '0' :: '0' :: hexDigit (c.toNat / 16) :: hexDigit (c.toNat % 16) :: text) = _
    rw [parseChars, hhex]
  next hquote hslash _ _ _ _ _ hcontrol =>
    have hplain : plain c = some c := if_neg hcontrol
    rw [List.singleton_append, parseChars_plain hquote hslash, hplain]

/-- A text that was quoted is read back, up to its quotation mark. -/
theorem parseChars_quoted (s text : List Char) : parseChars (s.flatMap escape ++ '"' :: text) = some (s, text) := by
  induction s with
  | nil => rw [List.flatMap_nil, List.nil_append, parseChars]
  | cons c s ih =>
      rw [List.flatMap_cons, List.append_assoc, parseChars_escape, ih]
      rfl

/-- What may follow a number. -/
def Follows (text : List Char) : Prop := text.head?.any continues = false

theorem toDigits_no_zero {n : Nat} (h : 0 < n) : (Nat.toDigits 10 n).head? ≠ some '0' := by
  have hdigit : ∀ n < 10, 0 < n → [Nat.digitChar n].head? ≠ some '0' := by decide
  induction n using Nat.strongRecOn with
  | ind n ih =>
      rw [Nat.toDigits_eq_if (by decide)]
      split
      · rename_i hsmall
        exact hdigit n hsmall h
      · rename_i hlarge
        rw [List.head?_append_of_ne_nil _ Nat.toDigits_ne_nil]
        exact ih (n / 10) (Nat.div_lt_self h (by decide)) (by omega)

/-- A number that was printed is read back, if no digit follows. -/
theorem parseNumber_toDigits (n : Nat) {text : List Char} (h : Follows text) :
    parseNumber (Nat.toDigits 10 n ++ text) = some (n, text) := by
  have hdigits : ∀ c ∈ Nat.toDigits 10 n, c.isDigit = true :=
    fun c hc => Nat.isDigit_of_mem_toDigits (by decide) (by decide) hc
  have hstop : text.takeWhile Char.isDigit = [] ∧ text.dropWhile Char.isDigit = text := by
    cases text with
    | nil => exact ⟨rfl, rfl⟩
    | cons c text =>
        have hc : c.isDigit = false := by
          simp only [Follows, List.head?_cons, Option.any_some, continues, Bool.or_eq_false_iff] at h
          exact h.1.1.1
        simp [hc]
  have hzero : ((Nat.toDigits 10 n).head? == some '0' && (Nat.toDigits 10 n).length != 1) = false := by
    rcases Nat.eq_zero_or_pos n with rfl | hpos
    · rw [Nat.toDigits_zero]
      rfl
    · rw [beq_eq_false_iff_ne.mpr (toDigits_no_zero hpos), Bool.false_and]
  unfold parseNumber
  dsimp only
  rw [List.takeWhile_append_of_pos hdigits, List.dropWhile_append_of_pos hdigits, hstop.1, hstop.2, List.append_nil,
    hzero, h, Nat.ofDigitChars_ten_toDigits]
  simp [Nat.toDigits_ne_nil]

section Lists

variable {α : Type} {parse : Parser α} {close : Char} {print : α → List Char} (level : Nat)

/-- The items behind the first, as they are printed. -/
def following (level : Nat) (print : α → List Char) (items : List α) : List Char :=
  items.flatMap fun item => ',' :: (newline level ++ print item)

/-- A number may stand before the rest of a list. -/
theorem follows_following (level level' : Nat) (print : α → List Char) (items : List α) (text : List Char) :
    Follows (following level' print items ++ (newline level ++ text)) := by
  cases items <;> rfl

theorem length_following (level : Nat) (print : α → List Char) (items : List α) :
    items.length ≤ (following level print items).length := by
  induction items with
  | nil => exact Nat.zero_le _
  | cons item items ih =>
      simp only [following, List.flatMap_cons, List.cons_append, List.length_cons, List.length_append] at ih ⊢
      omega

/-- The items behind the first one are read back, if each of them is. -/
theorem parseRest_following (hspace : isSpace close = false) (hcomma : close ≠ ',') (level' : Nat)
    (hskip : ∀ text, parse (newline level' ++ text) = parse text) (text : List Char) {items : List α} {fuel : Nat}
    (hfuel : items.length < fuel)
    (hread : ∀ item ∈ items, ∀ text, Follows text → parse (print item ++ text) = some (item, text)) :
    parseRest parse close fuel (following level' print items ++ (newline level ++ close :: text))
      = some (items, text) := by
  induction items generalizing fuel with
  | nil =>
      cases fuel with
      | zero => cases hfuel
      | succ fuel =>
          show parseRest parse close (fuel + 1) (newline level ++ close :: text) = some ([], text)
          rw [parseRest, skip_newline, skip_cons hspace]
          exact if_pos rfl
  | cons item items ih =>
      cases fuel with
      | zero => cases hfuel
      | succ fuel =>
          have hrest := ih (Nat.lt_of_succ_lt_succ hfuel) fun i hi => hread i (List.mem_cons_of_mem _ hi)
          have hitem := hread item List.mem_cons_self _ (follows_following level level' print items (close :: text))
          have hcons : following level' print (item :: items) ++ (newline level ++ close :: text)
              = ',' :: (newline level' ++ (print item ++ (following level' print items
                ++ (newline level ++ close :: text)))) := by
            simp [following]
          rw [hcons, parseRest, skip_cons (by decide)]
          dsimp only
          rw [if_neg hcomma.symm, if_pos rfl, hskip, hitem]
          show (parseRest parse close fuel _ >>= _) = _
          rw [hrest]
          rfl

/-- A list with an item is read back as it is printed. -/
theorem parseList_printed (hspace : isSpace close = false) (hcomma : close ≠ ',') (level' : Nat)
    (hskip : ∀ text, parse (newline level' ++ text) = parse text) (text : List Char) {item : α} {items : List α}
    (hhead : ∃ c rest, print item = c :: rest ∧ isSpace c = false ∧ c ≠ close)
    (hread : ∀ i ∈ item :: items, ∀ text, Follows text → parse (print i ++ text) = some (i, text)) :
    parseList parse close (newline level' ++ (print item ++ following level' print items
      ++ (newline level ++ close :: text))) = some (item :: items, text) := by
  obtain ⟨c, rest, hprint, hc, hclose⟩ := hhead
  have hitem := hread item List.mem_cons_self _ (follows_following level level' print items (close :: text))
  have hfuel : items.length < (following level' print items ++ (newline level ++ close :: text)).length := by
    have hlength := length_following level' print items
    simp only [List.length_append, List.length_cons]
    omega
  have hrest := parseRest_following level hspace hcomma level' hskip text hfuel
    fun i hi => hread i (List.mem_cons_of_mem _ hi)
  unfold parseList
  rw [skip_newline, List.append_assoc, hprint, List.cons_append, skip_cons hc]
  dsimp only
  rw [if_neg hclose, ← List.cons_append, ← hprint, hitem]
  show (parseRest parse close _ _ >>= _) = _
  rw [hrest]
  rfl

theorem prettyItems_eq (level : Nat) (items : List Json) :
    prettyItems level items = following level (pretty level) items := by
  induction items with
  | nil => rfl
  | cons item items ih => rw [prettyItems, ih, following, following, List.flatMap_cons]

/-- A field as it is printed. -/
def prettyField (level : Nat) (field : String × Json) : List Char :=
  quote field.1 ++ (':' :: ' ' :: pretty level field.2)

theorem prettyFields_eq (level : Nat) (fields : List (String × Json)) :
    prettyFields level fields = following level (prettyField level) fields := by
  induction fields with
  | nil => rfl
  | cons field fields ih => rw [prettyFields, ih, following, following, List.flatMap_cons, prettyField]

end Lists

/-! ### Values -/

theorem parseWith_newline (nested : Option (Parser Json)) (level : Nat) (text : List Char) :
    parseWith nested (newline level ++ text) = parseWith nested text := by
  unfold parseWith
  rw [skip_newline]

theorem parseValue_newline (depth level : Nat) (text : List Char) :
    parseValue depth (newline level ++ text) = parseValue depth text := by
  cases depth <;> exact parseWith_newline _ level text

theorem parseValue_space (depth : Nat) (text : List Char) : parseValue depth (' ' :: text) = parseValue depth text := by
  cases depth <;> rfl

theorem parseField_newline (parse : Parser Json) (level : Nat) (text : List Char) :
    parseField parse (newline level ++ text) = parseField parse text := by
  unfold parseField
  rw [skip_newline]

/-- The text of a value is read as the value. -/
def Reads (value : Json) : Prop :=
  ∀ limit level text, value.depth ≤ limit → Follows text →
    parseValue limit (pretty level value ++ text) = some (value, text)

/-- A field is read back if its value is. -/
theorem parseField_printed {limit : Nat} (level : Nat) {field : String × Json} (hdepth : field.2.depth ≤ limit)
    (hread : Reads field.2) {text : List Char} (h : Follows text) :
    parseField (parseValue limit) (prettyField level field ++ text) = some (field, text) := by
  have hvalue := hread limit level text hdepth h
  have hquote : prettyField level field ++ text
      = '"' :: (field.1.toList.flatMap escape ++ '"' :: ':' :: ' ' :: (pretty level field.2 ++ text)) := by
    simp [prettyField, quote]
  unfold parseField
  rw [hquote, skip_cons (by decide)]
  show (parseChars _ >>= _) = _
  rw [parseChars_quoted]
  show (parseValue limit (' ' :: (pretty level field.2 ++ text)) >>= _) = _
  rw [parseValue_space, hvalue]
  show some ((String.ofList field.1.toList, field.2), text) = _
  rw [String.ofList_toList]

theorem depth_le_items {item : Json} {items : List Json} (h : item ∈ items) : item.depth ≤ depthItems items := by
  induction items with
  | nil => cases h
  | cons i items ih =>
      rw [depthItems]
      rcases List.mem_cons.mp h with rfl | hmem
      · exact Nat.le_max_left _ _
      · exact Nat.le_trans (ih hmem) (Nat.le_max_right _ _)

theorem depth_le_fields {field : String × Json} {fields : List (String × Json)} (h : field ∈ fields) :
    field.2.depth ≤ depthFields fields := by
  induction fields with
  | nil => cases h
  | cons f fields ih =>
      rw [depthFields]
      rcases List.mem_cons.mp h with rfl | hmem
      · exact Nat.le_max_left _ _
      · exact Nat.le_trans (ih hmem) (Nat.le_max_right _ _)

theorem toDigits_head (n : Nat) : ∃ c rest, Nat.toDigits 10 n = c :: rest ∧ c.isDigit = true := by
  cases hdigits : Nat.toDigits 10 n with
  | nil => exact absurd hdigits Nat.toDigits_ne_nil
  | cons c rest =>
      exact ⟨c, rest, rfl, Nat.isDigit_of_mem_toDigits (b := 10) (n := n) (by decide) (by decide) (by simp [hdigits])⟩

theorem digit_ne {c d : Char} (hc : c.isDigit = true) (hd : d.isDigit = false) : c ≠ d := by
  rintro rfl
  rw [hc] at hd
  cases hd

theorem isSpace_digit {c : Char} (hc : c.isDigit = true) : isSpace c = false := by
  simp [isSpace, digit_ne hc (show (' ' : Char).isDigit = false by decide),
    digit_ne hc (show '\n'.isDigit = false by decide),
    digit_ne hc (show '\t'.isDigit = false by decide), digit_ne hc (show '\r'.isDigit = false by decide)]

/-- The first character of a value opens it, and closes no list. -/
theorem pretty_head (level : Nat) (value : Json) :
    ∃ c rest, pretty level value = c :: rest ∧ isSpace c = false ∧ c ≠ ']' := by
  cases value with
  | null => exact ⟨_, _, rfl, by decide, by decide⟩
  | bool b => cases b <;> exact ⟨_, _, rfl, by decide, by decide⟩
  | number n =>
      obtain ⟨c, rest, hdigits, hc⟩ := toDigits_head n
      exact ⟨c, rest, hdigits, isSpace_digit hc, digit_ne hc (by decide)⟩
  | string s => exact ⟨_, _, rfl, by decide, by decide⟩
  | array items => cases items <;> exact ⟨_, _, rfl, by decide, by decide⟩
  | object fields =>
      cases fields with
      | nil => exact ⟨_, _, rfl, by decide, by decide⟩
      | cons field fields => exact ⟨_, _, rfl, by decide, by decide⟩

/-- A number is read where no other value can begin. -/
theorem parseWith_digit (nested : Option (Parser Json)) {c : Char} (hc : c.isDigit = true) (text : List Char) :
    parseWith nested (c :: text) = (parseNumber (c :: text)).map fun (n, text) => (number n, text) := by
  unfold parseWith
  rw [skip_cons (isSpace_digit hc)]
  split
  · rename_i heq
    cases heq
    cases hc
  · rename_i heq
    cases heq
    cases hc
  · rename_i heq
    cases heq
    cases hc
  · rename_i heq
    cases heq
    cases hc
  · rename_i heq
    cases heq
    cases hc
  · rename_i heq
    cases heq
    cases hc
  · rfl

/-- An array is read back if its items are. -/
theorem reads_array {items : List Json} (h : ∀ item ∈ items, Reads item) : Reads (array items) := by
  intro limit level text hdepth hfollows
  cases limit with
  | zero => cases hdepth
  | succ limit =>
      cases items with
      | nil => rfl
      | cons item items =>
          have hread : ∀ i ∈ item :: items, ∀ text, Follows text →
              parseValue limit (pretty (level + 1) i ++ text) = some (i, text) :=
            fun i hi text => h i hi limit (level + 1) text
              (Nat.le_trans (depth_le_items hi) (Nat.le_of_succ_le_succ hdepth))
          have hlist := parseList_printed level (by decide) (by decide) (level + 1)
            (parseValue_newline limit (level + 1)) text (pretty_head (level + 1) item) hread
          have hpretty : pretty level (array (item :: items)) ++ text
              = '[' :: (newline (level + 1) ++ (pretty (level + 1) item
                ++ following (level + 1) (pretty (level + 1)) items ++ (newline level ++ ']' :: text))) := by
            rw [pretty, prettyItems_eq]
            simp
          rw [hpretty]
          show (parseList (parseValue limit) ']' _).map _ = _
          rw [hlist]
          rfl

/-- An object is read back if the values of its fields are. -/
theorem reads_object {fields : List (String × Json)} (h : ∀ field ∈ fields, Reads field.2) : Reads (object fields) := by
  intro limit level text hdepth hfollows
  cases limit with
  | zero => cases hdepth
  | succ limit =>
      cases fields with
      | nil => rfl
      | cons field fields =>
          have hread : ∀ f ∈ field :: fields, ∀ text, Follows text →
              parseField (parseValue limit) (prettyField (level + 1) f ++ text) = some (f, text) :=
            fun f hf text => parseField_printed (level + 1)
              (Nat.le_trans (depth_le_fields hf) (Nat.le_of_succ_le_succ hdepth)) (h f hf)
          have hlist := parseList_printed level (show isSpace '}' = false by decide) (by decide) (level + 1)
            (parseField_newline (parseValue limit) (level + 1)) text ⟨_, _, rfl, by decide, by decide⟩ hread
          have hpretty : pretty level (object (field :: fields)) ++ text
              = '{' :: (newline (level + 1) ++ (prettyField (level + 1) field
                ++ following (level + 1) (prettyField (level + 1)) fields ++ (newline level ++ '}' :: text))) := by
            rw [pretty, prettyFields_eq, prettyField]
            simp
          rw [hpretty]
          show (parseList (parseField (parseValue limit)) '}' _).map _ = _
          rw [hlist]
          rfl

mutual

theorem reads : (value : Json) → Reads value
  | null => by
      intro limit level text _ _
      cases limit <;> rfl
  | bool true => by
      intro limit level text _ _
      cases limit <;> rfl
  | bool false => by
      intro limit level text _ _
      cases limit <;> rfl
  | number n => by
      intro limit level text _ hfollows
      have hnumber := parseNumber_toDigits n hfollows
      obtain ⟨c, rest, hdigits, hc⟩ := toDigits_head n
      have hparse : ∀ nested, parseWith nested (Nat.toDigits 10 n ++ text) = some (number n, text) := by
        intro nested
        rw [hdigits, List.cons_append] at hnumber ⊢
        rw [parseWith_digit nested hc, hnumber]
        rfl
      cases limit <;> exact hparse _
  | string s => by
      intro limit level text _ _
      have hchars := parseChars_quoted s.toList text
      have hquote : pretty level (string s) ++ text = '"' :: (s.toList.flatMap escape ++ '"' :: text) := by
        simp [pretty, quote]
      rw [hquote]
      have hmap : (parseChars (s.toList.flatMap escape ++ '"' :: text)).map
          (fun (s, text) => (string (String.ofList s), text)) = some (string s, text) := by
        rw [hchars]
        show some (string (String.ofList s.toList), text) = _
        rw [String.ofList_toList]
      cases limit <;> exact hmap
  | array items => reads_array (reads_items items)
  | object fields => reads_object (reads_fields fields)

theorem reads_items : (items : List Json) → ∀ item ∈ items, Reads item
  | [] => List.forall_mem_nil _
  | item :: items => List.forall_mem_cons.mpr ⟨reads item, reads_items items⟩

theorem reads_fields : (fields : List (String × Json)) → ∀ field ∈ fields, Reads field.2
  | [] => List.forall_mem_nil _
  | (_, value) :: fields => List.forall_mem_cons.mpr ⟨reads value, reads_fields fields⟩

end

/-- **What is printed is read back**, if it is not nested too deeply. -/
theorem parse_pretty {limit : Nat} {value : Json} (h : value.depth ≤ limit) :
    parse limit (pretty 0 value) = some value := by
  have hread := reads value limit 0 [] h rfl
  rw [List.append_nil] at hread
  unfold parse
  rw [hread]
  rfl

/-! ## Text that ends early -/

section Ends

variable {α : Type} {parse : Parser α} {close : Char}

/-- What is read does not depend on the text behind it. -/
def Closes (parse : Parser α) : Prop :=
  ∀ text a rest more, parse text = some (a, rest) → parse (text ++ more) = some (a, rest ++ more)

/-- It does not if there is any text behind it. -/
def Stops (parse : Parser α) : Prop :=
  ∀ text a rest more, rest ≠ [] → parse text = some (a, rest) → parse (text ++ more) = some (a, rest ++ more)

theorem skip_append {text text' : List Char} {c : Char} (h : skip text = c :: text') (more : List Char) :
    skip (text ++ more) = c :: (text' ++ more) := by
  have hdrop : text.dropWhile isSpace = c :: text' := h
  unfold skip
  rw [List.dropWhile_append, hdrop]
  rfl

theorem consChar_eq_some {c : Option Char} {read : Option (List Char × List Char)} {s text : List Char} :
    consChar c read = some (s, text) ↔ ∃ c' s', c = some c' ∧ read = some (s', text) ∧ s = c' :: s' := by
  cases c with
  | none => simp [consChar]
  | some c =>
      cases read with
      | none => simp [consChar]
      | some r =>
          obtain ⟨s', text'⟩ := r
          simp only [consChar, Option.some.injEq, Prod.mk.injEq]
          constructor
          · rintro ⟨rfl, rfl⟩
            exact ⟨c, s', rfl, ⟨rfl, rfl⟩, rfl⟩
          · rintro ⟨_, _, rfl, ⟨rfl, rfl⟩, rfl⟩
            exact ⟨rfl, rfl⟩

/-- A text ends with its quotation mark, whatever is behind it. -/
theorem parseChars_closes : Closes parseChars := by
  intro text s rest more h
  induction text using parseChars.induct generalizing s rest with
  | case1 => cases h
  | case2 text =>
      rw [parseChars] at h
      cases h
      exact parseChars.eq_2 _
  | case3 a b c d text ih =>
      rw [parseChars] at h
      obtain ⟨c', s', hc, hread, rfl⟩ := consChar_eq_some.mp h
      show parseChars ('\\' :: 'u' :: a :: b :: c :: d :: (text ++ more)) = _
      rw [parseChars, hc, ih s' rest hread]
      rfl
  | case4 c text hu ih =>
      rw [parseChars] at h
      swap
      · exact hu
      obtain ⟨c', s', hc, hread, rfl⟩ := consChar_eq_some.mp h
      have hne : c ≠ 'u' := by
        rintro rfl
        cases hc
      show parseChars ('\\' :: c :: (text ++ more)) = _
      rw [unescape_cases hc hne, ih s' rest hread]
      rfl
  | case5 c text hquote hu hslash ih =>
      have hplain : c ≠ '\\' := by
        rintro rfl
        cases text with
        | nil => cases h
        | cons d text => exact hslash d text rfl rfl
      rw [parseChars_plain hquote hplain] at h
      obtain ⟨c', s', hc, hread, rfl⟩ := consChar_eq_some.mp h
      rw [List.cons_append, parseChars_plain hquote hplain, hc, ih s' rest hread]
      rfl

theorem parseNumber_eq_some {text rest : List Char} {n : Nat} (h : parseNumber text = some (n, rest)) :
    text.takeWhile Char.isDigit ≠ [] ∧ text.dropWhile Char.isDigit = rest
      ∧ ∀ more, rest ≠ [] → parseNumber (text ++ more) = some (n, rest ++ more) := by
  unfold parseNumber at h
  dsimp only at h
  split at h
  · cases h
  · rename_i hnot
    cases h
    simp only [Bool.or_eq_true, decide_eq_true_eq, not_or] at hnot
    refine ⟨hnot.1.1, rfl, ?_⟩
    intro more hne
    obtain ⟨c, rest, hrest⟩ := List.exists_cons_of_ne_nil hne
    have htake : (text ++ more).takeWhile Char.isDigit = text.takeWhile Char.isDigit := by
      rw [List.takeWhile_append, if_neg]
      have hlength := congrArg List.length (List.takeWhile_append_dropWhile (p := Char.isDigit) (l := text))
      rw [List.length_append, hrest, List.length_cons] at hlength
      omega
    have hdrop : (text ++ more).dropWhile Char.isDigit = text.dropWhile Char.isDigit ++ more := by
      rw [List.dropWhile_append, hrest]
      rfl
    unfold parseNumber
    dsimp only
    rw [htake, hdrop, if_neg]
    rw [hrest] at hnot ⊢
    simpa using hnot

/-- The fuel of a list does not matter either, as long as there is enough. -/
theorem parseRest_closes (hparse : Stops parse) {fuel : Nat} {text rest : List Char} {items : List α}
    (h : parseRest parse close fuel text = some (items, rest)) {fuel' : Nat} (hfuel : fuel ≤ fuel') (more : List Char) :
    parseRest parse close fuel' (text ++ more) = some (items, rest ++ more) := by
  induction fuel generalizing text items fuel' with
  | zero => cases h
  | succ fuel ih =>
      obtain ⟨fuel', rfl⟩ := Nat.exists_eq_add_of_le' hfuel
      rw [parseRest] at h
      split at h
      · cases h
      · rename_i c text' hskip
        rw [← Nat.add_assoc, parseRest, skip_append hskip]
        dsimp only
        split at h
        · rename_i hclose
          cases h
          rw [if_pos hclose]
        · rename_i hclose
          rw [if_neg hclose]
          split at h
          · rename_i hcomma
            rw [if_pos hcomma]
            obtain ⟨⟨item, text₁⟩, hitem, h⟩ := Option.bind_eq_some_iff.mp h
            obtain ⟨⟨items', text₂⟩, hitems, h⟩ := Option.bind_eq_some_iff.mp h
            cases h
            have hne : text₁ ≠ [] := by
              rintro rfl
              cases fuel <;> cases hitems
            rw [hparse _ _ _ more hne hitem]
            show (parseRest parse close _ (text₁ ++ more) >>= _) = _
            rw [ih hitems (Nat.le_add_left _ _)]
            rfl
          · cases h

/-- A list ends with its bracket, whatever is behind it. -/
theorem parseList_closes (hparse : Stops parse) : Closes (parseList parse close) := by
  intro text items rest more h
  unfold parseList at h ⊢
  split at h
  · cases h
  · rename_i c text' hskip
    rw [skip_append hskip]
    dsimp only
    split at h
    · rename_i hclose
      cases h
      rw [if_pos hclose]
    · rename_i hclose
      rw [if_neg hclose]
      obtain ⟨⟨item, text₁⟩, hitem, h⟩ := Option.bind_eq_some_iff.mp h
      obtain ⟨⟨items', text₂⟩, hitems, h⟩ := Option.bind_eq_some_iff.mp h
      cases h
      have hne : text₁ ≠ [] := by
        rintro rfl
        cases hitems
      have hitem' := hparse _ _ _ more hne hitem
      rw [List.cons_append] at hitem'
      rw [hitem']
      show (parseRest parse close _ (text₁ ++ more) >>= _) = _
      rw [parseRest_closes hparse hitems (by simp)]
      rfl

/-- A field stops where its value does. -/
theorem parseField_stops (hparse : Stops parse) : Stops (parseField parse) := by
  intro text field rest more hne h
  unfold parseField at h ⊢
  split at h
  · rename_i text' hskip
    obtain ⟨⟨key, text₁⟩, hkey, h⟩ := Option.bind_eq_some_iff.mp h
    dsimp only at h
    split at h
    · rename_i text₂ hskip'
      obtain ⟨⟨value, text₃⟩, hvalue, h⟩ := Option.bind_eq_some_iff.mp h
      cases h
      rw [skip_append hskip]
      show (parseChars (text' ++ more) >>= _) = _
      rw [parseChars_closes _ _ _ more hkey]
      show (match skip (text₁ ++ more) with
        | ':' :: text => _
        | _ => _) = _
      rw [skip_append hskip']
      show (parse (text₂ ++ more) >>= _) = _
      rw [hparse _ _ _ more hne hvalue]
      rfl
    · cases h
  · cases h

/-- **A value is read in the same way with more text behind it**; for a number there has to be some already. -/
theorem parseWith_stops {nested : Option (Parser Json)} (hnested : ∀ parse ∈ nested, Stops parse) {text rest : List Char}
    {value : Json} (h : parseWith nested text = some (value, rest)) (more : List Char)
    (hne : rest ≠ [] ∨ ∀ n, value ≠ number n) : parseWith nested (text ++ more) = some (value, rest ++ more) := by
  unfold parseWith at h
  split at h
  · rename_i text' hskip
    obtain ⟨⟨s, text₁⟩, hs, h⟩ := Option.map_eq_some_iff.mp h
    cases h
    unfold parseWith
    rw [skip_append hskip]
    show (parseChars (text' ++ more)).map _ = _
    rw [parseChars_closes _ _ _ more hs]
    rfl
  · rename_i text' hskip
    obtain ⟨parse, hparse, h⟩ := Option.bind_eq_some_iff.mp h
    obtain ⟨⟨items, text₁⟩, hitems, h⟩ := Option.map_eq_some_iff.mp h
    cases h
    subst hparse
    unfold parseWith
    rw [skip_append hskip]
    show (parseList parse ']' (text' ++ more)).map _ = _
    rw [parseList_closes (hnested parse rfl) _ _ _ more hitems]
    rfl
  · rename_i text' hskip
    obtain ⟨parse, hparse, h⟩ := Option.bind_eq_some_iff.mp h
    obtain ⟨⟨fields, text₁⟩, hfields, h⟩ := Option.map_eq_some_iff.mp h
    cases h
    subst hparse
    unfold parseWith
    rw [skip_append hskip]
    show (parseList (parseField parse) '}' (text' ++ more)).map _ = _
    rw [parseList_closes (parseField_stops (hnested parse rfl)) _ _ _ more hfields]
    rfl
  · rename_i text' hskip
    cases h
    unfold parseWith
    rw [skip_append hskip]
    rfl
  · rename_i text' hskip
    cases h
    unfold parseWith
    rw [skip_append hskip]
    rfl
  · rename_i text' hskip
    cases h
    unfold parseWith
    rw [skip_append hskip]
    rfl
  · obtain ⟨⟨n, text₁⟩, hn, h⟩ := Option.map_eq_some_iff.mp h
    cases h
    obtain ⟨hdigits, -, hstops⟩ := parseNumber_eq_some hn
    have hmore := hstops more (hne.resolve_right fun hall => hall n rfl)
    cases hskip : skip text with
    | nil =>
        rw [hskip] at hdigits
        exact absurd rfl hdigits
    | cons c text' =>
        have hc : c.isDigit = true := by
          by_contra hc
          rw [hskip, List.takeWhile_cons_of_neg hc] at hdigits
          exact hdigits rfl
        have hparse := parseWith_digit nested hc (text' ++ more)
        rw [hskip, List.cons_append] at hmore
        unfold parseWith at hparse ⊢
        rw [skip_append hskip]
        rw [skip_cons (isSpace_digit hc)] at hparse
        rw [hparse, hmore]
        rfl

/-- A value that has text behind it is read in the same way with more. -/
theorem parseValue_stops (limit : Nat) : Stops (parseValue limit) := by
  induction limit with
  | zero =>
      intro text value rest more hne h
      refine parseWith_stops ?_ h more (Or.inl hne)
      rintro parse hparse
      cases hparse
  | succ limit ih =>
      intro text value rest more hne h
      refine parseWith_stops ?_ h more (Or.inl hne)
      rintro parse hparse
      cases hparse
      exact ih

/-- **A list that ends early is not read**: the text of a list has no part of its own that is a value. -/
theorem parse_of_part {limit : Nat} {items : List Json} (hdepth : (array items).depth ≤ limit)
    {part rest : List Char} (h : part ++ rest = pretty 0 (array items)) (hne : rest ≠ []) :
    Json.parse limit part = none := by
  have hwhole := reads (array items) limit 0 [] hdepth rfl
  rw [List.append_nil, ← h] at hwhole
  cases limit with
  | zero => cases hdepth
  | succ limit =>
      unfold Json.parse
      cases hread : parseValue (limit + 1) part with
      | none => rfl
      | some r =>
          obtain ⟨value, left⟩ := r
          -- what is read of the part is a list, so the rest does not change it
          have hvalue : ∀ n, value ≠ number n := by
            rintro n rfl
            cases part with
            | nil => cases hread
            | cons c part =>
                obtain rfl : c = '[' := by
                  cases items with
                  | nil => exact (List.cons.inj h).1
                  | cons item items => exact (List.cons.inj h).1
                have hlist : (parseList (parseValue limit) ']' part).map (fun (items, text) => (array items, text))
                    = some (number n, left) := hread
                obtain ⟨r, -, heq⟩ := Option.map_eq_some_iff.mp hlist
                cases heq
          have hnested : ∀ parse ∈ some (parseValue limit), Stops parse := by
            rintro parse hparse
            cases hparse
            exact parseValue_stops limit
          have hmore := parseWith_stops hnested hread rest (Or.inr hvalue)
          have hsame := hmore.symm.trans hwhole
          simp only [Option.some.injEq, Prod.mk.injEq, List.append_eq_nil_iff] at hsame
          exact absurd hsame.2.2 hne

end Ends

end Json
