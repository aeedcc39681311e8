/-!
# `Api.Text` — what the handlers use of `str`

The tables of Unicode are not part of the program: `Unicode` stands for the two functions that read them.
-/

namespace LimitOrderBook

/-- `char::is_whitespace` and `str::to_lowercase`. -/
structure Unicode where
  isWhitespace : Char → Bool
  toLowercase : String → String

/-- `str::trim`. -/
def Unicode.trim (unicode : Unicode) (s : String) : String :=
  String.ofList
    ((s.toList.dropWhile unicode.isWhitespace).reverse.dropWhile unicode.isWhitespace).reverse

/-- `str::to_ascii_uppercase`. -/
def toAsciiUppercase (s : String) : String := String.ofList (s.toList.map Char.toUpper)

/-- `str::as_bytes`. -/
def asBytes (s : String) : List UInt8 := s.toUTF8.data.toList

/-- `str::split_once`. -/
def splitOnce (s : String) (delimiter : Char) : Option (String × String) :=
  match s.toList.dropWhile (· != delimiter) with
  | [] => none
  | _ :: rest => some (String.ofList (s.toList.takeWhile (· != delimiter)), String.ofList rest)

/-- `str::eq_ignore_ascii_case`. -/
def eqIgnoreAsciiCase (s s' : String) : Bool := s.toList.map Char.toLower == s'.toList.map Char.toLower

end LimitOrderBook
