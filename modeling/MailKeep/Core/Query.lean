import MailKeep.Core.Types

/-! The hinted search grammar: a total tokenizer and parser. Whatever is malformed
degrades to a bare full-text term. -/
namespace MailKeep

/-- A calendar date, as its day number from the epoch. -/
abbrev NaiveDate := Int

/-- What the grammar takes from chrono and from the Unicode tables. -/
structure TextLibrary where
  toLowercase : String → String
  /-- `NaiveDate::parse_from_str` with the format `%Y-%m-%d`. -/
  parseDate : String → Option NaiveDate
  /-- `NaiveDate::MAX`, the only date without a successor. -/
  maxDate : NaiveDate

def TextLibrary.succOpt (lib : TextLibrary) (date : NaiveDate) : Option NaiveDate :=
  if date < lib.maxDate then some (date + 1) else none

inductive TextField
  | subject
  | sender
  | recipient
deriving DecidableEq

inductive DateBound
  | before
  | after
  | on
deriving DecidableEq

inductive Term
  | bare (value : String)
  | text (field : TextField) (value : String)
  | date (bound : DateBound) (date : NaiveDate)
  | attachments (has : Bool)
  | account (name : String)
  | folder (name : String)
deriving DecidableEq

structure Clause where
  negated : Bool
  term : Term
deriving DecidableEq

/-- The characters with the Unicode property `White_Space`. -/
def isWhitespace (c : Char) : Bool :=
  let n := c.toNat
  (9 ≤ n && n ≤ 13) || n == 0x20 || n == 0x85 || n == 0xA0 || n == 0x1680 ||
    (0x2000 ≤ n && n ≤ 0x200A) || n == 0x2028 || n == 0x2029 || n == 0x202F || n == 0x205F || n == 0x3000

def trim (s : List Char) : List Char :=
  ((s.dropWhile isWhitespace).reverse.dropWhile isWhitespace).reverse

/-- The loop of `tokenize`: the token being read, whether it is quoted, whether it has started. -/
def tokenizeFrom (current : List Char) (inQuotes started : Bool) : List Char → List (List Char)
  | [] => if started then [current] else []
  | ch :: rest =>
    if inQuotes then
      if ch = '"' then tokenizeFrom current false started rest
      else tokenizeFrom (current ++ [ch]) true started rest
    else if ch = '"' then tokenizeFrom current true true rest
    else if isWhitespace ch then
      if started then current :: tokenizeFrom [] false false rest
      else tokenizeFrom current false false rest
    else tokenizeFrom (current ++ [ch]) false true rest

/-- Tokens are separated by white space outside double quotes; the quotes are dropped. -/
def tokenize (input : String) : List (List Char) := tokenizeFrom [] false false input.toList

/-- `str::split_once(':')`. -/
def splitOnce : List Char → Option (List Char × List Char)
  | [] => none
  | c :: cs => if c = ':' then some ([], cs) else (splitOnce cs).map fun (field, value) => (c :: field, value)

def asciiLower (c : Char) : Char :=
  if 'A' ≤ c ∧ c ≤ 'Z' then Char.ofNat (c.toNat + 32) else c

def eqIgnoreAsciiCase (a b : List Char) : Bool := a.map asciiLower == b.map asciiLower

variable (lib : TextLibrary)

def parseField (field value : List Char) : Option Term :=
  let text := String.ofList value
  if value.isEmpty then none
  else if field = "subject".toList then some (.text .subject text)
  else if field = "from".toList then some (.text .sender text)
  else if field = "to".toList then some (.text .recipient text)
  else if field = "account".toList then some (.account text)
  else if field = "folder".toList then some (.folder text)
  else if field = "before".toList then (lib.parseDate text).map (.date .before)
  else if field = "after".toList then (lib.parseDate text).map (.date .after)
  else if field = "date".toList then (lib.parseDate text).map (.date .on)
  else if field = "attachments".toList && eqIgnoreAsciiCase value "none".toList then some (.attachments false)
  else if field = "attachments".toList && eqIgnoreAsciiCase value "some".toList then some (.attachments true)
  else if field = "has".toList && eqIgnoreAsciiCase value "attachment".toList then some (.attachments true)
  else none

def parseTerm (rest : List Char) : Term :=
  match splitOnce rest with
  | some (field, value) => (parseField lib field value).getD (.bare (String.ofList rest))
  | none => .bare (String.ofList rest)

/-- A lone `!` and an empty quoted run carry no clause. -/
def parseToken : List Char → Option Clause
  | [] => none
  | ['!'] => none
  | '!' :: rest => some ⟨true, parseTerm lib rest⟩
  | token => some ⟨false, parseTerm lib token⟩

def parse (input : String) : List Clause := (tokenize input).filterMap (parseToken lib)

end MailKeep
