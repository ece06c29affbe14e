/-
  FormRules.Json.Document

  JSON texts. A text is first read as a `Document`, which follows the grammar only:
  a number may be out of range, a string may hold half of a surrogate pair, and a
  name may be repeated among the members of an object. `Document.toJson?` then
  checks all this, with a limit on the nesting of arrays and objects, and gives the
  data. A reader that ignores a part of a document does not check it.
-/

import FormRules.Json.Basic

namespace FormRules

/-- What a JSON text says, before its numbers and strings are checked: `none` stands
    for a number or string that has no value. -/
inductive Document where
  | null
  | boolean (b : Bool)
  | number (n : Option Number)
  | string (s : Option String)
  | array (items : List Document)
  | object (members : List (Option String × Document))

namespace Document

/-! ## Numbers -/

/-- Appends digits to a coefficient as long as it fits 64 bits. The second result is
    the number of digits that are left over. -/
def appendDigits (coefficient : Nat) : List Char → Nat × Nat
  | [] => (coefficient, 0)
  | digit :: digits =>
    let next := 10 * coefficient + (digit.toNat - '0'.toNat)
    if next < 2 ^ 64 then appendDigits next digits else (coefficient, digits.length + 1)

/-- The decimal that stands for a written number. Digits before the point that are
    left over still count as powers of ten, those behind it count for nothing. -/
def writtenDecimal (negative : Bool) (whole fraction : List Char) (exponent : Int) : Decimal :=
  let (head, wholeLeft) := appendDigits 0 whole
  let (coefficient, fractionLeft) := appendDigits head fraction
  ⟨negative, coefficient, exponent + wholeLeft - (fraction.length - fractionLeft : Nat)⟩

/-- The number written without a point or an exponent: an integer if it fits 64 bits,
    signed or unsigned, and a double otherwise. Negative zero is a double. -/
def writtenInteger (negative : Bool) (whole : List Char) : Option Number :=
  let n := Decimal.digitsValue whole
  if negative ∧ 0 < n ∧ n ≤ 2 ^ 63 then some (.integer (-n))
  else if ¬negative ∧ n < 2 ^ 64 then some (.integer n)
  else (writtenDecimal negative whole [] 0).stepwise.map .double

/-- The number with these parts. Without a fraction and an exponent it may be an
    integer, with either of them it is a double. -/
def writtenNumber (negative : Bool) (whole : List Char) :
    Option (List Char) → Option Int → Option Number
  | none, none => writtenInteger negative whole
  | fraction, exponent =>
    (writtenDecimal negative whole (fraction.getD []) (exponent.getD 0)).stepwise.map .double

/-- At least one digit, and what follows the digits. -/
def readDigits? (text : List Char) : Option (List Char × List Char) :=
  match text.takeWhile Char.isDigit with
  | [] => none
  | digits => some (digits, text.dropWhile Char.isDigit)

/-- The digits behind a point, if a point is there. -/
def readFraction? : List Char → Option (Option (List Char) × List Char)
  | '.' :: rest => (readDigits? rest).map fun (digits, rest) => (some digits, rest)
  | rest => some (none, rest)

/-- The signed digits behind the mark `e`, if the mark is there. -/
def readExponent? : List Char → Option (Option Int × List Char)
  | [] => some (none, [])
  | c :: rest =>
    if c = 'e' ∨ c = 'E' then
      let (negative, rest) := Decimal.readSign rest
      (readDigits? rest).map fun (digits, rest) =>
        let n : Int := Decimal.digitsValue digits
        (some (if negative then -n else n), rest)
    else some (none, c :: rest)

/-- A number behind its sign: digits without a leading zero, and then possibly a
    fraction and an exponent. -/
def readUnsigned? (negative : Bool) (text : List Char) :
    Option (Option Number × List Char) := do
  let (whole, rest) ← readDigits? text
  if whole.head? = some '0' ∧ whole ≠ ['0'] then failure
  let (fraction, rest) ← readFraction? rest
  let (exponent, rest) ← readExponent? rest
  return (writtenNumber negative whole fraction exponent, rest)

/-! ## Strings -/

/-- A piece of a string: a character, or a sixteen-bit unit given by its number. -/
inductive Piece where
  | char (c : Char)
  | unit (n : Nat)

/-- The value of a hexadecimal digit. -/
def hexValue? (c : Char) : Option Nat :=
  if c.isDigit then some (c.toNat - '0'.toNat)
  else if 'a' ≤ c ∧ c ≤ 'f' then some (c.toNat - 'a'.toNat + 10)
  else if 'A' ≤ c ∧ c ≤ 'F' then some (c.toNat - 'A'.toNat + 10)
  else none

/-- The unit written by four hexadecimal digits. -/
def hexUnit? (a b c d : Char) : Option Nat := do
  return (((← hexValue? a) * 16 + (← hexValue? b)) * 16 + (← hexValue? c)) * 16 + (← hexValue? d)

/-- The character that an escape of one character stands for. -/
def escaped? (c : Char) : Option Char :=
  if c = '"' ∨ c = '\\' ∨ c = '/' then some c
  else if c = 'b' then some '\x08'
  else if c = 'f' then some '\x0c'
  else if c = 'n' then some '\n'
  else if c = 'r' then some '\r'
  else if c = 't' then some '\t'
  else none

/-- The pieces of a string behind its opening quote, and what follows its closing
    quote. Control characters must be escaped. -/
def readPieces? : List Char → Option (List Piece × List Char)
  | [] => none
  | '"' :: rest => some ([], rest)
  | '\\' :: 'u' :: a :: b :: c :: d :: rest => do
    let unit ← hexUnit? a b c d
    let (pieces, rest) ← readPieces? rest
    return (.unit unit :: pieces, rest)
  | '\\' :: c :: rest => do
    let c ← escaped? c
    let (pieces, rest) ← readPieces? rest
    return (.char c :: pieces, rest)
  | c :: rest =>
    if c = '\\' ∨ c.toNat < 0x20 then none
    else (readPieces? rest).map fun (pieces, rest) => (.char c :: pieces, rest)

/-- The first unit of a surrogate pair. -/
def isLeading (n : Nat) : Bool := 0xd800 ≤ n && n < 0xdc00

/-- The second unit of a surrogate pair. -/
def isTrailing (n : Nat) : Bool := 0xdc00 ≤ n && n < 0xe000

/-- The characters of a string; none if a surrogate stands alone. -/
def joinPieces? : List Piece → Option (List Char)
  | [] => some []
  | .char c :: pieces => (joinPieces? pieces).map (c :: ·)
  | .unit m :: .unit n :: pieces =>
    if isLeading m then
      if isTrailing n then
        (joinPieces? pieces).map
          (Char.ofNat (0x10000 + (m - 0xd800) * 0x400 + (n - 0xdc00)) :: ·)
      else none
    else if isTrailing m then none
    else (joinPieces? (.unit n :: pieces)).map (Char.ofNat m :: ·)
  | .unit m :: pieces =>
    if isLeading m || isTrailing m then none
    else (joinPieces? pieces).map (Char.ofNat m :: ·)

/-- A string behind its opening quote. -/
def readString? (text : List Char) : Option (Option String × List Char) :=
  (readPieces? text).map fun (pieces, rest) => ((joinPieces? pieces).map String.ofList, rest)

/-! ## Values -/

/-- The blanks of JSON. -/
def isGap (c : Char) : Bool := c == ' ' || c == '\t' || c == '\n' || c == '\r'

/-- A text without the blanks at its front. -/
def skipGap (text : List Char) : List Char := text.dropWhile isGap

/-- A keyword at the front of a text. -/
def readKeyword? (word : String) (value : Document) (text : List Char) :
    Option (Document × List Char) :=
  if word.toList.isPrefixOf text then some (value, text.drop word.length) else none

mutual

/-- A value and what follows it. The first argument bounds the number of nested calls;
    two for each character of the text are enough. -/
def readValue? : Nat → List Char → Option (Document × List Char)
  | 0, _ => none
  | calls + 1, text =>
    match skipGap text with
    | [] => none
    | '[' :: rest =>
      match skipGap rest with
      | ']' :: rest => some (.array [], rest)
      | rest => (readItems? calls rest).map fun (items, rest) => (.array items, rest)
    | '\x7b' :: rest =>
      match skipGap rest with
      | '\x7d' :: rest => some (.object [], rest)
      | rest => (readMembers? calls rest).map fun (members, rest) => (.object members, rest)
    | '"' :: rest => (readString? rest).map fun (s, rest) => (.string s, rest)
    | '-' :: rest => (readUnsigned? true rest).map fun (n, rest) => (.number n, rest)
    | c :: rest =>
      if c.isDigit then (readUnsigned? false (c :: rest)).map fun (n, rest) => (.number n, rest)
      else (readKeyword? "null" .null (c :: rest)).or <|
        (readKeyword? "true" (.boolean true) (c :: rest)).or <|
        readKeyword? "false" (.boolean false) (c :: rest)

/-- The items of an array up to its closing bracket; there is at least one. -/
def readItems? : Nat → List Char → Option (List Document × List Char)
  | 0, _ => none
  | calls + 1, text =>
    match readValue? calls text with
    | none => none
    | some (item, rest) =>
      match skipGap rest with
      | ']' :: rest => some ([item], rest)
      | ',' :: rest => (readItems? calls rest).map fun (items, rest) => (item :: items, rest)
      | _ => none

/-- The members of an object up to its closing brace; there is at least one. -/
def readMembers? : Nat → List Char → Option (List (Option String × Document) × List Char)
  | 0, _ => none
  | calls + 1, text =>
    match skipGap text with
    | '"' :: rest =>
      match readString? rest with
      | none => none
      | some (name, rest) =>
        match skipGap rest with
        | ':' :: rest =>
          match readValue? calls rest with
          | none => none
          | some (value, rest) =>
            match skipGap rest with
            | '\x7d' :: rest => some ([(name, value)], rest)
            | ',' :: rest =>
              (readMembers? calls rest).map fun (members, rest) => ((name, value) :: members, rest)
            | _ => none
        | _ => none
    | _ => none

end

/-- Reads a whole text, which holds one value between blanks. -/
def read? (text : String) : Option Document :=
  match readValue? (2 * text.length + 2) text.toList with
  | some (value, rest) => if skipGap rest = [] then some value else none
  | none => none

/-! ## Checking -/

/-- The deepest nesting of arrays and objects that is read as data. -/
def nestingLimit : Nat := 127

mutual

/-- The data of a document, if all its numbers and strings have values and no more than
    the given number of arrays and objects are nested. Of members with one name the
    last stays. -/
def toJson? (levels : Nat) : Document → Option Json
  | .null => some .null
  | .boolean b => some (.boolean b)
  | .number n => n.map .number
  | .string s => s.map .string
  | .array items =>
    if levels = 0 then none else (itemsToJson? (levels - 1) items).map .array
  | .object members =>
    if levels = 0 then none else (membersToJson? (levels - 1) members).map Json.ofMembers

def itemsToJson? (levels : Nat) : List Document → Option (List Json)
  | [] => some []
  | item :: items => do return (← toJson? levels item) :: (← itemsToJson? levels items)

def membersToJson? (levels : Nat) :
    List (Option String × Document) → Option (List (String × Json))
  | [] => some []
  | (name, value) :: members => do
    return ((← name), (← toJson? levels value)) :: (← membersToJson? levels members)

end

end Document

/-- Reads a text as JSON data. -/
def Json.read? (text : String) : Option Json :=
  (Document.read? text).bind (Document.toJson? Document.nestingLimit)

end FormRules
