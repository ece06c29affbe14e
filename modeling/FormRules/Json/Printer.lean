/-
  FormRules.Json.Printer

  JSON values as text: on one line without blanks, or indented by two blanks a
  level with one item or member on a line. Members are written in the order in
  which the object holds them.
-/

import FormRules.Json.Basic

namespace FormRules

namespace Json

/-! ## Strings -/

/-- A digit of a hexadecimal number, in lower case. -/
def hexDigit (n : Nat) : Char := Nat.digitChar (n % 16)

/-- The form of a character inside a string: quotes, backslashes and control
    characters are escaped, everything else stands for itself. -/
def escapeChar (c : Char) : List Char :=
  if c = '"' then ['\\', '"']
  else if c = '\\' then ['\\', '\\']
  else if c = '\n' then ['\\', 'n']
  else if c = '\r' then ['\\', 'r']
  else if c = '\t' then ['\\', 't']
  else if c.toNat = 0x08 then ['\\', 'b']
  else if c.toNat = 0x0c then ['\\', 'f']
  else if c.toNat < 0x20 then
    ['\\', 'u', '0', '0', hexDigit (c.toNat / 16), hexDigit c.toNat]
  else [c]

/-- A string in double quotes. -/
def quoted (s : String) : String :=
  String.ofList ('"' :: s.toList.flatMap escapeChar ++ ['"'])

/-! ## One line -/

mutual

/-- The text of a value without any blanks. -/
def compact : Json → String
  | .null => "null"
  | .boolean b => if b then "true" else "false"
  | .number n => n.text
  | .string s => quoted s
  | .array items => "[" ++ ",".intercalate (compactItems items) ++ "]"
  | .object members => "\x7b" ++ ",".intercalate (compactMembers members) ++ "\x7d"

def compactItems : List Json → List String
  | [] => []
  | item :: items => compact item :: compactItems items

def compactMembers : List (String × Json) → List String
  | [] => []
  | (name, value) :: members => (quoted name ++ ":" ++ compact value) :: compactMembers members

end

/-! ## Indented -/

/-- Lines between two brackets, indented one level deeper than the brackets; the
    brackets close up if there are none. -/
def indentedBlock (opening closing : String) (level : Nat) (lines : List String) : String :=
  if lines.isEmpty then opening ++ closing
  else
    let indent := "\n" ++ "".pushn ' ' (2 * level)
    opening ++ indent ++ "  " ++ ("," ++ indent ++ "  ").intercalate lines ++ indent ++ closing

mutual

/-- The text of a value whose first line stands at the given level. -/
def prettyAt (level : Nat) : Json → String
  | .array items => indentedBlock "[" "]" level (prettyItems (level + 1) items)
  | .object members => indentedBlock "\x7b" "\x7d" level (prettyMembers (level + 1) members)
  | value => compact value

def prettyItems (level : Nat) : List Json → List String
  | [] => []
  | item :: items => prettyAt level item :: prettyItems level items

def prettyMembers (level : Nat) : List (String × Json) → List String
  | [] => []
  | (name, value) :: members =>
    (quoted name ++ ": " ++ prettyAt level value) :: prettyMembers level members

end

/-- The indented text of a value. -/
def pretty (value : Json) : String := prettyAt 0 value

end Json

end FormRules
