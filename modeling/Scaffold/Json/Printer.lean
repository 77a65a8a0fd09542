import Scaffold.Json.Basic
import Scaffold.Text

/-!
JSON values in compact form. Control characters, quotes and backslashes are escaped in
strings, everything else stands for itself.
-/

namespace Scaffold.Json

def hexDigit (n : Nat) : Char := (Nat.digitChar n)

def escaped (c : Char) : Text :=
  if c = '"' then ['\\', '"']
  else if c = '\\' then ['\\', '\\']
  else if c = '\n' then ['\\', 'n']
  else if c = '\r' then ['\\', 'r']
  else if c = '\t' then ['\\', 't']
  else if c = '\x08' then ['\\', 'b']
  else if c = '\x0c' then ['\\', 'f']
  else if c.toNat < 0x20 then
    ['\\', 'u', '0', '0', hexDigit (c.toNat / 16), hexDigit (c.toNat % 16)]
  else [c]

def quoted (s : String) : String := String.ofList ('"' :: s.toList.flatMap escaped ++ ['"'])

def Number.display : Number → String
  | .whole value => toString value
  | .double value => value.display

mutual

def display : Json → String
  | .null => "null"
  | .bool value => if value then "true" else "false"
  | .number value => value.display
  | .string value => quoted value
  | .array items => "[" ++ displayItems items ++ "]"
  | .object members => "\x7b" ++ displayMembers members ++ "\x7d"

def displayItems : List Json → String
  | [] => ""
  | [item] => item.display
  | item :: rest => item.display ++ "," ++ displayItems rest

def displayMembers : List (String × Json) → String
  | [] => ""
  | [(name, value)] => quoted name ++ ":" ++ value.display
  | (name, value) :: rest => quoted name ++ ":" ++ value.display ++ "," ++ displayMembers rest

end

end Scaffold.Json
