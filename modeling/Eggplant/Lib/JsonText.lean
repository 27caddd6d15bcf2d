import Eggplant.Lib.Json

/-!
# JSON as text

The compact form: no blanks, and in a string an escape for the quote, the backslash and
the control characters.
-/
namespace Eggplant.Lib.Json

set_option autoImplicit false

def escapeChar (c : Char) : List Char :=
  if c.toNat = 0x22 ∨ c.toNat = 0x5c then [Char.ofNat 0x5c, c]
  else if c.toNat = 0x08 then [Char.ofNat 0x5c, 'b']
  else if c.toNat = 0x09 then [Char.ofNat 0x5c, 't']
  else if c.toNat = 0x0a then [Char.ofNat 0x5c, 'n']
  else if c.toNat = 0x0c then [Char.ofNat 0x5c, 'f']
  else if c.toNat = 0x0d then [Char.ofNat 0x5c, 'r']
  else if c.toNat < 0x20 then
    [Char.ofNat 0x5c, 'u', '0', '0', Text.hexDigit (c.toNat / 16), Text.hexDigit (c.toNat % 16)]
  else [c]

def quoted (s : String) : String := "\"" ++ String.ofList (s.toList.flatMap escapeChar) ++ "\""

mutual

def text : Json → String
  | num n => n.repr
  | str s => quoted s
  | bool true => "true"
  | bool false => "false"
  | obj members => "\x7b" ++ membersText members ++ "\x7d"

def membersText : List (String × Json) → String
  | [] => ""
  | [(key, value)] => quoted key ++ ":" ++ text value
  | (key, value) :: member :: members =>
    quoted key ++ ":" ++ text value ++ "," ++ membersText (member :: members)

end

def arrayText (elems : List Json) : String := "[" ++ ",".intercalate (elems.map text) ++ "]"

end Eggplant.Lib.Json
