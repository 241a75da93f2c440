import Vouch.Json.Basic
import Vouch.Decimal.Layout
import Vouch.Hex
/-!
# Writing JSON text

No blanks; strings escape the quote, the backslash and the controls below U+0020, five of them by a
letter; numbers that are not finite become `null`.
-/
namespace Vouch.Json

def escapeChar (c : Char) : String :=
  if c = '"' then "\\\""
  else if c = '\\' then "\\\\"
  else if c = '\x08' then "\\b"
  else if c = '\x0c' then "\\f"
  else if c = '\n' then "\\n"
  else if c = '\r' then "\\r"
  else if c = '\t' then "\\t"
  else if c.toNat < 0x20 then
    "\\u00" ++ String.ofList [Hex.digit (c.toNat / 16), Hex.digit (c.toNat % 16)]
  else c.toString

def quote (s : String) : String := "\"" ++ String.join (s.toList.map escapeChar) ++ "\""

def realText (x : Float) : String := if x.isFinite then Decimal.record.text x else "null"

mutual

/-- The text of a value. -/
def render : Json Float → String
  | .null => "null"
  | .bool b => if b then "true" else "false"
  | .int i => toString i
  | .real x => realText x
  | .str s => quote s
  | .arr items => "[" ++ String.intercalate "," (renderItems items) ++ "]"
  | .obj members => "\x7b" ++ String.intercalate "," (renderMembers members) ++ "\x7d"

def renderItems : List (Json Float) → List String
  | [] => []
  | v :: rest => render v :: renderItems rest

def renderMembers : List (String × Json Float) → List String
  | [] => []
  | (name, v) :: rest => (quote name ++ ":" ++ render v) :: renderMembers rest

end

end Vouch.Json
