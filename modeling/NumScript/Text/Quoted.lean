import NumScript.Text.Invisible
import NumScript.Text.Mark

set_option autoImplicit false

/-! # Quoted names

A name between double quotes, with a backslash before quotes and backslashes and short escapes for
the common control characters. A character that would not be seen for what it is, because it leaves
no mark or joins the one before it, is written as its code point in hexadecimal. -/

namespace NumScript.Text

def hexDigits (n : Nat) : List Char :=
  Nat.toDigits 16 n

def quoteChar (c : Char) : List Char :=
  match c with
  | '"' => ['\\', '"']
  | '\\' => ['\\', '\\']
  | '\n' => ['\\', 'n']
  | '\r' => ['\\', 'r']
  | '\t' => ['\\', 't']
  | '\x00' => ['\\', '0']
  | c =>
    if isInvisible c || isExtendingMark c then
      ['\\', 'u', '\x7b'] ++ hexDigits c.toNat ++ ['\x7d']
    else [c]

/-- A name between quotes. -/
def quote (name : String) : String :=
  String.ofList ('"' :: (name.toList.flatMap quoteChar ++ ['"']))

end NumScript.Text
