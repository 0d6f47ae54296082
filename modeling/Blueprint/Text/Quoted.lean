import Blueprint.Text.Printable

/-!
Text between double quotes, as diagnostics show it: a quote, a backslash and the common controls
take a backslash, every other character without a picture of its own is written by its number.
-/

set_option autoImplicit false

namespace Blueprint.Text

/-- Lower-case hexadecimal digits, without leading zeros. -/
def hexNumber (n : Nat) : List Char := Nat.toDigits 16 n

/-- One character of quoted text. -/
def quoteChar (c : Char) : List Char :=
  if c == '"' then ['\\', '"']
  else if c == '\\' then ['\\', '\\']
  else if c == '\t' then ['\\', 't']
  else if c == '\r' then ['\\', 'r']
  else if c == '\n' then ['\\', 'n']
  else if c == Char.ofNat 0 then ['\\', '0']
  else if isPictured c then [c]
  else ['\\', 'u', '\x7b'] ++ hexNumber c.toNat ++ ['\x7d']

/-- The text in quotes. -/
def quoted (text : String) : String :=
  String.ofList ('"' :: text.toList.flatMap quoteChar ++ ['"'])

end Blueprint.Text
