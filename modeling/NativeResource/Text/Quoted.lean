import NativeResource.Text.Record
import NativeResource.Text.Visible
/-!
Quoted text and quoted bytes in diagnostics. A quote or backslash inside is escaped by a
backslash, the common controls by their letters, and what has no visible form by its number.
-/
namespace NativeResource.Text

def escapeChar (c : Char) : List Char :=
  match c with
  | '"' => ['\\', '"']
  | '\\' => ['\\', '\\']
  | '\n' => ['\\', 'n']
  | '\r' => ['\\', 'r']
  | '\t' => ['\\', 't']
  | '\x00' => ['\\', '0']
  | _ =>
    if isVisible c then [c]
    else ['\\', 'u', '\x7b'] ++ hexDigits c.toNat ++ ['\x7d']

def quoteChars (s : List Char) : List Char := '"' :: s.flatMap escapeChar ++ ['"']

def quote (s : String) : String := String.ofList (quoteChars s.toList)

def escapeByte (b : UInt8) : List Char :=
  if b = 0x0A then ['\\', 'n']
  else if b = 0x0D then ['\\', 'r']
  else if b = 0x09 then ['\\', 't']
  else if b = 0x5C then ['\\', '\\']
  else if b = 0x22 then ['\\', '"']
  else if b = 0x00 then ['\\', '0']
  else if 0x20 ≤ b ∧ b < 0x7F then [Char.ofNat b.toNat]
  else ['\\', 'x'] ++ (if b < 0x10 then ['0'] else []) ++ hexDigits b.toNat

def quoteBytes (data : List UInt8) : String :=
  String.ofList ('b' :: '"' :: data.flatMap escapeByte ++ ['"'])

end NativeResource.Text
