/-!
Numbers and records in diagnostics: hexadecimal digits, and a record written as its name
followed by its fields in braces.
-/
namespace NativeResource.Text

def hexDigits (n : Nat) : List Char := Nat.toDigits 16 n

def hex (n : Nat) : String := String.ofList (hexDigits n)

def hexPadded (width n : Nat) : String :=
  let digits := (hexDigits n).map Char.toUpper
  String.ofList (List.replicate (width - digits.length) '0' ++ digits)

def record (name : String) (fields : List (String × String)) : String :=
  name ++ " \x7b " ++ ", ".intercalate (fields.map fun f => f.1 ++ ": " ++ f.2) ++ " \x7d"

def applied (name : String) (arguments : List String) : String :=
  name ++ "(" ++ ", ".intercalate arguments ++ ")"

def optional (value : Option String) : String :=
  match value with
  | none => "None"
  | some text => applied "Some" [text]

def yesNo (b : Bool) : String := if b then "true" else "false"

end NativeResource.Text
