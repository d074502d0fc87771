/-!
UTF-16 text as lists of code units, and code units as little-endian bytes.
Encoding is exact; decoding accepts every list of units and puts U+FFFD for each surrogate
that has no partner. A null unit never takes part in a pair, so a list may be cut at its nulls
before or after decoding.
-/
namespace NativeResource.Utf16

def isHigh (u : UInt16) : Bool := decide (0xD800 ≤ u.toNat ∧ u.toNat < 0xDC00)

def isLow (u : UInt16) : Bool := decide (0xDC00 ≤ u.toNat ∧ u.toNat < 0xE000)

def replacement : Char := '\uFFFD'

def single (u : UInt16) : Char :=
  if isHigh u || isLow u then replacement else Char.ofNat u.toNat

/-- The character that a high and a low surrogate spell together. -/
def pair (high low : UInt16) : Char :=
  Char.ofNat (0x10000 + (high.toNat - 0xD800) * 0x400 + (low.toNat - 0xDC00))

def encodeChar (c : Char) : List UInt16 :=
  if c.toNat < 0x10000 then [UInt16.ofNat c.toNat]
  else
    let n := c.toNat - 0x10000
    [UInt16.ofNat (0xD800 + n / 0x400), UInt16.ofNat (0xDC00 + n % 0x400)]

def encode (s : String) : List UInt16 := s.toList.flatMap encodeChar

def encodeTerminated (s : String) : List UInt16 := encode s ++ [0]

/-- Decodes onto the reversed characters already read. -/
def decodeOnto (read : List Char) : List UInt16 → List Char
  | [] => read
  | [u] => single u :: read
  | u :: v :: rest =>
    if isHigh u && isLow v then decodeOnto (pair u v :: read) rest
    else decodeOnto (single u :: read) (v :: rest)

def decodeChars (w : List UInt16) : List Char := (decodeOnto [] w).reverse

def decode (w : List UInt16) : String := String.ofList (decodeChars w)

theorem decodeOnto_append (read more : List Char) (w : List UInt16) :
    decodeOnto (read ++ more) w = decodeOnto read w ++ more := by
  fun_induction decodeOnto read w with
  | case1 => rfl
  | case2 => rfl
  | case3 read u v rest h ih => rw [decodeOnto, if_pos h]; exact ih
  | case4 read u v rest h ih => rw [decodeOnto, if_neg h]; exact ih

theorem decodeOnto_eq (read : List Char) (w : List UInt16) :
    decodeOnto read w = (decodeChars w).reverse ++ read := by
  have h := decodeOnto_append [] read w
  simpa [decodeChars] using h

theorem decodeChars_pair {u v : UInt16} (h : (isHigh u && isLow v) = true) (rest : List UInt16) :
    decodeChars (u :: v :: rest) = pair u v :: decodeChars rest := by
  rw [decodeChars, decodeOnto, if_pos h, decodeOnto_eq]
  simp

theorem decodeChars_cons {u v : UInt16} (h : (isHigh u && isLow v) = false)
    (rest : List UInt16) :
    decodeChars (u :: v :: rest) = single u :: decodeChars (v :: rest) := by
  rw [decodeChars, decodeOnto, if_neg (by simp [h]), decodeOnto_eq]
  simp

def splitStep (u : UInt16) : List (List UInt16) → List (List UInt16)
  | [] => if u = 0 then [[], []] else [[u]]
  | piece :: pieces => if u = 0 then [] :: piece :: pieces else (u :: piece) :: pieces

/-- The pieces between nulls, the empty ones included; never the empty list. -/
def splitAtNulls (w : List UInt16) : List (List UInt16) := w.foldr splitStep [[]]

def beforeNull (w : List UInt16) : List UInt16 := w.takeWhile (· ≠ 0)

def ofBytePair (low high : UInt8) : UInt16 := UInt16.ofNat (low.toNat + 256 * high.toNat)

/-- Reads byte pairs onto the reversed units already read. -/
def ofBytesOnto (read : List UInt16) : List UInt8 → List UInt16
  | low :: high :: rest => ofBytesOnto (ofBytePair low high :: read) rest
  | _ => read

/-- The units in a list of bytes, low byte first; an odd last byte is dropped. -/
def ofBytes (data : List UInt8) : List UInt16 := (ofBytesOnto [] data).reverse

def unitBytes (u : UInt16) : List UInt8 := [UInt8.ofNat u.toNat, UInt8.ofNat (u.toNat / 256)]

def toBytes (w : List UInt16) : List UInt8 := w.flatMap unitBytes

end NativeResource.Utf16
