import Mathlib.Data.List.Basic

/-!
# Java strings

The `java.lang.String` methods the programs use, on Lean strings.  `hashCode` runs over the UTF-16
code units and wraps in 32 bits.
-/

namespace Java

/-- The UTF-16 code units of a character. -/
def utf16 (c : Char) : List ℕ :=
  if c.toNat < 0x10000 then [c.toNat]
  else [0xD800 + (c.toNat - 0x10000) / 0x400, 0xDC00 + (c.toNat - 0x10000) % 0x400]

/-- `String.hashCode`: `s[0]*31^(n-1) + ... + s[n-1]` in 32-bit arithmetic. -/
def hashCode (s : String) : BitVec 32 :=
  (s.toList.flatMap utf16).foldl (fun h u => 31 * h + BitVec.ofNat 32 u) 0

/-- `String.startsWith`. -/
def startsWith (s p : String) : Bool := p.toList.isPrefixOf s.toList

/-- `String.toLowerCase`, for the ASCII letters. -/
def toLowerCase (s : String) : String := String.ofList (s.toList.map Char.toLower)

end Java
