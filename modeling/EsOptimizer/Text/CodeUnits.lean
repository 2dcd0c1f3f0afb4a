/-!
# Code units

The language counts, cuts and compares texts in units of sixteen bits: a character beyond the first
65536 code points takes two of them, a high and a low surrogate. A list of units is a text only if
its surrogates pair up.
-/

namespace EsOptimizer
namespace Text

/-- The one or two units of a character. -/
def charUnits (c : Char) : List UInt16 :=
  let n := c.toNat
  if n < 0x10000 then [UInt16.ofNat n]
  else
    let m := n - 0x10000
    [UInt16.ofNat (0xd800 + m / 0x400), UInt16.ofNat (0xdc00 + m % 0x400)]

/-- The units of a text. -/
def units (s : String) : List UInt16 := s.toList.flatMap charUnits

def isHighSurrogate (u : UInt16) : Bool := 0xd800 ≤ u && u < 0xdc00

def isLowSurrogate (u : UInt16) : Bool := 0xdc00 ≤ u && u < 0xe000

/-- The characters that a list of units spells; none if a surrogate stands alone. -/
def charsOfUnits? : List UInt16 → Option (List Char)
  | [] => some []
  | u :: rest =>
    if isHighSurrogate u then
      match rest with
      | [] => none
      | v :: rest =>
        if isLowSurrogate v then
          let n := 0x10000 + (u.toNat - 0xd800) * 0x400 + (v.toNat - 0xdc00)
          (charsOfUnits? rest).map (Char.ofNat n :: ·)
        else none
    else if isLowSurrogate u then none
    else (charsOfUnits? rest).map (Char.ofNat u.toNat :: ·)

/-- The text that a list of units spells. -/
def ofUnits? (us : List UInt16) : Option String := (charsOfUnits? us).map String.ofList

/-- The order of texts: by the first unit in which they differ, a proper beginning coming first. -/
def unitsLt : List UInt16 → List UInt16 → Bool
  | _, [] => false
  | [], _ :: _ => true
  | a :: as, b :: bs => a < b || (a == b && unitsLt as bs)

end Text
end EsOptimizer
