/-
# Notation — decimals as text

Plain notation writes every digit around a point and never an exponent.
General notation writes plain digits while the leading digit stands between
`10^-6` and `10^20`, and `d.ddde±N` beyond.  Both write the shortest
coefficient, so no text ends in a zero behind the point.

Plain notation gives no sign to a zero.  General notation comes both ways,
because a report of a value tells the two zeros apart and a message does not.
-/
import Reckoner.Decimal.Basic

namespace Reckoner

/-- A run of `k` zeros. -/
def zeros (k : Nat) : List Char := List.replicate k '0'

/-- The digits of a natural number, the leading one first. -/
def digitChars (n : Nat) : List Char := Nat.toDigits 10 n

/-- The digits `ds` scaled by `10^e`, written around a point. -/
def placePoint (ds : List Char) (e : Int) : List Char :=
  if 0 ≤ e then ds ++ zeros e.toNat
  else
    let behind := (-e).toNat
    if behind < ds.length then
      ds.take (ds.length - behind) ++ '.' :: ds.drop (ds.length - behind)
    else '0' :: '.' :: zeros (behind - ds.length) ++ ds

/-- The digits `ds`, the first of which stands at `10^e`, with an exponent. -/
def scientific (ds : List Char) (e : Int) : List Char :=
  let mantissa := match ds with
    | [] | [_] => ds
    | d :: rest => d :: '.' :: rest
  mantissa ++ 'e' :: (if e < 0 then '-' else '+') :: digitChars e.natAbs

namespace Decimal

def plainMagnitude (x : Decimal) : List Char :=
  let y := x.canonical
  placePoint (digitChars y.coeff) y.exp

/-- Every digit, a sign only on negative numbers, no exponent. -/
def plain (x : Decimal) : String :=
  String.ofList <|
    if x.negative && x.coeff ≠ 0 then '-' :: x.plainMagnitude else x.plainMagnitude

def generalMagnitude (x : Decimal) : List Char :=
  let y := x.canonical
  if -7 < y.magnitude && y.magnitude < 21 then placePoint (digitChars y.coeff) y.exp
  else scientific (digitChars y.coeff) y.magnitude

/-- General notation in which a zero has no sign. -/
def general (x : Decimal) : String :=
  String.ofList <|
    if x.negative && x.coeff ≠ 0 then '-' :: x.generalMagnitude else x.generalMagnitude

/-- General notation in which a negative zero is `-0`. -/
def signedGeneral (x : Decimal) : String :=
  String.ofList <| if x.negative then '-' :: x.generalMagnitude else x.generalMagnitude

end Decimal

end Reckoner
