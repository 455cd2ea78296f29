/-
How the engine writes a double.

Both forms have the shortest digits that read back. `plain`, for messages and
replies, never has an exponent and writes whole numbers without a fraction.
`literal`, for numbers quoted from an expression, always shows a fraction or an
exponent.
-/
import VectorEngine.Number.Shortest

namespace VectorEngine.FloatText

def zeros (n : Nat) : String := String.ofList (List.replicate n '0')

/-- Digits with the point `point` places after the first digit's left edge;
`whole` follows a number without a fraction. -/
def positional (digits : String) (point : Int) (whole : String) : String :=
  let count : Int := digits.length
  if point ≤ 0 then "0." ++ zeros (-point).toNat ++ digits
  else if count ≤ point then digits ++ zeros (point - count).toNat ++ whole
  else
    let cs := digits.toList
    String.ofList (cs.take point.toNat) ++ "." ++ String.ofList (cs.drop point.toNat)

/-- One digit before the point, and the power of ten. -/
def exponential (digits : String) (point : Int) : String :=
  let fraction := match digits.toList with
    | [] => ""
    | [d] => d.toString
    | d :: rest => d.toString ++ "." ++ String.ofList rest
  fraction ++ "e" ++ toString (point - 1)

/-- Sign, NaN and the infinities are written alike by both forms. -/
def written (magnitude : Scientific → String) (x : Float) : String :=
  match Interchange.double.read x.toBits.toNat with
  | .finite e => (if e.negative then "-" else "") ++ magnitude e.shortest
  | .infinite negative => if negative then "-inf" else "inf"
  | .nan => "NaN"

def plain (x : Float) : String :=
  written (fun s =>
    let digits := toString s.digits
    positional digits (digits.length + s.exponent) "") x

/-- Numbers below `10^-4` or from `10^16` on are written with an exponent. -/
def literal (x : Float) : String :=
  written (fun s =>
    let digits := toString s.digits
    let point := digits.length + s.exponent
    if s.digits ≠ 0 ∧ (point < -3 ∨ 16 < point) then exponential digits point
    else positional digits point ".0") x

end VectorEngine.FloatText
