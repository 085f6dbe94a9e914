import RenderPlan.Scale.Shortest
/-!
Texts of scales. A style says between which magnitudes a number is written with a plain point, where
ties of the shortest decimal go, and whether an exponent carries a plus sign. A plain text always
has a fraction; a text with an exponent has one digit before the point.
-/
namespace RenderPlan.Scale

/-- With digits `ds` a value is `0.ds * 10 ^ magnitude`; from `lowest` to `highest` it is plain. -/
structure Style where
  tie : Tie
  lowest : Int
  highest : Int
  plus : Bool
  deriving DecidableEq, Repr

/-- A numeral with a plain point, the point standing `magnitude` digits after the start. -/
def plainText (ds : List Char) (magnitude : Int) : List Char :=
  if magnitude ≤ 0 then '0' :: '.' :: List.replicate (-magnitude).toNat '0' ++ ds
  else
    let n := magnitude.toNat
    if ds.length ≤ n then ds ++ List.replicate (n - ds.length) '0' ++ ['.', '0']
    else ds.take n ++ '.' :: ds.drop n

/-- A numeral with an exponent. -/
def exponentText (plus : Bool) (ds : List Char) (magnitude : Int) : List Char :=
  let mantissa := match ds with
    | [] => []
    | [d] => [d]
    | d :: r => d :: '.' :: r
  let sign := if magnitude ≤ 0 then ['-'] else if plus then ['+'] else []
  mantissa ++ 'e' :: sign ++ Nat.toDigits 10 (magnitude - 1).natAbs

def Style.write (style : Style) (s : Scale) : String :=
  let d := s.shortest style.tie
  let ds := Nat.toDigits 10 d.coefficient
  let magnitude := ds.length + d.exponent
  String.ofList <|
    if style.lowest ≤ magnitude ∧ magnitude ≤ style.highest then plainText ds magnitude
    else exponentText style.plus ds magnitude

end RenderPlan.Scale
