/-! The size of a file in kilobytes, with two places. The byte count is first taken as a binary
floating-point number of 53 digits; ties go to the even neighbour both times. -/
namespace Namespacer

namespace FileSize

/-- The quotient rounded to the nearest whole number, a tie to the even one. -/
def roundDiv (num den : Nat) : Nat :=
  let q := num / den
  let twice := 2 * (num % den)
  if twice < den then q
  else if den < twice then q + 1
  else q + q % 2

/-- The nearest number with at most 53 binary digits before its final zeros. -/
def round53 (n : Nat) : Nat :=
  let unit := Nat.pow 2 (n.log2 - 52)
  roundDiv n unit * unit

def kilobytes (bytes : Nat) : String :=
  let hundredths := roundDiv (round53 bytes * 100) 1024
  let places := toString (hundredths % 100)
  let places := if places.length < 2 then "0" ++ places else places
  s!"{hundredths / 100}.{places}"

def text (bytes : Nat) : String :=
  let digits := kilobytes bytes
  String.ofList (List.replicate (5 - digits.length) ' ') ++ digits

end FileSize
end Namespacer
