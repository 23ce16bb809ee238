import Prefork.Bytes

namespace Prefork.Base64

def sign (n : Nat) : Char :=
  if n < 26 then Char.ofNat ('A'.toNat + n)
  else if n < 52 then Char.ofNat ('a'.toNat + (n - 26))
  else if n < 62 then Char.ofNat ('0'.toNat + (n - 52))
  else if n = 62 then '+' else '/'

def groups : Bytes → List Char
  | a :: b :: c :: rest =>
    let n := Bytes.toNat [a, b, c]
    sign (n / 262144) :: sign (n / 4096 % 64) :: sign (n / 64 % 64) :: sign (n % 64) :: groups rest
  | [a, b] =>
    let n := Bytes.toNat [a, b] * 4
    [sign (n / 4096), sign (n / 64 % 64), sign (n % 64), '=']
  | [a] =>
    let n := a.toNat * 16
    [sign (n / 64), sign (n % 64), '=', '=']
  | [] => []

def encode (b : Bytes) : String := String.ofList (groups b)

end Prefork.Base64
