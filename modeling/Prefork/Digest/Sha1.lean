import Prefork.Bytes

namespace Prefork.Sha1

structure Chain where
  a : UInt32
  b : UInt32
  c : UInt32
  d : UInt32
  e : UInt32

def initial : Chain := ⟨0x67452301, 0xEFCDAB89, 0x98BADCFE, 0x10325476, 0xC3D2E1F0⟩

def rotate (n : UInt32) (x : UInt32) : UInt32 := (x <<< n) ||| (x >>> (32 - n))

/-- The message, a one bit, zeros up to 8 bytes short of a whole block, and the message's size
in bits. -/
def padded (message : Bytes) : Bytes :=
  message ++ 0x80 :: List.replicate ((119 - message.length % 64) % 64) 0 ++
    Bytes.ofNat 8 (8 * message.length)

def words : Bytes → List UInt32
  | a :: b :: c :: d :: rest => UInt32.ofNat (Bytes.toNat [a, b, c, d]) :: words rest
  | _ => []

def schedule (block : Array UInt32) : Nat → Array UInt32
  | 0 => block
  | n + 1 =>
    let w := schedule block n
    let i := w.size
    w.push (rotate 1
      (w.getD (i - 3) 0 ^^^ w.getD (i - 8) 0 ^^^ w.getD (i - 14) 0 ^^^ w.getD (i - 16) 0))

def round (chain : Chain) (i : Nat) (word : UInt32) : Chain :=
  let ⟨a, b, c, d, e⟩ := chain
  let (f, k) : UInt32 × UInt32 :=
    if i < 20 then ((b &&& c) ||| (~~~b &&& d), 0x5A827999)
    else if i < 40 then (b ^^^ c ^^^ d, 0x6ED9EBA1)
    else if i < 60 then ((b &&& c) ||| (b &&& d) ||| (c &&& d), 0x8F1BBCDC)
    else (b ^^^ c ^^^ d, 0xCA62C1D6)
  ⟨rotate 5 a + f + e + k + word, a, rotate 30 b, c, d⟩

def compress (chain : Chain) (block : List UInt32) : Chain :=
  let last := (schedule block.toArray 64).toList.zipIdx.foldl
    (fun state (word, i) ↦ round state i word) chain
  ⟨chain.a + last.a, chain.b + last.b, chain.c + last.c, chain.d + last.d, chain.e + last.e⟩

def absorb (chain : Chain) : Nat → List UInt32 → Chain
  | 0, _ => chain
  | fuel + 1, ws => absorb (compress chain (ws.take 16)) fuel (ws.drop 16)

def digest (message : Bytes) : Bytes :=
  let ws := words (padded message)
  let ⟨a, b, c, d, e⟩ := absorb initial (ws.length / 16) ws
  [a, b, c, d, e].flatMap fun x ↦ Bytes.ofNat 4 x.toNat

end Prefork.Sha1
