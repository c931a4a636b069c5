import Graft.Text.Basic

/-!
# Digests

The 256-bit digest of a sequence of bytes, by the standard's own steps: the message is padded to
whole blocks of sixteen words, each block is extended to sixty-four words, and each of these turns
the eight words of the state once. `Digest.hex` writes the digest in hexadecimal digits.
-/

namespace Graft

namespace Digest

/-- The eight words of the state. -/
structure Words where
  (a b c d e f g h : UInt32)

/-- The state at the start: the fractions of the square roots of the first eight primes. -/
def start : Words := ⟨
  0x6a09e667, 0xbb67ae85, 0x3c6ef372, 0xa54ff53a, 0x510e527f, 0x9b05688c,
  0x1f83d9ab, 0x5be0cd19⟩

/-- The word that each turn adds: the fractions of the cube roots of the first 64 primes. -/
def roundWords : List UInt32 := [
  0x428a2f98, 0x71374491, 0xb5c0fbcf, 0xe9b5dba5, 0x3956c25b, 0x59f111f1,
  0x923f82a4, 0xab1c5ed5, 0xd807aa98, 0x12835b01, 0x243185be, 0x550c7dc3,
  0x72be5d74, 0x80deb1fe, 0x9bdc06a7, 0xc19bf174, 0xe49b69c1, 0xefbe4786,
  0x0fc19dc6, 0x240ca1cc, 0x2de92c6f, 0x4a7484aa, 0x5cb0a9dc, 0x76f988da,
  0x983e5152, 0xa831c66d, 0xb00327c8, 0xbf597fc7, 0xc6e00bf3, 0xd5a79147,
  0x06ca6351, 0x14292967, 0x27b70a85, 0x2e1b2138, 0x4d2c6dfc, 0x53380d13,
  0x650a7354, 0x766a0abb, 0x81c2c92e, 0x92722c85, 0xa2bfe8a1, 0xa81a664b,
  0xc24b8b70, 0xc76c51a3, 0xd192e819, 0xd6990624, 0xf40e3585, 0x106aa070,
  0x19a4c116, 0x1e376c08, 0x2748774c, 0x34b0bcb5, 0x391c0cb3, 0x4ed8aa4a,
  0x5b9cca4f, 0x682e6ff3, 0x748f82ee, 0x78a5636f, 0x84c87814, 0x8cc70208,
  0x90befffa, 0xa4506ceb, 0xbef9a3f7, 0xc67178f2]

/-- The bits of a word moved right by `n`, those that fall off coming back at the left. -/
def rotate (n w : UInt32) : UInt32 :=
  (w >>> n) ||| (w <<< (32 - n))

/-- The word after a schedule whose words are listed from the last to the first. -/
def nextWord (ws : List UInt32) : UInt32 :=
  let near := ws.getD 1 0
  let far := ws.getD 14 0
  ws.getD 15 0 + (rotate 7 far ^^^ rotate 18 far ^^^ (far >>> 3)) + ws.getD 6 0 +
    (rotate 17 near ^^^ rotate 19 near ^^^ (near >>> 10))

/-- A schedule, listed from the last word to the first, extended by `n` words. -/
def extend : Nat → List UInt32 → List UInt32
  | 0, ws => ws
  | n + 1, ws => extend n (nextWord ws :: ws)

/-- The sixty-four words that a block of sixteen words is extended to. -/
def schedule (block : List UInt32) : List UInt32 :=
  (extend 48 block.reverse).reverse

/-- One turn of the state by a round word and a word of the schedule. -/
def turn (s : Words) (k w : UInt32) : Words :=
  let choice := (s.e &&& s.f) ^^^ ((~~~s.e) &&& s.g)
  let majority := (s.a &&& s.b) ^^^ (s.a &&& s.c) ^^^ (s.b &&& s.c)
  let one := s.h + (rotate 6 s.e ^^^ rotate 11 s.e ^^^ rotate 25 s.e) + choice + k + w
  let two := (rotate 2 s.a ^^^ rotate 13 s.a ^^^ rotate 22 s.a) + majority
  ⟨one + two, s.a, s.b, s.c, s.d + one, s.e, s.f, s.g⟩

/-- The state after a block. -/
def absorb (s : Words) (block : List UInt32) : Words :=
  let t := (roundWords.zip (schedule block)).foldl (fun t (k, w) => turn t k w) s
  ⟨s.a + t.a, s.b + t.b, s.c + t.c, s.d + t.d, s.e + t.e, s.f + t.f, s.g + t.g, s.h + t.h⟩

/-- The `n` lowest bytes of a number, the highest of them first. -/
def bytesOf : Nat → Nat → List UInt8
  | 0, _ => []
  | n + 1, x => UInt8.ofNat (x / 256 ^ n) :: bytesOf n x

/-- The message followed by a set bit, as few zeros as fill a block, and its length in bits. -/
def padded (message : List UInt8) : List UInt8 :=
  message ++ 0x80 :: List.replicate ((119 - message.length % 64) % 64) 0 ++
    bytesOf 8 (8 * message.length)

/-- Four bytes to a word, the highest first. -/
def wordsOf : List UInt8 → List UInt32
  | a :: b :: c :: d :: rest =>
    (a.toUInt32 <<< 24 ||| b.toUInt32 <<< 16 ||| c.toUInt32 <<< 8 ||| d.toUInt32) :: wordsOf rest
  | _ => []

/-- Words in blocks of sixteen. -/
def blocks : List UInt32 → List (List UInt32)
  | [] => []
  | w :: ws => (w :: ws.take 15) :: blocks (ws.drop 15)
termination_by ws => ws.length
decreasing_by simp only [List.length_drop, List.length_cons]; omega

/-- The eight words of the digest. -/
def ofBytes (message : List UInt8) : Words :=
  (blocks (wordsOf (padded message))).foldl absorb start

/-- The eight hexadecimal digits of a word. -/
def hexWord (w : UInt32) : Text :=
  Text.padLeft 8 (.char '0') ((Nat.toDigits 16 w.toNat).map .char)

/-- The digest in hexadecimal digits. -/
def hex (message : List UInt8) : Text :=
  let s := ofBytes message
  [s.a, s.b, s.c, s.d, s.e, s.f, s.g, s.h].flatMap hexWord

/-- Padding fills whole blocks. -/
theorem length_padded_mod (message : List UInt8) : (padded message).length % 64 = 0 := by
  have eight : (bytesOf 8 (8 * message.length)).length = 8 := rfl
  simp only [padded, List.length_append, List.length_cons, List.length_replicate, eight]
  omega

end Digest

end Graft
