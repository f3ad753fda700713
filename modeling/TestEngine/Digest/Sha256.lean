/-!
# SHA-256

The digest of FIPS 180-4 over a list of bytes. The message is padded to whole blocks of 64 bytes,
each block is expanded to a schedule of 64 words, and 64 rounds mix the schedule into the chaining
value.

* `length_digest` — a digest has 32 bytes.
-/

namespace TestEngine.Sha256

/-- The chaining value: eight words. -/
structure Chain where
  (a b c d e f g h : UInt32)

/-- The first words of the fractions of the square roots of the first eight primes. -/
def initial : Chain where
  a := 0x6a09e667
  b := 0xbb67ae85
  c := 0x3c6ef372
  d := 0xa54ff53a
  e := 0x510e527f
  f := 0x9b05688c
  g := 0x1f83d9ab
  h := 0x5be0cd19

/-- The first words of the fractions of the cube roots of the first 64 primes, one a round. -/
def roundConstants : List UInt32 := [
  0x428a2f98, 0x71374491, 0xb5c0fbcf, 0xe9b5dba5, 0x3956c25b, 0x59f111f1, 0x923f82a4, 0xab1c5ed5,
  0xd807aa98, 0x12835b01, 0x243185be, 0x550c7dc3, 0x72be5d74, 0x80deb1fe, 0x9bdc06a7, 0xc19bf174,
  0xe49b69c1, 0xefbe4786, 0x0fc19dc6, 0x240ca1cc, 0x2de92c6f, 0x4a7484aa, 0x5cb0a9dc, 0x76f988da,
  0x983e5152, 0xa831c66d, 0xb00327c8, 0xbf597fc7, 0xc6e00bf3, 0xd5a79147, 0x06ca6351, 0x14292967,
  0x27b70a85, 0x2e1b2138, 0x4d2c6dfc, 0x53380d13, 0x650a7354, 0x766a0abb, 0x81c2c92e, 0x92722c85,
  0xa2bfe8a1, 0xa81a664b, 0xc24b8b70, 0xc76c51a3, 0xd192e819, 0xd6990624, 0xf40e3585, 0x106aa070,
  0x19a4c116, 0x1e376c08, 0x2748774c, 0x34b0bcb5, 0x391c0cb3, 0x4ed8aa4a, 0x5b9cca4f, 0x682e6ff3,
  0x748f82ee, 0x78a5636f, 0x84c87814, 0x8cc70208, 0x90befffa, 0xa4506ceb, 0xbef9a3f7, 0xc67178f2]

/-! ## The functions of the rounds -/

def rotateRight (x n : UInt32) : UInt32 := (x >>> n) ||| (x <<< (32 - n))

def choose (x y z : UInt32) : UInt32 := (x &&& y) ^^^ (~~~x &&& z)

def majority (x y z : UInt32) : UInt32 := (x &&& y) ^^^ (x &&& z) ^^^ (y &&& z)

def bigSigma0 (x : UInt32) : UInt32 := rotateRight x 2 ^^^ rotateRight x 13 ^^^ rotateRight x 22

def bigSigma1 (x : UInt32) : UInt32 := rotateRight x 6 ^^^ rotateRight x 11 ^^^ rotateRight x 25

def smallSigma0 (x : UInt32) : UInt32 := rotateRight x 7 ^^^ rotateRight x 18 ^^^ (x >>> 3)

def smallSigma1 (x : UInt32) : UInt32 := rotateRight x 17 ^^^ rotateRight x 19 ^^^ (x >>> 10)

/-! ## Words and bytes -/

/-- A word from its bytes, the most significant one first. -/
def wordOfBytes (p q r s : UInt8) : UInt32 :=
  (p.toUInt32 <<< 24) ||| (q.toUInt32 <<< 16) ||| (r.toUInt32 <<< 8) ||| s.toUInt32

/-- The words of a list of bytes; a rest of fewer than four bytes is left out. -/
def words : List UInt8 → List UInt32
  | p :: q :: r :: s :: rest => wordOfBytes p q r s :: words rest
  | _ => []

/-- The bytes of a word, the most significant one first. -/
def bytesOfWord (x : UInt32) : List UInt8 :=
  [(x >>> 24).toUInt8, (x >>> 16).toUInt8, (x >>> 8).toUInt8, x.toUInt8]

/-- A number as eight bytes, the most significant one first. -/
def bigEndian64 (n : Nat) : List UInt8 :=
  [56, 48, 40, 32, 24, 16, 8, 0].map fun k => UInt8.ofNat (n >>> k)

/-! ## Padding -/

/-- How many zero bytes follow the marker byte, for the length to end a block. -/
def zeroCount (length : Nat) : Nat := (119 - length % 64) % 64

/-- The message, a marker bit, zeros, and the number of its bits. -/
def padded (message : List UInt8) : List UInt8 :=
  message ++ 0x80 :: List.replicate (zeroCount message.length) 0
    ++ bigEndian64 (8 * message.length)

/-! ## Blocks -/

/-- The next word of a schedule whose words so far are `w`, last first. -/
def nextWord (w : List UInt32) : UInt32 :=
  smallSigma1 (w.getD 1 0) + w.getD 6 0 + smallSigma0 (w.getD 14 0) + w.getD 15 0

/-- Adds `n` words to a schedule that is kept last word first. -/
def extend : Nat → List UInt32 → List UInt32
  | 0, w => w
  | n + 1, w => extend n (nextWord w :: w)

/-- The 64 words of a block. -/
def schedule (block : List UInt32) : List UInt32 := (extend 48 block.reverse).reverse

/-- One round, with its constant and its word of the schedule. -/
def round (st : Chain) (kw : UInt32 × UInt32) : Chain :=
  let t1 := st.h + bigSigma1 st.e + choose st.e st.f st.g + kw.1 + kw.2
  let t2 := bigSigma0 st.a + majority st.a st.b st.c
  { a := t1 + t2, b := st.a, c := st.b, d := st.c, e := st.d + t1, f := st.e, g := st.f, h := st.g }

/-- Mixes a block of sixteen words into the chaining value. -/
def compress (st : Chain) (block : List UInt32) : Chain :=
  let r := (roundConstants.zip (schedule block)).foldl round st
  { a := st.a + r.a, b := st.b + r.b, c := st.c + r.c, d := st.d + r.d,
    e := st.e + r.e, f := st.f + r.f, g := st.g + r.g, h := st.h + r.h }

/-- Mixes all words into the chaining value, sixteen at a time. -/
def absorb (st : Chain) : List UInt32 → Chain
  | x0 :: x1 :: x2 :: x3 :: x4 :: x5 :: x6 :: x7 :: x8 :: x9 :: x10 :: x11 :: x12 :: x13 :: x14 ::
      x15 :: rest =>
    absorb
      (compress st [x0, x1, x2, x3, x4, x5, x6, x7, x8, x9, x10, x11, x12, x13, x14, x15]) rest
  | _ => st

/-- The words of a chaining value. -/
def Chain.words (st : Chain) : List UInt32 := [st.a, st.b, st.c, st.d, st.e, st.f, st.g, st.h]

/-- The digest of a message. -/
def digest (message : List UInt8) : List UInt8 :=
  (absorb initial (words (padded message))).words.flatMap bytesOfWord

theorem length_digest (message : List UInt8) : (digest message).length = 32 := by
  simp [digest, Chain.words, bytesOfWord]

end TestEngine.Sha256
