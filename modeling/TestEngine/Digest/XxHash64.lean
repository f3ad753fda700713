/-!
# XXH64

The 64-bit hash of the xxHash family, over a list of bytes and with a seed. Input of 32 bytes and
more goes through four lanes, a block of 32 bytes at a time; what is left is taken in steps of
eight, four and one bytes, and the result is avalanched.
-/

namespace TestEngine.XxHash64

def prime1 : UInt64 := 0x9E3779B185EBCA87
def prime2 : UInt64 := 0xC2B2AE3D27D4EB4F
def prime3 : UInt64 := 0x165667B19E3779F9
def prime4 : UInt64 := 0x85EBCA77C2B2AE63
def prime5 : UInt64 := 0x27D4EB2F165667C5

def rotateLeft (x n : UInt64) : UInt64 := (x <<< n) ||| (x >>> (64 - n))

/-- A word from its bytes, the least significant one first. -/
def littleEndian (bytes : List UInt8) : UInt64 :=
  bytes.foldr (fun b acc => (acc <<< 8) ||| b.toUInt64) 0

/-- Mixes one word into a lane. -/
def round (acc word : UInt64) : UInt64 := rotateLeft (acc + word * prime2) 31 * prime1

/-- Mixes a lane into the result. -/
def mergeLane (acc lane : UInt64) : UInt64 := (acc ^^^ round 0 lane) * prime1 + prime4

/-- The four lanes. -/
structure Lanes where
  (v1 v2 v3 v4 : UInt64)

def Lanes.start (seed : UInt64) : Lanes :=
  ⟨seed + prime1 + prime2, seed + prime2, seed, seed - prime1⟩

/-- The result of the lanes alone. -/
def Lanes.merge (l : Lanes) : UInt64 :=
  let acc := rotateLeft l.v1 1 + rotateLeft l.v2 7 + rotateLeft l.v3 12 + rotateLeft l.v4 18
  mergeLane (mergeLane (mergeLane (mergeLane acc l.v1) l.v2) l.v3) l.v4

/-- A block of 32 bytes, eight a lane. -/
def Lanes.block (l : Lanes) (bytes : List UInt8) : Lanes :=
  let lane (v : UInt64) (k : Nat) := round v (littleEndian ((bytes.drop (8 * k)).take 8))
  ⟨lane l.v1 0, lane l.v2 1, lane l.v3 2, lane l.v4 3⟩

/-- All whole blocks; answers the lanes and the bytes that are left. -/
def Lanes.absorb (l : Lanes) (bytes : List UInt8) : Lanes × List UInt8 :=
  if 32 ≤ bytes.length then (l.block (bytes.take 32)).absorb (bytes.drop 32) else (l, bytes)
termination_by bytes.length
decreasing_by simp only [List.length_drop]; omega

/-- The bytes behind the last block: words of eight, a word of four, single bytes. -/
def tail (acc : UInt64) : List UInt8 → UInt64
  | b0 :: b1 :: b2 :: b3 :: b4 :: b5 :: b6 :: b7 :: rest =>
    let word := littleEndian [b0, b1, b2, b3, b4, b5, b6, b7]
    tail (rotateLeft (acc ^^^ round 0 word) 27 * prime1 + prime4) rest
  | b0 :: b1 :: b2 :: b3 :: rest =>
    let word := littleEndian [b0, b1, b2, b3]
    tail (rotateLeft (acc ^^^ (word * prime1)) 23 * prime2 + prime3) rest
  | b :: rest => tail (rotateLeft (acc ^^^ (b.toUInt64 * prime5)) 11 * prime1) rest
  | [] => acc

/-- Spreads every bit of the result over all bits. -/
def avalanche (x : UInt64) : UInt64 :=
  let x := (x ^^^ (x >>> 33)) * prime2
  let x := (x ^^^ (x >>> 29)) * prime3
  x ^^^ (x >>> 32)

/-- The hash of a list of bytes. -/
def hash (seed : UInt64) (bytes : List UInt8) : UInt64 :=
  let (acc, rest) :=
    if 32 ≤ bytes.length then
      let (lanes, rest) := (Lanes.start seed).absorb bytes
      (lanes.merge, rest)
    else (seed + prime5, bytes)
  avalanche (tail (acc + UInt64.ofNat bytes.length) rest)

end TestEngine.XxHash64
