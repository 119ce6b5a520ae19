import AgentLedger.Bytes

namespace AgentLedger.Sha2

/-!
# SHA-2

A message is padded to whole blocks of sixteen words, and each block is mixed into a state of
eight words. SHA-256 works on words of 32 bits and SHA-512 on words of 64 bits; a variant holds
what else tells them apart. The digest has as many bytes as a word has bits.
-/

structure State (w : Nat) where
  a : BitVec w
  b : BitVec w
  c : BitVec w
  d : BitVec w
  e : BitVec w
  f : BitVec w
  g : BitVec w
  h : BitVec w

/-- Three distances; the third is a rotation in a round and a shift in the message schedule. -/
structure Distances where
  first : Nat
  second : Nat
  third : Nat

structure Variant (w : Nat) where
  initial : State w
  roundConstants : List (BitVec w)
  upper : Distances
  lower : Distances
  recent : Distances
  distant : Distances

variable {w : Nat}

def Distances.rotate (r : Distances) (x : BitVec w) : BitVec w :=
  x.rotateRight r.first ^^^ x.rotateRight r.second ^^^ x.rotateRight r.third

def Distances.spread (r : Distances) (x : BitVec w) : BitVec w :=
  x.rotateRight r.first ^^^ x.rotateRight r.second ^^^ (x >>> r.third)

def choose (x y z : BitVec w) : BitVec w := (x &&& y) ^^^ (~~~x &&& z)

def majority (x y z : BitVec w) : BitVec w := (x &&& y) ^^^ (x &&& z) ^^^ (y &&& z)

/-- One round, with the sum of its constant and its message word. -/
def Variant.round (v : Variant w) (s : State w) (word : BitVec w) : State w :=
  let t := s.h + v.lower.rotate s.e + choose s.e s.f s.g + word
  let u := v.upper.rotate s.a + majority s.a s.b s.c
  ⟨t + u, s.a, s.b, s.c, s.d + t, s.e, s.f, s.g⟩

def State.add (s t : State w) : State w :=
  ⟨s.a + t.a, s.b + t.b, s.c + t.c, s.d + t.d, s.e + t.e, s.f + t.f, s.g + t.g, s.h + t.h⟩

/-- The word after the given ones, of which the newest comes first. -/
def Variant.nextWord (v : Variant w) (words : List (BitVec w)) : BitVec w :=
  v.recent.spread (words.getD 1 0) + words.getD 6 0
    + v.distant.spread (words.getD 14 0) + words.getD 15 0

def Variant.extend (v : Variant w) : Nat → List (BitVec w) → List (BitVec w)
  | 0, words => words
  | n + 1, words => v.extend n (v.nextWord words :: words)

/-- The first `n` words of a byte string. -/
def words : Nat → Bytes → List (BitVec w)
  | 0, _ => []
  | n + 1, bs => .ofNat w (Bytes.toNat (bs.take (w / 8))) :: words n (bs.drop (w / 8))

def Variant.schedule (v : Variant w) (block : Bytes) : List (BitVec w) :=
  (v.extend (v.roundConstants.length - 16) (words 16 block).reverse).reverse

def Variant.compress (v : Variant w) (s : State w) (block : Bytes) : State w :=
  s.add ((v.roundConstants.zipWith (· + ·) (v.schedule block)).foldl v.round s)

/-- A one bit, zeros up to whole blocks of `2 * w` bytes, and the message's length in bits. -/
def pad (w : Nat) (message : Bytes) : Bytes :=
  let zeros := (2 * w - (message.length + 1 + w / 4) % (2 * w)) % (2 * w)
  message ++ 0x80 :: List.replicate zeros 0 ++ Bytes.bigEndian (w / 4) (8 * message.length)

def Variant.absorb (v : Variant w) : Nat → State w → Bytes → State w
  | 0, s, _ => s
  | n + 1, s, bs => v.absorb n (v.compress s (bs.take (2 * w))) (bs.drop (2 * w))

def State.bytes (s : State w) : Bytes :=
  [s.a, s.b, s.c, s.d, s.e, s.f, s.g, s.h].flatMap fun x => Bytes.bigEndian (w / 8) x.toNat

@[simp] theorem State.length_bytes (s : State w) : s.bytes.length = 8 * (w / 8) := by
  simp [State.bytes]
  omega

def Variant.digest (v : Variant w) (message : Bytes) : Bytes :=
  let padded := pad w message
  (v.absorb (padded.length / (2 * w)) v.initial padded).bytes

@[simp] theorem Variant.length_digest (v : Variant w) (message : Bytes) :
    (v.digest message).length = 8 * (w / 8) := by
  simp [Variant.digest]

/-! The initial states are the fractional parts of the square roots of the first eight primes, and
the round constants those of the cube roots of as many primes as there are rounds. -/

def sha256 : Variant 32 where
  initial := ⟨0x6a09e667, 0xbb67ae85, 0x3c6ef372, 0xa54ff53a,
   0x510e527f, 0x9b05688c, 0x1f83d9ab, 0x5be0cd19⟩
  roundConstants := [0x428a2f98, 0x71374491, 0xb5c0fbcf, 0xe9b5dba5, 0x3956c25b, 0x59f111f1,
   0x923f82a4, 0xab1c5ed5, 0xd807aa98, 0x12835b01, 0x243185be, 0x550c7dc3,
   0x72be5d74, 0x80deb1fe, 0x9bdc06a7, 0xc19bf174, 0xe49b69c1, 0xefbe4786,
   0x0fc19dc6, 0x240ca1cc, 0x2de92c6f, 0x4a7484aa, 0x5cb0a9dc, 0x76f988da,
   0x983e5152, 0xa831c66d, 0xb00327c8, 0xbf597fc7, 0xc6e00bf3, 0xd5a79147,
   0x06ca6351, 0x14292967, 0x27b70a85, 0x2e1b2138, 0x4d2c6dfc, 0x53380d13,
   0x650a7354, 0x766a0abb, 0x81c2c92e, 0x92722c85, 0xa2bfe8a1, 0xa81a664b,
   0xc24b8b70, 0xc76c51a3, 0xd192e819, 0xd6990624, 0xf40e3585, 0x106aa070,
   0x19a4c116, 0x1e376c08, 0x2748774c, 0x34b0bcb5, 0x391c0cb3, 0x4ed8aa4a,
   0x5b9cca4f, 0x682e6ff3, 0x748f82ee, 0x78a5636f, 0x84c87814, 0x8cc70208,
   0x90befffa, 0xa4506ceb, 0xbef9a3f7, 0xc67178f2]
  upper := ⟨2, 13, 22⟩
  lower := ⟨6, 11, 25⟩
  recent := ⟨17, 19, 10⟩
  distant := ⟨7, 18, 3⟩

def sha512 : Variant 64 where
  initial := ⟨0x6a09e667f3bcc908, 0xbb67ae8584caa73b, 0x3c6ef372fe94f82b, 0xa54ff53a5f1d36f1,
   0x510e527fade682d1, 0x9b05688c2b3e6c1f, 0x1f83d9abfb41bd6b, 0x5be0cd19137e2179⟩
  roundConstants := [0x428a2f98d728ae22, 0x7137449123ef65cd, 0xb5c0fbcfec4d3b2f, 0xe9b5dba58189dbbc,
   0x3956c25bf348b538, 0x59f111f1b605d019, 0x923f82a4af194f9b, 0xab1c5ed5da6d8118,
   0xd807aa98a3030242, 0x12835b0145706fbe, 0x243185be4ee4b28c, 0x550c7dc3d5ffb4e2,
   0x72be5d74f27b896f, 0x80deb1fe3b1696b1, 0x9bdc06a725c71235, 0xc19bf174cf692694,
   0xe49b69c19ef14ad2, 0xefbe4786384f25e3, 0x0fc19dc68b8cd5b5, 0x240ca1cc77ac9c65,
   0x2de92c6f592b0275, 0x4a7484aa6ea6e483, 0x5cb0a9dcbd41fbd4, 0x76f988da831153b5,
   0x983e5152ee66dfab, 0xa831c66d2db43210, 0xb00327c898fb213f, 0xbf597fc7beef0ee4,
   0xc6e00bf33da88fc2, 0xd5a79147930aa725, 0x06ca6351e003826f, 0x142929670a0e6e70,
   0x27b70a8546d22ffc, 0x2e1b21385c26c926, 0x4d2c6dfc5ac42aed, 0x53380d139d95b3df,
   0x650a73548baf63de, 0x766a0abb3c77b2a8, 0x81c2c92e47edaee6, 0x92722c851482353b,
   0xa2bfe8a14cf10364, 0xa81a664bbc423001, 0xc24b8b70d0f89791, 0xc76c51a30654be30,
   0xd192e819d6ef5218, 0xd69906245565a910, 0xf40e35855771202a, 0x106aa07032bbd1b8,
   0x19a4c116b8d2d0c8, 0x1e376c085141ab53, 0x2748774cdf8eeb99, 0x34b0bcb5e19b48a8,
   0x391c0cb3c5c95a63, 0x4ed8aa4ae3418acb, 0x5b9cca4f7763e373, 0x682e6ff3d6b2b8a3,
   0x748f82ee5defb2fc, 0x78a5636f43172f60, 0x84c87814a1f0ab72, 0x8cc702081a6439ec,
   0x90befffa23631e28, 0xa4506cebde82bde9, 0xbef9a3f7b2c67915, 0xc67178f2e372532b,
   0xca273eceea26619c, 0xd186b8c721c0c207, 0xeada7dd6cde0eb1e, 0xf57d4f7fee6ed178,
   0x06f067aa72176fba, 0x0a637dc5a2c898a6, 0x113f9804bef90dae, 0x1b710b35131c471b,
   0x28db77f523047d84, 0x32caab7b40c72493, 0x3c9ebe0a15c9bebc, 0x431d67c49c100d4c,
   0x4cc5d4becb3e42b6, 0x597f299cfc657e2a, 0x5fcb6fab3ad6faec, 0x6c44198c4a475817]
  upper := ⟨28, 34, 39⟩
  lower := ⟨14, 18, 41⟩
  recent := ⟨19, 61, 6⟩
  distant := ⟨1, 8, 7⟩

end AgentLedger.Sha2
