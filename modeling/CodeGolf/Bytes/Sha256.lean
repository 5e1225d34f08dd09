import CodeGolf.Word

/-!
# SHA-256

A message is padded to whole blocks of sixteen words. Each block drives sixty-four rounds over
eight working words, and what the rounds leave is added to the chaining state. The schedule
of a block slides a window of sixteen words: the head is the word of the round, and the word
pushed at the end mixes four of the window.
-/

namespace CodeGolf

/-- A SHA-256 digest. -/
abbrev Digest := Word

namespace Sha256

/-- The eight working words. -/
structure State where
  a : UInt32
  b : UInt32
  c : UInt32
  d : UInt32
  e : UInt32
  f : UInt32
  g : UInt32
  h : UInt32

/-- The chaining state before the first block. -/
def State.initial : State :=
  ⟨0x6a09e667, 0xbb67ae85, 0x3c6ef372, 0xa54ff53a, 0x510e527f, 0x9b05688c, 0x1f83d9ab, 0x5be0cd19⟩

/-- The constants of the sixty-four rounds. -/
def roundConstants : List UInt32 :=
  [0x428a2f98, 0x71374491, 0xb5c0fbcf, 0xe9b5dba5, 0x3956c25b, 0x59f111f1, 0x923f82a4, 0xab1c5ed5,
   0xd807aa98, 0x12835b01, 0x243185be, 0x550c7dc3, 0x72be5d74, 0x80deb1fe, 0x9bdc06a7, 0xc19bf174,
   0xe49b69c1, 0xefbe4786, 0x0fc19dc6, 0x240ca1cc, 0x2de92c6f, 0x4a7484aa, 0x5cb0a9dc, 0x76f988da,
   0x983e5152, 0xa831c66d, 0xb00327c8, 0xbf597fc7, 0xc6e00bf3, 0xd5a79147, 0x06ca6351, 0x14292967,
   0x27b70a85, 0x2e1b2138, 0x4d2c6dfc, 0x53380d13, 0x650a7354, 0x766a0abb, 0x81c2c92e, 0x92722c85,
   0xa2bfe8a1, 0xa81a664b, 0xc24b8b70, 0xc76c51a3, 0xd192e819, 0xd6990624, 0xf40e3585, 0x106aa070,
   0x19a4c116, 0x1e376c08, 0x2748774c, 0x34b0bcb5, 0x391c0cb3, 0x4ed8aa4a, 0x5b9cca4f, 0x682e6ff3,
   0x748f82ee, 0x78a5636f, 0x84c87814, 0x8cc70208, 0x90befffa, 0xa4506ceb, 0xbef9a3f7, 0xc67178f2]

/-- A word rotated right by `n` bits. -/
def rotated (n x : UInt32) : UInt32 := (x >>> n) ||| (x <<< (32 - n))

/-- One round, with its constant and its word of the schedule. -/
def State.round (s : State) (k w : UInt32) : State :=
  let sum := rotated 6 s.e ^^^ rotated 11 s.e ^^^ rotated 25 s.e
  let choice := (s.e &&& s.f) ^^^ (~~~ s.e &&& s.g)
  let first := s.h + sum + choice + k + w
  let spread := rotated 2 s.a ^^^ rotated 13 s.a ^^^ rotated 22 s.a
  let majority := (s.a &&& s.b) ^^^ (s.a &&& s.c) ^^^ (s.b &&& s.c)
  ⟨first + (spread + majority), s.a, s.b, s.c, s.d + first, s.e, s.f, s.g⟩

/-- The window without its head and with the word that follows its last one. -/
def slide (window : List UInt32) : List UInt32 :=
  let x := window.getD 1 0
  let y := window.getD 14 0
  let early := rotated 7 x ^^^ rotated 18 x ^^^ (x >>> 3)
  let late := rotated 17 y ^^^ rotated 19 y ^^^ (y >>> 10)
  window.drop 1 ++ [late + window.getD 9 0 + early + window.getD 0 0]

/-- The first `n` words of the schedule that starts with a window of sixteen. -/
def schedule : (n : Nat) → (window : List UInt32) → List UInt32
  | 0, _ => []
  | n + 1, window => window.getD 0 0 :: schedule n (slide window)

/-- The chaining state after a block of sixteen words. -/
def State.compress (s : State) (block : List UInt32) : State :=
  let t := (roundConstants.zip (schedule 64 block)).foldl (fun t (k, w) => t.round k w) s
  ⟨s.a + t.a, s.b + t.b, s.c + t.c, s.d + t.d, s.e + t.e, s.f + t.f, s.g + t.g, s.h + t.h⟩

/-- The chaining state after `count` blocks. -/
def State.absorb (s : State) : (count : Nat) → (words : List UInt32) → State
  | 0, _ => s
  | count + 1, words => (s.compress (words.take 16)).absorb count (words.drop 16)

/-- The message, a one bit, zeros, and the number of message bits in eight bytes: whole blocks
of sixty-four bytes. -/
def pad (message : Bytes) : Bytes :=
  message ++ [0x80] ++ List.replicate ((119 - message.length % 64) % 64) 0 ++
    Bytes.bigEndian 8 (8 * message.length)

/-- The words of four bytes, the most significant byte first. -/
def words : Bytes → List UInt32
  | a :: b :: c :: d :: rest => UInt32.ofNat (Bytes.ofBigEndian [a, b, c, d]) :: words rest
  | _ => []

/-- The bytes of a chaining state. -/
def State.toBytes (s : State) : Bytes :=
  [s.a, s.b, s.c, s.d, s.e, s.f, s.g, s.h].flatMap fun w => Bytes.bigEndian 4 w.toNat

end Sha256

/-- The SHA-256 digest of a message. -/
def sha256 (message : Bytes) : Digest :=
  let blocks := Sha256.words (Sha256.pad message)
  Word.ofBytes (Sha256.State.initial.absorb (blocks.length / 16) blocks).toBytes

end CodeGolf
