import ViewBundle.Text

/-!
# The digest SHA-256

The hash function of FIPS 180-4 on the UTF-8 bytes of a text, written in lower case hexadecimal
digits.  A message is padded to whole blocks of sixteen words, and each block is worked into a
state of eight words.  Main statement: a digest has 64 digits (`length_hex`).
-/

namespace ViewBundle.Digest

/-- The constants of the rounds. -/
def roundConstants : List UInt32 := [
  0x428a2f98, 0x71374491, 0xb5c0fbcf, 0xe9b5dba5, 0x3956c25b, 0x59f111f1, 0x923f82a4, 0xab1c5ed5,
  0xd807aa98, 0x12835b01, 0x243185be, 0x550c7dc3, 0x72be5d74, 0x80deb1fe, 0x9bdc06a7, 0xc19bf174,
  0xe49b69c1, 0xefbe4786, 0x0fc19dc6, 0x240ca1cc, 0x2de92c6f, 0x4a7484aa, 0x5cb0a9dc, 0x76f988da,
  0x983e5152, 0xa831c66d, 0xb00327c8, 0xbf597fc7, 0xc6e00bf3, 0xd5a79147, 0x06ca6351, 0x14292967,
  0x27b70a85, 0x2e1b2138, 0x4d2c6dfc, 0x53380d13, 0x650a7354, 0x766a0abb, 0x81c2c92e, 0x92722c85,
  0xa2bfe8a1, 0xa81a664b, 0xc24b8b70, 0xc76c51a3, 0xd192e819, 0xd6990624, 0xf40e3585, 0x106aa070,
  0x19a4c116, 0x1e376c08, 0x2748774c, 0x34b0bcb5, 0x391c0cb3, 0x4ed8aa4a, 0x5b9cca4f, 0x682e6ff3,
  0x748f82ee, 0x78a5636f, 0x84c87814, 0x8cc70208, 0x90befffa, 0xa4506ceb, 0xbef9a3f7, 0xc67178f2]

/-- The eight words that blocks are worked into. -/
structure State where
  a : UInt32
  b : UInt32
  c : UInt32
  d : UInt32
  e : UInt32
  f : UInt32
  g : UInt32
  h : UInt32

/-- The state before the first block. -/
def State.initial : State :=
  ⟨0x6a09e667, 0xbb67ae85, 0x3c6ef372, 0xa54ff53a, 0x510e527f, 0x9b05688c, 0x1f83d9ab, 0x5be0cd19⟩

/-- A word turned to the right. -/
def rotateRight (x n : UInt32) : UInt32 :=
  (x >>> n) ||| (x <<< (32 - n))

/-- One round: a word of the schedule and the constant of the round, worked into the state. -/
def State.round (s : State) (word constant : UInt32) : State :=
  let mixE := rotateRight s.e 6 ^^^ rotateRight s.e 11 ^^^ rotateRight s.e 25
  let choice := (s.e &&& s.f) ^^^ ((~~~ s.e) &&& s.g)
  let first := s.h + mixE + choice + constant + word
  let mixA := rotateRight s.a 2 ^^^ rotateRight s.a 13 ^^^ rotateRight s.a 22
  let majority := (s.a &&& s.b) ^^^ (s.a &&& s.c) ^^^ (s.b &&& s.c)
  ⟨first + (mixA + majority), s.a, s.b, s.c, s.d + first, s.e, s.f, s.g⟩

/-- The sum of two states, word by word. -/
def State.add (s t : State) : State :=
  ⟨s.a + t.a, s.b + t.b, s.c + t.c, s.d + t.d, s.e + t.e, s.f + t.f, s.g + t.g, s.h + t.h⟩

/-- The words of a schedule, the latest first, with `n` more words in front of them. -/
def extendSchedule : Nat → List UInt32 → List UInt32
  | 0, words => words
  | n + 1, words =>
    let near := words.getD 1 0
    let far := words.getD 14 0
    let mixNear := rotateRight near 17 ^^^ rotateRight near 19 ^^^ (near >>> 10)
    let mixFar := rotateRight far 7 ^^^ rotateRight far 18 ^^^ (far >>> 3)
    extendSchedule n ((mixNear + words.getD 6 0 + mixFar + words.getD 15 0) :: words)

/-- A block of sixteen words worked into the state. -/
def State.compress (s : State) (block : List UInt32) : State :=
  let schedule := (extendSchedule 48 block.reverse).reverse
  s.add ((schedule.zip roundConstants).foldl (fun t (word, constant) => t.round word constant) s)

/-- The words of a message worked into the state, block by block. -/
def State.absorb (s : State) (words : List UInt32) : State :=
  if _h : words.length < 16 then s
  else State.absorb (s.compress (words.take 16)) (words.drop 16)
termination_by words.length
decreasing_by simp only [List.length_drop]; omega

/-- The last `n` bytes of a number, the most significant first. -/
def numberBytes : (n : Nat) → Nat → List UInt8
  | 0, _ => []
  | n + 1, x => numberBytes n (x / 256) ++ [UInt8.ofNat x]

/-- A message filled up to whole blocks: one bit, zeros, and the length in bits. -/
def padded (message : List UInt8) : List UInt8 :=
  message ++ [0x80] ++ List.replicate ((119 - message.length % 64) % 64) 0 ++
    numberBytes 8 (8 * message.length)

/-- The words of a message, the most significant byte of each word first. -/
def wordsOf : List UInt8 → List UInt32
  | p :: q :: r :: s :: more =>
    (p.toUInt32 <<< 24 ||| q.toUInt32 <<< 16 ||| r.toUInt32 <<< 8 ||| s.toUInt32) :: wordsOf more
  | _ => []

/-- The words of a state, in order. -/
def State.words (s : State) : List UInt32 :=
  [s.a, s.b, s.c, s.d, s.e, s.f, s.g, s.h]

/-- The hexadecimal digits of a state. -/
def State.digits (s : State) : List Char :=
  s.words.flatMap fun word => Text.hexOfWidth 8 word.toNat

/-- The SHA-256 of a text in lower case hexadecimal digits. -/
def hex (text : String) : String :=
  String.ofList (State.initial.absorb (wordsOf (padded text.toUTF8.toList))).digits

/-- A digest has 64 digits. -/
theorem length_hex (text : String) : (hex text).toList.length = 64 := by
  simp [hex, State.digits, State.words]

end ViewBundle.Digest
