/-!
# The ChaCha stream with eight rounds

A key of eight words gives a stream of words, sixteen per block. Blocks are
numbered by a counter of 64 bits; the nonce is zero.
-/

namespace ParticleShading.ChaCha

abbrev Key := Vector UInt32 8

abbrev Block := Vector UInt32 16

def rotateLeft (x : UInt32) (k : UInt32) : UInt32 := (x <<< k) ||| (x >>> (32 - k))

/-- Mixes four words of a block. -/
def quarterRound (s : Block) (a b c d : Fin 16) : Block :=
  let s := s.set a (s[a] + s[b])
  let s := s.set d (rotateLeft (s[d] ^^^ s[a]) 16)
  let s := s.set c (s[c] + s[d])
  let s := s.set b (rotateLeft (s[b] ^^^ s[c]) 12)
  let s := s.set a (s[a] + s[b])
  let s := s.set d (rotateLeft (s[d] ^^^ s[a]) 8)
  let s := s.set c (s[c] + s[d])
  s.set b (rotateLeft (s[b] ^^^ s[c]) 7)

/-- A round over the columns and one over the diagonals. -/
def doubleRound (s : Block) : Block :=
  let s := quarterRound s 0 4 8 12
  let s := quarterRound s 1 5 9 13
  let s := quarterRound s 2 6 10 14
  let s := quarterRound s 3 7 11 15
  let s := quarterRound s 0 5 10 15
  let s := quarterRound s 1 6 11 12
  let s := quarterRound s 2 7 8 13
  quarterRound s 3 4 9 14

/-- The block before mixing: constants, key, counter and nonce. -/
def initial (key : Key) (counter : UInt64) : Block :=
  #v[0x61707865, 0x3320646e, 0x79622d32, 0x6b206574,
     key[0], key[1], key[2], key[3], key[4], key[5], key[6], key[7],
     counter.toUInt32, (counter >>> 32).toUInt32, 0, 0]

/-- A block of the stream. -/
def block (key : Key) (counter : UInt64) : Block :=
  let s := initial key counter
  let mixed := doubleRound (doubleRound (doubleRound (doubleRound s)))
  Vector.ofFn fun i => mixed[i] + s[i]

/-- A word of the stream. -/
def word (key : Key) (position : Nat) : UInt32 :=
  let within : Fin 16 := ⟨position % 16, Nat.mod_lt _ (by decide)⟩
  (block key (UInt64.ofNat (position / 16)))[within]

/-- Spreads a seed over a key with a permuted congruential generator. -/
def keyOfSeed (seed : UInt64) : Key :=
  let step (state : UInt64) : UInt64 := state * 6364136223846793005 + 11634580027462260723
  let output (state : UInt64) : UInt32 :=
    let mixed := (((state >>> 18) ^^^ state) >>> 27).toUInt32
    let turn := (state >>> 59).toUInt32
    (mixed >>> turn) ||| (mixed <<< ((32 - turn) % 32))
  let s0 := step seed
  let s1 := step s0
  let s2 := step s1
  let s3 := step s2
  let s4 := step s3
  let s5 := step s4
  let s6 := step s5
  let s7 := step s6
  #v[output s0, output s1, output s2, output s3, output s4, output s5, output s6, output s7]

end ParticleShading.ChaCha
