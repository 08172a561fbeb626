import GoldenRom.Machine.WordSource

/-!
# The seeded source of random words

The words of a seeded source are the keystream of the ChaCha permutation with twelve rounds.
The key is spread from a sixty-four-bit seed, the nonce is zero, and the block counter runs from
zero.

## Main definitions

* `ChaCha.key`: the eight key words of a seed.
* `ChaCha.block`: the sixteen words of one block.
* `ChaCha`: a source, which is a key and the number of words drawn from it so far.

### Design notes

A source keeps no block: the word at a position is computed from the key and the position alone.
A block is computed anew for each draw, which costs a few microseconds and leaves nothing to
keep in step.
-/

namespace GoldenRom

/-- A keystream and how much of it has been drawn. -/
structure ChaCha where
  key : Vector UInt32 8
  /-- The number of words drawn so far. -/
  position : Nat
deriving DecidableEq

namespace ChaCha

/-- A rotation to the left.  Shift amounts count modulo thirty-two, so that an amount of zero is
a rotation too. -/
def rotateLeft (word amount : UInt32) : UInt32 :=
  (word <<< amount) ||| (word >>> (32 - amount))

/-- A rotation to the right. -/
def rotateRight (word amount : UInt32) : UInt32 :=
  (word >>> amount) ||| (word <<< (32 - amount))

/-- One step of the linear congruence that spreads a seed over a key. -/
def nextSeed (seed : UInt64) : UInt64 :=
  seed * 6364136223846793005 + 11634580027462260723

/-- The key word that a state of the congruence yields: its upper bits, folded and turned by its
top five bits. -/
def keyWord (state : UInt64) : UInt32 :=
  rotateRight (((state >>> 18) ^^^ state) >>> 27).toUInt32 (state >>> 59).toUInt32

/-- The state of the congruence after a number of steps. -/
def seedAfter (seed : UInt64) : Nat → UInt64
  | 0 => seed
  | n + 1 => nextSeed (seedAfter seed n)

/-- The key of a seed: word `i` comes from the congruence after `i + 1` steps. -/
def seedKey (seed : UInt64) : Vector UInt32 8 :=
  Vector.ofFn fun i => keyWord (seedAfter seed (i.val + 1))

/-- The sixteen words that a block is computed from. -/
abbrev Block := Vector UInt32 16

/-- The block before the rounds: constants, key, counter in two halves, and a zero nonce. -/
def input (key : Vector UInt32 8) (counter : Nat) : Block :=
  #v[0x61707865, 0x3320646e, 0x79622d32, 0x6b206574,
    key[0], key[1], key[2], key[3], key[4], key[5], key[6], key[7],
    (counter % UInt32.size).toUInt32, (counter / UInt32.size).toUInt32, 0, 0]

/-- A quarter round on four words of a block. -/
def quarterRound (a b c d : Fin 16) (block : Block) : Block :=
  let block := block.set a (block[a] + block[b])
  let block := block.set d (rotateLeft (block[d] ^^^ block[a]) 16)
  let block := block.set c (block[c] + block[d])
  let block := block.set b (rotateLeft (block[b] ^^^ block[c]) 12)
  let block := block.set a (block[a] + block[b])
  let block := block.set d (rotateLeft (block[d] ^^^ block[a]) 8)
  let block := block.set c (block[c] + block[d])
  block.set b (rotateLeft (block[b] ^^^ block[c]) 7)

/-- A round on the four columns of a block and a round on its four diagonals. -/
def doubleRound (block : Block) : Block :=
  let block := quarterRound 0 4 8 12 block
  let block := quarterRound 1 5 9 13 block
  let block := quarterRound 2 6 10 14 block
  let block := quarterRound 3 7 11 15 block
  let block := quarterRound 0 5 10 15 block
  let block := quarterRound 1 6 11 12 block
  let block := quarterRound 2 7 8 13 block
  quarterRound 3 4 9 14 block

/-- The sixteen words of one block of the keystream: twelve rounds, then the input added word by
word. -/
def block (key : Vector UInt32 8) (counter : Nat) : Block :=
  let start := input key counter
  let mixed := Nat.repeat doubleRound 6 start
  Vector.zipWith (· + ·) mixed start

/-- The word at a position of the keystream. -/
def keystream (key : Vector UInt32 8) (position : Nat) : UInt32 :=
  (block key (position / 16))[position % 16]

/-- The source of a seed, with nothing drawn yet. -/
def ofSeed (seed : UInt64) : ChaCha where
  key := seedKey seed
  position := 0

instance : WordSource ChaCha where
  draw source :=
    (keystream source.key source.position, { source with position := source.position + 1 })

end ChaCha

end GoldenRom
