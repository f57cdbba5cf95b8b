import EstimateSheet.Random.Source

/-!
# Seeded sources

The stream of a seed is the key stream of the ChaCha cipher with twelve rounds and a zero nonce,
cut into 64-bit words. A linear congruential generator with permuted output stretches the seed to
the key. Word `i` depends on the seed and on `i` alone.
-/

namespace EstimateSheet

namespace ChaCha

/-- Four words of the cipher's state. -/
structure Row where
  a : UInt32
  b : UInt32
  c : UInt32
  d : UInt32
deriving DecidableEq

/-- The cipher's state, four rows. -/
structure Block where
  first : Row
  second : Row
  third : Row
  fourth : Row
deriving DecidableEq

/-- The key, the two middle rows of the state. -/
structure Key where
  low : Row
  high : Row
deriving DecidableEq

/-- `x` rotated to the left by `n` bits, for `n` from `1` to `31`. -/
def rotateLeft (x n : UInt32) : UInt32 := (x <<< n) ||| (x >>> (32 - n))

namespace Row

def add (x y : Row) : Row := ⟨x.a + y.a, x.b + y.b, x.c + y.c, x.d + y.d⟩

/-- Exclusive or, word by word, and then a rotation by `n` bits of each. -/
def xorRotate (x y : Row) (n : UInt32) : Row :=
  ⟨rotateLeft (x.a ^^^ y.a) n, rotateLeft (x.b ^^^ y.b) n, rotateLeft (x.c ^^^ y.c) n,
    rotateLeft (x.d ^^^ y.d) n⟩

/-- The words moved up by one place, the first to the end. -/
def shift (x : Row) : Row := ⟨x.b, x.c, x.d, x.a⟩

def words (x : Row) : List UInt32 := [x.a, x.b, x.c, x.d]

end Row

namespace Block

/-- The four quarter rounds of a round, on the four columns at once. -/
def quarterRounds (s : Block) : Block :=
  let a := s.first.add s.second
  let d := s.fourth.xorRotate a 16
  let c := s.third.add d
  let b := s.second.xorRotate c 12
  let a := a.add b
  let d := d.xorRotate a 8
  let c := c.add d
  let b := b.xorRotate c 7
  ⟨a, b, c, d⟩

/-- A round on the columns and one on the diagonals. -/
def doubleRound (s : Block) : Block :=
  let s := s.quarterRounds
  let s := quarterRounds ⟨s.first, s.second.shift, s.third.shift.shift,
    s.fourth.shift.shift.shift⟩
  ⟨s.first, s.second.shift.shift.shift, s.third.shift.shift, s.fourth.shift⟩

def add (s t : Block) : Block :=
  ⟨s.first.add t.first, s.second.add t.second, s.third.add t.third, s.fourth.add t.fourth⟩

def words (s : Block) : List UInt32 :=
  s.first.words ++ s.second.words ++ s.third.words ++ s.fourth.words

/-- The state that block `counter` of the key stream starts from. -/
def initial (key : Key) (counter : UInt64) : Block :=
  ⟨⟨0x61707865, 0x3320646e, 0x79622d32, 0x6b206574⟩, key.low, key.high,
    ⟨counter.toUInt32, (counter >>> 32).toUInt32, 0, 0⟩⟩

/-- Block `counter` of the key stream. -/
def keyStream (key : Key) (counter : UInt64) : Block :=
  let start := initial key counter
  (Nat.repeat doubleRound 6 start).add start

end Block

/-- Word `i` of a key's stream: eight words to a block, each the lower half first. -/
def streamWord (key : Key) (i : Nat) : UInt64 :=
  let words := (Block.keyStream key (UInt64.ofNat (i / 8))).words
  let low := words.getD (2 * (i % 8)) 0
  let high := words.getD (2 * (i % 8) + 1) 0
  low.toUInt64 ||| (high.toUInt64 <<< 32)

/-- One step of the generator that stretches a seed. -/
def seedStep (state : UInt64) : UInt64 := state * 6364136223846793005 + 11634580027462260723

/-- The output of that generator: the state's upper bits, folded and rotated by its top ones. -/
def seedWord (state : UInt64) : UInt32 :=
  let x := (((state >>> 18) ^^^ state) >>> 27).toUInt32
  let n := (state >>> 59).toUInt32
  (x >>> n) ||| (x <<< ((32 - n) % 32))

/-- The next row of a key, and the generator's state after it. -/
def seedRow (state : UInt64) : Row × UInt64 :=
  let s := seedStep state
  let t := seedStep s
  let u := seedStep t
  let v := seedStep u
  (⟨seedWord s, seedWord t, seedWord u, seedWord v⟩, v)

def keyOfSeed (seed : UInt64) : Key :=
  let (low, state) := seedRow seed
  let (high, _) := seedRow state
  ⟨low, high⟩

end ChaCha

def Source.ofSeed (seed : UInt64) : Source :=
  let key := ChaCha.keyOfSeed seed
  Source.ofStream (ChaCha.streamWord key)

end EstimateSheet
