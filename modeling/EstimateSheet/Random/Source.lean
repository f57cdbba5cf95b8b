/-!
# Random sources

A source is an endless stream of 64-bit words and the count of those already drawn. A sampler draws
from a source and gives the source that is left. Sampling by rejection ends with a stream that
keeps offering acceptable words, so a sampler that has been refused `redrawLimit` times in a row
gives nothing.
-/

namespace EstimateSheet

/-- A stream of random words, of which the first `drawn` are used up. -/
structure Source where
  stream : Nat → UInt64
  drawn : Nat

namespace Source

/-- The source at the start of a stream. -/
def ofStream (stream : Nat → UInt64) : Source := ⟨stream, 0⟩

/-- A source of the given words, followed by the middle word `2 ^ 63` for ever. -/
def ofWords (words : List UInt64) : Source :=
  let words := words.toArray
  ofStream fun i => words.getD i 0x8000000000000000

def word (s : Source) : UInt64 := s.stream s.drawn

def rest (s : Source) : Source := ⟨s.stream, s.drawn + 1⟩

end Source

/-- A computation that draws random words. It gives nothing if its redraws run out. -/
abbrev Sampler (α : Type) := StateT Source Option α

namespace Sampler

def word : Sampler UInt64 := fun s => some (s.word, s.rest)

/-- The number of refused draws in a row after which a sampler gives up. -/
def redrawLimit : Nat := 0x10000000000000000

/-- Draw until the result is accepted, at most `tries` times. -/
def redraw {α : Type} (accept : α → Bool) (draw : Sampler α) : Nat → Sampler α
  | 0 => fun _ => none
  | tries + 1 => do
    let x ← draw
    if accept x then pure x else redraw accept draw tries

end Sampler

end EstimateSheet
