/-!
# Sources of random words

A machine does not know where its random bytes come from.  It draws thirty-two-bit words from a
source and keeps the source that each draw leaves behind, so that a run is determined by the
state of the machine and of its source.

## Main definitions

* `WordSource`: the one operation, `WordSource.draw`.
* `WordSource.word source n`: the word that draw number `n` yields, counted from zero.
* `SteppingSource`: a counter with a fixed increment, for runs whose draws should be known in
  advance.
-/

namespace GoldenRom

/-- A deterministic source of thirty-two-bit words. -/
class WordSource (γ : Type) where
  /-- The next word, and the source afterwards. -/
  draw : γ → UInt32 × γ

namespace WordSource

variable {γ : Type} [WordSource γ]

/-- The source after a number of draws. -/
def after (source : γ) : Nat → γ
  | 0 => source
  | n + 1 => (draw (after source n)).2

/-- The word that draw number `n` yields. -/
def word (source : γ) (n : Nat) : UInt32 :=
  (draw (after source n)).1

@[simp] theorem after_zero (source : γ) : after source 0 = source := rfl

theorem after_succ (source : γ) (n : Nat) :
    after source (n + 1) = (draw (after source n)).2 := rfl

end WordSource

/-- A counter of sixty-four bits whose low half is drawn. -/
structure SteppingSource where
  value : UInt64
  increment : UInt64
deriving DecidableEq

instance : WordSource SteppingSource where
  draw source :=
    (source.value.toUInt32, { source with value := source.value + source.increment })

end GoldenRom
