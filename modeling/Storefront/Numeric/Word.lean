import Storefront.Numeric.Double

/-!
# Words

Counts are words, numbers of 64 bits. A sum of words that is no word any more is no
result at all: nothing is cut off, and nothing starts again from zero.
-/

namespace Storefront

namespace Word

/-- The sum, if it is a word. -/
def add? (a b : UInt64) : Option UInt64 :=
  if a.toNat + b.toNat < UInt64.size then some (a + b) else none

/-- **The sum of a list**, if all sums on the way are words. -/
def sum? (ws : List UInt64) : Option UInt64 := ws.foldlM add? 0

end Word

namespace Double

theorem toUInt64_lt (x : Double) : x.toUInt64 < UInt64.size := by
  have hsize : 0 < UInt64.size := by decide
  unfold toUInt64 toIntWithin
  split
  · omega
  · split
    · exact hsize
    · omega
  · exact hsize

/-- **The whole part of a number as a word**, cut to the range of words. -/
def toWord (x : Double) : UInt64 := UInt64.ofNatLT x.toUInt64 x.toUInt64_lt

theorem toNat_toWord (x : Double) : x.toWord.toNat = x.toUInt64 := UInt64.toNat_ofNatLT

end Double

end Storefront
