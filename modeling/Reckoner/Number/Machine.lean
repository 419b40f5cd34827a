/-!
# Machine Words

The largest integers that fit into the signed words of the machine. They are not
a limit on any number the calculator computes with. They bound what counts
something: decimal places, the width of a column, entries, seconds and years.

## Main definitions

* `maxWord`: The largest integer in a word.
* `maxHalfWord`: The largest integer in half a word.
-/

namespace Reckoner

/-- The largest integer in a word of 64 bits with a sign. -/
def maxWord : Int := 9223372036854775807

/-- The largest integer in half a word. -/
def maxHalfWord : Int := 2147483647

end Reckoner
