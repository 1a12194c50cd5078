/-!
# Addresses

A document of a view is reached by three numbers: its position in the document
space of the whole view (`p`), its offset in its segment (`l`), and its stable id
(`id`), which is given from outside and kept when positions shift. All of them,
and all counts and versions, are natural numbers. Every number that enters fits
a 64-bit word, and the one sum that could leave that range, the running total of
document counts, is compared with `maxWord` where it is formed
(`Boundaries.ofCounts`); every other sum stays below that total.
-/

set_option autoImplicit false

namespace SegmentedView

/-- The stored content of a document. -/
abbrev Bytes := List UInt8

/-- The largest number that a position, a count, an id or a version may be. -/
def maxWord : Nat := UInt64.size - 1

/-- The sum of a list of numbers. -/
def addUp (ns : List Nat) : Nat := ns.foldr (· + ·) 0

end SegmentedView
