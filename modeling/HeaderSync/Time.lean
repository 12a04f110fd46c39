/-!
# Times

Times are seconds. Differences that a rule keeps in 64 bits saturate, and a median of an even number
of times is the upper of the two in the middle.
-/

namespace HeaderSync

def clampSeconds (n : Int) : Int := max (-0x8000000000000000) (min n 0x7fffffffffffffff)

def medianSpan : Nat := 11

/-- The upper median, zero of no times. -/
def medianTime (times : List Int) : Int := times.mergeSort.getD (times.length / 2) 0

end HeaderSync
