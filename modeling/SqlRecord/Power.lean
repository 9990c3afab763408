/-!
# Powers and logarithms

Inside the library `b ^ n` is the power that the core library defines, for natural numbers and
integers alike, whatever other libraries are imported beside it.
-/

namespace SqlRecord

attribute [scoped instance (high)] instPowNat

/-- The greatest `k` with `2 ^ k ≤ n / d`, for positive `n` and `d`. -/
def floorLog2 (n d : Nat) : Int :=
  let k : Int := n.log2 - d.log2
  if n * 2 ^ (-k).toNat < d * 2 ^ k.toNat then k - 1 else k

end SqlRecord
