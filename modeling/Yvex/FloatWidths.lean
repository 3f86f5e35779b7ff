import Mathlib.Tactic

/-!
# Float widths

Floating-point numbers are their bit patterns. Widening a single to a double is
exact; narrowing a double rounds to the nearest single, ties to the even one.
-/

set_option autoImplicit false

namespace Yvex.FloatWidths

def widen (bits : ℕ) : ℕ :=
  -- The double of a single. A signalling NaN becomes quiet.
  let sign := bits / 2 ^ 31 % 2 * 2 ^ 63
  let exponent := bits / 2 ^ 23 % 2 ^ 8
  let fraction := bits % 2 ^ 23
  if exponent = 255 then
    if fraction = 0 then sign + 2047 * 2 ^ 52
    else sign + 2047 * 2 ^ 52 + 2 ^ 51 + fraction % 2 ^ 22 * 2 ^ 29
  else if exponent = 0 then
    if fraction = 0 then sign
    else
      let top := Nat.log2 fraction
      sign + (top + 874) * 2 ^ 52 + (fraction - 2 ^ top) * 2 ^ (52 - top)
  else sign + (exponent + 896) * 2 ^ 52 + fraction * 2 ^ 29

end Yvex.FloatWidths
