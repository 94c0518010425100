/-!
# StochasticGame.Text.Rational

**Rationals as text.** A rational is written in lowest terms as `n/d`, and as
`n` when its denominator is 1.
-/

namespace StochasticGame.Text

/-- The text of a rational. -/
def rational (q : Rat) : String :=
  if q.den = 1 then toString q.num else s!"{q.num}/{q.den}"

end StochasticGame.Text
