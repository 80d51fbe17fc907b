namespace GameQuery

/-!
# Rounding

The whole number nearest to a quotient. Of two whole numbers that are equally near, it is the even
one.
-/

/-- The whole number nearest to `num / den`; of two, the even one. -/
def roundDiv (num den : Nat) : Nat :=
  let floor := num / den
  let rest := num % den
  if 2 * rest < den then floor
  else if den < 2 * rest then floor + 1
  else floor + floor % 2

end GameQuery
