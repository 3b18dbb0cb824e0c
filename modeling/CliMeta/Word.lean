import CliMeta.Error

/-!
Numbers that have to be words. Where one is computed without a look at its size, the computation is
given up as soon as the number leaves its word; this says nothing about the data that are read.
-/

namespace CliMeta

/-- A number as a word of so many bits. -/
def wordOf (bits value : Nat) : Except Error Nat :=
  if value < 1 <<< bits then .ok value else .error .overflow

theorem wordOf_eq_ok {bits value : Nat} (h : value < 1 <<< bits) : wordOf bits value = .ok value :=
  if_pos h

theorem wordOf_eq_overflow {bits value : Nat} (h : 1 <<< bits ≤ value) :
    wordOf bits value = .error .overflow :=
  if_neg (Nat.not_lt.2 h)

end CliMeta
