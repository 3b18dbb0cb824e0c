import CliMeta.Error

/-!
Sequences of entries that stand one after the other, each as long as it turns out to be when it is
read. A sequence ends with its first entry that cannot be read, since nothing tells where the next
one would begin.
-/

namespace CliMeta

/-- The entries from a position on, each with its place. `entry` gives an entry and the number of
bytes it takes up; the list ends where `done` holds and after the first failure. -/
def walkEntries {α : Type} (entry : Nat → Except Error (α × Nat)) (done : Nat → Bool) :
    (fuel position : Nat) → List (Except Error (Nat × α))
  | 0, _ => []
  | fuel + 1, position =>
      if done position then []
      else
        match entry position with
        | .ok (value, consumed) =>
            .ok (position, value) :: walkEntries entry done fuel (position + consumed)
        | .error e => [.error e]

end CliMeta
