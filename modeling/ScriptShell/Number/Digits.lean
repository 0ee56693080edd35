/-!
# Numbers from digits

Digits of a base spell a number. Two digits next to each other are one digit of the squared base,
so a text is read by taking its digits together in pairs until one digit is left; the factors of
every product then have about the same size.
-/

namespace ScriptShell.Digits

/-- The number that digits of a base spell, the least digit first. -/
def spelled (base : Nat) : List Nat → Nat
  | [] => 0
  | d :: ds => d + base * spelled base ds

/-- Digits of a base, taken together in pairs as digits of the squared base. -/
def paired (base : Nat) : List Nat → List Nat
  | low :: high :: ds => (low + base * high) :: paired base ds
  | ds => ds

/-- Taking digits together in pairs keeps the number that they spell. -/
theorem spelled_paired (base : Nat) (ds : List Nat) :
    spelled (base * base) (paired base ds) = spelled base ds := by
  fun_induction paired base ds with
  | case1 low high ds ih =>
    rw [spelled, spelled, spelled, ih, Nat.mul_add, Nat.mul_assoc, Nat.add_assoc]
  | case2 ds short =>
    match ds, short with
    | [], _ => rfl
    | [d], _ => rfl
    | low :: high :: ds, short => exact absurd rfl (short low high ds)

/-- The number that digits of a base spell, the least digit first, by taking them together in
pairs at most `rounds` times. -/
def gathered : Nat → Nat → List Nat → Nat
  | rounds + 1, base, low :: high :: ds =>
    gathered rounds (base * base) (paired base (low :: high :: ds))
  | _, base, ds => spelled base ds

/-- Taking digits together first changes nothing about the number. -/
theorem gathered_eq_spelled (rounds base : Nat) (ds : List Nat) :
    gathered rounds base ds = spelled base ds := by
  fun_induction gathered rounds base ds with
  | case1 rounds base low high ds ih => rw [ih, spelled_paired]
  | case2 => rfl

/-- The number that digits of a base spell, the greatest digit first. -/
def number (base : Nat) (ds : List Nat) : Nat := gathered ds.length base ds.reverse

/-- A further digit behind others counts once, and the others count as many times as the base
says. -/
theorem number_concat (base : Nat) (ds : List Nat) (d : Nat) :
    number base (ds ++ [d]) = base * number base ds + d := by
  simp [number, gathered_eq_spelled, spelled, Nat.add_comm]

end ScriptShell.Digits
