import ScriptShell.Proofs.Value.Progression

/-!
# Progressions in wide words

The length of a progression, its items and what is in it are computed with numbers that need not be
words: the distance between two words, and steps from one to the other. Words of twice the width are
enough. The same computations with every number on the way checked to be a signed word of 128 bits
never meet one that is none, and come to the same.
-/

namespace ScriptShell

/-! ### Checked arithmetic -/

namespace Wide

/-- A number, if it is a signed word of 128 bits. -/
def fits? (n : Int) : Option Int := if -2 ^ 127 ≤ n ∧ n < 2 ^ 127 then some n else none

def add? (m n : Int) : Option Int := fits? (m + n)

def sub? (m n : Int) : Option Int := fits? (m - n)

def mul? (m n : Int) : Option Int := fits? (m * n)

def neg? (n : Int) : Option Int := fits? (-n)

/-- A quotient toward zero. -/
def quot? (m n : Int) : Option Int := if n = 0 then none else fits? (m.tdiv n)

/-- What a quotient toward zero leaves; it is there only with the quotient. -/
def rem? (m n : Int) : Option Int := (quot? m n).map fun _ => m.tmod n

theorem fits?_eq {n : Int} (hlow : -2 ^ 127 ≤ n) (hhigh : n < 2 ^ 127) : fits? n = some n :=
  if_pos ⟨hlow, hhigh⟩

/-- A quotient is no larger than the dividend. -/
theorem quot?_eq {m n : Int} (hn : n ≠ 0) (hm : m.natAbs < 2 ^ 127) :
    quot? m n = some (m.tdiv n) := by
  have hsize := Int.natAbs_tdiv_le_natAbs m n
  rw [quot?, if_neg hn]
  exact fits?_eq (by omega) (by omega)

theorem rem?_eq {m n : Int} (hn : n ≠ 0) (hm : m.natAbs < 2 ^ 127) :
    rem? m n = some (m.tmod n) := by
  rw [rem?, quot?_eq hn hm, Option.map_some]

/-- The quotient that counts the steps in a distance. -/
theorem quot?_steps {distance size : Int} (hdistance : 0 ≤ distance) (hsize : 0 < size)
    (hfits : distance + size < 2 ^ 127) :
    quot? (distance + size - 1) size = some (((distance + size - 1) / size).toNat : Int) := by
  have hquotient : 0 ≤ (distance + size - 1) / size :=
    Int.ediv_nonneg (by omega) (Int.le_of_lt hsize)
  rw [quot?_eq (by omega) (by omega), Int.toNat_of_nonneg hquotient,
    Int.tdiv_eq_ediv_of_nonneg (by omega)]

end Wide

/-! ### Progressions -/

namespace Progression

variable (r : Progression)

/-- The number of items, with every step checked. -/
def wideCount? : Option Int :=
  let start := r.start.toInt
  let stop := r.stop.toInt
  let step := r.step.toInt
  if 0 < step ∧ start < stop then do
    let distance ← Wide.sub? stop start
    let above ← Wide.sub? (← Wide.add? distance step) 1
    Wide.quot? above step
  else if step < 0 ∧ stop < start then do
    let distance ← Wide.sub? start stop
    let above ← Wide.sub? (← Wide.sub? distance step) 1
    Wide.quot? above (← Wide.neg? step)
  else some 0

/-- The item at a position, with every step checked. -/
def wideGet? (i : Nat) : Option (Option Int64) :=
  if i < r.length then do
    let steps ← Wide.mul? i r.step.toInt
    return Integer.ofInt? (← Wide.add? r.start.toInt steps)
  else some none

/-- Whether a number is an item, with every step checked. -/
def wideContains? (n : Int64) : Option Bool := do
  let offset ← Wide.sub? n.toInt r.start.toInt
  let inBounds :=
    if 0 < r.step.toInt then decide (r.start ≤ n ∧ n < r.stop)
    else decide (n ≤ r.start ∧ r.stop < n)
  if inBounds then return (← Wide.rem? offset r.step.toInt) == 0 else return false

theorem wideCount?_eq : r.wideCount? = some (r.count : Int) := by
  have hstart := r.start.le_toInt
  have hstart' := r.start.toInt_lt
  have hstop := r.stop.le_toInt
  have hstop' := r.stop.toInt_lt
  have hstep := r.step.le_toInt
  have hstep' := r.step.toInt_lt
  simp only [wideCount?, count, Wide.add?, Wide.sub?, Wide.neg?, Option.bind_eq_bind]
  split
  · next hup =>
    rw [if_pos hup.1, if_pos hup.2, Wide.fits?_eq (by omega) (by omega), Option.bind_some,
      Wide.fits?_eq (by omega) (by omega), Option.bind_some, Wide.fits?_eq (by omega) (by omega),
      Option.bind_some, Wide.quot?_steps (by omega) (by omega) (by omega)]
  · next hup =>
    split
    · next hdown =>
      have hsteps : Wide.quot? (r.start.toInt - r.stop.toInt - r.step.toInt - 1) (-r.step.toInt) =
          some (((r.start.toInt - r.stop.toInt - r.step.toInt - 1) / -r.step.toInt).toNat : Int) :=
        Wide.quot?_steps (by omega) (by omega) (by omega)
      rw [if_neg (by omega), if_pos hdown.2, Wide.fits?_eq (by omega) (by omega), Option.bind_some,
        Wide.fits?_eq (by omega) (by omega), Option.bind_some, Wide.fits?_eq (by omega) (by omega),
        Option.bind_some, Wide.fits?_eq (by omega) (by omega), Option.bind_some]
      exact hsteps
    · next hdown =>
      have hne := r.toInt_step_ne_zero
      split
      · rw [if_neg (by omega), Int.ofNat_zero]
      · rw [if_neg (by omega), Int.ofNat_zero]

theorem wideGet?_eq (i : Nat) : r.wideGet? i = some (r.get? i) := by
  unfold wideGet? get?
  split
  · next hi =>
    have hfits := r.fits_of_spans (r.spans_number (r.length_eq ▸ hi))
    have hstart := r.start.le_toInt
    have hstart' := r.start.toInt_lt
    unfold number at hfits
    rw [Wide.mul?, Wide.fits?_eq (by omega) (by omega), Option.bind_eq_bind, Option.bind_some,
      Wide.add?, Wide.fits?_eq (by omega) (by omega)]
    rfl
  · rfl

theorem wideContains?_eq (n : Int64) : r.wideContains? n = some (r.contains n) := by
  have hstart := r.start.le_toInt
  have hstart' := r.start.toInt_lt
  have hn := n.le_toInt
  have hn' := n.toInt_lt
  have hmeets : ((n.toInt - r.start.toInt).tmod r.step.toInt == 0) =
      ((n.toInt - r.start.toInt) % r.step.toInt == 0) := by
    rw [Bool.eq_iff_iff, beq_iff_eq, beq_iff_eq, ← Int.dvd_iff_emod_eq_zero]
    exact ⟨Int.dvd_of_tmod_eq_zero, Int.tmod_eq_zero_of_dvd⟩
  unfold wideContains? contains
  rw [Wide.sub?, Wide.fits?_eq (by omega) (by omega), Option.bind_eq_bind, Option.bind_some,
    Wide.rem?_eq r.toInt_step_ne_zero (by omega)]
  simp only [Option.bind_some, hmeets]
  generalize (if 0 < r.step.toInt then decide (r.start ≤ n ∧ n < r.stop)
    else decide (n ≤ r.start ∧ r.stop < n)) = inBounds
  cases inBounds <;> rfl

end Progression

end ScriptShell
