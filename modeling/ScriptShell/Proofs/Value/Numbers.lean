import ScriptShell.Value.Arithmetic

/-!
# What arithmetic answers

Arithmetic on two values answers an integer or a floating-point number, or it fails in one of three
ways: there is no such integer, a number is divided by zero, or a value is no number.
-/

namespace ScriptShell

/-- A number, or a fault of arithmetic. -/
inductive IsNumeric : Except EvalError Value → Prop
  | int (n : Int64) : IsNumeric (.ok (.int n))
  | float (x : Float) : IsNumeric (.ok (.float x))
  | overflow : IsNumeric (.error .integerOverflow)
  | divisionByZero : IsNumeric (.error .divisionByZero)
  | operandKinds (op : Operator) (a b : Kind) : IsNumeric (.error (.operandKinds op a b))

/-- What divides is refused for zero. -/
theorem IsNumeric.orDivisionByZero {result : Except EvalError Value} (h : IsNumeric result)
    (zero : Prop) [Decidable zero] :
    IsNumeric (if zero then .error .divisionByZero else result) := by
  split
  · exact .divisionByZero
  · exact h

theorem isNumeric_exactly? (n : Option Int64) : IsNumeric (exactly? n) := by
  cases n with
  | none => exact .overflow
  | some n => exact .int n

namespace Operator

theorem isNumeric_ofInts (op : Operator) (a b : Int64) : IsNumeric (op.ofInts a b) := by
  unfold ofInts
  split
  · exact isNumeric_exactly? _
  · exact isNumeric_exactly? _
  · exact (IsNumeric.float _).orDivisionByZero _
  · exact (isNumeric_exactly? _).orDivisionByZero _
  · exact (IsNumeric.int _).orDivisionByZero _
  · split
    · exact .float _
    · exact isNumeric_exactly? _
  · exact isNumeric_exactly? _

theorem isNumeric_ofFloats (op : Operator) (x y : Float) : IsNumeric (op.ofFloats x y) := by
  unfold ofFloats
  split
  · exact .float _
  · exact .float _
  · exact (IsNumeric.float _).orDivisionByZero _
  · exact (IsNumeric.float _).orDivisionByZero _
  · exact (IsNumeric.float _).orDivisionByZero _
  · exact .float _
  · exact .float _

theorem isNumeric_ofNumbers (op : Operator) (a b : Value) : IsNumeric (op.ofNumbers a b) := by
  unfold ofNumbers
  split
  · exact isNumeric_ofInts op _ _
  · split
    · exact isNumeric_ofFloats op _ _
    · exact .operandKinds op a.kind b.kind

end Operator

end ScriptShell
