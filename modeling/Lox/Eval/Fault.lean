import Lox.Diagnostic.Basic
/-!
# Faults

What can stop a program while it runs.
-/

namespace Lox

inductive FaultCause where
  | operandNotNumber
  | operandsNotNumbers
  | operandsNotAddable
  | notCallable
  | wrongArity (expected got : Nat)
  | undefinedVariable (name : String)
  | undefinedProperty (name : String)
  | noProperties
  | noFields
  | superclassNotClass
  /-- The output takes no more bytes. -/
  | outputFull
  | stackOverflow
deriving DecidableEq, Repr

instance : Reportable FaultCause where
  code
    | .operandNotNumber | .operandsNotNumbers | .operandsNotAddable => ⟨300⟩
    | .notCallable => ⟨301⟩
    | .wrongArity _ _ => ⟨302⟩
    | .undefinedVariable _ => ⟨303⟩
    | .undefinedProperty _ => ⟨304⟩
    | .noProperties | .noFields => ⟨305⟩
    | .superclassNotClass => ⟨306⟩
    | .outputFull => ⟨307⟩
    | .stackOverflow => ⟨308⟩
  message
    | .operandNotNumber => "Operand must be a number."
    | .operandsNotNumbers => "Operands must be numbers."
    | .operandsNotAddable => "Operands must be two numbers or two strings."
    | .notCallable => "Can only call functions and classes."
    | .wrongArity expected got => s!"Expected {expected} arguments but got {got}."
    | .undefinedVariable x => s!"Undefined variable '{x}'."
    | .undefinedProperty x => s!"Undefined property '{x}'."
    | .noProperties => "Only instances have properties."
    | .noFields => "Only instances have fields."
    | .superclassNotClass => "Superclass must be a class."
    | .outputFull => "Could not write output: no space left"
    | .stackOverflow => "Stack overflow."

/-- A fault at the place that caused it. -/
abbrev Fault := Located FaultCause

end Lox
