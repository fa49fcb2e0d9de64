import StagedScript.Syntax.Tree
import StagedScript.Value.Basic

/-!
# Faults of a running program

Every way in which running a program fails by itself, with the exception that
the program sees.  Types are given by their names.
-/

namespace StagedScript

open Syntax (BinaryOp UnaryOp)

/-- What an indexed value is called. -/
inductive Indexed
  | list
  | tuple
  | string
  deriving Repr, DecidableEq

def Indexed.text : Indexed → String
  | list => "list"
  | tuple => "tuple"
  | string => "string"

/-- Why an operation failed. -/
inductive Fault
  -- arithmetic
  | overflow
  | integerZeroDivision
  | zeroDivision
  | floorZeroDivision
  | moduloZero
  | zeroToNegativePower
  | floatZeroToNegativePower
  | unsupportedOperands (op : BinaryOp) (left right : String)
  | badUnaryOperand (op : UnaryOp) (type : String)
  | notOrdered (op : BinaryOp) (left right : String)
  | repeatTooLong
  -- containers
  | notStringInString (type : String)
  | notContainer (type : String)
  | notIterable (type : String)
  | unhashable (type : String)
  | badIndexType (what : Indexed) (type : String)
  | indexOutOfRange (what : Indexed)
  | missingKey (repr : String)
  | notSubscriptable (type : String)
  | noItemAssignment (type : String)
  | tooFewToUnpack (expected got : Nat)
  | tooManyToUnpack (expected : Nat)
  -- names and calls
  | undefinedName (name : String)
  | noAttribute (type field : String)
  | noModuleAttribute (module field : String)
  | readOnlyAttribute (type field : String)
  | notAssignable
  | notCallable (type : String)
  | tooManyArguments (function : String) (expected got : Nat)
  | missingArgument (function param : String)
  | recursionLimit
  | notException
  | nothingToReraise
  -- modules
  | noModule (name : String)
  | cannotImportName (name module : String)
  | cannotRead (path reason : String)
  | circularImport (loading : List String) (name : String)
  | emptyModuleName
  | noParentPackage
  | beyondTopLevel
  | malformedModule (report : String)
  -- built-in functions
  | wrongArity (function : String) (least most got : Nat)
  | nothingToCompare (function : String)
  | emptySequence (function : String)
  | notFiniteToInteger (text : String)
  | badIntegerText (repr : String)
  | notNumberForInt (type : String)
  | badFloatText (repr : String)
  | notNumberForFloat (type : String)
  | noLength (type : String)
  | notInteger (type function : String)
  | zeroStep
  | badAbsOperand (type : String)
  | notRoundable (type : String)
  | specialFormCall
  -- methods
  | notString (method type : String)
  | popFromEmpty
  | badMethodCall (type method : String) (args : Nat)
  | notInList (repr : String)
  | emptySeparator
  | noReplacement
  -- mathematics
  | notReal (function type : String)
  | notOneArgument (function : String) (got : Nat)
  | notTwoArguments (got : Nat)
  | outsideDomain
  | notFiniteToWhole (text function : String)
  -- markers
  | markerNeedsFunction
  | skipNeedsFunction
  | registrationsTakeNothing
  deriving Repr, DecidableEq

namespace Fault

/-- The kind of exception that a fault raises. -/
def kind : Fault → ExceptionKind
  | overflow | repeatTooLong | notFiniteToInteger _ => .overflowError
  | integerZeroDivision | zeroDivision | floorZeroDivision | moduloZero | zeroToNegativePower
  | floatZeroToNegativePower => .zeroDivisionError
  | indexOutOfRange _ | popFromEmpty | noReplacement => .indexError
  | missingKey _ => .keyError
  | tooFewToUnpack _ _ | tooManyToUnpack _ | emptySequence _ | badIntegerText _ | badFloatText _
  | zeroStep | notInList _ | emptySeparator | outsideDomain | notFiniteToWhole _ _ => .valueError
  | undefinedName _ => .nameError
  | noAttribute _ _ | noModuleAttribute _ _ | readOnlyAttribute _ _ => .attributeError
  | notAssignable | malformedModule _ => .syntaxError
  | recursionLimit | nothingToReraise => .runtimeError
  | noModule _ | cannotImportName _ _ | cannotRead _ _ | circularImport _ _ | emptyModuleName
  | noParentPackage | beyondTopLevel => .importError
  | _ => .typeError

def signText : UnaryOp → String
  | .neg => "-"
  | _ => "+"

/-- The wording of a fault. -/
def message : Fault → String
  | overflow => "integer overflow"
  | integerZeroDivision => "integer division or modulo by zero"
  | zeroDivision => "division by zero"
  | floorZeroDivision => "float floor division by zero"
  | moduloZero => "float modulo"
  | zeroToNegativePower => "0 cannot be raised to a negative power"
  | floatZeroToNegativePower => "0.0 cannot be raised to a negative power"
  | unsupportedOperands op left right =>
    s!"unsupported operand type(s) for {op.text}: '{left}' and '{right}'"
  | badUnaryOperand op type => s!"bad operand type for unary {signText op}: '{type}'"
  | notOrdered op left right =>
    s!"'{op.text}' not supported between instances of '{left}' and '{right}'"
  | repeatTooLong => "repeated sequence is too long"
  | notStringInString type => s!"'in <string>' requires string as left operand, not {type}"
  | notContainer type => s!"argument of type '{type}' is not iterable"
  | notIterable type => s!"'{type}' object is not iterable"
  | unhashable type => s!"unhashable type: '{type}'"
  | badIndexType what type => s!"{what.text} indices must be integers, not {type}"
  | indexOutOfRange what => s!"{what.text} index out of range"
  | missingKey repr => repr
  | notSubscriptable type => s!"'{type}' object is not subscriptable"
  | noItemAssignment type => s!"'{type}' object does not support item assignment"
  | tooFewToUnpack expected got =>
    s!"not enough values to unpack (expected {expected}, got {got})"
  | tooManyToUnpack expected => s!"too many values to unpack (expected {expected})"
  | undefinedName name => s!"name '{name}' is not defined"
  | noAttribute type field => s!"'{type}' object has no attribute '{field}'"
  | noModuleAttribute module field => s!"module '{module}' has no attribute '{field}'"
  | readOnlyAttribute type field => s!"'{type}' object attribute '{field}' is read-only"
  | notAssignable => "cannot assign to expression"
  | notCallable type => s!"'{type}' object is not callable"
  | tooManyArguments function expected got =>
    s!"{function}() takes {expected} positional arguments but {got} were given"
  | missingArgument function param =>
    s!"{function}() missing required positional argument: '{param}'"
  | recursionLimit => "maximum recursion depth exceeded"
  | notException => "exceptions must derive from BaseException"
  | nothingToReraise => "No active exception to reraise"
  | noModule name => s!"No module named '{name}'"
  | cannotImportName name module => s!"cannot import name '{name}' from '{module}'"
  | cannotRead path reason => s!"cannot read {path}: {reason}"
  | circularImport loading name =>
    "circular import detected: " ++ " -> ".intercalate (loading ++ [name])
  | emptyModuleName => "empty module name"
  | noParentPackage => "attempted relative import with no known parent package"
  | beyondTopLevel => "attempted relative import beyond top-level package"
  | malformedModule report => report
  | wrongArity function least most got =>
    let expected := if least = most then toString least else s!"{least} to {most}"
    s!"{function}() takes {expected} arguments ({got} given)"
  | nothingToCompare function => s!"{function} expected at least 1 argument, got 0"
  | emptySequence function => s!"{function}() arg is an empty sequence"
  | notFiniteToInteger text => s!"cannot convert float {text} to integer"
  | badIntegerText repr => s!"invalid literal for int() with base 10: {repr}"
  | notNumberForInt type => s!"int() argument must be a string or a number, not '{type}'"
  | badFloatText repr => s!"could not convert string to float: {repr}"
  | notNumberForFloat type => s!"float() argument must be a string or a number, not '{type}'"
  | noLength type => s!"object of type '{type}' has no len()"
  | notInteger type function =>
    s!"'{type}' object cannot be interpreted as an integer in {function}()"
  | zeroStep => "range() arg 3 must not be zero"
  | badAbsOperand type => s!"bad operand type for abs(): '{type}'"
  | notRoundable type => s!"type {type} doesn't define __round__ method"
  | specialFormCall => "typing special forms cannot be instantiated"
  | notString method type => s!"{method}() argument must be str, not {type}"
  | popFromEmpty => "pop from empty list"
  | badMethodCall type method args => s!"{type}.{method}() does not accept {args} arguments"
  | notInList repr => s!"{repr} is not in list"
  | emptySeparator => "empty separator"
  | noReplacement => "Replacement index out of range"
  | notReal function type => s!"{function}() must be a real number, not {type}"
  | notOneArgument function got => s!"{function}() takes exactly one argument ({got} given)"
  | notTwoArguments got => s!"pow expected 2 arguments, got {got}"
  | outsideDomain => "math domain error"
  | notFiniteToWhole text function => s!"cannot convert {text} to integer in {function}()"
  | markerNeedsFunction => "comptime(...) must be applied to a function"
  | skipNeedsFunction => "skip must be applied to a function"
  | registrationsTakeNothing => "get_registrations() takes no arguments"

/-- The exception that a fault raises. -/
def exception (f : Fault) : Exception :=
  ⟨f.kind, f.message⟩

end Fault

end StagedScript
