/-!
# Exceptions

An exception has a kind and a message.  Every kind counts as the general one.
-/

namespace StagedScript

/-- The kinds of exceptions. -/
inductive ExceptionKind
  | exception | valueError | keyError | typeError | nameError | importError | zeroDivisionError
  | overflowError | attributeError | indexError | runtimeError | syntaxError
  deriving Repr, DecidableEq

namespace ExceptionKind

def all : List ExceptionKind :=
  [exception, valueError, keyError, typeError, nameError, importError, zeroDivisionError,
    overflowError, attributeError, indexError, runtimeError, syntaxError]

theorem mem_all (kind : ExceptionKind) : kind ∈ all := by
  cases kind <;> decide

/-- The name of a kind in programs. -/
def name : ExceptionKind → String
  | exception => "Exception"
  | valueError => "ValueError"
  | keyError => "KeyError"
  | typeError => "TypeError"
  | nameError => "NameError"
  | importError => "ImportError"
  | zeroDivisionError => "ZeroDivisionError"
  | overflowError => "OverflowError"
  | attributeError => "AttributeError"
  | indexError => "IndexError"
  | runtimeError => "RuntimeError"
  | syntaxError => "SyntaxError"

def ofName? (s : String) : Option ExceptionKind :=
  all.find? (·.name == s)

/-- Whether an exception of the kind counts as one of the kind `other`. -/
def isA (kind other : ExceptionKind) : Bool :=
  kind = other || other = exception

end ExceptionKind

/-- A raised exception. -/
structure Exception where
  kind : ExceptionKind
  message : String
  deriving Repr, DecidableEq

/-- The kind and the message; without a message only the kind. -/
def Exception.report (e : Exception) : String :=
  if e.message.isEmpty then e.kind.name else e.kind.name ++ ": " ++ e.message

end StagedScript
