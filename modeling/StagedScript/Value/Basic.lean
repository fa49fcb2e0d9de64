import StagedScript.Decimal.Binary
import StagedScript.Syntax.Tree
import StagedScript.Value.Builtin
import StagedScript.Value.Exception

/-!
# Values

A value is a constant, a reference to a container on the heap or one of the
entities that a program can name: functions, modules, markers and exceptions.
Containers have an identity, which decides what assignments change and makes
every container equal to itself.
-/

namespace StagedScript

open Syntax (Constant)

/-- What a reference leads to. -/
inductive CellKind
  | tuple
  | list
  | dict
  | frame
  | function
  deriving Repr, DecidableEq

/-- A reference to a cell of the heap. -/
structure Ref (kind : CellKind) where
  index : Nat
  deriving Repr, DecidableEq

/-- A value without items. -/
inductive Entity
  | function (code : Ref .function) (name : String)
  | builtin (function : Builtin)
  | module (name : String) (globals : Ref .frame)
  | marker (marker : Marker)
  /-- A function that stays silent while code is evaluated ahead of time. -/
  | skipped (inner : Entity)
  | exceptionType (kind : ExceptionKind)
  | exception (e : Exception)
  deriving Repr, DecidableEq

/-- What expressions evaluate to. -/
inductive Value
  | constant (value : Constant)
  | tuple (ref : Ref .tuple)
  | list (ref : Ref .list)
  | dict (ref : Ref .dict)
  | entity (entity : Entity)
  /-- A method and the value that it belongs to. -/
  | method (receiver : Value) (method : Method)
  /-- A marker that got arguments and waits for its function. -/
  | awaiting (spec : Ref .tuple)
  deriving Repr, DecidableEq

namespace Value

instance : Inhabited Value := ⟨.constant .none⟩

/-- The value that stands for nothing. -/
@[match_pattern]
abbrev none : Value := .constant .none

/-- A truth value. -/
@[match_pattern]
abbrev bool (b : Bool) : Value := .constant (.bool b)

/-- A whole number. -/
@[match_pattern]
abbrev int (n : Int64) : Value := .constant (.int n)

/-- A double. -/
@[match_pattern]
abbrev float (x : Float) : Value := .constant (.float x)

/-- A string. -/
@[match_pattern]
abbrev string (s : String) : Value := .constant (.string s)

/-- A built-in function. -/
@[match_pattern]
abbrev builtin (f : Builtin) : Value := .entity (.builtin f)

/-- A marker. -/
@[match_pattern]
abbrev marker (m : Marker) : Value := .entity (.marker m)

/-- A module. -/
@[match_pattern]
abbrev module (name : String) (globals : Ref .frame) : Value := .entity (.module name globals)

/-- A whole number given as a natural one. -/
def ofNat (n : Nat) : Value :=
  .int (Int64.ofNat n)

end Value

def Syntax.Constant.typeName : Constant → String
  | .none => "NoneType"
  | .bool _ => "bool"
  | .int _ => "int"
  | .float _ => "float"
  | .string _ => "str"

/-- The name of an entity's type. -/
def Entity.typeName : Entity → String
  | function _ _ | skipped _ => "function"
  | builtin _ => "builtin_function_or_method"
  | module _ _ => "module"
  | marker _ => "comptime"
  | exceptionType _ => "type"
  | exception e => e.kind.name

/-- The name of a value's type. -/
def Value.typeName : Value → String
  | constant c => c.typeName
  | tuple _ => "tuple"
  | list _ => "list"
  | dict _ => "dict"
  | entity e => e.typeName
  | method _ _ => "builtin_function_or_method"
  | awaiting _ => "comptime"

/-- Whether an entity can be called. -/
def Entity.isCallable : Entity → Bool
  | function _ _ | skipped _ | builtin _ | marker _ | exceptionType _ => true
  | module _ _ | exception _ => false

def Value.isCallable : Value → Bool
  | entity e => e.isCallable
  | method _ _ | awaiting _ => true
  | _ => false

/-- Whether a constant counts as true: all but nothing, false, zero and the empty string. -/
def Syntax.Constant.isTrue : Constant → Bool
  | .none => false
  | .bool b => b
  | .int n => n != 0
  | .float x => x != 0.0
  | .string s => !s.isEmpty

/-- The double that a number stands for; truth values are not numbers. -/
def Syntax.Constant.float? : Constant → Option Float
  | .int n => some (Decimal.ofInt64 n)
  | .float x => some x
  | _ => Option.none

/-- The text of an entity. -/
def Entity.text : Entity → String
  | function _ name => "<function " ++ name ++ ">"
  | builtin f => "<built-in function " ++ f.name ++ ">"
  | module name _ => "<module '" ++ name ++ "'>"
  | marker m => "<" ++ m.name ++ ">"
  | skipped inner => "<skipped " ++ inner.text ++ ">"
  | exceptionType kind => "<class '" ++ kind.name ++ "'>"
  | exception e => e.message

/-- The name under which a function is registered. -/
def Entity.functionName : Entity → String
  | function _ name => name
  | builtin f => f.name
  | skipped inner => inner.functionName
  | other => other.text

end StagedScript
