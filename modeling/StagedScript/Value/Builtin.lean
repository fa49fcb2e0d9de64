/-!
# The names of what is built in

Functions, methods and markers that need no definition in a program.  What they
do is defined elsewhere; here they only have names.
-/

namespace StagedScript

/-- The functions that every module can call. -/
inductive GlobalFunction
  | print | str | repr | int | float | bool | list | tuple | len | range | abs | min | max | sum
  | sorted | round
  deriving Repr, DecidableEq

/-- The functions of the mathematical module. -/
inductive MathFunction
  | sin | cos | tan | sqrt | radians | degrees | floor | ceil | pow
  deriving Repr, DecidableEq

/-- The names that build annotations. -/
inductive TypeForm
  | literal | any | optional | union
  deriving Repr, DecidableEq

/-- A built-in function. -/
inductive Builtin
  | global (function : GlobalFunction)
  | math (function : MathFunction)
  | form (form : TypeForm)
  deriving Repr, DecidableEq

def GlobalFunction.all : List GlobalFunction :=
  [print, str, repr, int, float, bool, list, tuple, len, range, abs, min, max, sum, sorted, round]

def MathFunction.all : List MathFunction :=
  [sin, cos, tan, sqrt, radians, degrees, floor, ceil, pow]

def TypeForm.all : List TypeForm :=
  [literal, any, optional, union]

/-- The name of a global function. -/
def GlobalFunction.name : GlobalFunction → String
  | print => "print"
  | str => "str"
  | repr => "repr"
  | int => "int"
  | float => "float"
  | bool => "bool"
  | list => "list"
  | tuple => "tuple"
  | len => "len"
  | range => "range"
  | abs => "abs"
  | min => "min"
  | max => "max"
  | sum => "sum"
  | sorted => "sorted"
  | round => "round"

/-- The name of a mathematical function. -/
def MathFunction.name : MathFunction → String
  | sin => "sin"
  | cos => "cos"
  | tan => "tan"
  | sqrt => "sqrt"
  | radians => "radians"
  | degrees => "degrees"
  | floor => "floor"
  | ceil => "ceil"
  | pow => "pow"

def TypeForm.name : TypeForm → String
  | literal => "Literal"
  | any => "Any"
  | optional => "Optional"
  | union => "Union"

def Builtin.name : Builtin → String
  | .global f => f.name
  | .math f => f.name
  | .form f => f.name

/-- The methods of strings and containers. -/
inductive Method
  | upper | lower | strip | split | join | replace | startsWith | endsWith | format
  | append | extend | pop | index | count
  | get | keys | values | items
  deriving Repr, DecidableEq

/-- The name of a method. -/
def Method.name : Method → String
  | upper => "upper"
  | lower => "lower"
  | strip => "strip"
  | split => "split"
  | join => "join"
  | replace => "replace"
  | startsWith => "startswith"
  | endsWith => "endswith"
  | format => "format"
  | append => "append"
  | extend => "extend"
  | pop => "pop"
  | index => "index"
  | count => "count"
  | get => "get"
  | keys => "keys"
  | values => "values"
  | items => "items"

def Method.ofStrings : List Method :=
  [upper, lower, strip, split, join, replace, startsWith, endsWith, format]

def Method.ofTuples : List Method :=
  [index, count]

def Method.ofLists : List Method :=
  [append, extend, pop] ++ ofTuples

def Method.ofDicts : List Method :=
  [get, keys, values, items]

/-- What decorates functions for evaluation ahead of time. -/
inductive Marker
  /-- Registers a function. -/
  | comptime
  /-- Keeps a function from running ahead of time. -/
  | skip
  | getRegistrations
  deriving Repr, DecidableEq

def Marker.name : Marker → String
  | comptime => "comptime"
  | skip => "skip"
  | getRegistrations => "get_registrations"

end StagedScript
