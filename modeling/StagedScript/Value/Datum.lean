import StagedScript.Decimal.Notation
import StagedScript.Text.Quoted
import StagedScript.Value.Hash

/-!
# Values with their contents

A datum is a value together with everything inside of it, as a tree.  Equality,
order, hashability and the texts of values are functions of data.  Nodes keep
the identity of their container, because a container equals itself whatever it
holds.
-/

namespace StagedScript

open Syntax (Constant)

/-- A value with its contents. -/
inductive Datum
  | constant (value : Constant)
  | tuple (ref : Ref .tuple) (items : List Datum)
  | list (ref : Ref .list) (items : List Datum)
  | dict (ref : Ref .dict) (entries : List (Datum × Datum))
  | entity (entity : Entity)
  | method (receiverType : String) (method : Method)
  | awaiting (ref : Ref .tuple) (spec : List Datum)

namespace Datum

instance : Inhabited Datum := ⟨.constant .none⟩

/-- The name of the type. -/
def typeName : Datum → String
  | constant c => c.typeName
  | tuple _ _ => "tuple"
  | list _ _ => "list"
  | dict _ _ => "dict"
  | entity e => e.typeName
  | method _ _ => "builtin_function_or_method"
  | awaiting _ _ => "comptime"

/-- Whether the value counts as true; an empty container does not. -/
def isTrue : Datum → Bool
  | constant c => c.isTrue
  | tuple _ items | list _ items => !items.isEmpty
  | dict _ entries => !entries.isEmpty
  | _ => true

mutual

/-- Whether the value can be a key: it holds no list and no dictionary. -/
def isHashable : Datum → Bool
  | .list _ _ | .dict _ _ => false
  | .tuple _ items => areHashable items
  | _ => true

def areHashable : List Datum → Bool
  | [] => true
  | item :: items => item.isHashable && areHashable items

end

mutual

/-- What the value writes to be hashed; of a list or a dictionary only the kind is written. -/
def hashWrites : Datum → List HashWrite
  | .constant c => c.hashWrites
  | .tuple _ items => .byte 5 :: itemWrites items
  | .list _ _ => [.kind 6]
  | .dict _ _ => [.kind 7]
  | .method _ _ => [.kind 10]
  | .awaiting _ _ => [.kind 12]
  | .entity e => [.kind e.kindPlace]

def itemWrites : List Datum → List HashWrite
  | [] => []
  | item :: items => item.hashWrites ++ itemWrites items

end

/-- Equality of constants: numbers are compared across the two types, everything else within its
type. -/
def constantsEqual (a b : Constant) : Bool :=
  match a, b with
  | .none, .none => true
  | .bool p, .bool q => p == q
  | .int m, .int n => m == n
  | .float x, .float y => x == y
  | .int n, .float x | .float x, .int n => Decimal.ofInt64 n == x
  | .string s, .string t => s == t
  | _, _ => false

section Equality

variable (digest : Digest)

mutual

/-- Equality.  Containers are equal if they are the same one or have equal contents; the order of
a dictionary does not matter.  A bound method equals nothing. -/
def equal : Datum → Datum → Bool
  | .constant a, .constant b => constantsEqual a b
  | .tuple r items, .tuple s others => r == s || equalItems items others
  | .list r items, .list s others => r == s || equalItems items others
  | .dict r entries, .dict s others =>
    r == s || (entries.length == others.length && includedIn entries others)
  | .entity a, .entity b => a == b
  | .awaiting r spec, .awaiting s others => r == s || equalItems spec others
  | _, _ => false

def equalItems : List Datum → List Datum → Bool
  | [], [] => true
  | a :: as, b :: bs => a.equal b && equalItems as bs
  | _, _ => false

/-- Whether the value of every entry equals the one that is found under its key among the
others. -/
def includedIn : List (Datum × Datum) → List (Datum × Datum) → Bool
  | [], _ => true
  | (key, value) :: entries, others =>
    (others.find? fun other =>
        key.equal other.1 && digest key.hashWrites == digest other.1.hashWrites).any
      (fun other => value.equal other.2)
      && includedIn entries others

end

/-- How values are hashed and compared as keys. -/
def hashing : Hashing Datum :=
  ⟨digest, hashWrites, equal digest⟩

end Equality

/-- The types of two values that have no order. -/
structure Unordered where
  left : String
  right : String
  deriving Repr, DecidableEq

/-- The order of two doubles, if neither is undefined. -/
def floatOrder (x y : Float) : Option Ordering :=
  if x < y then some .lt else if x == y then some .eq else if y < x then some .gt else none

/-- The order of constants: numbers are compared across the two types, truth values and strings
within their type. -/
def constantsOrder (a b : Constant) : Except Unordered (Option Ordering) :=
  match a, b with
  | .int m, .int n => .ok (some (compare m n))
  | .bool p, .bool q => .ok (some (compare p q))
  | .string s, .string t => .ok (some (compare s t))
  | a, b =>
    match a.float?, b.float? with
    | some x, some y => .ok (floatOrder x y)
    | _, _ => .error ⟨a.typeName, b.typeName⟩

section Order

variable (digest : Digest)

mutual

/-- The order of constants, tuples and lists; a container has an order only within its type. -/
def order (a b : Datum) : Except Unordered (Option Ordering) :=
  match a, b with
  | .constant c, .constant d => constantsOrder c d
  | .tuple _ items, .tuple _ others => orderItems items others
  | .list _ items, .list _ others => orderItems items others
  | a, b => .error ⟨a.typeName, b.typeName⟩

/-- The order of two sequences: that of the first items that differ, or else that of the
lengths. -/
def orderItems : List Datum → List Datum → Except Unordered (Option Ordering)
  | a :: as, b :: bs => if a.equal digest b then orderItems as bs else order a b
  | [], [] => .ok (some .eq)
  | [], _ :: _ => .ok (some .lt)
  | _ :: _, [] => .ok (some .gt)

end

end Order

/-- The written form of a constant. -/
def constantText : Constant → String
  | .none => "None"
  | .bool true => "True"
  | .bool false => "False"
  | .int n => toString n.toInt
  | .float x => Decimal.text Decimal.plainSpecials x
  | .string s => Text.valueQuoted s

/-- The items of a tuple in parentheses; a single one is followed by a comma. -/
def tupleText : List String → String
  | [item] => "(" ++ item ++ ",)"
  | items => "(" ++ ", ".intercalate items ++ ")"

/-- The text of a method that belongs to a value of the given type. -/
def methodText (receiverType : String) (method : Method) : String :=
  "<built-in method " ++ method.name ++ " of " ++ receiverType ++ " object>"

mutual

/-- The written form, from which constants and containers can be read back. -/
def repr : Datum → String
  | .constant c => constantText c
  | .tuple _ items => tupleText (reprItems items)
  | .list _ items => "[" ++ ", ".intercalate (reprItems items) ++ "]"
  | .dict _ entries => "\x7b" ++ ", ".intercalate (reprEntries entries) ++ "\x7d"
  | .entity (.exception e) => e.kind.name ++ "(" ++ Text.valueQuoted e.message ++ ")"
  | .entity e => e.text
  | .method receiverType m => methodText receiverType m
  | .awaiting _ _ => "<comptime>"

def reprItems : List Datum → List String
  | [] => []
  | item :: items => item.repr :: reprItems items

def reprEntries : List (Datum × Datum) → List String
  | [] => []
  | (key, value) :: entries => (key.repr ++ ": " ++ value.repr) :: reprEntries entries

end

/-- The plain text: strings and exceptions without quotes, all else in written form. -/
def str : Datum → String
  | .constant (.string s) => s
  | .entity e => e.text
  | d => d.repr

end Datum

end StagedScript
