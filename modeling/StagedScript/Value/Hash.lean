import StagedScript.Value.Basic

/-!
# What a value is hashed by

A value is hashed by what it writes one after the other: a mark of its kind and
then its contents.  Whole numbers and the doubles that equal them write the same.
A table finds a key where an equal one with the same hash is, and keeps its keys
in the order of their first insertion.
-/

namespace StagedScript

/-- What is written to a hash function at once. -/
inductive HashWrite
  | byte (n : UInt8)
  | whole (n : Int64)
  | bits (n : UInt64)
  | text (s : String)
  /-- The place of the value's kind among all kinds. -/
  | kind (place : Nat)
  /-- The length of what follows. -/
  | length (n : Nat)
  deriving Repr, DecidableEq

/-- The whole number that a double is, if it is one and is smaller than `2 ^ 63` in magnitude. -/
def Decimal.whole? (x : Float) : Option Int64 :=
  match decode x with
  | .finite b =>
    if b.split.rest = 0 ∧ b.split.whole < Nat.pow 2 63 then some (toInt64 Binary.truncate x)
    else none
  | _ => none

/-- What a constant writes. -/
def Syntax.Constant.hashWrites : Constant → List HashWrite
  | .none => [.byte 0]
  | .bool b => [.byte 1, .byte (if b then 1 else 0)]
  | .int n => [.byte 2, .whole n]
  | .float x =>
    match Decimal.whole? x with
    | some n => [.byte 2, .whole n]
    | Option.none => [.byte 3, .bits x.toBits]
  | .string s => [.byte 4, .text s]

/-- The place of an entity's kind. -/
def Entity.kindPlace : Entity → Nat
  | function _ _ => 8
  | builtin _ => 9
  | module _ _ => 11
  | marker _ => 12
  | skipped _ => 13
  | exceptionType _ => 14
  | exception _ => 15

/-- A hash function. -/
abbrev Digest := List HashWrite → UInt64

namespace Digest

def stir (hash n : UInt64) : UInt64 :=
  (hash ^^^ n) * 1099511628211

def stirWrite (hash : UInt64) : HashWrite → UInt64
  | .byte n => stir hash n.toUInt64
  | .whole n => stir hash n.toUInt64
  | .bits n => stir hash n
  | .text s => s.toList.foldl (fun hash c => stir hash c.val.toUInt64) hash
  | .kind n | .length n => stir hash n.toUInt64

/-- The hash function that is used if no other is given. -/
def standard : Digest :=
  List.foldl stirWrite 14695981039346656037

end Digest

/-- How the keys of a table are hashed and compared. -/
structure Hashing (κ : Type) where
  digest : Digest
  writes : κ → List HashWrite
  equal : κ → κ → Bool

namespace Hashing

variable {κ ι : Type}

/-- Whether a key is found where another one is: they are equal and have the same hash. -/
def finds (s : Hashing κ) (key other : κ) : Bool :=
  s.equal key other && s.digest (s.writes key) == s.digest (s.writes other)

/-- Adds a key to those of a table unless it is found there. -/
def insert (s : Hashing κ) (keys : List κ) (key : κ) : List κ :=
  if keys.any (s.finds key) then keys else keys ++ [key]

/-- Whether two dictionaries have the same number of entries and the value of every entry of the
first equals the one that is found under its key in the second. -/
def sameEntries (s : Hashing κ) (as bs : Array (κ × κ)) : Bool :=
  as.size == bs.size && as.all fun entry =>
    (bs.find? fun other => s.finds entry.1 other.1).any fun other => s.equal entry.2 other.2

/-- Keys are hashed and compared by what they stand for. -/
def on (s : Hashing κ) (f : ι → κ) : Hashing ι :=
  ⟨s.digest, fun key => s.writes (f key), fun key other => s.equal (f key) (f other)⟩

@[simp]
theorem finds_on (s : Hashing κ) (f : ι → κ) (key other : ι) :
    (s.on f).finds key other = s.finds (f key) (f other) :=
  rfl

end Hashing

end StagedScript
