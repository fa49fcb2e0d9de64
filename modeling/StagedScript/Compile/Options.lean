import StagedScript.Rewriting.Body

/-!
# Options of a compilation

The options, and how the entries of an options text set them.  An entry may
leave its option unset, no key may be given twice, and every key takes a switch
or a text.
-/

namespace StagedScript.Compile

open Rewriting (Strategy)

/-- What a compilation depends on besides its input. -/
structure Options where
  /-- Whether the input belongs to no package even if its directory is one. -/
  absolute : Option Bool := none
  strategy : Strategy := .matching
  /-- Whether definitions are set apart by blank lines. -/
  format : Bool := true
  /-- Where the text goes, if not next to the input. -/
  output : Option String := none
  deriving Repr, DecidableEq

/-- Whether the input belongs to no package. -/
def Options.isAbsolute (o : Options) : Bool :=
  o.absolute.getD false

/-- A value in an options text. -/
inductive Setting
  | unset
  | switch (on : Bool)
  | text (s : String)
  deriving Repr, DecidableEq

/-- The keys of an options text. -/
inductive OptionKey
  | absolute
  | strategy
  | format
  | output
  deriving Repr, DecidableEq

namespace OptionKey

/-- The keys in the order in which a list gives their values. -/
def all : List OptionKey :=
  [absolute, strategy, format, output]

def name : OptionKey → String
  | absolute => "absolute"
  | strategy => "strategy"
  | format => "format"
  | output => "output"

def ofName? (s : String) : Option OptionKey :=
  all.find? (·.name == s)

@[simp]
theorem ofName?_name (key : OptionKey) : ofName? key.name = some key := by
  cases key <;> decide

def admits : OptionKey → Setting → Bool
  | _, .unset => true
  | absolute, .switch _ | format, .switch _ => true
  | strategy, .text _ | output, .text _ => true
  | _, _ => false

end OptionKey

/-- The options that settings with different keys describe.  Settings that their keys do not admit
change nothing. -/
def Options.ofSettings (settings : List (OptionKey × Setting)) : Except Failure Options :=
  settings.foldlM
    (fun options entry =>
      match entry with
      | (.absolute, .switch on) => .ok { options with absolute := some on }
      | (.strategy, .text name) => do return { options with strategy := ← Strategy.ofName name }
      | (.format, .switch on) => .ok { options with format := on }
      | (.output, .text path) => .ok { options with output := some path }
      | _ => .ok options)
    {}

end StagedScript.Compile
