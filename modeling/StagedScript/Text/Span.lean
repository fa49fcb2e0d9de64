/-!
# Places in a source text

A position counts characters from zero and lines and columns from one.  A span
is the stretch between two offsets together with the place of its start.
-/

namespace StagedScript.Text

/-- A place in a text: the characters before it, its line and its column. -/
structure Position where
  offset : Nat
  line : Nat
  column : Nat
  deriving Repr, DecidableEq, Inhabited

namespace Position

def start : Position :=
  ⟨0, 1, 1⟩

/-- The place after the character `c`; a line feed opens the next line. -/
def step (p : Position) (c : Char) : Position :=
  if c = '\n' then ⟨p.offset + 1, p.line + 1, 1⟩
  else ⟨p.offset + 1, p.line, p.column + 1⟩

def past (p : Position) (cs : List Char) : Position :=
  cs.foldl step p

@[simp]
theorem past_nil (p : Position) : p.past [] = p := rfl

@[simp]
theorem past_cons (p : Position) (c : Char) (cs : List Char) :
    p.past (c :: cs) = (p.step c).past cs := rfl

theorem past_append (p : Position) (cs ds : List Char) :
    p.past (cs ++ ds) = (p.past cs).past ds :=
  List.foldl_append

@[simp]
theorem offset_step (p : Position) (c : Char) : (p.step c).offset = p.offset + 1 := by
  unfold step
  split <;> rfl

@[simp]
theorem offset_past (p : Position) (cs : List Char) :
    (p.past cs).offset = p.offset + cs.length := by
  induction cs generalizing p with
  | nil => rfl
  | cons c cs ih => simp [ih, Nat.add_assoc, Nat.add_comm 1]

end Position

/-- The characters from `start` up to but not including `stop`; line and
column are those of `start`. -/
structure Span where
  start : Nat
  stop : Nat
  line : Nat
  column : Nat
  deriving Repr, DecidableEq, Inhabited

namespace Span

/-- The span of something that was not read from a text. -/
def synthetic : Span :=
  ⟨0, 0, 0, 0⟩

def between (p q : Position) : Span :=
  ⟨p.offset, q.offset, p.line, p.column⟩

/-- The smallest span that holds both; its place is that of the earlier one. -/
def merge (a b : Span) : Span :=
  let earlier := if a.start ≤ b.start then a else b
  ⟨min a.start b.start, max a.stop b.stop, earlier.line, earlier.column⟩

/-- Line and column with a colon between them. -/
def text (s : Span) : String :=
  s!"{s.line}:{s.column}"

end Span

end StagedScript.Text
