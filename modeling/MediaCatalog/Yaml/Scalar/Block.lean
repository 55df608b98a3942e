import MediaCatalog.Yaml.Place

namespace MediaCatalog.Yaml.Block

-- What is kept of the line breaks at the end: nothing, the first one or all of them.
inductive Chomping
  | strip
  | clip
  | keep

structure Header where
  chomping : Chomping
  -- By how many columns the block is indented; without a number its lines show it.
  width?   : Option Nat

namespace Header

def chomping? : List Char → Option Chomping × List Char
  | '-' :: cs => (some .strip, cs)
  | '+' :: cs => (some .keep, cs)
  | cs        => (none, cs)

-- The mark of chomping and the number may come in either order, and a comment may follow.
def read? (cs : List Char) : Option Header := do
  let (first, cs) := chomping? cs
  let (width, cs) :=
    match cs with
    | c :: cs => if c.isDigit then (some (c.toNat - '0'.toNat), cs) else (none, c :: cs)
    | []      => (none, [])
  let (chomping, cs) := if first.isNone then chomping? cs else (first, cs)
  if width != some 0 && startsComment (dropBlanks cs) then some ⟨chomping.getD .clip, width⟩ else none

end Header

def spaces (line : List Char) : Nat :=
  (line.takeWhile (· == ' ')).length

-- The number of spaces before the first line that is not empty, or of an empty line above it that has more
-- of them. No tab may come next.
def indentation? (line : List Char) (below : List Line) : Option Nat :=
  let rest := line.drop (spaces line)
  if rest.head? = some '\t' then none
  else
    match below with
    | []      => some (spaces line)
    | l :: ls =>
      if rest.isEmpty then (indentation? l.text ls).map (max (spaces line)) else some (spaces line)

-- What stands between two lines of a block, or behind its last line.
structure Gap where
  -- The break behind the line, if there is one, and the breaks of the empty lines below it.
  lead     : List Char
  breaks   : List Char
  -- Whether the line starts with a blank.
  isRagged : Bool

namespace Gap

-- What stands before the first line.
def start : Gap :=
  ⟨[], [], false⟩

-- What it is read as before a line with text.
def joint (isFolded : Bool) (line : List Char) (g : Gap) : List Char :=
  if isFolded && g.lead == ['\n'] && !g.isRagged && !startsBlank line then
    if g.breaks.isEmpty then [' '] else g.breaks
  else g.lead ++ g.breaks

-- What it is read as at the end.
def chomped (g : Gap) : Chomping → List Char
  | .strip => []
  | .clip  => g.lead
  | .keep  => g.lead ++ g.breaks

end Gap

-- How a block is read.
structure Form where
  isFolded : Bool
  chomping : Chomping
  indent   : Nat

-- The rest of a block, from the start of a line on. The block ends with the text or before a line that is
-- less indented; that line may not have a tab where the indentation is missing.
def goOn? (f : Form) (g : Gap) (p : Place) (below : List Line) : Option (List Char × Place) :=
  let n := min f.indent (spaces p.line)
  let q := p.drop n
  let text := g.joint f.isFolded q.line ++ q.line
  if n < f.indent && q.line.head? = some '\t' then none
  else
    match below with
    | []      =>
      if q.line.isEmpty || n < f.indent then some (g.chomped f.chomping, q) else some (text, q.dropTo [])
    | l :: ls =>
      if q.line.isEmpty then goOn? f { g with breaks := g.breaks ++ [l.opening] } (p.inLine l ls) ls
      else if n < f.indent then some (g.chomped f.chomping, q)
      else
        (goOn? f ⟨[l.opening], [], startsBlank q.line⟩ (p.inLine l ls) ls).map fun (rest, r) =>
          (text ++ rest, r)

-- A block from its mark on, indented to a column at least.
def read? (isFolded : Bool) (least : Nat) (p : Place) : Option (List Char × Place) := do
  let p := p.drop 1
  let header ← Header.read? p.line
  match p.below with
  | []      => some ([], p.dropTo [])
  | l :: ls =>
    let indent ←
      match header.width? with
      | some n => pure (least - 1 + n)
      | none   => (indentation? l.text ls).map fun n => max n (max least 1)
    goOn? ⟨isFolded, header.chomping, indent⟩ .start (p.inLine l ls) ls

end MediaCatalog.Yaml.Block
