import MediaCatalog.Yaml.Place

namespace MediaCatalog.Yaml

-- The marks of lists and mappings in brackets.
def isFlowMark (c : Char) : Bool :=
  ",[]\x7b\x7d".toList.contains c

-- What the line breaks between two lines with text are read as.
def fold : List Char → List Char
  | ['\n']         => [' ']
  | '\n' :: breaks => breaks
  | breaks         => breaks

def trimEnd (cs : List Char) : List Char :=
  (dropBlanks cs.reverse).reverse

namespace Plain

-- A scalar that has been read.
structure Reading where
  text    : List Char
  -- The place behind it, where the next thing stands.
  place   : Place
  -- Whether there are line breaks between the scalar and the place.
  isBelow : Bool

def Reading.prepend (text : List Char) (r : Reading) : Reading :=
  { r with text := text ++ r.text }

-- The part of a scalar in one line, and the rest of the line. A colon ends the scalar if a blank
-- follows, and a number sign if a blank stands before it. In brackets a colon may not stand before a
-- bracket or a comma.
def part? (inBrackets afterBlank : Bool) : List Char → Option (List Char × List Char)
  | []      => some ([], [])
  | c :: cs =>
    if c == '#' && afterBlank then some ([], c :: cs)
    else if c == ':' && inBrackets && cs.head?.any (fun d => d == '?' || isFlowMark d) then none
    else if (c == ':' && startsBlank cs) || (inBrackets && isFlowMark c) then some ([], c :: cs)
    else (part? inBrackets (isBlank c) cs).map fun (word, rest) => (c :: word, rest)

-- The rest of a scalar, from the end of a line on, with the line breaks since its last character. Outside of
-- brackets its lines are indented to a column at least, and no tab may stand before that column.
def goOn? (inBrackets : Bool) (least : Nat) (breaks : List Char) (p : Place) : List Line → Option Reading
  | []      => some ⟨[], p, !breaks.isEmpty⟩
  | l :: ls => do
    if ((l.text.takeWhile isBlank).take least).contains '\t' then none
    let q := (p.inLine l ls).dropWhile isBlank
    let breaks := breaks ++ [l.opening]
    if q.line.isEmpty then goOn? inBrackets least breaks q ls
    else if (!inBrackets && q.column < least) || q.isMarker then some ⟨[], q, true⟩
    else
      let (word, rest) ← part? inBrackets true q.line
      if word.isEmpty then some ⟨[], q, true⟩
      else
        let r := q.dropTo rest
        let reading ← if rest.isEmpty then goOn? inBrackets least [] r ls else some ⟨[], r, false⟩
        some (reading.prepend (fold breaks ++ trimEnd word))

def read? (inBrackets : Bool) (least : Nat) (p : Place) : Option Reading := do
  let (word, rest) ← part? inBrackets false p.line
  let q := p.dropTo rest
  let reading ← if rest.isEmpty then goOn? inBrackets least [] q q.below else some ⟨[], q, false⟩
  some (reading.prepend (trimEnd word))

end Plain

end MediaCatalog.Yaml
