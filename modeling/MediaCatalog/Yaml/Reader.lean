import MediaCatalog.Yaml.Lexer
import MediaCatalog.Yaml.Tree

namespace MediaCatalog.Yaml

namespace Reader

structure State where
  tokens  : List Token
  handles : List (List Char × List Char)
  -- The names that have been given, with their numbers.
  anchors : List (List Char × Nat)

end Reader

abbrev Reader :=
  StateT Reader.State Option

namespace Reader

-- Where a node stands: in a block, as key or value in a block, or in brackets.
inductive Context
  | block
  | member
  | brackets
  deriving DecidableEq

section Basic

def next? : Reader (Option Token) :=
  return (← get).tokens.head?

def skip : Reader Unit :=
  modify fun s => { s with tokens := s.tokens.tail }

def isNext (ts : List Token) : Reader Bool :=
  return (← next?).any ts.contains

-- Goes on behind a token, if that is the next one.
def accept (t : Token) : Reader Bool := do
  if ← isNext [t] then skip; return true
  else return false

def expect (t : Token) : Reader Unit := do
  if !(← accept t) then failure

end Basic

section Properties

-- A node with a name gets the count of the names so far as its number. So if a name is given anew, its
-- number may be given once more, to the next name.
def give (name : List Char) : Reader Nat := do
  let anchors := (← get).anchors
  let others := anchors.filter (·.1 ≠ name)
  modify fun s => { s with anchors := (name, anchors.length) :: others }
  return anchors.length

def refer (name : List Char) : Reader Tree := do
  return .named (← (← get).anchors.lookup name)

def anchor : Reader (Option Nat) := do
  match ← next? with
  | some (.anchor name) => skip; return some (← give name)
  | _                   => return none

def tag : Reader (Option String) := do
  match ← next? with
  | some (.tag t) => skip; return some (← t.expand? (← get).handles)
  | _             => return none

-- The anchor and the tag of a node, in either order.
def properties : Reader (Option Nat × Option String) := do
  match ← anchor with
  | some n => return (some n, ← tag)
  | none   =>
    let t ← tag
    return (← anchor, t)

end Properties

-- A node that may be left out before some tokens.
def orEmpty (ends : List Token) (node : Reader Tree) : Reader Tree := do
  if ← isNext ends then return .empty else node

-- What may follow where a key or a value is left out in a block.
def memberEnds : List Token :=
  [.key, .value, .blockEnd]

mutual

-- A node. The tokens are read once each, with at most three steps between, so that three times their count
-- is enough fuel.
def node : (fuel : Nat) → Context → Reader Tree
  | 0,        _       => failure
  | fuel + 1, context => do
    match ← next? with
    | some (.named name) => skip; refer name
    | _                  =>
      let (anchor, tag) ← properties
      let bare := if anchor.isSome || tag.isSome then return .scalar .plain tag "" else failure
      let tree ← content fuel context tag bare
      return anchor.elim tree (.anchored · tree)

-- A node behind its properties, and what it is if nothing more is written.
def content : (fuel : Nat) → Context → (tag : Option String) → (bare : Reader Tree) → Reader Tree
  | 0,        _,       _,   _    => failure
  | fuel + 1, context, tag, bare => do
    match ← next? with
    | some (.scalar style text) => skip; return .scalar style tag (.ofList text)
    | some .listStart           => skip; return .list (← bracketItems fuel true)
    | some .mappingStart        => skip; return .mapping (← bracketMembers fuel true)
    | some .blockList           =>
      if context = .brackets then bare else skip; return .list (← items fuel)
    | some .blockMapping        =>
      if context = .brackets then bare else skip; return .mapping (← members fuel)
    | some .entry               =>
      if context = .member then return .list (← hangingItems fuel) else bare
    | _                         => bare

-- The items of a list up to the end of its block.
def items : (fuel : Nat) → Reader (List Tree)
  | 0        => failure
  | fuel + 1 => do
    if ← accept .blockEnd then return []
    expect .entry
    let item ← orEmpty [.entry, .blockEnd] (node fuel .block)
    return item :: (← items fuel)

-- The items of a list that stands at the column of the key to which it belongs, and so has no block.
def hangingItems : (fuel : Nat) → Reader (List Tree)
  | 0        => failure
  | fuel + 1 => do
    if ← accept .entry then
      let item ← orEmpty (.entry :: memberEnds) (node fuel .block)
      return item :: (← hangingItems fuel)
    else return []

-- The keys of a mapping, each with its value if there is one, up to the end of its block.
def members : (fuel : Nat) → Reader (List (Tree × Tree))
  | 0        => failure
  | fuel + 1 => do
    if ← accept .blockEnd then return []
    expect .key
    let key ← orEmpty memberEnds (node fuel .member)
    let value ← if ← accept .value then orEmpty memberEnds (node fuel .member) else pure .empty
    return (key, value) :: (← members fuel)

-- The items of a list in brackets, up to the closing one.
def bracketItems : (fuel : Nat) → (isFirst : Bool) → Reader (List Tree)
  | 0,        _       => failure
  | fuel + 1, isFirst => do
    if ← accept .listEnd then return []
    if !isFirst then expect .comma
    if !isFirst && (← accept .listEnd) then return []
    let item ← if ← accept .key then pair fuel else node fuel .brackets
    return item :: (← bracketItems fuel false)

-- A key with its value that stands alone in a list. If the key is left out, so is the token behind it.
def pair : (fuel : Nat) → Reader Tree
  | 0        => failure
  | fuel + 1 => do
    let isEmpty ← isNext [.value, .comma, .listEnd]
    let key ← if isEmpty then skip; pure .empty else node fuel .brackets
    let value ←
      if ← accept .value then orEmpty [.comma, .listEnd] (node fuel .brackets) else pure .empty
    return .mapping [(key, value)]

-- The keys of a mapping in brackets, up to the closing one. A node without a colon has no value.
def bracketMembers : (fuel : Nat) → (isFirst : Bool) → Reader (List (Tree × Tree))
  | 0,        _       => failure
  | fuel + 1, isFirst => do
    if ← accept .mappingEnd then return []
    if !isFirst then expect .comma
    if !isFirst && (← accept .mappingEnd) then return []
    let entry ← do
      if ← accept .key then
        let key ← orEmpty [.value, .comma, .mappingEnd] (node fuel .brackets)
        let value ←
          if ← accept .value then orEmpty [.comma, .mappingEnd] (node fuel .brackets) else pure .empty
        pure (key, value)
      else pure (← node fuel .brackets, .empty)
    return entry :: (← bracketMembers fuel false)

end

-- The directives at the top of a document.
def directives : List Token → List Directive × List Token
  | .directive d :: ts => let (ds, ts) := directives ts; (d :: ds, ts)
  | ts                 => ([], ts)

-- A document that is announced may be empty; one that is not has to be there.
def document (ds : List Directive) : Reader Tree := do
  let fuel := 3 * (← get).tokens.length + 3
  if ds.isEmpty && !(← isNext [.documentStart]) then node fuel .block
  else
    expect .documentStart
    match ← next? with
    | none | some (.directive _) | some .documentStart | some .documentEnd => return .empty
    | _                                                                    => node fuel .block

end Reader

namespace Tree

-- The tree of the only document among some tokens, which may be followed by marks of its end.
def ofTokens? (tokens : List Token) : Option Tree := do
  let (ds, tokens) := Reader.directives tokens
  let handles ← Directive.handles? ds
  let (tree, rest) ← (Reader.document ds).run ⟨tokens, handles, []⟩
  if rest.tokens.all (· = .documentEnd) then some tree else none

def ofText? (text : String) : Option Tree := do
  ofTokens? (← Lexer.tokens? text)

end Tree

end MediaCatalog.Yaml
