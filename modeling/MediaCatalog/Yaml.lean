import MediaCatalog.Yaml.Reader

namespace MediaCatalog

-- A node of a document, in which the names that stand for nodes are looked up.
structure Yaml where
  document : Yaml.Tree
  tree     : Yaml.Tree

namespace Yaml

def resolved (y : Yaml) : Tree :=
  y.document.resolve y.tree

def text? (y : Yaml) : Option String :=
  match y.resolved with
  | .scalar _ _ text => some text
  | _                => none

-- The text of a scalar that can be more than text.
def bareText? (tag : String) (y : Yaml) : Option String :=
  match y.resolved with
  | .scalar .plain _ text          => some text
  | .scalar .literal (some t) text => if t = tag then some text else none
  | _                              => none

def bool? (y : Yaml) : Option Bool := do
  match ← y.bareText? "tag:yaml.org,2002:bool" with
  | "true"  | "True"  | "TRUE"  => some true
  | "false" | "False" | "FALSE" => some false
  | _                           => none

-- A natural number in hexadecimal, octal, binary or decimal digits. A decimal number of several digits
-- does not start with a zero.
def digits? : List Char → Option Nat
  | '0' :: 'x' :: cs => Text.digitsIn? 16 cs
  | '0' :: 'o' :: cs => Text.digitsIn? 8 cs
  | '0' :: 'b' :: cs => Text.digitsIn? 2 cs
  | '0' :: _ :: _    => none
  | cs               => Text.digits? cs

-- A natural number up to a bound, with at most a plus sign in front.
def nat? (high : Nat) (y : Yaml) : Option Nat := do
  let text ← y.bareText? "tag:yaml.org,2002:int"
  (go text.toList).filter (· ≤ high)
where
  go : List Char → Option Nat
    | '+' :: cs => digits? cs
    | cs        => digits? cs

-- The values of a section whose keys are given. All other keys are passed over, as long as they are text,
-- and none of the given ones may be repeated.
def section? (keys : List String) (y : Yaml) : Option (List (String × Yaml)) := do
  match y.resolved with
  | .scalar .plain _ "" => some []
  | .mapping entries    =>
    let entries ← entries.mapM fun (key, value) =>
      (text? ⟨y.document, key⟩).map (·, (⟨y.document, value⟩ : Yaml))
    let known := entries.filter fun e => keys.contains e.1
    if (known.map (·.1)).Nodup then some known else none
  | _                   => none

-- The value that a text holds.
def ofText? (text : String) : Option Yaml :=
  (Tree.ofText? text).map fun tree => ⟨tree, tree⟩

end Yaml

end MediaCatalog
