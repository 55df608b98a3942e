namespace MediaCatalog.Sql

-- A comparison with nothing is unknown, and only a condition that is true selects a row.
abbrev Truth := Option Bool

namespace Truth

abbrev unknown : Truth := none

def and : Truth → Truth → Truth
  | some false, _          => some false
  | _,          some false => some false
  | some true,  some true  => some true
  | _,          _          => unknown

def or : Truth → Truth → Truth
  | some true,  _          => some true
  | _,          some true  => some true
  | some false, some false => some false
  | _,          _          => unknown

def not : Truth → Truth
  | some b => some (!b)
  | none   => unknown

-- Counts unknown as false.
def orFalse (t : Truth) : Truth :=
  some (t.getD false)

def all : List Truth → Truth
  | []      => some true
  | t :: ts => t.and (all ts)

def any : List Truth → Truth
  | []      => some false
  | t :: ts => t.or (any ts)

end Truth

end MediaCatalog.Sql
