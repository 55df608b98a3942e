import MediaCatalog.Config
import MediaCatalog.Http.Escape
import MediaCatalog.Sql.Dialect
import MediaCatalog.Store

namespace MediaCatalog

namespace Sql.Dialect

-- The dialect of a type of database, named in any letter case.
def ofType? (type : String) : Option Dialect :=
  match Text.lower type with
  | "postgresql" | "postgres" => some postgres
  | "sqlite"                  => some sqlite
  | _                         => none

def product : Dialect → String
  | sqlite   => "SQLite"
  | postgres => "PostgreSQL"

end Sql.Dialect

-- One database may be meant by several URLs, of which `path` picks one.
structure Connection where
  dialect        : Sql.Dialect
  url            : String
  maxConnections : UInt32
  -- Seconds to wait for a connection.
  timeout        : UInt64
  deriving DecidableEq, Repr

namespace Connection

open Sql

def scheme : String := "sqlite:"

def memoryUrls : List String := [":memory:", "sqlite::memory:", "sqlite://:memory:"]

def isMemory (c : Connection) : Bool :=
  memoryUrls.contains c.url

-- Whether a URL is of the kind that a dialect goes with.
def isRecognized (dialect : Dialect) (url : String) : Bool :=
  match dialect with
  | .postgres => ["postgres://", "postgresql://"].any (Text.startsWith · url)
  | .sqlite   =>
    Text.startsWith scheme url || memoryUrls.contains url ||
    [".db", ".sqlite"].any (Text.endsWith · url)

-- Why settings do not make a connection.
inductive Defect
  | unsupportedType (type : String)
  | emptyUrl
  | noConnections
  | unrecognizedUrl (dialect : Dialect) (url : String)
  deriving DecidableEq, Repr

namespace Defect

def message : Defect → String
  | unsupportedType type        => "Unsupported database type: " ++ Text.lower type
  | emptyUrl                    => "database.url is empty"
  | noConnections               => "database.max_connections must be at least 1"
  | unrecognizedUrl dialect url =>
    "database.url '" ++ url ++ "' is not a " ++ dialect.product ++ " connection URL"

def fault (d : Defect) : Fault :=
  .configuration d.message

end Defect

def check (c : Connection) : Except Defect Unit := do
  if Text.isAllBlank c.url then throw .emptyUrl
  if c.maxConnections = 0 then throw .noConnections
  if !isRecognized c.dialect c.url then throw (.unrecognizedUrl c.dialect c.url)

def ofConfig (d : Config.Database) : Except Defect Connection := do
  let some dialect := Dialect.ofType? d.type | throw (.unsupportedType d.type)
  let c : Connection := ⟨dialect, d.url, d.maxConnections, d.connectionTimeout⟩
  c.check
  return c

-- The URL in the form that names its database with the scheme of the dialect.
def path (c : Connection) : String :=
  match c.dialect with
  | .postgres => c.url
  | .sqlite   =>
    if c.isMemory then "sqlite::memory:"
    else if Text.startsWith scheme c.url then c.url
    else scheme ++ c.url

-- How many connections are held at a time, at most and at least.
structure Pool where
  most        : UInt32
  least       : UInt32
  -- Whether a connection is held however long it has been open or idle.
  isPermanent : Bool
  -- Seconds to wait for a connection.
  timeout     : UInt64
  deriving DecidableEq, Repr

-- A database in memory is lost with its connection, so that exactly one is held for good.
def pool (c : Connection) : Pool :=
  match c.dialect with
  | .postgres => ⟨c.maxConnections, 0, false, c.timeout⟩
  | .sqlite   =>
    if c.isMemory then ⟨1, 1, true, c.timeout⟩
    else ⟨c.maxConnections, 0, false, c.timeout⟩

-- What an SQLite path leads to.
structure Location where
  file    : String
  options : List (String × String)

namespace Location

-- Whether an option is known and has a value that it can have.
def isOption (name value : String) : Bool :=
  match name with
  | "mode"      => ["ro", "rw", "rwc", "memory"].contains value
  | "cache"     => ["private", "shared"].contains value
  | "immutable" => ["true", "1", "false", "0"].contains value
  | "vfs"       => true
  | _           => false

-- The name of a file is escaped like a segment of a path. The scheme may be repeated.
def ofPath? (path : String) : Option Location := do
  let (file, options) := Text.cut '?' (Text.withoutAll scheme (Text.withoutAll (scheme ++ "//") path))
  let options := Http.Escape.pairs options
  if options.all fun o => isOption o.1 o.2 then return ⟨← Http.Escape.segment? file, options⟩
  else none

-- A database without a file of its own is kept in memory.
def isMemory (l : Location) : Bool :=
  l.file = ":memory:" || l.file = "" || l.options.contains ("mode", "memory")

def isReadOnly (l : Location) : Bool :=
  l.options.contains ("mode", "ro")

-- The layers to the file system that there are; the last one named is taken.
def hasLayer (l : Location) : Bool :=
  match (l.options.filter (·.1 = "vfs")).getLast? with
  | some (_, name) => ["unix", "unix-dotfile", "unix-excl", "unix-none", "memdb"].contains name
  | none           => true

end Location

-- Opens the database that a connection leads to and makes the tables for entries of every kind. Files and
-- servers are out of reach.
def openDatabase {κ : Type} (c : Connection) : Except Fault (Database κ) :=
  match c.dialect with
  | .postgres => throw (.database "Failed to connect to PostgreSQL")
  | .sqlite   => do
    let some l := Location.ofPath? c.path | throw (.database "Invalid SQLite URL")
    if !(l.isMemory && l.hasLayer) then throw (.database "Failed to connect to SQLite")
    let (made, d) := (Database.createTables !l.isReadOnly).run .empty
    made
    return d

end Connection

namespace Database

-- The database that a configuration asks for.
def ofConfig {κ : Type} (c : Config) : Except Fault (Database κ) := do
  Kind.all.forM fun k => (Schema.registered k).validate
  (← (Connection.ofConfig c.database).mapError (·.fault)).openDatabase

end Database

end MediaCatalog
