import MediaCatalog.Config.Expansion
import MediaCatalog.LanguageTag
import MediaCatalog.Settings
import MediaCatalog.Yaml

namespace MediaCatalog

namespace Config

structure Server where
  host : String
  port : UInt16
  deriving DecidableEq, Repr

structure Database where
  type              : String
  url               : String
  maxConnections    : UInt32
  -- Seconds to wait for a connection.
  connectionTimeout : UInt64
  deriving DecidableEq, Repr

def defaultConnections : UInt32 := 10
def defaultTimeout : UInt64 := 30
def defaultLevel : String := "info"

-- Why there is no configuration.
inductive Problem
  | missingFile (path : String)
  | unreadableFile (path : String)
  | inFile (path : String) (p : Problem)
  | unsetVariable (name : String)
  | invalidYaml
  | emptyPages
  | defaultSizeTooLarge (p : Paging)
  | languageTag (tag : String)
  deriving DecidableEq, Repr

namespace Problem

def message : Problem → String
  | missingFile path      => "Configuration file not found: " ++ path
  | unreadableFile path   => "Failed to read config file " ++ path
  | inFile path p         => "Failed to load config file " ++ path ++ ": " ++ p.message
  | unsetVariable name    =>
    "Environment variable " ++ name ++ " not found and no default provided"
  | invalidYaml           => "Invalid YAML"
  | emptyPages            => "Page sizes must be greater than 0"
  | defaultSizeTooLarge p =>
    "pagination.default_size (" ++ Text.decimalNat p.defaultSize.toNat ++
    ") exceeds pagination.max_size (" ++ Text.decimalNat p.maxSize.toNat ++ ")"
  | languageTag tag       => "Invalid default language tag: " ++ tag

end Problem

end Config

structure Config where
  server   : Config.Server
  database : Config.Database
  settings : Settings
  logLevel : String
  deriving DecidableEq, Repr

namespace Config

-- A server on its own, with a database in memory.
def standard : Config where
  server := ⟨"127.0.0.1", 3000⟩
  database := ⟨"sqlite", ":memory:", 1, defaultTimeout⟩
  settings := .standard
  logLevel := defaultLevel

-- What can be read of a key of a section. A key that is not there has a default, or else has to be.
section Key

variable {α : Type} (entries : List (String × Yaml)) (read? : Yaml → Option α) (key : String)

def required? : Option α :=
  (entries.lookup key).bind read?

def optional? (default : α) : Option α :=
  match entries.lookup key with
  | some y => read? y
  | none   => some default

end Key

def readUInt32? (y : Yaml) : Option UInt32 :=
  (y.nat? (UInt32.size - 1)).map .ofNat

namespace Server

def ofYaml? (y : Yaml) : Option Server := do
  let s ← y.section? ["host", "port"]
  return ⟨← required? s Yaml.text? "host",
    ← required? s (fun y => (y.nat? (UInt16.size - 1)).map .ofNat) "port"⟩

end Server

namespace Database

def ofYaml? (y : Yaml) : Option Database := do
  let s ← y.section? ["type", "url", "max_connections", "connection_timeout"]
  return ⟨← required? s Yaml.text? "type", ← required? s Yaml.text? "url",
    ← optional? s readUInt32? "max_connections" defaultConnections,
    ← optional? s (fun y => (y.nat? (UInt64.size - 1)).map .ofNat) "connection_timeout" defaultTimeout⟩

end Database

def paging? (y : Yaml) : Option Paging := do
  let default := Settings.standard.paging
  let s ← y.section? ["default_size", "max_size", "one_indexed"]
  return ⟨← optional? s readUInt32? "default_size" default.defaultSize,
    ← optional? s readUInt32? "max_size" default.maxSize,
    ← optional? s Yaml.bool? "one_indexed" default.oneIndexed⟩

def language? (y : Yaml) : Option String := do
  let s ← y.section? ["default_language"]
  optional? s Yaml.text? "default_language" Settings.standard.defaultLanguage

def level? (y : Yaml) : Option String := do
  let s ← y.section? ["level"]
  optional? s Yaml.text? "level" defaultLevel

def ofYaml? (y : Yaml) : Option Config := do
  let s ← y.section? ["server", "database", "pagination", "localization", "logging"]
  return ⟨← required? s Server.ofYaml? "server", ← required? s Database.ofYaml? "database",
    ⟨← optional? s paging? "pagination" Settings.standard.paging,
      ← optional? s language? "localization" Settings.standard.defaultLanguage⟩,
    ← optional? s level? "logging" defaultLevel⟩

-- Whether a configuration makes sense.
def check (c : Config) : Except Problem Unit := do
  let paging := c.settings.paging
  if paging.defaultSize = 0 || paging.maxSize = 0 then throw .emptyPages
  if paging.maxSize < paging.defaultSize then throw (.defaultSizeTooLarge paging)
  if !LanguageTag.isValid c.settings.defaultLanguage then
    throw (.languageTag c.settings.defaultLanguage)

-- References to environment variables are replaced before the text is read.
def ofText (env : Environment) (text : String) : Except Problem Config := do
  let expanded ← (expand env text).mapError .unsetVariable
  let some c := (Yaml.ofText? expanded).bind ofYaml? | throw .invalidYaml
  c.check
  return c

-- What is found at a path where a configuration is looked for.
inductive File
  | missing
  | unreadable
  | text (t : String)

def ofFile (env : Environment) (path : String) : File → Except Problem Config
  | .missing    => throw (.missingFile path)
  | .unreadable => throw (.unreadableFile path)
  | .text t     => (ofText env t).mapError (.inFile path)

end Config

end MediaCatalog
