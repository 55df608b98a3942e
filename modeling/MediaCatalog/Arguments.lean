import MediaCatalog.Config

namespace MediaCatalog

-- Where the configuration is, and what is used instead of the address in it.
structure Arguments where
  config : String
  port   : Option UInt16
  host   : Option String
  deriving DecidableEq, Repr

namespace Arguments

def defaultConfig : String := "config.yaml"

def initial : Arguments :=
  ⟨defaultConfig, none, none⟩

-- Takes in arguments from left to right; what comes later wins.
def read? (a : Arguments) : List String → Option Arguments
  | []                                                => some a
  | "-c" :: path :: rest | "--config" :: path :: rest => read? { a with config := path } rest
  | "-p" :: port :: rest | "--port" :: port :: rest   => do
    let n ← Text.readNat? (UInt16.size - 1) port
    read? { a with port := some (.ofNat n) } rest
  | "--host" :: host :: rest                          => read? { a with host := some host } rest
  | _                                                 => none

-- A configuration with the address that the arguments ask for.
def adjust (a : Arguments) (c : Config) : Config :=
  { c with server := ⟨a.host.getD c.server.host, a.port.getD c.server.port⟩ }

end Arguments

end MediaCatalog
