import MediaCatalog.AccessLog
import MediaCatalog.Arguments
import MediaCatalog.Connection
import MediaCatalog.Http.Message
import MediaCatalog.Service

namespace MediaCatalog.Main

def file (path : String) : IO Config.File := do
  match ← (IO.FS.readFile path).toBaseIO with
  | .ok t                       => return .text t
  | .error (.noFileOrDirectory ..) => return .missing
  | .error _                    => return .unreadable

-- The values of the variables that a file refers to.
def environment : Config.File → IO Config.Environment
  | .text t => do
    let values ← (Config.variableNames t).mapM fun name => return (name, ← IO.getEnv name)
    return fun name => (values.lookup name).join
  | _       => return fun _ => none

def config (a : Arguments) : IO (Except Config.Problem Config) := do
  match ← file a.config with
  | .missing =>
    if a.config = Arguments.defaultConfig then return .ok Config.standard
    else return Config.ofFile (fun _ => none) a.config .missing
  | f        => return Config.ofFile (← environment f) a.config f

-- The lines of a head, which an empty line ends.
partial def head (input : IO.FS.Stream) : IO (List String) := do
  let line := Text.trim (← input.getLine)
  if line.isEmpty then return [] else return line :: (← head input)

partial def bytes (input : IO.FS.Stream) (size : Nat) : IO ByteArray := do
  if size = 0 then return .empty
  let got ← input.read (.ofNat size)
  if got.isEmpty then return .empty else return got ++ (← bytes input (size - got.size))

def record (e : AccessLog.Event) : IO Unit :=
  IO.eprintln (String.intercalate " " [e.remoteAddress, e.message, Text.decimalNat e.status, e.userAgent])

partial def serve (settings : Settings) (d : Database Sql.Engine.Cell) : IO Unit := do
  let input ← IO.getStdin
  let some r := Http.Request.ofHead? (← head input) | return
  let r := { r with body := Text.Utf8.decode (← bytes input r.bodySize).toList }
  let (response, d) := (Service.respond (Database.catalog Sql.Engine.sqlite) settings r).run d
  record (AccessLog.event r response)
  let output ← IO.getStdout
  output.putStr response.message
  output.flush
  serve settings d

end MediaCatalog.Main

open MediaCatalog in
-- Requests come in on standard input, one after the other, and are answered on standard output; the access log
-- goes to standard error. Whoever starts the program does the listening.
def main (args : List String) : IO UInt32 := do
  let some a := Arguments.initial.read? args
    | IO.eprintln "usage: [-c|--config PATH] [-p|--port PORT] [--host HOST]"
      return 2
  match ← Main.config a with
  | .error p =>
    IO.eprintln ("Failed to load configuration: " ++ p.message)
    return 1
  | .ok c    =>
    let c := a.adjust c
    match Database.ofConfig c with
    | .error f =>
      IO.eprintln f.message
      return 1
    | .ok d    =>
      IO.eprintln ("serving " ++ c.server.host ++ ":" ++ Text.decimalNat c.server.port.toNat)
      Main.serve c.settings d
      return 0
