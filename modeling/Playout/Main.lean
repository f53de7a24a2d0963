import Playout.Terminal.Run

namespace Playout.Terminal

open Wire

/-- Names of files that a text may mention: what stands between blanks, and what stands between
quotes. -/
def mentioned (text : String) : List String :=
  let quoted := text.toList.map fun c => if c = '\'' ∨ c = '"' then '\n' else c
  ((Text.words text.toList) ++ Text.pieces '\n' quoted).map String.ofList

partial def fetch (dirs : List String) (files : Files) : List String → IO Files
  | [] => return files
  | name :: names => do
    let new := (name :: dirs.map (Files.join · name)).filter fun path =>
      path ≠ "" && !files.exists? path
    let read ← new.filterMapM fun (path : String) => do
      try return some (path, (← IO.FS.readBinFile path).toList)
      catch _ => return none
    let files := { files with entries := files.entries ++ (Files.ofList read files.here).entries }
    fetch dirs files (read.flatMap (fun (_, bytes) => mentioned (Text.Utf8.lossy bytes)) ++ names)

partial def readLine (input : IO.FS.Stream) (seen : List UInt8) : IO (List UInt8) := do
  match (← input.read 1).toList with
  | [] => return seen.reverse
  | b :: _ => if b = 10 then return (b :: seen).reverse else readLine input (b :: seen)

def say (text : String) : IO Unit := do
  let output ← IO.getStdout
  output.putStr text
  output.flush

def conclude (outcome : Outcome) : IO UInt32 := do
  say outcome.output
  (← IO.getStderr).putStr outcome.errors
  return outcome.code.toUInt32

partial def converse (network : Network Unit) (input : IO.FS.Stream) (prompt : String) (s : Shell) :
    IO UInt32 := do
  if s.done then return 0
  say prompt
  let bytes ← readLine input []
  if bytes = [] then return 0
  match Text.lineText bytes with
  | .error _ => conclude (.of "" (.error (.input .notUtf8)))
  | .ok text =>
    let files ← fetch s.settings.shell.includeDirs s.desk.studio.files (mentioned text)
    let (said, s) := { s with desk.studio.files := files }.attend.runLine network text
    say said
    converse network input prompt s.attend

end Playout.Terminal

open Playout Playout.Terminal in
def main (arguments : List String) : IO UInt32 := do
  let input ← IO.getStdin
  let config ← IO.getEnv "CUEBOX_CONFIG"
  let named := arguments ++ config.toList
  let here := Files.spelled [] (← IO.currentDir).toString
  let files ← fetch [] { here } named
  let dirs := match Options.ofArguments arguments with
    | .ok options =>
      ((Settings.load files (options.config <|> config)).toOption.map
        (·.shell.includeDirs)).getD []
    | .error _ => []
  let files ← fetch dirs files (named ++ files.entries.flatMap fun (_, content) =>
    mentioned (Text.Utf8.lossy (content.getD [])))
  let network := Wire.Network.isolated
  match begin network { arguments, config, files } with
  | .finished outcome => conclude outcome
  | .remote address =>
    let (printed, r) := Remote.run network address none []
    conclude (.of printed r)
  | .shell printed s =>
    say printed
    converse network input (if ← input.isTty then s.settings.shell.prompt else "") s
