import AudioMarkup.Session
import Std.Time.Format

/-!
The program. It gathers what a run may look at, runs, and puts into effect what the run left.
-/

namespace AudioMarkup.Main

/-- The entries on the way of a path, as far as there are any. -/
def survey (path : String) : IO (List (List String × Disk.Entry)) := do
  let here ← IO.currentDir
  (Disk.waypoints path).filterMapM fun names => do
    let place := names.foldl (fun place (name : String) => place / name) here
    if ← place.isDir then return some (names, .folder)
    if !(← place.pathExists) then return none
    return some (names, .file (← IO.FS.readBinFile place))

def surroundings (invocation : Invocation) : IO Surroundings := do
  let usualSettings? := (← IO.getEnv "HOME").map (· ++ "/.waml/config.yaml")
  let paths := [invocation.input?, invocation.outfile?, invocation.settings?, usualSettings?]
  let entries ← paths.reduceOption.flatMapM survey
  let standardInput ←
    if invocation.input?.isSome then pure ByteArray.empty
    else (← IO.getStdin).readBinToEnd
  let logLevel? ← IO.getEnv "RUST_LOG"
  return { disk := ⟨entries⟩, usualSettings?, standardInput, logLevel? }

def now : IO String := do
  let time ← Std.Time.Timestamp.now
  return (Std.Time.DateTime.ofTimestamp time .UTC).format "uuuu-MM-dd'T'HH:mm:ss.SSSSSS'Z'"

end AudioMarkup.Main

open AudioMarkup in
def main (arguments : List String) : IO UInt32 := do
  let invocation? := (Invocation.parse arguments).toOption
  let surroundings ← match invocation? with
    | some invocation => Main.surroundings invocation
    | none => pure { disk := ⟨[]⟩, usualSettings? := none, standardInput := .empty, logLevel? := none }
  let outcome := Session.run surroundings (← Main.now) arguments
  outcome.logged.forM IO.eprintln
  match invocation?.bind (·.outfile?) with
  | some path =>
    if outcome.exitCode == 0 then
      if let .ok text := outcome.disk.readText path then IO.FS.writeFile path text
  | none => IO.print outcome.printed
  return outcome.exitCode
