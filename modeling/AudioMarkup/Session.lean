import AudioMarkup.Disk
import AudioMarkup.Invocation
import AudioMarkup.Journal

/-!
A run of the program, from its arguments to its exit code. What a run finds outside itself is a
value, and what it leaves there is another.

A settings file that is named has to be sound. The one in the home folder may be missing, and if it
is broken the defaults are used and a warning is logged. How a settings file is decoded is a
parameter of all this.
-/

namespace AudioMarkup

structure Surroundings where
  disk : Disk
  usualSettings? : Option String
  standardInput : ByteArray
  logLevel? : Option String

inductive SettingsFile.Fault where
  | disk (fault : Disk.Fault)
  | content (fault : Settings.Fault)
  deriving DecidableEq, Repr, Inhabited

inductive Failure where
  | disk (fault : Disk.Fault)
  | source (diagnostic : Diagnostic)
  | settings (path : String) (fault : SettingsFile.Fault)
  deriving DecidableEq, Repr, Inhabited

def SettingsFile.Fault.message : SettingsFile.Fault → String
  | .disk fault => fault.message
  | .content fault => fault.message

def Failure.message : Failure → String
  | .disk fault => "I/O error: " ++ fault.message
  | .source diagnostic => "compiler error: " ++ diagnostic.render
  | .settings path fault => "config error in " ++ path ++ ": " ++ fault.message

namespace SettingsFile

section

variable (decode : String → Except Yaml.Fault Settings)

def loadWith (disk : Disk) (path : String) : Except Fault Settings :=
  match disk.readText path with
  | .error fault => .error (.disk fault)
  | .ok text =>
    match Settings.parseWith decode text with
    | .error fault => .error (.content fault)
    | .ok settings => .ok settings

def loadWith? (disk : Disk) (path : String) : Except Fault (Option Settings) :=
  if disk.contains path then (loadWith decode disk path).map some else .ok none

/-- The settings for a run, and what is wrong with the usual settings file. -/
def resolveWith (disk : Disk) (named? usual? : Option String) :
    Except Failure (Settings × Option Failure) :=
  match named?, usual? with
  | some path, _ =>
    match loadWith decode disk path with
    | .ok settings => .ok (settings, none)
    | .error fault => .error (.settings path fault)
  | none, some path =>
    match loadWith? decode disk path with
    | .ok settings? => .ok (settings?.getD .default, none)
    | .error fault => .ok (.default, some (.settings path fault))
  | none, none => .ok (.default, none)

end

def load : Disk → String → Except Fault Settings := loadWith Settings.decode

def load? : Disk → String → Except Fault (Option Settings) := loadWith? Settings.decode

def resolve : Disk → Option String → Option String → Except Failure (Settings × Option Failure) :=
  resolveWith Settings.decode

end SettingsFile

namespace Session

structure Effect where
  printed : String
  disk : Disk
  events : List Log.Event
  failure? : Option Failure

def readSource (surroundings : Surroundings) : Option String → Except Failure String
  | some path => (surroundings.disk.readText path).mapError .disk
  | none => (Disk.decodeText surroundings.standardInput).mapError .disk

def sourceEvent : Option String → Log.Event
  | some path => .plain .info ("compiling file " ++ path)
  | none => .plain .info "awaiting data from stdin"

def outputEvents (context source : String) : Output → List Log.Event
  | .tokens => []
  | .tree => Program.journal context (Token.scan source)
  | .script =>
    Program.journal context (Token.scan source) ++
      match Program.ofText context source with
      | .error _ => []
      | .ok program =>
        [{ level := .debug
           message := "generated script"
           fields :=
            [("definitions", .bare (toString program.definitions.length)),
             ("bytes", .bare (toString (program.scriptText context).utf8ByteSize))] }]

def deliver (disk : Disk) (output : String) : Option String → Except Failure (String × Disk)
  | none => .ok (output, disk)
  | some path => ((disk.writeText path output).mapError .disk).map fun disk => ("", disk)

def deliveredEvents : Option String → List Log.Event
  | none => []
  | some path => [.plain .info ("wrote " ++ path)]

/-- Reads the source, makes the output and delivers it. A failure leaves the disk as it was. -/
def compile (surroundings : Surroundings) (invocation : Invocation) (settings : Settings) :
    Effect :=
  let failing (events : List Log.Event) (failure : Failure) : Effect :=
    { printed := "", disk := surroundings.disk, events, failure? := some failure }
  let started := [sourceEvent invocation.input?]
  match readSource surroundings invocation.input? with
  | .error failure => failing started failure
  | .ok source =>
    let worked := started ++ outputEvents settings.context source invocation.output
    match invocation.output.render settings.context source with
    | .error diagnostic => failing worked (.source diagnostic)
    | .ok output =>
      match deliver surroundings.disk output invocation.outfile? with
      | .error failure => failing worked failure
      | .ok (printed, disk) =>
        { printed, disk, events := worked ++ deliveredEvents invocation.outfile?, failure? := none }

structure Outcome where
  exitCode : UInt32
  printed : String
  logged : List String
  disk : Disk

def version : String := "0.1.0"

def failureEvent (failure : Failure) : Log.Event := .plain .error failure.message

/-- A run for an invocation, whose settings files are decoded in the given way. The lines of the log
bear the given time. -/
def invokeWith (decode : String → Except Yaml.Fault Settings) (surroundings : Surroundings)
    (time : String) (invocation : Invocation) : Outcome :=
  match SettingsFile.resolveWith decode surroundings.disk invocation.settings?
      surroundings.usualSettings? with
  | .error failure =>
    { exitCode := 1
      printed := ""
      logged := Log.lines .default surroundings.logLevel? time [failureEvent failure]
      disk := surroundings.disk }
  | .ok (settings, warning?) =>
    let effect := compile surroundings invocation settings
    let warnings := warning?.toList.map fun warning =>
      Log.Event.plain .warn (warning.message ++ ", using defaults")
    let events := warnings ++ [.plain .debug ("waml v" ++ version)] ++ effect.events ++
      effect.failure?.toList.map failureEvent
    { exitCode := if effect.failure?.isSome then 1 else 0
      printed := effect.printed
      logged := Log.lines settings.log surroundings.logLevel? time events
      disk := effect.disk }

def invoke : Surroundings → String → Invocation → Outcome := invokeWith Settings.decode

/-- A run with the given arguments. Arguments that are refused give the exit code 2, unless they
ask for help or for the version. -/
def run (surroundings : Surroundings) (time : String) (arguments : List String) : Outcome :=
  let quiet (exitCode : UInt32) (printed : String) : Outcome :=
    { exitCode, printed, logged := [], disk := surroundings.disk }
  match Invocation.parse arguments with
  | .ok invocation => invoke surroundings time invocation
  | .error .version => quiet 0 ("waml " ++ version ++ "\n")
  | .error .help => quiet 0 Invocation.helpText
  | .error _ => quiet 2 ""

end Session
end AudioMarkup
