import Trapline.Cli.Job
import Trapline.Log.Filter
import Trapline.Log.Journal

/-!
# Sessions of the command line

A command line is a usage error, a request for help or for the version, or a job. The first three
are answered at once. A job is run in a session, which also collects the lines of the log.
-/

namespace Trapline
namespace Cli

open Log

/-- What the command line tool leaves behind: its exit status and what it wrote. -/
structure Answer where
  status : Nat
  stdout : String := ""
  stderr : String := ""
deriving DecidableEq, Repr

/-- What a command line comes to. -/
inductive Plan where
  | answer (a : Answer)
  | run (job : Job) (trace : Bool)
deriving DecidableEq, Repr

/-- A text in red. -/
def inRed (text : String) : String :=
  "\x1b[31m" ++ text ++ "\x1b[0m"

/-- A text in bold. -/
def inBold (text : String) : String :=
  "\x1b[1m" ++ text ++ "\x1b[0m"

/-- The lines of the help text. -/
def helpLines : List String :=
  [inBold "Weird" ++ " - Interpreter for the Weird scripting language",
    "",
    inBold "USAGE:",
    "    weird [OPTIONS] [FILE]",
    "",
    inBold "ARGUMENTS:",
    "    [FILE]    Program to run (default: main.weird)",
    "",
    inBold "OPTIONS:",
    "    -h, --help         Print help information",
    "    -V, --version      Print version information",
    "    -c, --check        Load and validate the program without running it",
    "",
    inBold "DEBUG OPTIONS:",
    "    --trace            Log every executed command to stderr",
    "    --max-steps N      Abort after N executed commands",
    "",
    inBold "ENVIRONMENT:",
    "    RUST_LOG           Log filter, e.g. weird_language=debug",
    "",
    inBold "EXAMPLES:",
    "    weird                            Run main.weird",
    "    weird loops.weird                Run loops.weird",
    "    weird -c loops.weird             Check loops.weird for load errors",
    "    weird --max-steps 1000 spin.weird",
    "                                     Stop a runaway program",
    "",
    "For more information, visit https://github.com/ndouglas/weird"]

/-- Lines as the text that they make on a terminal. -/
def linesText (lines : List String) : String :=
  String.join (lines.map (· ++ "\n"))

/-- The version text. -/
def versionText : String := "weird 0.1.0\n"

/-- The exit status of a usage error. -/
def usageStatus : Nat := 2

/-- The exit status of a failed job. -/
def failureStatus : Nat := 1

/-- The answer to a usage error. -/
def usageAnswer (e : UsageError) : Answer where
  status := usageStatus
  stderr := linesText [inRed ("Error: " ++ e.message), "Run `weird --help` for usage."]

/-- Decides what a command line comes to. Help is given before the version. -/
def plan (arguments : List String) : Plan :=
  match Options.parse arguments with
  | .error e => .answer (usageAnswer e)
  | .ok o =>
      if o.showHelp then .answer { status := 0, stdout := linesText helpLines }
      else if o.showVersion then .answer { status := 0, stdout := versionText }
      else .run o.job o.trace

/-- The exit status for the status of a program. -/
def exitStatus (status : Nat) : Nat :=
  if status < 256 then status else failureStatus

/-- The answer to a job that has ended, apart from the output of its program. -/
def resultAnswer : Except Error Nat → Answer
  | .ok status => { status := exitStatus status }
  | .error e => { status := failureStatus, stderr := linesText [inRed e.report] }

/-- The directive that logs every step. -/
def traceDirective : Directive where
  target := "weird_language"
  level := some .trace

/-- The filter for a list of directives from the environment and the flag that asks for a trace. -/
def logFilter (directives : Option String) (trace : Bool) : Filter :=
  let filter := (directives.map Filter.parse).getD []
  if trace then filter.add traceDirective else filter

/-- The refusal of a line by a terminal that is a full device. -/
def fullDevice : Error where
  fault := .unreadable "<stdout>" "No space left on device (os error 28)"

namespace Job

variable {σ : Type}

/-- The events of loading the program of a job. -/
def startEvents (job : Job) (read : Reader) : List Event :=
  let loaded : List Event :=
    match read.load job.file with
    | .ok p =>
        [{ level := .debug, target := .runner, message := "loaded program"
           fields := [⟨"path", job.file⟩, .ofNat "commands" p.size] }]
    | .error _ => []
  read.loadEvents job.file ++ loaded

/-- The events of one step of a job. -/
def stepEvents [Sink σ] (job : Job) : Stage σ → List Event
  | .ended _ _ => []
  | .active p m =>
      let exits : List Event :=
        match m.step p job.limit with
        | .halted status m =>
            [m.finishEvent status,
              { level := .info, target := .runner, message := "program exited"
                fields := [⟨"path", job.file⟩, .ofNat "status" status] }]
        | _ => []
      m.stepEvents p job.limit ++ exits

end Job

/-- A job being run, with the log lines so far. -/
structure Session (σ : Type) where
  job : Job
  filter : Filter
  stage : Stage σ
  log : Array String

namespace Session

variable {σ : Type}

/-- Loads the program of a job. -/
def start (job : Job) (filter : Filter) (read : Reader) (out : σ) : Session σ where
  job := job
  filter := filter
  stage := job.start read out
  log := ((job.startEvents read).filterMap filter.line?).toArray

/-- Makes one step of the job. -/
def step [Sink σ] (s : Session σ) : Session σ :=
  { s with
    stage := s.job.step s.stage
    log := s.log ++ (s.job.stepEvents s.stage).filterMap s.filter.line? }

/-- Makes steps of the job until it has ended, but at most as many as the fuel allows. -/
def run [Sink σ] : Nat → Session σ → Session σ
  | 0, s => s
  | fuel + 1, s =>
      match s.stage with
      | .active _ _ => run fuel s.step
      | .ended _ _ => s

/-- The answer and the sink of a job that has ended. -/
def answer? (s : Session σ) : Option (Answer × σ) :=
  match s.stage with
  | .active _ _ => none
  | .ended result out => some (resultAnswer result, out)

end Session
end Cli
end Trapline
