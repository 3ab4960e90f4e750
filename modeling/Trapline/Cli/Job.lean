import Trapline.Cli.Options
import Trapline.Machine
import Trapline.Source

/-!
# Jobs

A job is a program file with the way it is to be run. It is done step by step: loading decides
whether there is anything to run, and then the machine makes one step at a time until the job has
ended with a status or an error.
-/

namespace Trapline
namespace Cli

/-- A program file and how to run it. -/
structure Job where
  file : String
  limit : Option Nat
  checkOnly : Bool
deriving DecidableEq, Repr

/-- How far a job has come. -/
inductive Stage (σ : Type) where
  | active (p : Program) (m : Machine σ)
  | ended (result : Except Error Nat) (out : σ)

namespace Stage

variable {σ : Type}

/-- The sink of a job. -/
def out : Stage σ → σ
  | active _ m => m.out
  | ended _ out => out

/-- The job with another sink. -/
def withOut (out : σ) : Stage σ → Stage σ
  | active p m => active p { m with out }
  | ended result _ => ended result out

/-- The line of the statement that a job executes next. -/
def location? : Stage σ → Option Location
  | active p m => (p.get? m.position).map (·.location)
  | ended _ _ => none

end Stage

namespace Options

/-- The job that a command line asks for. -/
def job (o : Options) : Job where
  file := o.file.getD defaultFile
  limit := o.maxSteps
  checkOnly := o.checkOnly

end Options

namespace Job

/-- Loads the program of a job. A job that only checks ends here. -/
def start {σ : Type} (job : Job) (read : Reader) (out : σ) : Stage σ :=
  match read.load job.file with
  | .error e => .ended (.error e) out
  | .ok p => if job.checkOnly then .ended (.ok 0) out else .active p (Machine.start p out)

/-- Makes one step of a job. -/
def step {σ : Type} [Sink σ] (job : Job) : Stage σ → Stage σ
  | .active p m =>
      match m.step p job.limit with
      | .running m => .active p m
      | .halted status m => .ended (.ok status) m.out
      | .failed e m => .ended (.error e) m.out
  | stage => stage

/-- Makes steps of a job until it has ended, but at most as many as the fuel allows. -/
def run {σ : Type} [Sink σ] (job : Job) : Nat → Stage σ → Stage σ
  | 0, stage => stage
  | fuel + 1, stage =>
      match job.step stage with
      | .active p m => run job fuel (.active p m)
      | ended => ended

end Job
end Cli
end Trapline
