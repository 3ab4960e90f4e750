import Trapline.Cli.Session
import Trapline.Proofs.CommandLine
import Trapline.Proofs.Halting

/-!
# The exit status of the command line tool

A session makes the steps of its machine, whatever it logs, so the result of a job is that of
loading its program and of running it. The exit status is two for a command line that cannot be
read. It is one for a job that ends with an error or halts at an undeclared label, and zero for
everything else that ends.

Main statements:
* `Session.answer?_run_iff`: the answers of a session are those to the results of its job.
* `Job.Ends.status`: which results of a job give which status.
* `plan_eq_run_iff`: which job a command line asks for.
* `exit_status`: the statuses of steps, of runs and of the command line tool.
-/

namespace Trapline
namespace Cli

variable {σ : Type}

namespace Stage

/-- The stage of a job whose machine has come so far. -/
def ofProgress (p : Program) : Progress σ → Stage σ
  | .running m => .active p m
  | .halted status m => .ended (.ok status) m.out
  | .failed e m => .ended (.error e) m.out

end Stage

namespace Job

theorem step_active
    [Sink σ]
    (job : Job)
    (p : Program)
    (m : Machine σ) :
    job.step (.active p m) = .ofProgress p (m.step p job.limit) := by
  rw [step]
  cases m.step p job.limit <;> rfl

section Start

variable {job : Job} {read : Reader} {out : σ} {p : Program} {e : Error}

theorem start_of_error
    (hload : read.load job.file = .error e) :
    job.start read out = .ended (.error e) out := by
  simp [start, hload]

theorem start_of_check
    (hload : read.load job.file = .ok p)
    (hcheck : job.checkOnly = true) :
    job.start read out = .ended (.ok 0) out := by
  simp [start, hload, hcheck]

theorem start_of_run
    (hload : read.load job.file = .ok p)
    (hcheck : job.checkOnly = false) :
    job.start read out = .active p (Machine.start p out) := by
  simp [start, hload, hcheck]

end Start

/-- A job ends with a result: the error of loading its program, success once the program is loaded
if it is only to be checked, and otherwise the result of running it. -/
inductive Ends [Sink σ] (job : Job) (read : Reader) (out : σ) : Except Error Nat → Prop
  | unloaded
      {e : Error}
      (hload : read.load job.file = .error e) :
      Ends job read out (.error e)
  | checked
      {p : Program}
      (hload : read.load job.file = .ok p)
      (hcheck : job.checkOnly = true) :
      Ends job read out (.ok 0)
  | halted
      {p : Program} {n status : Nat} {m : Machine σ}
      (hload : read.load job.file = .ok p)
      (hcheck : job.checkOnly = false)
      (hrun : (Machine.start p out).run p job.limit n = .halted status m) :
      Ends job read out (.ok status)
  | failed
      {p : Program} {n : Nat} {e : Error} {m : Machine σ}
      (hload : read.load job.file = .ok p)
      (hcheck : job.checkOnly = false)
      (hrun : (Machine.start p out).run p job.limit n = .failed e m) :
      Ends job read out (.error e)

/-- A job halts in a step that comes to a jump to an undeclared label. -/
def HaltsUndeclared [Sink σ] (job : Job) (read : Reader) (out : σ) : Prop :=
  ∃ p n m status m',
    read.load job.file = .ok p ∧
    job.checkOnly = false ∧
    (Machine.start p out).run p job.limit n = .running m ∧
    m.step p job.limit = .halted status m' ∧
    m.SeeksUndeclared p

end Job

namespace Session

theorem run_of_ended
    [Sink σ]
    {s : Session σ}
    {result : Except Error Nat}
    {out : σ}
    (h : s.stage = .ended result out)
    (n : Nat) :
    s.run n = s := by
  cases n with
  | zero =>
      rfl
  | succ n =>
      simp only [run, h]

/-- A session runs the machine of its job. -/
theorem stage_run
    [Sink σ]
    {s : Session σ}
    {p : Program}
    {m : Machine σ}
    (h : s.stage = .active p m)
    (n : Nat) :
    (s.run n).stage = .ofProgress p (m.run p s.job.limit n) := by
  induction n generalizing s m with
  | zero =>
      exact h
  | succ n ih =>
      have hstage : s.step.stage = .ofProgress p (m.step p s.job.limit) := by
        rw [← Job.step_active, ← h]
        rfl
      have hrun : s.run (n + 1) = s.step.run n := by
        simp only [run, h]
      rw [hrun, Machine.run]
      cases hstep : m.step p s.job.limit with
      | running m₁ =>
          rw [hstep] at hstage
          exact ih hstage
      | halted status m₁ | failed e m₁ =>
          rw [hstep] at hstage
          rw [run_of_ended hstage]
          exact hstage

/-- A session that has ended does nothing more. -/
theorem run_of_le
    [Sink σ]
    {s : Session σ}
    {result : Except Error Nat}
    {out : σ}
    {a b : Nat}
    (h : (s.run a).stage = .ended result out)
    (hab : a ≤ b) :
    s.run b = s.run a := by
  induction a generalizing s b with
  | zero =>
      exact run_of_ended h b
  | succ a ih =>
      obtain ⟨b, rfl⟩ : ∃ c, b = c + 1 := ⟨b - 1, by omega⟩
      cases hstage : s.stage with
      | ended result₁ out₁ =>
          rw [run_of_ended hstage, run_of_ended hstage]
      | active p m =>
          simp only [run, hstage] at h ⊢
          exact ih h (Nat.le_of_succ_le_succ hab)

/-- A session comes to a result that its job ends with. -/
theorem ends_of_stage_run
    [Sink σ]
    {job : Job}
    {filter : Log.Filter}
    {read : Reader}
    {out out' : σ}
    {n : Nat}
    {result : Except Error Nat}
    (h : ((start job filter read out).run n).stage = .ended result out') :
    job.Ends read out result := by
  cases hload : read.load job.file with
  | error e =>
      have hstart : (start job filter read out).stage = _ := Job.start_of_error hload
      rw [run_of_ended hstart, hstart] at h
      cases h
      exact .unloaded hload
  | ok p =>
      cases hcheck : job.checkOnly with
      | true =>
          have hstart : (start job filter read out).stage = _ := Job.start_of_check hload hcheck
          rw [run_of_ended hstart, hstart] at h
          cases h
          exact .checked hload hcheck
      | false =>
          have hstart : (start job filter read out).stage = _ := Job.start_of_run hload hcheck
          have hprogress := (stage_run hstart n).symm.trans h
          cases hrun : (Machine.start p out).run p job.limit n with
          | running m =>
              cases (congrArg (Stage.ofProgress p) hrun).symm.trans hprogress
          | halted status m =>
              cases (congrArg (Stage.ofProgress p) hrun).symm.trans hprogress
              exact .halted hload hcheck hrun
          | failed e m =>
              cases (congrArg (Stage.ofProgress p) hrun).symm.trans hprogress
              exact .failed hload hcheck hrun

/-- A session comes to every result that its job ends with. -/
theorem stage_run_of_ends
    [Sink σ]
    {job : Job}
    {read : Reader}
    {out : σ}
    {result : Except Error Nat}
    (h : job.Ends read out result)
    (filter : Log.Filter) :
    ∃ n out', ((start job filter read out).run n).stage = .ended result out' := by
  cases h with
  | unloaded hload =>
      exact ⟨0, out, Job.start_of_error hload⟩
  | checked hload hcheck =>
      exact ⟨0, out, Job.start_of_check hload hcheck⟩
  | @halted p n status m hload hcheck hrun =>
      have hstart : (start job filter read out).stage = _ := Job.start_of_run hload hcheck
      exact ⟨n, m.out, (stage_run hstart n).trans (congrArg (Stage.ofProgress p) hrun)⟩
  | @failed p n e m hload hcheck hrun =>
      have hstart : (start job filter read out).stage = _ := Job.start_of_run hload hcheck
      exact ⟨n, m.out, (stage_run hstart n).trans (congrArg (Stage.ofProgress p) hrun)⟩

/-- The answers of a session are those to the results that its job ends with. -/
theorem answer?_run_iff
    [Sink σ]
    {job : Job}
    {filter : Log.Filter}
    {read : Reader}
    {out : σ}
    {a : Answer} :
    (∃ n out', ((start job filter read out).run n).answer? = some (a, out')) ↔
    ∃ result, job.Ends read out result ∧ a = resultAnswer result := by
  constructor
  · rintro ⟨n, out', h⟩
    cases hstage : ((start job filter read out).run n).stage with
    | active p m =>
        simp only [answer?, hstage, reduceCtorEq] at h
    | ended result out₁ =>
        simp only [answer?, hstage, Option.some.injEq, Prod.mk.injEq] at h
        exact ⟨result, ends_of_stage_run hstage, h.1.symm⟩
  · rintro ⟨result, h, rfl⟩
    obtain ⟨n, out', hstage⟩ := stage_run_of_ends h filter
    exact ⟨n, out', by simp only [answer?, hstage]⟩

end Session

namespace Job

variable [Sink σ] {job : Job} {read : Reader} {out : σ}

/-- A job that halts at an undeclared label ends, and with status one. -/
theorem HaltsUndeclared.ends
    (h : job.HaltsUndeclared read out) :
    job.Ends read out (.ok Machine.undeclaredLabelStatus) := by
  obtain ⟨p, n, m, status, m', hload, hcheck, hrun, hstep, hseeks⟩ := h
  obtain rfl := (Machine.status_of_step hstep).2.2 hseeks
  exact .halted hload hcheck ((Machine.run_succ hrun).trans hstep)

/-- A job ends with one result. -/
theorem Ends.unique
    {result result' : Except Error Nat}
    (h : job.Ends read out result)
    (h' : job.Ends read out result') :
    result = result' := by
  obtain ⟨n, out₁, hn⟩ := Session.stage_run_of_ends h []
  obtain ⟨n', out₂, hn'⟩ := Session.stage_run_of_ends h' []
  have hstage : Stage.ended result out₁ = .ended result' out₂ := by
    rcases Nat.le_total n n' with hle | hle
    · rw [← hn, ← hn', Session.run_of_le hn hle]
    · rw [← hn, ← hn', Session.run_of_le hn' hle]
  cases hstage
  rfl

/-- A job ends with an error, with status zero, or at an undeclared label with status one. -/
theorem Ends.cases
    {result : Except Error Nat}
    (h : job.Ends read out result) :
    (∃ e, result = .error e) ∨
    result = .ok 0 ∨
    (result = .ok Machine.undeclaredLabelStatus ∧ job.HaltsUndeclared read out) := by
  cases h with
  | unloaded | failed =>
      exact Or.inl ⟨_, rfl⟩
  | checked =>
      exact Or.inr (Or.inl rfl)
  | halted hload hcheck hrun =>
      obtain ⟨hstatus, k, m, -, hm, hstep, hone⟩ := Machine.status_of_run hrun
      rcases hstatus with rfl | rfl
      · exact Or.inr (Or.inl rfl)
      · exact Or.inr (Or.inr
          ⟨rfl, _, k, m, _, _, hload, hcheck, hm, hstep, hone.1 rfl⟩)

/-- The exit status of a job is zero or one, and one exactly if it ends with an error or at an
undeclared label. -/
theorem Ends.status
    {result : Except Error Nat}
    (h : job.Ends read out result) :
    ((resultAnswer result).status = 0 ∨ (resultAnswer result).status = failureStatus) ∧
    ((resultAnswer result).status = failureStatus ↔
      (∃ e, job.Ends read out (.error e)) ∨ job.HaltsUndeclared read out) := by
  rcases h.cases with ⟨e, rfl⟩ | rfl | ⟨rfl, hundeclared⟩
  · exact ⟨Or.inr rfl, fun _ => Or.inl ⟨e, h⟩, fun _ => rfl⟩
  · have hnot : ¬ ((∃ e, job.Ends read out (.error e)) ∨ job.HaltsUndeclared read out) := by
      rintro (⟨e, he⟩ | hundeclared)
      · cases h.unique he
      · cases h.unique hundeclared.ends
    have hzero : (resultAnswer (.ok 0)).status = 0 := rfl
    exact ⟨Or.inl rfl, by simp [hzero, failureStatus, hnot]⟩
  · exact ⟨Or.inr rfl, fun _ => Or.inr hundeclared, fun _ => rfl⟩

end Job

/-- A command line cannot be read, is answered with status zero, or asks for a job. -/
theorem plan_cases
    (arguments : List String) :
    (∃ e, Options.parse arguments = .error e ∧ plan arguments = .answer (usageAnswer e)) ∨
    (∃ o a,
      Options.parse arguments = .ok o ∧
      (o.showHelp = true ∨ o.showVersion = true) ∧
      plan arguments = .answer a ∧
      a.status = 0) ∨
    (∃ o,
      Options.parse arguments = .ok o ∧
      o.showHelp = false ∧
      o.showVersion = false ∧
      plan arguments = .run o.job o.trace) := by
  cases hparse : Options.parse arguments with
  | error e =>
      exact Or.inl ⟨e, rfl, by simp [plan, hparse]⟩
  | ok o =>
      right
      cases hhelp : o.showHelp with
      | true =>
          have hplan : plan arguments = .answer { status := 0, stdout := linesText helpLines } := by
            simp [plan, hparse, hhelp]
          exact Or.inl ⟨o, _, rfl, Or.inl hhelp, hplan, rfl⟩
      | false =>
          cases hversion : o.showVersion with
          | true =>
              have hplan : plan arguments = .answer { status := 0, stdout := versionText } := by
                simp [plan, hparse, hhelp, hversion]
              exact Or.inl ⟨o, _, rfl, Or.inr hversion, hplan, rfl⟩
          | false =>
              exact Or.inr ⟨o, rfl, hhelp, hversion, by simp [plan, hparse, hhelp, hversion]⟩

/-- What groups of arguments ask for that is neither help nor the version: to run or to check the
file that is named, or the default one, with the last step limit. -/
structure Asks (groups : List ArgumentGroup) (job : Job) (trace : Bool) : Prop where
  help : Flag.help ∉ ArgumentGroup.flags groups
  version : Flag.version ∉ ArgumentGroup.flags groups
  file : job.file = (ArgumentGroup.files groups).head?.getD "main.weird"
  limit : job.limit = (ArgumentGroup.limits groups).getLast?
  checkOnly : job.checkOnly = true ↔ Flag.check ∈ ArgumentGroup.flags groups
  trace : trace = true ↔ Flag.trace ∈ ArgumentGroup.flags groups

theorem asks_ofGroups
    {groups : List ArgumentGroup}
    (hhelp : (Options.ofGroups groups).showHelp = false)
    (hversion : (Options.ofGroups groups).showVersion = false) :
    Asks groups (Options.ofGroups groups).job (Options.ofGroups groups).trace where
  help := of_decide_eq_false hhelp
  version := of_decide_eq_false hversion
  file := rfl
  limit := rfl
  checkOnly := decide_eq_true_iff
  trace := decide_eq_true_iff

/-- Groups ask for one job at most. -/
theorem Asks.unique
    {groups : List ArgumentGroup}
    {job job' : Job}
    {trace trace' : Bool}
    (h : Asks groups job trace)
    (h' : Asks groups job' trace') :
    job = job' ∧ trace = trace' := by
  obtain ⟨file, limit, checkOnly⟩ := job
  obtain ⟨file', limit', checkOnly'⟩ := job'
  obtain rfl : file = file' := h.file.trans h'.file.symm
  obtain rfl : limit = limit' := h.limit.trans h'.limit.symm
  obtain rfl : checkOnly = checkOnly' :=
    Bool.eq_iff_iff.2 (h.checkOnly.trans h'.checkOnly.symm)
  exact ⟨rfl, Bool.eq_iff_iff.2 (h.trace.trans h'.trace.symm)⟩

/-- A command line comes to a job exactly if it consists of groups that ask for the job. -/
theorem plan_eq_run_iff
    {arguments : List String}
    {job : Job}
    {trace : Bool} :
    plan arguments = .run job trace ↔
      ∃ groups,
        arguments = groups.flatMap ArgumentGroup.arguments ∧
        ArgumentGroup.AtMostOneFile groups ∧
        Asks groups job trace := by
  constructor
  · intro h
    rcases plan_cases arguments with
      ⟨e, -, hplan⟩ | ⟨o, a, -, -, hplan, -⟩ | ⟨o, hparse, hhelp, hversion, hplan⟩
    · cases h.symm.trans hplan
    · cases h.symm.trans hplan
    · cases h.symm.trans hplan
      obtain ⟨groups, hsplit, hfiles, rfl⟩ := Options.parse_eq_ok_iff.1 hparse
      exact ⟨groups, hsplit, hfiles, asks_ofGroups hhelp hversion⟩
  · rintro ⟨groups, rfl, hfiles, hasks⟩
    have hparse := Options.parse_of_groups hfiles
    have hhelp : (Options.ofGroups groups).showHelp = false := decide_eq_false hasks.help
    have hversion : (Options.ofGroups groups).showVersion = false := decide_eq_false hasks.version
    obtain ⟨rfl, rfl⟩ := hasks.unique (asks_ofGroups hhelp hversion)
    simp [plan, hparse, hhelp, hversion]

/-- The command line tool ends with an exit status: that of the answer to its command line or, for
a job, that of the answer which the session comes to. The filter says what the log shows. -/
inductive Exits [Sink σ] (arguments : List String) (filter : Log.Filter) (read : Reader)
    (out : σ) : Nat → Prop
  | answer
      {a : Answer}
      (hplan : plan arguments = .answer a) :
      Exits arguments filter read out a.status
  | job
      {job : Job} {trace : Bool} {n : Nat} {a : Answer} {out' : σ}
      (hplan : plan arguments = .run job trace)
      (hanswer :
        ((Session.start job filter read out).run n).answer? = some (a, out')) :
      Exits arguments filter read out a.status

section Exits

variable [Sink σ] {arguments : List String} {filter : Log.Filter} {read : Reader} {out : σ}
  {status : Nat}

theorem exits_iff_of_answer
    {a : Answer}
    (hplan : plan arguments = .answer a) :
    Exits arguments filter read out status ↔ status = a.status := by
  constructor
  · intro h
    cases h with
    | answer hplan' =>
        cases hplan.symm.trans hplan'
        rfl
    | job hplan' hanswer =>
        cases hplan.symm.trans hplan'
  · rintro rfl
    exact .answer hplan

theorem exits_iff_of_run
    {job : Job}
    {trace : Bool}
    (hplan : plan arguments = .run job trace) :
    Exits arguments filter read out status ↔
    ∃ result, job.Ends read out result ∧ status = (resultAnswer result).status := by
  constructor
  · intro h
    cases h with
    | answer hplan' =>
        cases hplan.symm.trans hplan'
    | job hplan' hanswer =>
        cases hplan.symm.trans hplan'
        obtain ⟨result, hends, rfl⟩ := Session.answer?_run_iff.1 ⟨_, _, hanswer⟩
        exact ⟨result, hends, rfl⟩
  · rintro ⟨result, hends, rfl⟩
    obtain ⟨n, out', hanswer⟩ := Session.answer?_run_iff.2 ⟨result, hends, rfl⟩
    exact .job hplan hanswer

/-- The tool ends with at most one exit status. -/
theorem Exits.unique
    {status' : Nat}
    (h : Exits arguments filter read out status)
    (h' : Exits arguments filter read out status') :
    status = status' := by
  cases hplan : plan arguments with
  | answer a =>
      rw [exits_iff_of_answer hplan] at h h'
      rw [h, h']
  | run job trace =>
      rw [exits_iff_of_run hplan] at h h'
      obtain ⟨result, hends, rfl⟩ := h
      obtain ⟨result', hends', rfl⟩ := h'
      rw [hends.unique hends']

/-- The exit statuses of the tool. -/
theorem Exits.status_cases
    (h : Exits arguments filter read out status) :
    status = 0 ∨ status = failureStatus ∨ status = usageStatus := by
  rcases plan_cases arguments with
    ⟨e, -, hplan⟩ | ⟨o, a, -, -, hplan, ha⟩ | ⟨o, -, -, -, hplan⟩
  · exact Or.inr (Or.inr ((exits_iff_of_answer hplan).1 h))
  · exact Or.inl (((exits_iff_of_answer hplan).1 h).trans ha)
  · obtain ⟨result, hends, rfl⟩ := (exits_iff_of_run hplan).1 h
    exact hends.status.1.imp_right Or.inl

/-- The tool ends with status two exactly on a usage error. -/
theorem exits_usageStatus_iff :
    Exits arguments filter read out usageStatus ↔
    ∃ e, Options.parse arguments = .error e := by
  rcases plan_cases arguments with
    ⟨e, hparse, hplan⟩ | ⟨o, a, hparse, -, hplan, ha⟩ | ⟨o, hparse, -, -, hplan⟩
  · simp [exits_iff_of_answer hplan, hparse, usageAnswer]
  · simp [exits_iff_of_answer hplan, hparse, ha, usageStatus]
  · rw [exits_iff_of_run hplan]
    constructor
    · rintro ⟨result, hends, hstatus⟩
      rcases hends.status.1 with h | h
      · cases hstatus.trans h
      · cases hstatus.trans h
    · rintro ⟨e, he⟩
      cases hparse.symm.trans he

/-- The tool ends with status one exactly if it has a job, and the job ends with an error or halts
at an undeclared label. -/
theorem exits_failureStatus_iff :
    Exits arguments filter read out failureStatus ↔
    ∃ job trace,
      plan arguments = .run job trace ∧
      ((∃ e, job.Ends read out (.error e)) ∨ job.HaltsUndeclared read out) := by
  rcases plan_cases arguments with
    ⟨e, -, hplan⟩ | ⟨o, a, -, -, hplan, ha⟩ | ⟨o, -, -, -, hplan⟩
  · simp [exits_iff_of_answer hplan, hplan, usageAnswer, usageStatus, failureStatus]
  · simp [exits_iff_of_answer hplan, hplan, ha, failureStatus]
  · rw [exits_iff_of_run hplan]
    constructor
    · rintro ⟨result, hends, hstatus⟩
      exact ⟨o.job, o.trace, hplan, hends.status.2.1 hstatus.symm⟩
    · rintro ⟨job, trace, hplan', hfails⟩
      cases hplan.symm.trans hplan'
      rcases hfails with ⟨e, he⟩ | hundeclared
      · exact ⟨_, he, rfl⟩
      · exact ⟨_, hundeclared.ends, rfl⟩

/-- The tool ends with status zero exactly if it is asked for its help or version, or if its job
ends with status zero. -/
theorem exits_zero_iff :
    Exits arguments filter read out 0 ↔
    (∃ o, Options.parse arguments = .ok o ∧ (o.showHelp = true ∨ o.showVersion = true)) ∨
    ∃ job trace, plan arguments = .run job trace ∧ job.Ends read out (.ok 0) := by
  rcases plan_cases arguments with
    ⟨e, hparse, hplan⟩ | ⟨o, a, hparse, hasked, hplan, ha⟩ | ⟨o, hparse, hhelp, hversion, hplan⟩
  · simp [exits_iff_of_answer hplan, hplan, hparse, usageAnswer, usageStatus]
  · simp [exits_iff_of_answer hplan, hplan, hparse, hasked, ha]
  · rw [exits_iff_of_run hplan]
    constructor
    · rintro ⟨result, hends, hstatus⟩
      rcases hends.cases with ⟨e, rfl⟩ | rfl | ⟨rfl, -⟩
      · cases hstatus
      · exact Or.inr ⟨o.job, o.trace, hplan, hends⟩
      · cases hstatus
    · rintro (⟨o', hparse', hasked⟩ | ⟨job, trace, hplan', hends⟩)
      · cases hparse.symm.trans hparse'
        simp [hhelp, hversion] at hasked
      · cases hplan.symm.trans hplan'
        exact ⟨_, hends, rfl⟩

end Exits

/-- A run that halts does so with status zero or one, and with status one exactly if its last step
comes to a jump to an undeclared label. If every label that a statement names is declared, then no
step that is reached halts with any status but zero, also none that goes on with a pending loop.
The tool ends with one exit status at most, whatever it logs: two exactly on a usage error, one
exactly if its job ends with an error or halts at an undeclared label, and zero exactly if nothing
is to be run or the job ends without any of this. The job is the one that the arguments ask for. -/
theorem exit_status
    [Sink σ]
    (out : σ) :
    (∀ p limit n status m',
      (Machine.start p out).run p limit n = .halted status m' →
      (status = 0 ∨ status = 1) ∧
      ∃ k m,
        k < n ∧
        (Machine.start p out).run p limit k = .running m ∧
        m.step p limit = .halted status m' ∧
        (status = 1 ↔ m.SeeksUndeclared p)) ∧
    (∀ p : Program,
      p.DeclaresTargets →
      ∀ limit status m',
        (∀ m,
          Machine.Reachable p limit out m →
          m.step p limit = .halted status m' →
          status = 0) ∧
        ∀ n, (Machine.start p out).run p limit n = .halted status m' → status = 0) ∧
    ∀ arguments filter read,
      (∀ status,
        Exits arguments filter read out status →
        status = 0 ∨ status = 1 ∨ status = 2) ∧
      (∀ status status',
        Exits arguments filter read out status →
        Exits arguments filter read out status' →
        status = status') ∧
      (Exits arguments filter read out 2 ↔ ∃ e, Options.parse arguments = .error e) ∧
      (Exits arguments filter read out 1 ↔
        ∃ job trace,
          plan arguments = .run job trace ∧
          ((∃ e, job.Ends read out (.error e)) ∨ job.HaltsUndeclared read out)) ∧
      (Exits arguments filter read out 0 ↔
        (∃ o, Options.parse arguments = .ok o ∧ (o.showHelp = true ∨ o.showVersion = true)) ∨
        ∃ job trace, plan arguments = .run job trace ∧ job.Ends read out (.ok 0)) ∧
      ∀ job trace,
        plan arguments = .run job trace ↔
          ∃ groups,
            arguments = groups.flatMap ArgumentGroup.arguments ∧
            ArgumentGroup.AtMostOneFile groups ∧
            Asks groups job trace := by
  refine ⟨?_, ?_, ?_⟩
  · intro p limit n status m' h
    exact Machine.status_of_run h
  · intro p hp limit status m'
    constructor
    · intro m hm hstep
      exact Machine.status_of_declaresTargets hp hm hstep
    · intro n h
      exact Machine.status_of_run_of_declaresTargets hp h
  · intro arguments filter read
    exact ⟨fun _ h => h.status_cases, fun _ _ h h' => h.unique h', exits_usageStatus_iff,
      exits_failureStatus_iff, exits_zero_iff, fun _ _ => plan_eq_run_iff⟩

/-- A script whose loop has one round and then leads to a label. Only one label stands behind it. -/
def loopTo (label : Name) : List (String × String) :=
  [("main", "each: :x, \"a, :body, :" ++ label ++
    "\nlabel: :body\nreturn_to_trap: :each\nlabel: :end")]

/-- A step limit, and the flag that asks for a check. -/
def boundedCheck : List ArgumentGroup := [
  .limit "12" 12 (Options.readCount?_eq_some_iff.1 (by decide)),
  .flag .check "--check" (by decide)]

/-- With its escape label declared the loop ends with status zero. With another one the return from
its only round halts with status one, and so does the tool. A step limit without its value is a
usage error, and one with a value and no file is for the default file. -/
theorem exit_status_of_loopTo :
    (∃ p m,
      (Reader.ofTexts (loopTo "end")).load "main" = .ok p ∧
      p.DeclaresTargets ∧
      (Machine.start p (#[] : Array String)).run p none 9 = .halted 0 m) ∧
    (∃ p k m m',
      (Reader.ofTexts (loopTo "gone")).load "main" = .ok p ∧
      (Machine.start p (#[] : Array String)).run p none k = .running m ∧
      m.step p none = .halted 1 m' ∧
      m.SeeksUndeclared p) ∧
    Exits ["main"] [] (.ofTexts (loopTo "gone")) (#[] : Array String) 1 ∧
    ¬ Exits ["main"] [] (.ofTexts (loopTo "gone")) (#[] : Array String) 0 ∧
    Exits ["--max-steps"] [] (.ofTexts []) (#[] : Array String) 2 ∧
    plan ["--max-steps", "12", "--check"] =
      .run { file := "main.weird", limit := some 12, checkOnly := true } false := by
  obtain ⟨hrun, hdeclared, htool⟩ := exit_status (#[] : Array String)
  have hend :
      ((Reader.ofTexts (loopTo "end")).load "main").toOption.map (fun p =>
        (decide p.DeclaresTargets,
          ((Machine.start p (#[] : Array String)).run p none 9).status?.isSome)) =
        some (true, true) := by
    decide +kernel
  have hgone :
      ((Reader.ofTexts (loopTo "gone")).load "main").toOption.map (fun p =>
        ((Machine.start p (#[] : Array String)).run p none 9).status?) =
        some (some 1) := by
    decide +kernel
  have hplan :
      plan ["main"] = .run { file := "main", limit := none, checkOnly := false } false := by
    decide
  have hhalts : ∃ p k m m',
      (Reader.ofTexts (loopTo "gone")).load "main" = .ok p ∧
      (Machine.start p (#[] : Array String)).run p none k = .running m ∧
      m.step p none = .halted 1 m' ∧
      m.SeeksUndeclared p := by
    generalize (Reader.ofTexts (loopTo "gone")).load "main" = x at hgone ⊢
    cases x with
    | error e =>
        cases hgone
    | ok p =>
        have hhalted := Progress.status?_eq_some_iff.1 (Option.some.inj hgone)
        obtain ⟨-, k, m, -, hm, hstep, hone⟩ := hrun p none 9 1 _ hhalted
        exact ⟨p, k, m, _, rfl, hm, hstep, hone.1 rfl⟩
  have hfails : Exits ["main"] [] (.ofTexts (loopTo "gone")) (#[] : Array String) 1 := by
    obtain ⟨p, k, m, m', hload, hm, hstep, hseeks⟩ := hhalts
    obtain ⟨-, -, -, hone, -⟩ := htool ["main"] [] (.ofTexts (loopTo "gone"))
    exact hone.2 ⟨_, false, hplan, Or.inr ⟨p, k, m, 1, m', hload, rfl, hm, hstep, hseeks⟩⟩
  refine ⟨?_, hhalts, hfails, ?_, ?_, ?_⟩
  · generalize (Reader.ofTexts (loopTo "end")).load "main" = x at hend ⊢
    cases x with
    | error e =>
        cases hend
    | ok p =>
        simp only [Except.toOption, Option.map_some, Option.some.injEq, Prod.mk.injEq,
          decide_eq_true_eq] at hend
        obtain ⟨hp, hstatus⟩ := hend
        obtain ⟨status, hstatus⟩ := Option.isSome_iff_exists.1 hstatus
        have hhalted := Progress.status?_eq_some_iff.1 hstatus
        obtain rfl := (hdeclared p hp none status _).2 9 hhalted
        exact ⟨p, _, rfl, hp, hhalted⟩
  · intro hzero
    cases (htool ["main"] [] _).2.1 0 1 hzero hfails
  · exact (htool ["--max-steps"] [] _).2.2.1.2 ⟨_, rfl⟩
  · obtain ⟨-, -, -, -, -, hjob⟩ := htool ["--max-steps", "12", "--check"] [] (.ofTexts [])
    exact (hjob _ _).2 ⟨boundedCheck, rfl, Nat.zero_le 1,
      ⟨by decide, by decide, rfl, rfl, by decide, by decide⟩⟩

end Cli
end Trapline
