import SolarOs.Esp
import Mathlib.Logic.Function.Basic
import SolarOs.Library.Program

/-! The job table of `solar_os_jobs.c`: its runtimes and the critical sections that test
and change them. -/
namespace SolarOs.Jobs
open Program

structure Job where
  name : String
  start : Bool
  stop : Bool
  event : Bool
  workerStackBytes : Nat

/-- The registered jobs, each with a driver that can be started and stopped. -/
structure Registry where
  jobs : List Job
  complete : ∀ job ∈ jobs, job.start = true ∧ job.stop = true

inductive JobState where
  | stopped | waiting | running | failed
  deriving DecidableEq, Repr

inductive Task where
  | ticker
  | other (n : Nat)
  deriving DecidableEq, Repr

structure Runtime where
  state : JobState
  lastError : EspErr
  generation : UInt32
  callbackRefs : Nat
  callbackTask : Option Task
  stopAfterCallback : Bool
  lifecycleBusy : Bool
  pendingStart : Option Nat
  deriving DecidableEq

/-- What happens to a job outside the table, in the order in which it happens. -/
inductive Deed where
  | startBegan (args : List String)
  | startEnded (result : EspErr)
  | stopBegan
  | stopEnded
  | callbackBegan
  | callbackEnded
  | stopDeferred
  | reported
  deriving DecidableEq

/-- A worker that a driver's start created, and whether it has called `markStopped`. -/
structure Worker where
  index : Nat
  generation : UInt32
  ended : Bool
  deriving DecidableEq

structure World where
  runtime : Nat → Runtime
  heap : List (Nat × List String)
  misfrees : Nat
  ticking : Bool
  history : List (Nat × Deed)
  workers : List Worker

def Runtime.initial : Runtime where
  state := .stopped
  lastError := .ok
  generation := 0
  callbackRefs := 0
  callbackTask := none
  stopAfterCallback := false
  lifecycleBusy := false
  pendingStart := none

def World.initial : World where
  runtime := fun _ => .initial
  heap := []
  misfrees := 0
  ticking := false
  history := []
  workers := []

def jobIndexByName (jobs : List Job) (name : String) : Option Nat :=
  if name = "" then none else jobs.findIdx? fun job => job.name == name

def nextGeneration (generation : UInt32) : UInt32 :=
  if generation + 1 = 0 then generation + 2 else generation + 1

def Runtime.ownCallback (runtime : Runtime) (task : Task) : Bool :=
  runtime.callbackRefs != 0 && runtime.callbackTask == some task

structure StartPlan where
  index : Nat
  stop : Bool
  start : Bool
  oldPending : Option Nat
  generation : UInt32

inductive StopPlan where
  | refused (error : EspErr)
  | idle (pending : Option Nat)
  | deferred
  | begun (index : Nat) (generation : UInt32) (stop : Bool)

namespace World

def put (w : World) (index : Nat) (runtime : Runtime) : World :=
  { w with runtime := Function.update w.runtime index runtime }

def note (w : World) (index : Nat) (deed : Deed) : World :=
  { w with history := w.history ++ [(index, deed)] }

variable (jobs : List Job)

/-- The first section of `solar_os_jobs_start`. -/
def beginStart (task : Task) (name : String) (w : World) :
    World × Except EspErr StartPlan :=
  match jobIndexByName jobs name with
  | none => (w, .error .notFound)
  | some index =>
    let runtime := w.runtime index
    match jobs[index]? with
    | none => (w, .error .invalidState)
    | some job =>
      if runtime.lifecycleBusy then (w, .error .invalidState)
      else if runtime.ownCallback task then (w, .error .invalidState)
      else
        let generation := nextGeneration runtime.generation
        (w.put index { runtime with
            lifecycleBusy := true, pendingStart := none, generation, state := .stopped },
          .ok
            { index
              stop := runtime.state == .running && job.stop
              start := job.start
              oldPending := runtime.pendingStart
              generation })

/-- The section of `solar_os_jobs_start` that queues a start for want of memory. -/
def queuePending (index : Nat) (generation : UInt32) (pending : Nat) (w : World) : World × Bool :=
  let runtime := w.runtime index
  if runtime.generation = generation ∧ runtime.lifecycleBusy then
    (w.put index { runtime with
        pendingStart := some pending, lastError := .ok, state := .waiting, lifecycleBusy := false },
      true)
  else (w, false)

/-- The last section of `solar_os_jobs_start`; whether it queued the start instead. -/
def finishStart (index : Nat) (generation : UInt32) (newPending : Option Nat) (result : EspErr)
    (w : World) : World × Bool :=
  let runtime := w.runtime index
  if runtime.generation = generation ∧ runtime.lifecycleBusy then
    match newPending with
    | some pending =>
      (w.put index { runtime with
          pendingStart := some pending, lastError := .ok, state := .waiting, lifecycleBusy := false },
        true)
    | none =>
      (w.put index { runtime with
          lastError := result, state := if result = .ok then .running else .failed
          lifecycleBusy := false },
        false)
  else (w, false)

/-- The first section of `solar_os_jobs_stop`. -/
def beginStop (task : Task) (name : String) (w : World) : World × StopPlan :=
  match jobIndexByName jobs name with
  | none => (w, .refused .notFound)
  | some index =>
    let runtime := w.runtime index
    if runtime.lifecycleBusy then (w, .refused .invalidState)
    else if runtime.state ≠ .running then
      (w.put index { runtime with pendingStart := none, state := .stopped },
        .idle runtime.pendingStart)
    else
      let stopAfterCallback := runtime.ownCallback task
      let generation := nextGeneration runtime.generation
      let w := w.put index { runtime with
        lifecycleBusy := true, stopAfterCallback, generation, state := .stopped }
      if stopAfterCallback then (w.note index .stopDeferred, .deferred)
      else (w, .begun index generation ((jobs[index]?.map Job.stop).getD false))

/-- The section of `job_complete_stop`. -/
def finishStop (index : Nat) (generation : UInt32) (w : World) : World :=
  let runtime := w.runtime index
  if runtime.generation = generation ∧ runtime.lifecycleBusy then
    w.put index { runtime with lastError := .ok, lifecycleBusy := false }
  else w

/-- The workers of the job's generation have called `markStopped`. -/
def endWorkers (index : Nat) (generation : UInt32) (w : World) : World :=
  { w with
    workers := w.workers.map fun worker =>
      if worker.index = index ∧ worker.generation = generation then { worker with ended := true }
      else worker }

def markStopped (name : String) (generation : UInt32) (lastError : EspErr)
    (w : World) : World × EspErr :=
  match jobIndexByName jobs name with
  | none => (w, .notFound)
  | some index =>
    let runtime := w.runtime index
    let w := w.endWorkers index generation
    if generation = 0 ∨ runtime.generation ≠ generation ∨ runtime.lifecycleBusy then
      (w, .invalidState)
    else ((w.put index { runtime with state := .stopped, lastError }).note index .reported, .ok)

variable (index : Nat)

/-- The section of `job_retry_pending_start` that looks for a queued start. -/
def lookForRetry (w : World) : Option (Nat × UInt32) :=
  let runtime := w.runtime index
  if runtime.state = .waiting ∧ runtime.lifecycleBusy = false then
    runtime.pendingStart.map fun pending => (pending, runtime.generation)
  else none

/-- The section of `job_retry_pending_start` that claims the job. -/
def claimRetry (generation : UInt32) (pending : Nat) (w : World) : World × Bool :=
  let runtime := w.runtime index
  if runtime.generation = generation ∧ runtime.state = .waiting ∧ runtime.lifecycleBusy = false ∧
      runtime.pendingStart = some pending then
    (w.put index { runtime with lifecycleBusy := true }, true)
  else (w, false)

/-- The last section of `job_retry_pending_start`; whether the queued start is done with. -/
def finishRetry (generation : UInt32) (pending : Nat) (result : EspErr) (w : World) :
    World × Bool :=
  let runtime := w.runtime index
  if runtime.generation = generation ∧ runtime.state = .waiting ∧ runtime.lifecycleBusy ∧
      runtime.pendingStart = some pending then
    if result ≠ .noMem then
      (w.put index { runtime with
          lastError := result, lifecycleBusy := false, pendingStart := none
          state := if result = .ok then .running else .failed },
        true)
    else (w.put index { runtime with lastError := result, lifecycleBusy := false }, false)
  else (w, false)

/-- The section of `solar_os_jobs_tick` before a callback; the generation it is for. -/
def beginCallback (due : Bool) (w : World) :
    World × Option UInt32 :=
  let runtime := w.runtime index
  if runtime.state = .running ∧ runtime.lifecycleBusy = false ∧
      (jobs[index]?.map Job.event).getD false = true ∧ due then
    (w.put index { runtime with
        callbackRefs := runtime.callbackRefs + 1, callbackTask := some .ticker },
      some runtime.generation)
  else (w, none)

/-- The section of `solar_os_jobs_tick` after a callback; the deferred stop it takes over. -/
def endCallback (w : World) : World × Option (UInt32 × Bool) :=
  let runtime := w.runtime index
  let refs := runtime.callbackRefs - 1
  if refs = 0 then
    if runtime.stopAfterCallback ∧ runtime.lifecycleBusy ∧ runtime.state = .stopped then
      (w.put index { runtime with
          callbackRefs := refs, callbackTask := none, stopAfterCallback := false },
        some (runtime.generation, (jobs[index]?.map Job.stop).getD false))
    else (w.put index { runtime with callbackRefs := refs, callbackTask := none }, none)
  else (w.put index { runtime with callbackRefs := refs }, none)

def spawn (w : World) : World :=
  { w with
    workers := w.workers ++ [{ index, generation := (w.runtime index).generation, ended := false }] }

/-- A pending-start record is allocated in a block that is not in use, or there is none. -/
def createPending (args : List String) (block : Option Nat) (w : World) : World × Option Nat :=
  match block with
  | some pending =>
    if pending ∈ w.heap.map Prod.fst then (w, none)
    else ({ w with heap := (pending, args) :: w.heap }, some pending)
  | none => (w, none)

def free (pending : Nat) (w : World) : World :=
  if pending ∈ w.heap.map Prod.fst then { w with heap := w.heap.filter fun e => e.1 ≠ pending }
  else { w with misfrees := w.misfrees + 1 }

end World

def appArgMax : Nat := 8
def appArgLen : Nat := 160

inductive Request where
  | start (name : String) (args : List String)
  | stop (name : String)

structure Env where
  canCreate : Bool
  block : Option Nat
  due : Bool
  result : EspErr
  spawns : Bool
  requests : List Request

/-- The critical sections, the moments of the drivers and the uses of memory. -/
inductive Op : Type → Type
  | canCreate (workerStackBytes : Nat) : Op Bool
  | createPending (args : List String) : Op (Option Nat)
  | readPending (pending : Nat) : Op (List String)
  | free (pending : Nat) : Op Unit
  | beginStart (task : Task) (name : String) : Op (Except EspErr StartPlan)
  | awaitCallbacks (index : Nat) : Op Unit
  | queuePending (index : Nat) (generation : UInt32) (pending : Nat) : Op Bool
  | finishStart (index : Nat) (generation : UInt32) (newPending : Option Nat) (result : EspErr) : Op Bool
  | beginStop (task : Task) (name : String) : Op StopPlan
  | finishStop (index : Nat) (generation : UInt32) : Op Unit
  | markStopped (name : String) (generation : UInt32) (lastError : EspErr) : Op EspErr
  | lookForRetry (index : Nat) : Op (Option (Nat × UInt32))
  | claimRetry (index : Nat) (generation : UInt32) (pending : Nat) : Op Bool
  | finishRetry (index : Nat) (generation : UInt32) (pending : Nat) (result : EspErr) : Op Bool
  | enterTick : Op Unit
  | leaveTick : Op Unit
  | beginCallback (index : Nat) : Op (Option UInt32)
  | enterCallback (index : Nat) : Op (List Request)
  | leaveCallback (index : Nat) : Op Unit
  | endCallback (index : Nat) : Op (Option (UInt32 × Bool))
  | enterStart (index : Nat) (args : List String) : Op Unit
  | spawn (index : Nat) : Op Unit
  | leaveStart (index : Nat) : Op EspErr
  | enterStop (index : Nat) : Op Unit
  | leaveStop (index : Nat) : Op Unit

variable (jobs : List Job)

def act {α : Type} : Op α → World → Env → World × α
  | .canCreate _, w, e => (w, e.canCreate)
  | .createPending args, w, e => w.createPending args e.block
  | .readPending pending, w, _ => (w, (w.heap.lookup pending).getD [])
  | .free pending, w, _ => (w.free pending, ())
  | .beginStart task name, w, _ => w.beginStart jobs task name
  | .awaitCallbacks _, w, _ => (w, ())
  | .queuePending index generation pending, w, _ => w.queuePending index generation pending
  | .finishStart index generation newPending result, w, _ =>
    w.finishStart index generation newPending result
  | .beginStop task name, w, _ => w.beginStop jobs task name
  | .finishStop index generation, w, _ => (w.finishStop index generation, ())
  | .markStopped name generation lastError, w, _ => w.markStopped jobs name generation lastError
  | .lookForRetry index, w, _ => (w, w.lookForRetry index)
  | .claimRetry index generation pending, w, _ => w.claimRetry index generation pending
  | .finishRetry index generation pending result, w, _ =>
    w.finishRetry index generation pending result
  | .enterTick, w, _ => ({ w with ticking := true }, ())
  | .leaveTick, w, _ => ({ w with ticking := false }, ())
  | .beginCallback index, w, e => w.beginCallback jobs index e.due
  | .enterCallback index, w, e => (w.note index .callbackBegan, e.requests)
  | .leaveCallback index, w, _ => (w.note index .callbackEnded, ())
  | .endCallback index, w, _ => w.endCallback jobs index
  | .enterStart index args, w, _ => (w.note index (.startBegan args), ())
  | .spawn index, w, e => (if e.spawns then w.spawn index else w, ())
  | .leaveStart index, w, e => (w.note index (.startEnded e.result), e.result)
  | .enterStop index, w, _ => (w.note index .stopBegan, ())
  | .leaveStop index, w, _ => (w.note index .stopEnded, ())

def enabled {α : Type} : Op α → World → Prop
  | .awaitCallbacks index, w => (w.runtime index).callbackRefs = 0
  | .enterTick, w => w.ticking = false
  | _, _ => True

instance {α : Type} (op : Op α) (w : World) : Decidable (enabled op w) := by
  cases op <;> unfold enabled <;> infer_instance

variable (index : Nat)

/-- `job->start`, which may create a worker before it returns. -/
def driverStart (args : List String) : Program Op EspErr := do
  invoke (.enterStart index args)
  invoke (.spawn index)
  invoke (.leaveStart index)

/-- `job->stop`. -/
def driverStop : Program Op Unit := do
  invoke (.enterStop index)
  invoke (.leaveStop index)

/-- `solar_os_memory_free`, for which NULL is nothing to free. -/
def freePending : Option Nat → Program Op Unit
  | some pending => invoke (.free pending)
  | none => pure ()

def completeStop (generation : UInt32) (stop : Bool) : Program Op Unit := do
  if stop then driverStop index
  invoke (.finishStop index generation)

/-- The part of `solar_os_jobs_start` after the driver is quiet, for a queued start. -/
def queueStart (plan : StartPlan) (pending : Nat) : Program Op EspErr := do
  if ← invoke (.queuePending plan.index plan.generation pending) then return .ok
  invoke (.free pending)
  return .invalidState

/-- The part of `solar_os_jobs_start` after the driver is quiet. -/
def launch (job : Job) (plan : StartPlan) (args : List String) : Program Op EspErr := do
  let result ← if plan.start then driverStart plan.index args else pure .ok
  let newPending ←
    if result = .noMem ∧ job.workerStackBytes > 0 then invoke (.createPending args) else pure none
  if ← invoke (.finishStart plan.index plan.generation newPending result) then return .ok
  freePending newPending
  return result

/-- The part of `solar_os_jobs_start` after its first section. -/
def restart (job : Job) (plan : StartPlan) (newPending : Option Nat) (args : List String) :
    Program Op EspErr := do
  invoke (.awaitCallbacks plan.index)
  if plan.stop then driverStop plan.index
  freePending plan.oldPending
  match newPending with
  | some pending => queueStart plan pending
  | none => launch job plan args

/-- The part of `solar_os_jobs_start` from its first section on. -/
def admitStart (job : Job) (task : Task) (name : String) (newPending : Option Nat)
    (args : List String) : Program Op EspErr := do
  match ← invoke (.beginStart task name) with
  | .error .notFound => return .notFound
  | .error error => do
    freePending newPending
    return error
  | .ok plan => restart job plan newPending args

def start (task : Task) (name : String) (args : List String) :
    Program Op EspErr :=
  if args.length > appArgMax ∨ ∃ arg ∈ args, arg.utf8ByteSize ≥ appArgLen then pure .invalidArg
  else
    match (jobIndexByName jobs name).bind (jobs[·]?) with
    | none => pure .notFound
    | some job => do
      let room ←
        if job.workerStackBytes > 0 then invoke (.canCreate job.workerStackBytes) else pure true
      if room then admitStart job task name none args
      else
        match ← invoke (.createPending args) with
        | none => return .noMem
        | some pending => admitStart job task name (some pending) args

def stop (task : Task) (name : String) : Program Op EspErr := do
  match ← invoke (.beginStop task name) with
  | .refused error => return error
  | .idle pending => do
    freePending pending
    return .ok
  | .deferred => return .ok
  | .begun index generation stop => do
    invoke (.awaitCallbacks index)
    completeStop index generation stop
    return .ok

/-- `job_retry_pending_start` once there is a queued start and memory for it. -/
def retryClaimed (job : Job) (index : Nat) (pending : Nat) (generation : UInt32) :
    Program Op Unit := do
  if ← invoke (.claimRetry index generation pending) then
    let result ←
      if job.start then do
        let args ← invoke (.readPending pending)
        driverStart index args
      else pure .ok
    if ← invoke (.finishRetry index generation pending result) then invoke (.free pending)

def retryPendingStart : Program Op Unit := do
  match ← invoke (.lookForRetry index), jobs[index]? with
  | some (pending, generation), some job =>
    if ← invoke (.canCreate job.workerStackBytes) then retryClaimed job index pending generation
  | _, _ => return ()

/-- What a callback asks for, on the task that runs it. -/
def serve (jobs : List Job) : List Request → Program Op Unit
  | [] => pure ()
  | .start name args :: requests => do
    let _ ← start jobs .ticker name args
    serve jobs requests
  | .stop name :: requests => do
    let _ ← stop .ticker name
    serve jobs requests

/-- A job's callback in `solar_os_jobs_tick`, and the stop deferred from inside it. -/
def dispatch : Program Op Unit := do
  let requests ← invoke (.enterCallback index)
  serve jobs requests
  invoke (.leaveCallback index)
  match ← invoke (.endCallback index) with
  | some (generation, stop) => completeStop index generation stop
  | none => return ()

/-- One job's turn in `solar_os_jobs_tick`. -/
def tickJob : Program Op Unit := do
  retryPendingStart jobs index
  match ← invoke (.beginCallback index) with
  | some _ => dispatch jobs index
  | none => return ()

def tickJobs (jobs : List Job) : List Nat → Program Op Unit
  | [] => pure ()
  | index :: rest => do
    tickJob jobs index
    tickJobs jobs rest

def tick : Program Op EspErr := do
  invoke .enterTick
  tickJobs jobs (List.range jobs.length)
  invoke .leaveTick
  return .ok

/-- The calls that tasks make; those from inside a callback are made there. -/
inductive Call where
  | start (task : Nat) (name : String) (args : List String)
  | stop (task : Nat) (name : String)
  | markStopped (name : String) (generation : UInt32) (lastError : EspErr)
  | tick

def body : Call → Program Op EspErr
  | .start task name args => start jobs (.other task) name args
  | .stop task name => stop (.other task) name
  | .markStopped name generation lastError => invoke (.markStopped name generation lastError)
  | .tick => tick jobs

/-- The calls under way, over the job table. -/
abbrev Calls := Pool Op World EspErr

def takeTurn : Calls → Turn Call Env → Calls := Pool.turn (act jobs) enabled (body jobs)

def boot : Calls := { state := .initial, threads := [] }

end SolarOs.Jobs
