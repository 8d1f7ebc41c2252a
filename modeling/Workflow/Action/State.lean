/-!
# How actions end, and what may run after them

An action may run after another one when that one has ended in one of certain states. The three run
modes are the sets of states in use.
-/

set_option autoImplicit false

namespace Workflow

inductive State where
  | aborted
  | cancelled
  | failed
  | faulted
  | ignored
  | paused
  | running
  | skipped
  | succeeded
  | suspended
  | timedOut
  | waiting
  deriving DecidableEq, Repr

namespace State

def all : List State :=
  [aborted, cancelled, failed, faulted, ignored, paused, running, skipped, succeeded, suspended,
    timedOut, waiting]

def name : State → String
  | aborted => "Aborted"
  | cancelled => "Cancelled"
  | failed => "Failed"
  | faulted => "Faulted"
  | ignored => "Ignored"
  | paused => "Paused"
  | running => "Running"
  | skipped => "Skipped"
  | succeeded => "Succeeded"
  | suspended => "Suspended"
  | timedOut => "TimedOut"
  | waiting => "Waiting"

def ofName? (name : String) : Option State := all.find? (·.name = name)

end State

/-- When an action runs, seen from the action before it. -/
inductive RunMode where
  | normal
  | force
  | onlyIfFailed
  deriving DecidableEq, Repr

namespace RunMode

def all : List RunMode := [normal, force, onlyIfFailed]

def name : RunMode → String
  | normal => "normal"
  | force => "force"
  | onlyIfFailed => "only_if_failed"

def ofName? (name : String) : Option RunMode := all.find? (·.name = name)

def states : RunMode → List State
  | normal => [.succeeded]
  | force => [.succeeded, .failed, .skipped, .timedOut]
  | onlyIfFailed => [.failed]

end RunMode

end Workflow
