import ApiCatalog.Report.Failure
import ApiCatalog.Source.Scope

/-!
Regeneration on change. A change starts a timer and supersedes the one before it; when the latest timer
expires, the library is generated anew, so that a burst of changes leads to one generation. Whoever
waits for changes is told only of an output that differs from the last.
-/

namespace ApiCatalog.Watch

structure Watcher where
  options : Option SourceOptions := none
  generate : Nat → Except String String

structure State where
  /-- How many timers were started; a timer is known by how many were started before it. -/
  started : Nat := 0
  timer : Option Nat := none
  last : Option String := none
  calls : Nat := 0
  announced : List String := []
  deriving DecidableEq

namespace State

def pending (s : State) : Bool :=
  s.timer.isSome

def prime (s : State) (output : String) : State :=
  { s with last := some output }

def cancel (s : State) : State :=
  { s with timer := none }

def start (s : State) : State :=
  { s with started := s.started + 1, timer := some s.started }

end State

def write (level : Level) (message : String) : Noted Unit :=
  .write level .watch message

/-- Whether a change to a file counts. -/
def Watcher.accepts (w : Watcher) (path : String) : Except OptionsError Bool :=
  match w.options with
  | some o => o.contains path
  | none => .ok true

def schedule (w : Watcher) (s : State) (path : String) : Run (State × Bool) := do
  if ← Run.ofOptions (w.accepts path) then
    Run.ofNoted (write .debug ("Scheduled regeneration for " ++ path))
    pure (s.start, true)
  else
    Run.ofNoted (write .debug ("Ignoring change outside the source set: " ++ path))
    pure (s, false)

def regenerate (w : Watcher) (s : State) : Noted State :=
  let called := { s with calls := s.calls + 1 }
  match w.generate s.calls with
  | .error reason => do
    write .error ("Library regeneration failed: " ++ reason)
    pure called
  | .ok output =>
    if s.last = some output then do
      write .debug "Library metadata unchanged"
      pure called
    else do
      write .info "Library metadata regenerated"
      pure { called with last := some output, announced := s.announced ++ [output] }

def expire (w : Watcher) (s : State) (timer : Nat) : Noted State :=
  if s.timer = some timer then regenerate w s.cancel else pure s

def flush (w : Watcher) (s : State) : Noted State :=
  if s.pending then regenerate w s.cancel else pure s

end ApiCatalog.Watch
