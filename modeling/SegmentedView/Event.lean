/-!
# Events

What the library reports while it works, by cause. Each event has a level, the
module path it is filed under and a message.
-/

set_option autoImplicit false

namespace SegmentedView

/-- How much an event matters, the most important first. -/
inductive Level
  | error
  | warn
  | info
  | debug
  | trace
  deriving DecidableEq, Repr

/-- The name of a level. -/
def Level.label : Level → String
  | .error => "ERROR"
  | .warn => "WARN"
  | .info => "INFO"
  | .debug => "DEBUG"
  | .trace => "TRACE"

/-- Something worth reporting. -/
inductive Event
  /-- The last holder of a generation lets go of it. -/
  | releasing (version : Nat)
  /-- A lease was given back once more than it was taken. -/
  | overReturned (version : Nat)
  /-- A reopen moved to another generation. -/
  | refreshed (before after reused opened : Nat)
  /-- A reopen ended after some nanoseconds. -/
  | reopenReturns (nanos : Nat) (slow changed : Bool)
  /-- A configuration file is about to be read. -/
  | loadingConfig (path : String)
  deriving DecidableEq, Repr

namespace Event

/-- The level of an event. -/
def level : Event → Level
  | .releasing _ => .debug
  | .overReturned _ => .warn
  | .refreshed _ _ _ _ => .debug
  | .reopenReturns _ slow _ => if slow then .info else .debug
  | .loadingConfig _ => .debug

/-- The module path that an event is filed under. -/
def target : Event → String
  | .releasing _ => "tessera::store::handle"
  | .overReturned _ => "tessera::store::handle"
  | .refreshed _ _ _ _ => "tessera::composite::reopen"
  | .reopenReturns _ _ _ => "tessera::composite::reopen"
  | .loadingConfig _ => "tessera::cli::commands"

/-- The message of an event. -/
def message : Event → String
  | .releasing version => s!"releasing store generation {version}"
  | .overReturned version => s!"dec_ref on released store generation {version}"
  | .refreshed before after reused opened =>
    s!"reopen {before} -> {after}: {reused} segments reused, {opened} opened"
  | .reopenReturns nanos _ changed =>
    s!"reopen returns in {nanos / 1000000}ms " ++
      (if changed then "with change" else "without change")
  | .loadingConfig path => "loading view configuration from " ++ path

end Event

end SegmentedView
