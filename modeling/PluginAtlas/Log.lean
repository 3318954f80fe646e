import PluginAtlas.Json.Basic
import PluginAtlas.Text.Casing

/-!
# Log levels

Every event is logged at a level, and a log shows the events at or above its
threshold. A threshold is named by a level, letter case ignored; a name that is none
stands for the level of information.

## Main definitions

* `Level`, `Level.rank`: the levels, in order.
* `Level.threshold`: the least rank that a name lets through.
* `Level.shownAt`: whether a log shows an event.
* `logLine`: the fields of a line of the log.
-/

namespace PluginAtlas

/-- How severe an event is. -/
inductive Level where
  | debug | info | warning | error | critical
deriving DecidableEq, Repr, Inhabited

namespace Level

/-- The place of a level in their order. -/
def rank : Level → Nat
  | debug => 10
  | info => 20
  | warning => 30
  | error => 40
  | critical => 50

/-- The name of a level. -/
def word : Level → String
  | debug => "debug"
  | info => "info"
  | warning => "warning"
  | error => "error"
  | critical => "critical"

/-- The level that a name stands for; two levels have a second name. -/
def ofWord? : String → Option Level
  | "debug" => some debug
  | "info" => some info
  | "warning" | "warn" => some warning
  | "error" => some error
  | "critical" | "fatal" => some critical
  | _ => none

/-- The least rank of a threshold, by the upper case of its name. -/
def thresholds : List (String × Nat) := [
  ("NOTSET", 0), ("DEBUG", 10), ("INFO", 20), ("WARN", 30), ("WARNING", 30), ("ERROR", 40),
  ("FATAL", 50), ("CRITICAL", 50)]

/-- The least rank that a named threshold lets through. -/
def threshold (name : String) : Nat := (thresholds.lookup (Text.upper name)).getD info.rank

/-- Whether events of a level are shown by a log with a named threshold. -/
def shownAt (level : Level) (name : String) : Bool := threshold name ≤ level.rank

end Level

/-- The fields of a line of the log; the level and the event stand for themselves. -/
def logLine (level : Level) (event : String) (fields : List (String × Json)) :
    List (String × Json) :=
  Json.insertField "event" (.str event) (Json.insertField "level" (.str level.word) fields)

end PluginAtlas
