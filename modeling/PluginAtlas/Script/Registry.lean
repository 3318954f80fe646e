import PluginAtlas.Script.Reader

/-!
# The registry of script readers

Strategies are registered under names, and the reader of a name is made when it is first
asked for. A reader is made once and then kept, until another strategy is registered
under its name.

The bookkeeping does not depend on what strategies there are or on how their readers are
made, which may fail: both are left open, and the registry of script readers is one case.

## Main definitions

* `Made`: a reader that was made.
* `Catalog`, `Catalog.register`, `Catalog.get`: strategies and readers by name.
* `Strategy`, `Strategy.make`: the ways to read scripts.
* `Registry`, `Registry.standard`, `Registry.get`: the catalog of these.
-/

namespace PluginAtlas.Script

/-- A reader that was made: its number among all that were made, the strategy that it was
made by, and its parts. -/
structure Made (σ π : Type) where
  serial : Nat
  strategy : σ
  parts : π
deriving DecidableEq, Repr

/-- Strategies by name, the readers made for names, and the number of readers made. -/
structure Catalog (σ π : Type) where
  strategies : List (String × σ) := []
  made : List (String × Made σ π) := []
  count : Nat := 0
deriving DecidableEq, Repr

namespace Catalog

variable {σ ε π : Type}

/-- The catalog without any name. -/
def empty : Catalog σ π := {}

/-- Registers a strategy under a name; a reader made under that name is forgotten. -/
def register (r : Catalog σ π) (name : String) (strategy : σ) : Catalog σ π where
  strategies := (name, strategy) :: r.strategies.filter (·.1 ≠ name)
  made := r.made.filter (·.1 ≠ name)
  count := r.count

/-- The registered names, sorted. -/
def names (r : Catalog σ π) : List String := (r.strategies.map (·.1)).mergeSort (· ≤ ·)

/-- The reader of a name, made now if none is kept, and the catalog afterwards; `none` for
a name that is not registered. A reader is kept only after it has been made. -/
def get (make : σ → Except ε π) (r : Catalog σ π) (name : String) :
    Except ε (Option (Made σ π)) × Catalog σ π :=
  match r.made.lookup name with
  | some i => (.ok (some i), r)
  | none =>
    match r.strategies.lookup name with
    | none => (.ok none, r)
    | some strategy =>
      match make strategy with
      | .error e => (.error e, r)
      | .ok parts =>
        let i := ⟨r.count, strategy, parts⟩
        (.ok (some i), { r with made := (name, i) :: r.made, count := r.count + 1 })

end Catalog

/-- A way to read scripts. -/
inductive Strategy where
  | native
  | external
deriving DecidableEq, Repr

/-- The program that the reader of a strategy asks, if it asks one. -/
def Strategy.make (settings : Settings) : Strategy → Except CommandError (Option External)
  | .native => .ok none
  | .external => (External.of settings none none).map some

/-- A script reader that was made. -/
abbrev Instance := Made Strategy (Option External)

/-- The reader that an instance is. -/
def Instance.reader (parser : Parser) (launch : Launch) (i : Instance) : ScriptReader :=
  match i.parts with
  | some program => program.reader launch
  | none => nativeReader parser

/-- The catalog of script readers. -/
abbrev Registry := Catalog Strategy (Option External)

namespace Registry

/-- The registry with the two strategies under their names. -/
def standard : Registry :=
  (Catalog.empty.register "native" .native).register "external" .external

/-- The script reader of a name and the registry afterwards, if the reader can be made. A
name that is not registered is noticed. -/
def get (settings : Settings) (r : Registry) (name : String) :
    Traced (Except CommandError (Option Instance × Registry)) :=
  match Catalog.get (Strategy.make settings) r name with
  | (.ok (some i), r') => pure (.ok (some i, r'))
  | (.ok none, r') => do
    Traced.notify (.unknownStrategy name)
    return .ok (none, r')
  | (.error e, _) => pure (.error e)

end Registry

end PluginAtlas.Script
