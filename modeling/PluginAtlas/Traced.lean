import PluginAtlas.Notice
import PluginAtlas.Settings

/-!
# Traced computations

What a run does besides computing its result: the notices it gives and the calls it
makes to the outside, each in order.

## Main definitions

* `Call`: a call to another program or to a language model.
* `Traced`: a result with the notices and calls on the way to it.
-/

namespace PluginAtlas

/-- A call to the outside. -/
inductive Call where
  /-- A program is started. -/
  | process (arguments : List String) (timeout : Seconds)
  /-- A connection to a language model is set up. -/
  | connection (apiKey baseUrl : String) (timeout : Seconds) (retries : Nat)
  /-- A language model is asked. -/
  | request (model : String) (temperature : Decimal.Binary64) (message : String)

/-- A result, with the notices and calls on the way to it. -/
structure Traced (α : Type) where
  value : α
  notices : List Notice := []
  calls : List Call := []

namespace Traced

instance : Monad Traced where
  pure a := { value := a }
  bind x f :=
    let y := f x.value
    ⟨y.value, x.notices ++ y.notices, x.calls ++ y.calls⟩

@[simp] theorem value_pure {α : Type} (a : α) : (pure a : Traced α).value = a := rfl

@[simp] theorem value_bind {α β : Type} (x : Traced α) (f : α → Traced β) :
    (x >>= f).value = (f x.value).value := rfl

/-- Gives a notice. -/
def notify (notice : Notice) : Traced Unit := { value := (), notices := [notice] }

/-- Gives several notices. -/
def notifyAll (notices : List Notice) : Traced Unit := { value := (), notices }

/-- Makes a call. -/
def call (c : Call) : Traced Unit := { value := (), calls := [c] }

end Traced

end PluginAtlas
