import Cartridge.Transpiler

/-!
# Studios

A configuration, what surrounds a run, and a transpiler that is made of the configuration when it
is first needed. Steps that need no transpiler need no provider either.

* `ready_of_some`: a transpiler that is there is used as it is.
-/

namespace Cartridge

/-- A configuration, what surrounds a run, and the transpiler if it was needed already. -/
structure Studio (R : Type) where
  config : Config R
  session : Session R
  transpiler? : Option (Transpiler R) := none

namespace Studio

variable {R α : Type} [Quantity R] [Inhabited R]

abbrev Task (R α : Type) := Run (Studio R) (Stop R) α

def say (write : Console → Console) : Task R Unit :=
  Run.update fun s => { s with session := s.session.say write }

/-- The transpiler, made of the configuration if it is not there. -/
def ready : Task R (Transpiler R) := fun s =>
  match s.transpiler? with
  | some t => (.ok t, s)
  | none =>
    match Transpiler.create s.config s.config.serviceProviders s.session with
    | (.ok t, session) => (.ok t, { s with session, transpiler? := some t })
    | (.error e, session) => (.error e, { s with session })

def putBack (s : Studio R) (w : Workbench R) : Studio R :=
  { s with session := w.session, transpiler? := some w.transpiler }

/-- Runs a task that needs the transpiler. -/
def work (task : Workbench.Task R α) : Task R α := do
  let transpiler ← ready
  fun s =>
    let (r, w) := task { session := s.session, transpiler }
    (r, s.putBack w)

theorem ready_of_some {s : Studio R} {t : Transpiler R} (h : s.transpiler? = some t) :
    ready s = (.ok t, s) := by
  simp [ready, h]

end Studio

end Cartridge
