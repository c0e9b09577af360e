/-!
# Runs

A run looks at a state, changes it, and ends with a value or is stopped. What was done before the
stop stays done.

* `bind_ok`, `bind_error`: how a run goes on, and how it stops.
-/

namespace Cartridge

/-- A run over states `σ` that ends with an `α` or is stopped by an `ε`. -/
def Run (σ ε α : Type) : Type := σ → Except ε α × σ

namespace Run

variable {σ τ ε α β : Type}

/-- Ends with a value and changes nothing. -/
def done (a : α) : Run σ ε α := fun s => (.ok a, s)

def stop (e : ε) : Run σ ε α := fun s => (.error e, s)

/-- One run and, unless it is stopped, another that knows its value. -/
def andThen (x : Run σ ε α) (f : α → Run σ ε β) : Run σ ε β := fun s =>
  match x s with
  | (.ok a, s') => f a s'
  | (.error e, s') => (.error e, s')

instance : Monad (Run σ ε) where
  pure := done
  bind := andThen

def get : Run σ ε σ := fun s => (.ok s, s)

/-- Changes the state. -/
def update (f : σ → σ) : Run σ ε Unit := fun s => (.ok (), f s)

/-- A value, or a stop, that does not depend on the state. -/
def ofExcept (r : Except ε α) : Run σ ε α := fun s => (r, s)

/-- Looks at the outcome of a run before it goes on; the run is over either way. -/
def attempt (x : Run σ ε α) : Run σ ε (Except ε α) := fun s =>
  let (r, s') := x s
  (.ok r, s')

/-- Runs with another account of why it stops. -/
def mapError {ε' : Type} (f : ε → ε') (x : Run σ ε α) : Run σ ε' α := fun s =>
  let (r, s') := x s
  (r.mapError f, s')

/-- Runs on a part of the state. -/
def on (view : τ → σ) (put : σ → τ → τ) (x : Run σ ε α) : Run τ ε α := fun t =>
  let (r, s) := x (view t)
  (r, put s t)

/-- Runs once for each item, in order, and gives the values. -/
def each (f : α → Run σ ε β) : List α → Run σ ε (List β)
  | [] => done []
  | a :: rest => andThen (f a) fun b => andThen (each f rest) fun bs => done (b :: bs)

theorem bind_ok {x : Run σ ε α} {f : α → Run σ ε β} {s s' : σ} {a : α} (h : x s = (.ok a, s')) :
    (x >>= f) s = f a s' := by
  show andThen x f s = _
  simp [andThen, h]

theorem bind_error {x : Run σ ε α} {f : α → Run σ ε β} {s s' : σ} {e : ε}
    (h : x s = (.error e, s')) : (x >>= f) s = (.error e, s') := by
  show andThen x f s = _
  simp [andThen, h]

end Run

end Cartridge
