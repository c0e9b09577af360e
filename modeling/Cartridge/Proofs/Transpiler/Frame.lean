import Cartridge.Proofs.Run
import Cartridge.Transpiler

/-!
# What the steps of a request leave alone

Each step of a request changes one part of the workbench: what surrounds it, what was spent, the
cache or the examples. A view of the workbench that does not tell of that part is kept by the step.

* `Quiet`: views that do not tell what was said and waited for, such as `still`, the transpiler and
  the prompts sent.
* `Plain`: quiet views that tell of neither cache nor examples, such as `books`, the terms, what was
  spent and the prompts sent, and `voices`, what the network and the providers have still to say.
* `settle_keeps`: settling an answer that was paid for keeps every plain view.
* `terms`: configuration, providers and the day of the last reset; no attempt changes them.
-/

namespace Cartridge.Workbench

open Run

variable {R : Type}

/-- The configuration, the providers, and the day of the last reset. -/
def terms (w : Workbench R) : Config R × Entries (Provider R) × String :=
  (w.transpiler.config, w.transpiler.providers, w.transpiler.day)

/-- The terms, what was spent since the last reset, and the prompts sent. -/
def books (w : Workbench R) : (Config R × Entries (Provider R) × String) × R × List Call :=
  (w.terms, w.transpiler.spent, w.session.calls)

/-- The transpiler and the prompts sent. -/
def still (w : Workbench R) : Transpiler R × List Call := (w.transpiler, w.session.calls)

/-- What the network and the providers have still to say. -/
def voices (w : Workbench R) : List (Timed R Provider.Outcome) × Entries (List (Timed R Reply)) :=
  (w.session.network, w.session.scripts)

/-! ## Views -/

section Views

variable {τ : Type} [Quantity R]

/-- The view does not tell what was said and waited for. -/
structure Quiet (view : Workbench R → τ) : Prop where
  say : ∀ w write, view { w with session := w.session.say write } = view w
  sleep : ∀ w seconds, view { w with session := w.session.sleep seconds } = view w

/-- The view tells neither what was said and waited for nor what the cache holds and the examples
are. -/
structure Plain (view : Workbench R → τ) : Prop extends Quiet view where
  entries : ∀ w entries, view { w with transpiler :=
    { w.transpiler with cache := { w.transpiler.cache with entries } } } = view w
  examples : ∀ w examples, view { w with transpiler := { w.transpiler with examples } } = view w

theorem quiet_still : Quiet (still : Workbench R → _) := ⟨fun _ _ => rfl, fun _ _ => rfl⟩

theorem plain_books : Plain (books : Workbench R → _) :=
  ⟨⟨fun _ _ => rfl, fun _ _ => rfl⟩, fun _ _ => rfl, fun _ _ => rfl⟩

theorem plain_voices : Plain (voices : Workbench R → _) :=
  ⟨⟨fun _ _ => rfl, fun _ _ => rfl⟩, fun _ _ => rfl, fun _ _ => rfl⟩

end Views

/-! ## What is said and waited for -/

section Keeping

variable {τ : Type} {view : Workbench R → τ} [Quantity R] [Inhabited R]

omit [Inhabited R] in
theorem say_keeps (h : Quiet view) (write : Console → Console) : Keeps view (say write) :=
  .update fun w => h.say w write

omit [Inhabited R] in
theorem announce_keeps (h : Quiet view) (job : Job R) (number : Nat) :
    Keeps view (announce job number) := say_keeps h _

theorem afterFailure_keeps (h : Quiet view) (number : Nat) (why : Failure R) (more : Bool) :
    Keeps view (afterFailure number why more) := by
  unfold afterFailure
  refine .bind (say_keeps h _) fun _ => ?_
  split
  · exact .bind (say_keeps h _) fun _ => .update fun w => h.sleep w _
  · exact .pure _

omit [Inhabited R] in
theorem choose_keeps (h : Quiet view) : Keeps view choose := by
  unfold choose
  refine .bind .get fun w => .bind (.ofExcept _) fun chosen => ?_
  dsimp only
  split
  · exact .bind (say_keeps h _) fun _ => .pure _
  · exact .pure _

omit [Quantity R] [Inhabited R] in
theorem orBreak_ok {α : Type} (a : α) (w : Workbench R) :
    orBreak (.ok a : Except Fault α) w = (.ok a, w) := rfl

omit [Quantity R] [Inhabited R] in
theorem orBreak_error {α : Type} (fault : Fault) (w : Workbench R) :
    orBreak (.error fault : Except Fault α) w = (.error (.broken fault), w) := rfl

theorem prepare_keeps (h : Quiet view) (request : Request) (key? : Option String) :
    Keeps view (prepare request key?) := by
  unfold prepare
  refine .bind .get fun w => .bind (.ofExcept _) fun prompt => .bind (say_keeps h _) fun _ => ?_
  refine .bind (choose_keeps h) fun name => ?_
  split
  · exact .stop _
  · exact .pure _

/-! ## The cache and the examples -/

omit [Inhabited R] in
theorem lookUp_keeps (h : Plain view) (key : String) : Keeps view (lookUp key) := by
  intro w
  unfold lookUp
  dsimp only
  rw [w.transpiler.cache.get_eq]
  exact h.entries w _

omit [Inhabited R] in
theorem keep_keeps (h : Plain view) (key : String) (result : Conversion R) :
    Keeps view (keep key result) := by
  intro w
  unfold keep
  dsimp only
  split
  · rename_i cache hset
    rw [Cache.set_eq hset]
    exact h.entries w _
  · exact h.entries w _

omit [Inhabited R] in
theorem store_keeps (h : Plain view) (job : Job R) (result : Conversion R) :
    Keeps view (store job result) := by
  unfold store
  split
  · exact keep_keeps h _ _
  · exact .done _

theorem learn_keeps (h : Plain view) (source code : String) (target : Target) (quality : R)
    (provider : String) : Keeps view (learn source code target quality provider) := by
  unfold learn
  refine .bind .get fun w => ?_
  split
  · exact .bind (.ofExcept _) fun _ => .update fun w => h.examples w _
  · exact .pure _

theorem settle_keeps (h : Plain view) (job : Job R) (answer : Option String) (duration cost : R) :
    Keeps view (settle job answer duration cost) := by
  unfold settle
  split
  · exact .stop _
  · refine .bind .get fun w => .bind (.ofExcept _) fun result => ?_
    refine .bind (store_keeps h _ _) fun _ => .bind (learn_keeps h _ _ _ _ _) fun _ => ?_
    exact .bind (say_keeps h.toQuiet _) fun _ => .bind (say_keeps h.toQuiet _) fun _ => .pure _

end Keeping

/-! ## Asking, paying and opening an account -/

variable [Quantity R]

theorem ask_keeps (job : Job R) : Keeps Workbench.transpiler (ask job) := .on fun _ _ => rfl

variable [Inhabited R]

theorem charge_session (job : Job R) (answer : Option String) :
    Keeps Workbench.session (charge job answer) := by
  intro w
  unfold charge
  split <;> rfl

end Cartridge.Workbench
