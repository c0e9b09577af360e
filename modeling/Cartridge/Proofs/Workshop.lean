import Cartridge.Proofs.Run
import Cartridge.Workshop

/-!
# Steps in a workshop

* `messages`: what the console has shown.
* `look_ok`, `change_ok`, `inStudio_ok`: what a step that ends leaves.
* `look_of_ok`, `look_of_error`, `change_of_ok`, `inStudio_of_ok`: what comes of a step.
-/

namespace Cartridge.Workshop

open Run

variable {R α : Type} {w w' : Workshop R}

/-- What the console of a workshop has shown. -/
def messages (w : Workshop R) : List Message := w.studio.session.console.messages

/-! ## Steps that end -/

theorem look_ok {read : Disk → Except Fault α} {a : α}
    (h : (look read : Task R α) w = (.ok a, w')) : read w.disk = .ok a ∧ w' = w := by
  unfold look at h
  cases hread : read w.disk with
  | error e =>
    rw [hread] at h
    cases h
  | ok b =>
    rw [hread] at h
    cases h
    exact ⟨rfl, rfl⟩

theorem look_of_ok {read : Disk → Except Fault α} {a : α} (h : read w.disk = .ok a) :
    (look read : Task R α) w = (.ok a, w) := by
  rw [look, h]
  rfl

theorem look_of_error {read : Disk → Except Fault α} {fault : Fault}
    (h : read w.disk = .error fault) : (look read : Task R α) w = (.error (.broken fault), w) := by
  rw [look, h]
  rfl

theorem change_ok {task : Disk.Task α} {a : α} (h : (change task : Task R α) w = (.ok a, w')) :
    ∃ d, task w.disk = (.ok a, d) ∧ w' = { w with disk := d } := by
  have htask : (task.mapError .broken : Run Disk (Stop R) α) w.disk =
      (.ok a, ((task.mapError .broken : Run Disk (Stop R) α) w.disk).2) :=
    Prod.ext (congrArg Prod.fst h :) rfl
  exact ⟨_, Run.mapError_eq_ok htask, (congrArg Prod.snd h).symm⟩

theorem change_of_ok {task : Disk.Task α} {a : α} {d : Disk} (h : task w.disk = (.ok a, d)) :
    (change task : Task R α) w = (.ok a, { w with disk := d }) := by
  unfold change Run.on Run.mapError
  rw [h]
  rfl

theorem inStudio_ok {task : Studio.Task R α} {a : α}
    (h : (inStudio task : Task R α) w = (.ok a, w')) : ∃ studio, w' = { w with studio } :=
  ⟨_, (congrArg Prod.snd h).symm⟩

theorem inStudio_of_ok {task : Studio.Task R α} {a : α} (h : (task w.studio).1 = .ok a) :
    ∃ w', inStudio task w = (.ok a, w') ∧ w'.disk = w.disk := ⟨_, Prod.ext h rfl, rfl⟩

end Cartridge.Workshop
