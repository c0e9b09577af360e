import Cartridge.Proofs.Transpiler.Failing
import Cartridge.Toolchain.Build

/-!
# Conversions that fail

A conversion that asks a provider writes nothing before everything that can fail is over: what
follows can only be stopped by a fault. So a conversion that fails changes nothing but the studio,
however far it came.

* `Workshop.around`: everything in a workshop but its studio.
* `change_never`, `writeResult_never`: writing does not fail.
* `convertFile_spares`, `convertFolder_spares`: a conversion that fails has written nothing.
* `transpile_untouched`: so it is for every path.
-/

namespace Cartridge

open Run

variable {R α : Type}

/-- What stopped a run is a failure, which is reported to the user. -/
def Stop.Foreseen : Stop R → Prop
  | .failed _ => True
  | .broken _ => False

/-! ## Steps in a workshop -/

namespace Workshop

/-- Everything in a workshop but its studio. -/
def around (w : Workshop R) (studio : Studio R) : Workshop R := { w with studio }

variable [Quantity R] [Inhabited R]

omit [Quantity R] [Inhabited R] in
theorem inStudio_keeps (task : Studio.Task R α) : Keeps around (inStudio task) := .on fun _ _ => rfl

omit [Quantity R] [Inhabited R] in
theorem look_keeps (read : Disk → Except Fault α) :
    Keeps around (look read : Task R α) := fun _ => rfl

omit [Quantity R] [Inhabited R] in
theorem say_never (write : Console → Console) :
    Never Stop.Foreseen (say write : Task R Unit) := .of_ok fun _ => ⟨(), rfl⟩

omit [Quantity R] [Inhabited R] in
theorem change_never (task : Disk.Task α) : Never Stop.Foreseen (change task : Task R α) := by
  intro w w' e h hforeseen
  have hresult : ((task w.disk).1.mapError .broken : Except (Stop R) α) = .error e :=
    congrArg Prod.fst h
  cases hdisk : (task w.disk).1 with
  | ok a =>
    rw [hdisk] at hresult
    cases hresult
  | error fault =>
    rw [hdisk] at hresult
    cases hresult
    exact hforeseen

end Workshop

open Workshop

variable [Quantity R] [Inhabited R]

/-! ## Writing what a conversion gave -/

namespace Project

omit [Quantity R] [Inhabited R] in
theorem writeOutput_never (folder : Path) (given : Entries String) (o : Output) :
    Never Stop.Foreseen (writeOutput folder given o : Workshop.Task R Path) :=
  .bind (say_never _) fun _ => .bind (change_never _) fun _ => .bind (say_never _) fun _ =>
    .of_ok fun _ => ⟨_, rfl⟩

omit [Quantity R] [Inhabited R] in
theorem writeOutputs_never (folder : Path) (given : Entries String) (outputs : List Output) :
    Never Stop.Foreseen (writeOutputs folder given outputs : Workshop.Task R (List Path)) := by
  induction outputs generalizing given with
  | nil => exact .of_ok fun _ => ⟨_, rfl⟩
  | cons o rest ih =>
    exact .bind (writeOutput_never _ _ _) fun _ => .bind (ih _) fun _ => .of_ok fun _ => ⟨_, rfl⟩

omit [Quantity R] [Inhabited R] in
theorem writeResult_never (r : ProjectResult R) (folder : Path) :
    Never Stop.Foreseen (writeResult r folder : Workshop.Task R (List Path)) :=
  .bind (change_never _) fun _ => .bind (.of_ok fun _ => ⟨_, rfl⟩) fun _ =>
    .bind (writeOutputs_never _ _ _) fun _ => .bind (change_never _) fun _ =>
      .of_ok fun _ => ⟨_, rfl⟩

theorem convertAt_keeps (path : String) (o : Settings) :
    Keeps around (convertAt path o : Workshop.Task R (ProjectResult R)) :=
  .bind .get fun _ => inStudio_keeps _

end Project

/-! ## Conversions -/

namespace Build

theorem convertFile_spares (source : Path) :
    Spares Stop.Foreseen around (convertFile source : Workshop.Task R Unit) := by
  refine .bind (inStudio_keeps _) fun _ => .bind (inStudio_keeps _) fun _ => ?_
  refine .bind (look_keeps _) fun _ => .bind .get fun _ => .bind (inStudio_keeps _) fun r => ?_
  exact .of_never (.bind (change_never _) fun _ => say_never _)

theorem convertFolder_spares (folder : Path) :
    Spares Stop.Foreseen around (convertFolder folder : Workshop.Task R Unit) := by
  refine .bind .get fun w => ?_
  dsimp only
  split
  · exact .of_keeps (.stop _)
  · refine .bind (inStudio_keeps _) fun _ => .bind (Project.convertAt_keeps _ _) fun r => ?_
    exact .of_never (.bind (Project.writeResult_never _ _) fun _ => say_never _)

/-- What stands at the path decides on the way of the conversion. -/
theorem transpile_apply (path : String) (w : Workshop R) :
    transpile path w =
      match w.disk.hasFolder (Path.ofString path) with
      | .error fault => (.error (.broken fault), w)
      | .ok true => convertFolder (Path.ofString path) w
      | .ok false =>
        match w.disk.has (Path.ofString path) with
        | .error fault => (.error (.broken fault), w)
        | .ok false => (.error (.failed (.sourceMissing path)), w)
        | .ok true =>
          if w.studio.config.tools.translator = "ts2c" then translate (Path.ofString path) w
          else convertFile (Path.ofString path) w := by
  unfold transpile
  rw [bind_apply, look]
  cases w.disk.hasFolder (Path.ofString path) with
  | error fault => rfl
  | ok isFolder =>
    cases isFolder with
    | true => rfl
    | false =>
      show (look (·.has (Path.ofString path)) >>= _) w = _
      rw [bind_apply, look]
      cases w.disk.has (Path.ofString path) with
      | error fault => rfl
      | ok isThere =>
        cases isThere with
        | false => rfl
        | true =>
          by_cases hwith : w.studio.config.tools.translator = "ts2c"
          · rw [if_pos hwith]
            exact congrFun (if_pos hwith) w
          · rw [if_neg hwith]
            exact congrFun (if_neg hwith) w

/-- A conversion that fails, and does not use the translator that is no language model, leaves
everything but the studio as it was: the disk, and the calls of tools. So it is for a file and for
a folder, and however many prompts were answered before. -/
theorem transpile_untouched (path : String) (w : Workshop R)
    (htranslator : w.studio.config.tools.translator ≠ "ts2c") (why : Failure R)
    (hfailed : (transpile path w).1 = .error (.failed why)) :
    (transpile path w).2 = { w with studio := (transpile path w).2.studio } := by
  suffices haround : (transpile path w).2.around = w.around from
    congrFun haround (transpile path w).2.studio
  have hspared {task : Workshop.Task R Unit} (hspares : Spares Stop.Foreseen around task)
      (h : (task w).1 = .error (.failed why)) : (task w).2.around = w.around :=
    hspares w _ (.failed why) (Prod.ext h rfl) trivial
  rw [transpile_apply] at hfailed ⊢
  split at hfailed
  · cases hfailed
  · exact hspared (convertFolder_spares _) hfailed
  · split at hfailed
    · cases hfailed
    · rfl
    · rw [if_neg htranslator] at hfailed ⊢
      exact hspared (convertFile_spares _) hfailed

/-- A file, and a transpiler whose budget for the day is spent. -/
theorem transpile_untouched_of_spent_budget :
    let text := "let x = 1;"
    let config : Config ℚ := .standard "gbdk"
    let t : Transpiler ℚ :=
      { config
        providers := [("steady", .scripted "steady" 0 (some 1))]
        cache := { maxSize := 10, lifetime := .whole 60 }
        spent := 5
        day := "2024-01-01" }
    let w : Workshop ℚ :=
      { studio :=
          { config, session := { clock := 0, today := "2024-01-01" }, transpiler? := some t }
        disk :=
          ⟨.folder [("main.ts", .file text.toUTF8 FileTree.fileMode)] FileTree.folderMode, []⟩
        tools := fun _ => .cannotStart "" }
    (transpile "/main.ts" w).1 = .error (.failed (.refused (.spent 5 5))) ∧
      (transpile "/main.ts" w).2 = { w with studio := (transpile "/main.ts" w).2.studio } := by
  intro text config t w
  have hfolder : w.disk.hasFolder (Path.ofString "/main.ts") = .ok false := by decide +kernel
  have hthere : w.disk.has (Path.ofString "/main.ts") = .ok true := by decide +kernel
  have hread : w.disk.readText (Path.ofString "/main.ts") = .ok text := by decide +kernel
  let said : Workshop ℚ := (Workshop.say
    (·.start "🤖 Starting AI-powered transpilation TypeScript → GameBoy C") w).2
  have hready : inStudio Studio.ready said = (.ok t, said) := rfl
  have hlook : (look (·.readText (Path.ofString "/main.ts")) : Workshop.Task ℚ String) said =
      (.ok text, said) := by
    rw [look, show said.disk.readText (Path.ofString "/main.ts") = .ok text from hread]
    rfl
  let request : Request := { source := text, target := said.studio.config.target }
  have hrefused : (Workbench.transpile request ⟨said.studio.session, t⟩).1 =
      .error (.failed (.refused (.spent 5 5))) := Workbench.transpile_of_spent rfl (by decide)
  have hwork : (inStudio (Studio.work (Workbench.transpile request)) said).1 =
      .error (.failed (.refused (.spent 5 5))) := hrefused
  have hfailed : (transpile "/main.ts" w).1 = .error (.failed (.refused (.spent 5 5))) := by
    rw [transpile_apply, hfolder, hthere]
    show (if config.tools.translator = "ts2c" then _ else _ : Except _ _ × Workshop ℚ).1 = _
    rw [if_neg (by decide), convertFile, bind_ok (show Workshop.say _ w = (.ok (), said) from rfl),
      bind_ok hready, bind_ok hlook, bind_ok (show Run.get said = (.ok said, said) from rfl),
      bind_error (Prod.ext hwork rfl)]
  exact ⟨hfailed, transpile_untouched "/main.ts" w (by decide) _ hfailed⟩

end Build

end Cartridge
