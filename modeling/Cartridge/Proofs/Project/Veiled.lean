import Cartridge.Project.Conversion
import Cartridge.Proofs.Transpiler.Veiled

/-!
# Projects converted without keys

The conversion of a project takes no account of what the keys of providers are, or of what was said
before it.

* `Studio.ready_veils`, `Studio.work_veils`: the transpiler is made when it is first needed.
* `convert_veils`: the same comes of a project.
-/

namespace Cartridge

open Run

variable {R α : Type} [Quantity R] [Inhabited R] {old : List Message}

namespace Studio

/-- The studio with older messages before its own, of whose keys is only told whether there are
any. -/
def veiled (old : List Message) (s : Studio R) : Studio R where
  config := s.config.veiled
  session := s.session.behind old
  transpiler? := s.transpiler?.map Transpiler.veiled

/-- A run takes no account of what keys there are, or of what was said before. -/
abbrev Veils (old : List Message) (x : Task R α) : Prop := Carried (veiled old) id x x

omit [Quantity R] [Inhabited R] in
theorem say_veils {write : Console → Console} (h : Console.Writes write) :
    Veils (R := R) old (say write) := by
  refine .update fun s => ?_
  show Studio.mk s.config.veiled ((s.session.behind old).say write) _ = _
  rw [Session.say_behind h]
  rfl

theorem ready_veils : Carried (veiled old) Transpiler.veiled (ready (R := R)) ready := by
  intro s
  obtain ⟨config, session, transpiler?⟩ := s
  cases transpiler? with
  | some t => rfl
  | none =>
    unfold ready
    dsimp only [veiled, Option.map_none]
    rw [Config.serviceProviders_veiled, Transpiler.create_veiled]
    obtain ⟨r, session'⟩ := Transpiler.create config config.serviceProviders session
    cases r <;> rfl

theorem work_veils {task : Workbench.Task R α} (h : Workbench.Veils old task) :
    Veils old (work task) := by
  refine .bind ready_veils fun t s => ?_
  show ((task (Workbench.veiled old ⟨s.session, t⟩)).1,
    (s.veiled old).putBack (task (Workbench.veiled old ⟨s.session, t⟩)).2) = _
  rw [h]
  rfl

end Studio

namespace Project

variable {transpile : Request → Workbench.Task R (Conversion R)}

theorem convertChunk_veils (h : ∀ request, Workbench.Veils old (transpile request)) (s : Schema)
    (o : Settings) (f : SourceFile) (chunk : Source.Chunk) :
    Studio.Veils old (convertChunk transpile s o f chunk) := by
  unfold convertChunk
  refine .bind (Studio.work_veils (h _)).attempt fun r => ?_
  cases r with
  | error e => exact .bind (Studio.say_veils (Console.writes_error _)) fun _ => .stop e
  | ok r =>
    refine .ite ?_ (.done _)
    exact .bind (Studio.say_veils (Console.writes_info _)) fun _ => .done _

theorem convertFile_veils (h : ∀ request, Workbench.Veils old (transpile request)) (s : Schema)
    (o : Settings) (count : Nat) (file : SourceFile × Nat) :
    Studio.Veils old (convertFile transpile s o count file) := by
  unfold convertFile
  refine .bind (Studio.say_veils (Console.writes_info _)) fun _ => ?_
  refine .bind (.each (convertChunk_veils h s o _) _) fun chunks => ?_
  refine .bind (Studio.say_veils (Console.writes_success _)) fun _ => ?_
  rw [List.map_id]
  exact .done _

theorem convertFiles_veils (h : ∀ request, Workbench.Veils old (transpile request)) (p : Project)
    (o : Settings) : Studio.Veils old (convertFiles transpile p o) := by
  have hsay {write : Console → Console} (hwrite : Console.Writes write) :
      Studio.Veils old (Studio.say (R := R) write) := Studio.say_veils hwrite
  have hrest : Studio.Veils old (do
      Studio.say (·.start "Starting AI-powered project transpilation with global context")
      let start := (← Run.get).session.clock
      Studio.say (·.warnAll (p.cycles.map cycleWarning))
      let files := p.ordered
      let results ← Run.each (convertFile transpile (Schema.ofProject p) o files.length)
        (files.zipIdx 1)
      let result := p.resultOf results ((← Run.get).session.clock - start)
      Studio.say (·.success "Project transpilation completed!")
      Studio.say (·.info (resultMessage result))
      return result) := by
    refine .bind (hsay (Console.writes_start _)) fun _ => .bind .get fun _ => ?_
    refine .bind (hsay (Console.writes_warnAll _)) fun _ => ?_
    refine .bind (.each (convertFile_veils h _ o _) _) fun results => .bind .get fun _ => ?_
    rw [List.map_id]
    refine .bind (hsay (Console.writes_success _)) fun _ => ?_
    exact .bind (hsay (Console.writes_info _)) fun _ => .done _
  unfold convertFiles
  refine .bind (hsay (Console.writes_start _)) fun _ => ?_
  refine .bind (hsay (Console.writes_success _)) fun _ => .bind .get fun _ => ?_
  refine .ite (.bind (hsay (Console.writes_info _)) fun _ => hrest) hrest

/-- The same comes of a project whatever keys there are. -/
theorem convert_veils (h : ∀ request, Workbench.Veils old (transpile request)) (path : String)
    (found : Except Fault Project) (o : Settings) :
    Studio.Veils old (convert transpile path found o) := by
  unfold convert
  refine .bind (Studio.say_veils (Console.writes_start _)) fun _ => ?_
  refine .bind (.ofExcept _) fun p => .ite ?_ ?_
  · exact .bind (Studio.say_veils Console.writes_stop) fun _ => .stop _
  · refine .bind (Studio.say_veils (Console.writes_success _)) fun _ => ?_
    exact convertFiles_veils h p o

end Project

end Cartridge
