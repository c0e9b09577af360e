import Cartridge.Proofs.Path
import Cartridge.Proofs.Workshop

/-!
# Calls of tools

A call of a tool fails if the tool cannot be started, if one of its files cannot be written, or if
it ends with another code than zero. It is broken off if what the tool said is no text, or if the
system takes no such command. Calls in a row are made one after another, and the first one that
fails or is broken off is the last.

* `Trouble`: why a call is the last one.
* `Answers`: what comes of a call.
* `InTurn`: what comes of calls in a row.
* `Runs`: a run makes calls in a row and changes nothing else.
* `runs_run`, `Runs.each`: one call, and one for each item.
-/

namespace Cartridge

/-- The tool that is called. -/
def ToolCall.tool (c : ToolCall) : String := c.command.headD ""

/-- The folder from which the files of a tool are named. -/
def ToolCall.folder (c : ToolCall) : Path := Path.ofString c.directory

namespace Workshop

open Run

variable {R α : Type} {tools : List ToolCall → ToolOutcome}

/-- Why a call is the last one. -/
inductive Trouble where
  /-- It fails. -/
  | failed (why : BuildFailure)
  /-- It is broken off. -/
  | broken (fault : Fault)

/-- What comes of a call after others: why it is the last one, if it is, and the disk. -/
inductive Answers (tools : List ToolCall → ToolOutcome) (before : List ToolCall) (d : Disk)
    (call : ToolCall) : Option Trouble → Disk → Prop
  /-- The tool cannot be started. -/
  | unstarted {reason : String} (h : tools (call :: before) = .cannotStart reason) :
      Answers tools before d call (some (.failed (.cannotRun call.tool reason))) d
  /-- A file of the tool cannot be written. -/
  | unwritten {changes : List Change} {result : Except Fault (Int × String)} {why : BuildFailure}
      {d' : Disk} (h : tools (call :: before) = .worked changes result)
      (hchanges : Change.makeAll call.folder call.tool changes d = (.error why, d')) :
      Answers tools before d call (some (.failed why)) d'
  /-- What the tool said is no text, or the system takes no such command. -/
  | unheard {changes : List Change} {fault : Fault} {d' : Disk}
      (h : tools (call :: before) = .worked changes (.error fault))
      (hchanges : Change.makeAll call.folder call.tool changes d = (.ok (), d')) :
      Answers tools before d call (some (.broken fault)) d'
  /-- The tool ends with another code than zero. -/
  | exited {code : Int} {complaint : String} {changes : List Change} {d' : Disk}
      (h : tools (call :: before) = .worked changes (.ok (code, complaint)))
      (hchanges : Change.makeAll call.folder call.tool changes d = (.ok (), d'))
      (hcode : code ≠ 0) : Answers tools before d call
        (some (.failed (.exited (Path.ofString call.tool).name code (Text.stripped complaint)))) d'
  | done {complaint : String} {changes : List Change} {d' : Disk}
      (h : tools (call :: before) = .worked changes (.ok (0, complaint)))
      (hchanges : Change.makeAll call.folder call.tool changes d = (.ok (), d')) :
      Answers tools before d call none d'

/-- What comes of calls in a row after others: why the last one that is made is the last one,
unless all are made, the calls that are made, and the disk. -/
inductive InTurn (tools : List ToolCall → ToolOutcome) :
    List ToolCall → Disk → List ToolCall → Option Trouble → List ToolCall → Disk → Prop
  | done (before : List ToolCall) (d : Disk) : InTurn tools before d [] none [] d
  | failed {before rest : List ToolCall} {call : ToolCall} {d d' : Disk} {why : Trouble}
      (h : Answers tools before d call (some why) d') :
      InTurn tools before d (call :: rest) (some why) [call] d'
  | next {before rest made : List ToolCall} {call : ToolCall} {d d₁ d' : Disk}
      {why : Option Trouble} (h : Answers tools before d call none d₁)
      (hrest : InTurn tools (call :: before) d₁ rest why made d') :
      InTurn tools before d (call :: rest) why (call :: made) d'

/-! ## Runs that make calls -/

/-- How a run ends for the sake of its last call. -/
def Trouble.stop (report : BuildFailure → Failure R) : Trouble → Stop R
  | .failed why => .failed (report why)
  | .broken fault => .broken fault

/-- How a run ends whose calls fail for a reason, or do not fail. -/
def outcome (report : BuildFailure → Failure R) : Option Trouble → Except (Stop R) Unit
  | none => .ok ()
  | some why => .error (why.stop report)

/-- The workshop after calls that left a disk. -/
def after (w : Workshop R) (made : List ToolCall) (d : Disk) : Workshop R :=
  { w with disk := d, toolCalls := made.reverse ++ w.toolCalls }

theorem after_after (w : Workshop R) (made made' : List ToolCall) (d d' : Disk) :
    after (after w made d) made' d' = after w (made ++ made') d' := by
  rw [after, after, after, List.reverse_append, List.append_assoc]

/-- A run makes calls in a row, ends as they do and changes nothing else. -/
def Runs (calls : List ToolCall) (x : Task R α) : Prop :=
  ∀ w, ∃ why made d a, InTurn w.tools w.toolCalls w.disk calls why made d ∧
    x w = ((outcome .build why).map fun _ => a, after w made d)

theorem run_apply (tool : String) (arguments : List String) (directory : Path) (w : Workshop R) :
    let made : List ToolCall := [⟨tool :: arguments, directory.toString⟩]
    (run tool arguments directory : Task R Unit) w =
      match w.tools (made ++ w.toolCalls) with
      | .cannotStart reason =>
        (outcome .build (some (.failed (.cannotRun tool reason))), after w made w.disk)
      | .worked changes result =>
        match Change.makeAll directory tool changes w.disk with
        | (.error why, d) => (outcome .build (some (.failed why)), after w made d)
        | (.ok (), d) =>
          match result with
          | .error fault => (outcome .build (some (.broken fault)), after w made d)
          | .ok (code, complaint) =>
            (outcome .build ((failureOf? tool code complaint).map .failed), after w made d) := by
  intro made
  have hcall : call (tool :: arguments) directory w =
      (.ok (w.tools (made ++ w.toolCalls)), after w made w.disk) := rfl
  rw [run, bind_ok hcall]
  cases w.tools (made ++ w.toolCalls) with
  | cannotStart reason => rfl
  | worked changes result =>
    dsimp only
    rw [bind_apply]
    unfold Run.on Run.mapError
    dsimp only [after]
    cases Change.makeAll directory tool changes w.disk with
    | mk r d =>
      cases r with
      | error why => rfl
      | ok _ =>
        cases result with
        | error fault => rfl
        | ok ended =>
          obtain ⟨code, complaint⟩ := ended
          dsimp only
          cases failureOf? tool code complaint <;> rfl

theorem runs_run (tool : String) (arguments : List String) {directory : Path}
    (hdirectory : Path.Normal directory) :
    Runs [⟨tool :: arguments, directory.toString⟩]
      (run tool arguments directory : Task R Unit) := by
  intro w
  have hchanges (changes : List Change) (d : Disk) :
      Change.makeAll (ToolCall.folder ⟨tool :: arguments, directory.toString⟩) tool changes d =
        Change.makeAll directory tool changes d := by
    rw [ToolCall.folder, Path.ofString_toString hdirectory]
  rw [run_apply]
  cases hanswer : w.tools ([⟨tool :: arguments, directory.toString⟩] ++ w.toolCalls) with
  | cannotStart reason => exact ⟨_, _, _, (), .failed (.unstarted hanswer), rfl⟩
  | worked changes result =>
    dsimp only
    cases hmade : Change.makeAll directory tool changes w.disk with
    | mk r d =>
      have hmade := (hchanges changes w.disk).trans hmade
      cases r with
      | error why => exact ⟨_, _, _, (), .failed (.unwritten hanswer hmade), rfl⟩
      | ok _ =>
        cases result with
        | error fault => exact ⟨_, _, _, (), .failed (.unheard hanswer hmade), rfl⟩
        | ok ended =>
          obtain ⟨code, complaint⟩ := ended
          dsimp only
          unfold failureOf?
          split
          · rename_i hcode
            subst hcode
            exact ⟨_, _, _, (), .next (.done hanswer hmade) (.done _ _), rfl⟩
          · rename_i hcode
            exact ⟨_, _, _, (), .failed (.exited hanswer hmade hcode), rfl⟩

theorem Runs.each {call : α → ToolCall} {x : α → Task R Unit} (h : ∀ a, Runs [call a] (x a))
    (items : List α) : Runs (items.map call) (Run.each x items) := by
  induction items with
  | nil => exact fun w => ⟨none, [], w.disk, [], .done _ _, rfl⟩
  | cons a rest ih =>
    intro w
    obtain ⟨why, made, d, _, hcalls, hx⟩ := h a w
    rw [List.map_cons]
    show ∃ why made d as, InTurn _ _ _ _ why made d ∧
      (x a >>= fun u => Run.each x rest >>= fun us => Run.done (u :: us)) w = _
    cases hcalls with
    | failed hanswer => exact ⟨_, _, _, [], .failed hanswer, bind_error hx⟩
    | next hanswer hrest =>
      cases hrest
      obtain ⟨why, made, d', us, hcalls, heach⟩ := ih (after w [call a] d)
      refine ⟨why, _, d', () :: us, .next hanswer hcalls, ?_⟩
      rw [bind_ok hx, bind_apply, heach, after_after]
      cases why <;> rfl

end Workshop

end Cartridge
