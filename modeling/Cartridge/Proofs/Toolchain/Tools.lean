import Cartridge.Proofs.FileTree.Growth
import Cartridge.Proofs.Toolchain.Calls
import Cartridge.Proofs.Toolchain.Untouched

/-!
# What tools leave

A tool that is called may do anything with what is on the disk. Most only write files, by paths from
the folder of the call. If all do, the disk grows between two states of a workshop by these files,
and by those that a run writes itself.

* `leftSince`, `OnlyWrites`: the files that calls wrote after other calls, and calls that did
  nothing else.
* `run_ok`: a tool that was run to its end.
* `Later`, `Advances`: a state after calls of tools, and runs that come to one.
-/

namespace Cartridge

/-- A tool writes files and does nothing else with what is on the disk. -/
def ToolOutcome.OnlyWrites : ToolOutcome → Prop
  | .cannotStart _ => True
  | .worked changes _ => ∀ change ∈ changes, change.written? ≠ none

namespace Workshop

open Run Disk

variable {R α β : Type} {w w' w'' : Workshop R} {own : List Path} {made made' : List ToolCall}

/-! ## The files of calls -/

/-- The paths of the files that the latest of some calls wrote. -/
def leftBy (tools : List ToolCall → ToolOutcome) (calls : List ToolCall) : List Path :=
  match calls, tools calls with
  | call :: _, .worked changes _ => (changes.filterMap Change.written?).map call.folder.child
  | _, _ => []

/-- The paths of the files that calls wrote, which came after other calls. -/
def leftSince (tools : List ToolCall → ToolOutcome) (before : List ToolCall) :
    List ToolCall → List Path
  | [] => []
  | call :: rest => leftBy tools (call :: (rest ++ before)) ++ leftSince tools before rest

theorem leftSince_append (tools : List ToolCall → ToolOutcome) (before made made' : List ToolCall) :
    leftSince tools before (made' ++ made) =
      leftSince tools (made ++ before) made' ++ leftSince tools before made := by
  induction made' with
  | nil => rfl
  | cons call rest ih =>
    rw [List.cons_append, leftSince, leftSince, ih, List.append_assoc, List.append_assoc]

/-- Calls, which came after other calls, wrote files and did nothing else with what is on the
disk. -/
def OnlyWrites (tools : List ToolCall → ToolOutcome) (before : List ToolCall) :
    List ToolCall → Prop
  | [] => True
  | call :: rest => (tools (call :: (rest ++ before))).OnlyWrites ∧ OnlyWrites tools before rest

theorem onlyWrites_append (tools : List ToolCall → ToolOutcome)
    (before made made' : List ToolCall) : OnlyWrites tools before (made' ++ made) ↔
      OnlyWrites tools (made ++ before) made' ∧ OnlyWrites tools before made := by
  induction made' with
  | nil => exact (and_iff_right trivial).symm
  | cons call rest ih =>
    rw [List.cons_append, OnlyWrites, OnlyWrites, ih, List.append_assoc, and_assoc]

theorem onlyWrites_of_forall {tools : List ToolCall → ToolOutcome}
    (h : ∀ calls, (tools calls).OnlyWrites) (before made : List ToolCall) :
    OnlyWrites tools before made := by
  induction made with
  | nil => trivial
  | cons call rest ih => exact ⟨h _, ih⟩

theorem grown_of_makeAll {directory : Path} {tool : String} {changes : List Change} {d d' : Disk}
    (hwrites : ∀ change ∈ changes, change.written? ≠ none)
    (h : Change.makeAll directory tool changes d = (.ok (), d')) :
    Grown ((changes.filterMap Change.written?).map directory.child) d d' := by
  induction changes generalizing d with
  | nil =>
    cases h
    exact .refl _
  | cons change rest ih =>
    obtain ⟨hfirst, hrest⟩ := List.forall_mem_cons.mp hwrites
    obtain ⟨_, d₁, hmake, hmakes⟩ := bind_eq_ok h
    cases change with
    | write name bytes =>
      refine ((grown_of_write (mapError_eq_ok hmake)).trans (ih hrest hmakes)).congr fun p => ?_
      have hname : (Change.write name bytes).written? = some name := rfl
      rw [List.filterMap_cons_some hname, List.map_cons]
      simp only [List.mem_append, List.mem_cons, List.not_mem_nil, or_false]
      exact or_comm
    | put place new => exact absurd rfl hfirst
    | erase place => exact absurd rfl hfirst

/-! ## States after calls -/

/-- A state of a workshop after calls of tools. If these only wrote files, then besides what they
left some files of an own list may have been written. -/
structure Later (own : List Path) (made : List ToolCall) (w w' : Workshop R) : Prop where
  tools : w'.tools = w.tools
  calls : w'.toolCalls = made ++ w.toolCalls
  disk : OnlyWrites w.tools w.toolCalls made → ∃ written, (∀ p ∈ written, p ∈ own) ∧
    Grown (leftSince w.tools w.toolCalls made ++ written) w.disk w'.disk

namespace Later

theorem of_around (h : around w' = around w) : Later own [] w w' := by
  have hstudio : w' = { w with studio := w'.studio } := congrFun h w'.studio
  rw [hstudio]
  exact ⟨rfl, rfl, fun _ => ⟨[], by simp, .refl _⟩⟩

/-- Calls of two runs only wrote files if those of each did. -/
theorem onlyWrites_split (h : Later own made w w')
    (honly : OnlyWrites w.tools w.toolCalls (made' ++ made)) :
    OnlyWrites w.tools w.toolCalls made ∧ OnlyWrites w'.tools w'.toolCalls made' := by
  rw [h.tools, h.calls]
  exact ((onlyWrites_append _ _ _ _).mp honly).symm

theorem trans (h : Later own made w w') (h' : Later own made' w' w'') :
    Later own (made' ++ made) w w'' := by
  refine ⟨h'.tools.trans h.tools, ?_, fun honly => ?_⟩
  · rw [h'.calls, h.calls, List.append_assoc]
  obtain ⟨hfirst, hsecond⟩ := h.onlyWrites_split honly
  obtain ⟨written, hown, hgrown⟩ := h.disk hfirst
  obtain ⟨written', hown', hgrown'⟩ := h'.disk hsecond
  refine ⟨written' ++ written, ?_, ?_⟩
  · intro p hp
    exact (List.mem_append.mp hp).elim (hown' p) (hown p)
  · refine (hgrown.trans hgrown').congr fun p => ?_
    rw [leftSince_append, ← h.calls, h.tools]
    simp only [List.mem_append]
    tauto

theorem of_write {p : Path} {bytes : ByteArray} {d : Disk} (hp : p ∈ own)
    (h : Disk.write p bytes w.disk = (.ok (), d)) : Later own [] w { w with disk := d } :=
  ⟨rfl, rfl, fun _ => ⟨[p], by simpa using hp, grown_of_write h⟩⟩

/-- What was found is found after calls that only wrote files. -/
theorem has (h : Later own made w w') (honly : OnlyWrites w.tools w.toolCalls made) {p : Path}
    (hp : w.disk.has p = .ok true) : w'.disk.has p = .ok true := by
  obtain ⟨written, -, hgrown⟩ := h.disk honly
  exact hgrown.has.mpr (.inl hp)

theorem isFile (h : Later own made w w') (honly : OnlyWrites w.tools w.toolCalls made) {p : Path}
    (hp : w.disk.IsFile p) : w'.disk.IsFile p := by
  obtain ⟨written, -, hgrown⟩ := h.disk honly
  exact hgrown.isFile hp

end Later

/-- A tool that was run to its end made its changes, and ended with code zero. -/
theorem run_ok {tool : String} {arguments : List String} {directory : Path}
    (h : (run tool arguments directory : Task R Unit) w = (.ok (), w')) :
    let calls := ⟨tool :: arguments, directory.toString⟩ :: w.toolCalls
    ∃ complaint changes d, w.tools calls = .worked changes (.ok (0, complaint)) ∧
      Change.makeAll directory tool changes w.disk = (.ok (), d) ∧
      w' = { w with disk := d, toolCalls := calls } := by
  intro calls
  rw [run_apply] at h
  split at h
  · cases h
  · rename_i changes result hanswer
    split at h
    · cases h
    · rename_i d hchanges
      cases result with
      | error fault => cases h
      | ok ended =>
        obtain ⟨code, complaint⟩ := ended
        dsimp only at h
        unfold failureOf? at h
        split at h
        · rename_i hcode
          cases h
          subst hcode
          exact ⟨complaint, changes, d, hanswer, hchanges, rfl⟩
        · cases h

theorem later_of_run {tool : String} {arguments : List String} {directory : Path}
    (hdirectory : Path.Normal directory)
    (h : (run tool arguments directory : Task R Unit) w = (.ok (), w')) :
    Later own [⟨tool :: arguments, directory.toString⟩] w w' := by
  obtain ⟨complaint, changes, d, houtcome, hchanges, rfl⟩ := run_ok h
  refine ⟨rfl, rfl, fun honly => ⟨[], by simp, ?_⟩⟩
  have hwrites := honly.1
  rw [List.nil_append, houtcome] at hwrites
  have hleft : leftBy w.tools (⟨tool :: arguments, directory.toString⟩ :: w.toolCalls) =
      (changes.filterMap Change.written?).map directory.child := by
    unfold leftBy
    rw [houtcome]
    dsimp only
    rw [ToolCall.folder, Path.ofString_toString hdirectory]
  rw [List.append_nil, leftSince, List.nil_append, hleft, leftSince, List.append_nil]
  exact grown_of_makeAll hwrites hchanges

/-! ## Runs that come to a later state -/

/-- A run that ends has come to a state after calls of tools. -/
def Advances (own : List Path) (x : Task R α) : Prop :=
  ∀ w w' a, x w = (.ok a, w') → ∃ made, Later own made w w'

namespace Advances

theorem of_keeps {x : Task R α} (h : Keeps around x) : Advances own x := by
  intro w w' a hx
  have haround := h w
  rw [hx] at haround
  exact ⟨[], .of_around haround⟩

theorem bind {x : Task R α} {f : α → Task R β} (hx : Advances own x)
    (hf : ∀ a, Advances own (f a)) : Advances own (x >>= f) := by
  intro w w'' b h
  obtain ⟨a, w', hfirst, hrest⟩ := bind_eq_ok h
  obtain ⟨made, hlater⟩ := hx w w' a hfirst
  obtain ⟨made', hlater'⟩ := hf a w' w'' b hrest
  exact ⟨made' ++ made, hlater.trans hlater'⟩

theorem look_bind {read : Disk → Except Fault α} {f : α → Task R β}
    (hf : ∀ a d, read d = .ok a → Advances own (f a)) : Advances own (look read >>= f) := by
  intro w w'' b h
  obtain ⟨a, w', hlook, hrest⟩ := bind_eq_ok h
  obtain ⟨hread, rfl⟩ := look_ok hlook
  exact hf a _ hread _ w'' b hrest

theorem each {f : α → Task R β} (hf : ∀ a, Advances own (f a)) (items : List α) :
    Advances own (each f items) := by
  induction items with
  | nil => exact of_keeps (.done _)
  | cons a rest ih => exact bind (hf a) fun b => bind ih fun bs => of_keeps (.done _)

theorem run (tool : String) (arguments : List String) {directory : Path}
    (hdirectory : Path.Normal directory) :
    Advances own (run tool arguments directory : Task R Unit) :=
  fun _ _ _ h => ⟨_, later_of_run hdirectory h⟩

theorem write {p : Path} (hp : p ∈ own) (text : String) :
    Advances own (change (writeText p text) : Task R Unit) := by
  intro w w' a h
  obtain ⟨d, hwrite, rfl⟩ := change_ok h
  exact ⟨[], .of_write hp hwrite⟩

end Advances

end Workshop

end Cartridge
