import Cartridge.CommandLine.Program
import Cartridge.Proofs.Config.Entry
import Cartridge.Proofs.Config.RoundTrip
import Cartridge.Proofs.Decimal.Order
import Cartridge.Proofs.Transpiler.Gates

/-!
# Limits that are accepted

A configuration is accepted if none of its limits is below or above what is allowed. The value that
is not a number is neither, so it is accepted too, and then nothing is refused for the sake of it.
A variable of the environment cannot give this value. A configuration file can: its last word on a
limit may be that value, and then it stands unless a variable decides.

* `numbers_of_load`: where the numbers of a configuration come from.
* `Lost`: a limit that a file has the last word on, and gives as the value that is not a number.
* `accepted_limits`: an accepted limit is in its range, and refuses something, unless it is lost.
-/

namespace Cartridge.Config

open Json Run CommandLine Workbench

/-! ## Two sections -/

/-- What may be spent. -/
def budgetSection : Section (Budget Float) where
  name := "budget"
  view := (·.budget)
  put := ({ · with budget := · })
  merge := mergeEntries budgetFields "budget"
  found := rfl
  view_put _ _ := rfl
  merge_nil := rfl
  apart := by
    intro p hp hname entries
    simp only [sections, List.mem_cons, List.not_mem_nil, or_false] at hp
    rcases hp with rfl | rfl | rfl | rfl | rfl | rfl
    · exact fun _ => rfl
    · exact fun _ => rfl
    · exact absurd rfl hname
    · exact fun _ => rfl
    · exact fun _ => rfl
    · exact fun _ => rfl

/-- How good the code has to be. -/
def qualitySection : Section (Quality Float) where
  name := "quality"
  view := (·.quality)
  put := ({ · with quality := · })
  merge := mergeEntries qualityFields "quality"
  found := rfl
  view_put _ _ := rfl
  merge_nil := rfl
  apart := by
    intro p hp hname entries
    simp only [sections, List.mem_cons, List.not_mem_nil, or_false] at hp
    rcases hp with rfl | rfl | rfl | rfl | rfl | rfl
    · exact fun _ => rfl
    · exact fun _ => rfl
    · exact fun _ => rfl
    · exact absurd rfl hname
    · exact fun _ => rfl
    · exact fun _ => rfl

/-! ## Where the numbers come from -/

/-- The finite number that a variable gives, if it gives one. -/
def numberOf? (env : Environment) (name : String) : Option Float :=
  (value? env name).bind fun text => (Decimal.ofText? text).filter Decimal.isFinite

theorem valueOr_number? (env : Environment) (name : String) (other : Float) :
    valueOr other (number? env name) = (numberOf? env name).getD other := by
  unfold number? numberOf?
  cases value? env name with
  | none => rfl
  | some text =>
    dsimp only [Option.bind_some]
    cases (Decimal.ofText? text).filter Decimal.isFinite <;> rfl

theorem numberOf?_ne_notANumber (env : Environment) (name : String) :
    numberOf? env name ≠ some Decimal.notANumber := by
  intro h
  unfold numberOf? at h
  obtain ⟨text, -, h⟩ := Option.bind_eq_some_iff.mp h
  have hfinite := (Option.filter_eq_some_iff.mp h).2
  exact absurd hfinite (by decide)

theorem numbers_of_withEnvironment {env : Environment} {c c' : Config Float}
    (h : withEnvironment env c = .ok c') :
    c'.budget.perConversion = (numberOf? env Variable.maxCost).getD c.budget.perConversion ∧
      c'.budget.perDay = (numberOf? env Variable.dailyBudget).getD c.budget.perDay ∧
      c'.quality = c.quality := by
  unfold withEnvironment at h
  dsimp only at h
  split at h
  · cases h
    rw [← valueOr_number?, ← valueOr_number?]
    unfold withOwnMachine
    split <;> exact ⟨rfl, rfl, rfl⟩
  · cases h

theorem perConversion_realAt :
    RealAt "max_cost_per_transpilation" Budget.perConversion budgetFields := by
  refine .head (fun _ _ => rfl) fun f hf => ?_
  simp only [List.mem_cons, List.not_mem_nil, or_false] at hf
  rcases hf with rfl | rfl
  · exact Field.real_keeps fun _ _ => rfl
  · exact Field.flag_keeps fun _ _ => rfl

theorem perDay_realAt : RealAt "daily_budget" Budget.perDay budgetFields := by
  unfold budgetFields
  apply RealAt.tail (Field.isNamed _ _)
  · simp
  · exact Field.real_keeps fun _ _ => rfl
  · refine .head (fun _ _ => rfl) fun f hf => ?_
    rw [List.mem_singleton.mp hf]
    exact Field.flag_keeps fun _ _ => rfl

theorem minScore_realAt : RealAt "min_score" Quality.minScore qualityFields := by
  refine .head (fun _ _ => rfl) fun f hf => ?_
  simp only [List.mem_cons, List.not_mem_nil, or_false] at hf
  rcases hf with rfl | rfl
  · exact Field.flag_keeps fun _ _ => rfl
  · exact Field.flag_keeps fun _ _ => rfl

section Loading

variable {d : Disk} {env env' : Environment} {configPath envPath : Option String}
  {console console' : Console} {c : Config Float}

/-- The numbers of a configuration: what a variable says, or else the last word of the file, or
else what holds for every user. -/
theorem numbers_of_load [EnvFile.Reader] (henv : environment d env envPath = .ok env')
    (hload : load d env configPath envPath console = (.ok c, console')) :
    let given := sectionOf d (pathOr d configPath fileName)
    c.budget.perConversion = (numberOf? env' Variable.maxCost).getD
        ((lastReal? "max_cost_per_transpilation" (given "budget")).getD (Quantity.ofRatio 1 10)) ∧
      c.budget.perDay = (numberOf? env' Variable.dailyBudget).getD
        ((lastReal? "daily_budget" (given "budget")).getD (Quantity.ofNat 5)) ∧
      c.quality.minScore = (lastReal? "min_score" (given "quality")).getD
        (Quantity.ofRatio 7 10) := by
  obtain ⟨env'', merged, henv', hmerged, hc⟩ := loaded hload
  rw [henv] at henv'
  cases henv'
  obtain ⟨hperConversion, hperDay, hquality⟩ := numbers_of_withEnvironment hc
  obtain ⟨_, _, hbudget⟩ := budgetSection.mergeFileIfThere_section hmerged
  obtain ⟨_, _, hscore⟩ := qualitySection.mergeFileIfThere_section hmerged
  refine ⟨?_, ?_, ?_⟩
  · rw [hperConversion]
    exact congrArg _ (perConversion_realAt.mergeEntries hbudget)
  · rw [hperDay]
    exact congrArg _ (perDay_realAt.mergeEntries hbudget)
  · rw [hquality]
    exact minScore_realAt.mergeEntries hscore

end Loading

/-! ## Accepted limits -/

/-- The last word on a number belongs to the file, and it is the value that is not a number. -/
def Lost (d : Disk) (file : Path) (env : Environment) (override? : Option String)
    (section_ name : String) : Prop :=
  override?.bind (numberOf? env) = none ∧
    lastReal? name (sectionOf d file section_) = some Decimal.notANumber

theorem eq_notANumber_iff_lost (d : Disk) (file : Path) (env : Environment)
    (override? : Option String) (section_ name : String) {other : Float}
    (hother : other ≠ Decimal.notANumber) :
    (override?.bind (numberOf? env)).getD
        ((lastReal? name (sectionOf d file section_)).getD other) = Decimal.notANumber ↔
      Lost d file env override? section_ name := by
  unfold Lost
  cases hoverride : override?.bind (numberOf? env) with
  | some x =>
    obtain ⟨v, -, hnumber⟩ := Option.bind_eq_some_iff.mp hoverride
    have hx : x ≠ Decimal.notANumber := by
      rintro rfl
      exact numberOf?_ne_notANumber env v hnumber
    simp [hx]
  | none =>
    cases lastReal? name (sectionOf d file section_) with
    | none => simp [hother]
    | some x => simp

/-- What is refused for not being above a limit is not accepted, unless it is not a number. -/
theorem lt_iff_of_not_le {x bound : Float} (hbound : bound ≠ Decimal.notANumber)
    (h : ¬ x ≤ bound) : bound < x ↔ x ≠ Decimal.notANumber := by
  constructor
  · rintro hlt rfl
    exact Decimal.not_lt_notANumber bound hlt
  · intro hnumber
    exact (Decimal.lt_or_le hbound hnumber).resolve_right h

theorem le_iff_of_not_lt {x bound : Float} (hbound : bound ≠ Decimal.notANumber)
    (h : ¬ x < bound) : bound ≤ x ↔ x ≠ Decimal.notANumber := by
  constructor
  · rintro hle rfl
    exact Decimal.not_le_notANumber bound hle
  · intro hnumber
    exact (Decimal.lt_or_le hnumber hbound).resolve_left h

theorem ge_iff_of_not_lt {x bound : Float} (hbound : bound ≠ Decimal.notANumber)
    (h : ¬ bound < x) : x ≤ bound ↔ x ≠ Decimal.notANumber := by
  constructor
  · rintro hle rfl
    exact Decimal.not_notANumber_le bound hle
  · intro hnumber
    exact (Decimal.lt_or_le hbound hnumber).resolve_left h

theorem in_range_of_problems {c : Config Float} (h : c.problems = []) :
    ¬ c.budget.perConversion ≤ 0 ∧ ¬ c.budget.perDay ≤ 0 ∧ ¬ c.quality.minScore < 0 ∧
      ¬ 1 < c.quality.minScore := by
  unfold problems at h
  simp only [List.append_eq_nil_iff, ite_eq_right_iff, List.cons_ne_nil, imp_false,
    Bool.or_eq_true, not_or] at h
  obtain ⟨⟨⟨⟨⟨hperConversion, hperDay⟩, hlow, hhigh⟩, -⟩, -⟩, -⟩ := h
  exact ⟨fun h => hperConversion (decide_eq_true h), fun h => hperDay (decide_eq_true h),
    fun h => hlow (decide_eq_true h), fun h => hhigh (decide_eq_true h)⟩

/-- Arguments decide nothing about money and nothing about how good the code has to be. -/
theorem overridden_limits (a : Arguments) (c : Config Float) :
    (a.overridden c).budget = c.budget ∧ (a.overridden c).quality = c.quality := by
  unfold Arguments.overridden
  dsimp only
  split <;> split <;> split <;> exact ⟨rfl, rfl⟩

/-- Some estimate is too dear, unless the limit of one conversion is no number or the infinity. -/
theorem tooDear_iff (t : Transpiler Float) :
    (∃ estimated, t.refusal? estimated =
      some (.tooDear estimated t.config.budget.perConversion)) ↔
      t.config.budget.perConversion ≠ Decimal.notANumber ∧
        t.config.budget.perConversion ≠ Decimal.infinity false := by
  have hiff (estimated : Float) : t.refusal? estimated =
      some (.tooDear estimated t.config.budget.perConversion) ↔
        t.config.budget.perConversion < estimated := by
    rw [refusal?_eq_tooDear_iff]
    exact ⟨fun h => of_decide_eq_true h.1, fun h => ⟨decide_eq_true h, rfl, rfl⟩⟩
  simp only [hiff]
  constructor
  · rintro ⟨estimated, hlt⟩
    constructor
    · intro hlimit
      rw [hlimit] at hlt
      exact Decimal.not_notANumber_lt _ hlt
    · intro hlimit
      rw [hlimit] at hlt
      exact Decimal.not_infinity_lt _ hlt
  · rintro ⟨hnumber, hfinite⟩
    exact ⟨_, Decimal.lt_infinity hnumber hfinite⟩

/-- Some spending ends the day, unless the budget of the day is no number. -/
theorem spent_iff {request : Request} (htarget : request.target.problems = [])
    {w : Workbench Float} (hday : w.session.today = w.transpiler.day) :
    (∃ spent, (consider request { w with transpiler := { w.transpiler with spent } }).1 =
      .error (.failed (.refused (.spent spent w.transpiler.config.budget.perDay)))) ↔
      w.transpiler.config.budget.perDay ≠ Decimal.notANumber := by
  have hiff (spent : Float) :
      (consider request { w with transpiler := { w.transpiler with spent } }).1 =
        .error (.failed (.refused (.spent spent w.transpiler.config.budget.perDay))) ↔
        w.transpiler.config.budget.perDay ≤ spent := by
    obtain ⟨console, hconsider⟩ :=
      consider_apply request { w with transpiler := { w.transpiler with spent } }
    rw [hconsider, htarget, if_pos List.isEmpty_nil]
    have hopened : opened request { w with transpiler := { w.transpiler with spent } } =
        { w with transpiler := { w.transpiler with spent } } := by
      rw [opened, resets, if_neg (by simp [hday])]
    rw [hopened]
    dsimp only
    split
    · rename_i hover
      exact iff_of_true rfl (of_decide_eq_true hover)
    · rename_i hover
      refine iff_of_false ?_ fun h => hover (decide_eq_true h)
      split
      · split <;> simp
      · simp
  simp only [hiff]
  constructor
  · rintro ⟨spent, hle⟩ hbudget
    rw [hbudget] at hle
    exact Decimal.not_notANumber_le _ hle
  · intro hnumber
    exact ⟨_, Decimal.le_infinity hnumber⟩

section Accepted

variable {d : Disk} {env env' : Environment} {configPath envPath : Option String}
  {console console' : Console} {c : Config Float}

/-- An accepted limit is in its range, and then something is refused for the sake of it unless it is
the infinity. The exception is a limit that is lost. -/
theorem accepted_limits [EnvFile.Reader] (henv : environment d env envPath = .ok env')
    (hload : load d env configPath envPath console = (.ok c, console')) (a : Arguments)
    (haccepted : (a.overridden c).problems = []) :
    let lost := Lost d (pathOr d configPath fileName) env'
    let accepted := a.overridden c
    let perConversion := accepted.budget.perConversion
    let perDay := accepted.budget.perDay
    let minScore := accepted.quality.minScore
    (0 < perConversion ↔
      ¬ lost (some Variable.maxCost) "budget" "max_cost_per_transpilation") ∧
    (0 < perDay ↔ ¬ lost (some Variable.dailyBudget) "budget" "daily_budget") ∧
    (0 ≤ minScore ∧ minScore ≤ 1 ↔ ¬ lost none "quality" "min_score") ∧
    (∀ t : Transpiler Float, t.config = accepted →
      ((∃ estimated, t.refusal? estimated = some (.tooDear estimated perConversion)) ↔
        0 < perConversion ∧ perConversion ≠ Decimal.infinity false)) ∧
    ∀ request : Request, request.target.problems = [] →
      ∀ w : Workbench Float, w.transpiler.config = accepted →
        w.session.today = w.transpiler.day →
        ((∃ spent, (consider request { w with transpiler := { w.transpiler with spent } }).1 =
          .error (.failed (.refused (.spent spent perDay)))) ↔ 0 < perDay) := by
  intro lost accepted perConversion perDay minScore
  obtain ⟨hbudget, hquality⟩ := overridden_limits a c
  obtain ⟨hperConversion, hperDay, hminScore⟩ := numbers_of_load henv hload
  obtain ⟨hnotFree, hnotNothing, hnotLow, hnotHigh⟩ := in_range_of_problems haccepted
  have hzero : (0 : Float) ≠ Decimal.notANumber := by decide
  have hone : (1 : Float) ≠ Decimal.notANumber := by decide
  have hpositive : 0 < perConversion ↔ perConversion ≠ Decimal.notANumber :=
    lt_iff_of_not_le hzero hnotFree
  have hpositiveDay : 0 < perDay ↔ perDay ≠ Decimal.notANumber :=
    lt_iff_of_not_le hzero hnotNothing
  refine ⟨?_, ?_, ?_, ?_, ?_⟩
  · have hgiven : perConversion = _ :=
      (congrArg Budget.perConversion hbudget).trans hperConversion
    rw [hpositive, hgiven]
    exact not_congr (eq_notANumber_iff_lost d _ env' (some Variable.maxCost) _ _ (by decide))
  · have hgiven : perDay = _ := (congrArg Budget.perDay hbudget).trans hperDay
    rw [hpositiveDay, hgiven]
    exact not_congr (eq_notANumber_iff_lost d _ env' (some Variable.dailyBudget) _ _ (by decide))
  · have hgiven : minScore = _ := (congrArg Quality.minScore hquality).trans hminScore
    have hlow : 0 ≤ minScore ↔ minScore ≠ Decimal.notANumber := le_iff_of_not_lt hzero hnotLow
    have hhigh : minScore ≤ 1 ↔ minScore ≠ Decimal.notANumber := ge_iff_of_not_lt hone hnotHigh
    rw [hlow, hhigh, and_self, hgiven]
    exact not_congr (eq_notANumber_iff_lost d _ env' none _ _ (by decide))
  · intro t ht
    have htooDear := tooDear_iff t
    rw [ht] at htooDear
    rw [hpositive]
    exact htooDear
  · intro request htarget w hw hday
    have hspent := spent_iff htarget hday
    rw [hw] at hspent
    rw [hpositiveDay]
    exact hspent

end Accepted

/-- The configuration file of a user whose budget of the day is no number. -/
def boundless : Json := .obj [("budget", .obj [("daily_budget", .float Decimal.notANumber)])]

/-- A disk with nothing but this file. -/
def boundlessDisk : Disk :=
  ⟨.folder [(fileName, .file boundless.document.toUTF8 FileTree.fileMode)] FileTree.folderMode, []⟩

/-- What is loaded from it. -/
def boundlessConfig : Config Float :=
  { initial boundlessDisk with
    budget := { (initial boundlessDisk).budget with perDay := Decimal.notANumber }
    path := some (boundlessDisk.current.child fileName).toString }

theorem readable_boundless : Readable depthLimit boundless := by
  show Readable (entryRoom + 3) boundless
  refine .obj (by simp [Entries.names]) ?_
  simp only [List.forall_mem_cons, List.not_mem_nil, false_imp_iff, implies_true, and_true]
  refine .obj (by simp [Entries.names]) ?_
  simp only [List.forall_mem_cons, List.not_mem_nil, false_imp_iff, implies_true, and_true]
  exact .float _ _

theorem load_boundless : load boundlessDisk [] none none {} = (.ok boundlessConfig, {}) := by
  have hwritten : Disk.writeText (boundlessDisk.current.child fileName) boundless.document
      ⟨.folder [] FileTree.folderMode, []⟩ = (.ok (), boundlessDisk) := by rfl
  have hon : OwnMachineOn boundlessConfig := by
    rintro (h | h)
    · exact absurd h (by decide)
    · cases h
  rw [load, show environment boundlessDisk [] none = .ok [] by rfl]
  dsimp only
  rw [show pathOr boundlessDisk none fileName = boundlessDisk.current.child fileName from rfl,
    mergeFileIfThere_of_written readable_boundless (Disk.unlocked_newFolder [] _) hwritten]
  have hmerged : mergeDocument (boundlessDisk.current.child fileName).toString boundless
      ⟨{ initial boundlessDisk with
        path := some (boundlessDisk.current.child fileName).toString }, []⟩ =
      (.ok (), ⟨boundlessConfig, []⟩) := by rfl
  rw [hmerged]
  dsimp only
  rw [withEnvironment_of_unset (fun _ _ => rfl), withOwnMachine_of_on hon]
  rfl

/-- The budget of a day that is no number is accepted, and is not positive. -/
theorem accepted_limits_of_boundless :
    load boundlessDisk [] none none {} = (.ok boundlessConfig, {}) ∧
      boundlessConfig.problems = [] ∧
      boundlessConfig.budget.perDay = Decimal.notANumber ∧
      ¬ 0 < boundlessConfig.budget.perDay ∧
      ∀ request : Request, request.target.problems = [] →
        ∀ w : Workbench Float, w.transpiler.config = boundlessConfig →
          w.session.today = w.transpiler.day →
          ∀ spent, (consider request { w with transpiler := { w.transpiler with spent } }).1 ≠
            .error (.failed (.refused (.spent spent boundlessConfig.budget.perDay))) := by
  have hproblems : boundlessConfig.problems = [] := by decide +kernel
  have hnotPositive : ¬ 0 < boundlessConfig.budget.perDay := Decimal.not_lt_notANumber 0
  obtain ⟨-, -, -, -, hspent⟩ := accepted_limits rfl load_boundless {} hproblems
  refine ⟨load_boundless, hproblems, rfl, hnotPositive, ?_⟩
  intro request htarget w hw hday spent hrefused
  exact hnotPositive ((hspent request htarget w hw hday).mp ⟨spent, hrefused⟩)

end Cartridge.Config
