import Cartridge.Proofs.Code.Lengths
import Cartridge.Proofs.Transpiler.Budget
import Cartridge.Proofs.Transpiler.Memory

/-!
# What a request does not foresee

A request ends with a result, with a failure that is reported, or with a fault. Apart from a
configuration whose fallbacks are no names and from numbers that are too long to be written, only
what is asked leads to a fault: an answer that has no price, or an answer that is taken for C and
whose figures cannot be worked out. The length of an
array is read as a number whatever its size; there are answers with more digits than can be read,
and shorter ones whose number is too large to be divided.

* `Countable`, `Settleable`: what has to hold of an answer that is C.
* `settle_broken_iff`, `tryOnce_broken_iff`, `attempts_broken_iff`: faults, step by step.
* `transpile_broken_iff`: a request ends with a fault exactly if one of its prompts does.
-/

namespace Cartridge

/-! ## Figures -/

section Values

variable {ε α β : Type}

theorem exists_bind_eq_ok_iff {x : Except ε α} {f : α → Except ε β} :
    (∃ b, (x >>= f) = .ok b) ↔ ∃ a, x = .ok a ∧ ∃ b, f a = .ok b := by
  cases x with
  | error e => simp [bind, Except.bind]
  | ok a => simp [bind, Except.bind]

theorem exists_pure_eq_ok (a : α) : (∃ b, (pure a : Except ε α) = .ok b) ↔ True :=
  iff_of_true ⟨a, rfl⟩ trivial

end Values

namespace Code

theorem ramUsage_eq_ok_iff (code : String) (ram : Nat) :
    ramUsage code = .ok ram ↔ ramUsage? code = some ram := by
  unfold ramUsage
  cases ramUsage? code <;> simp

variable {R : Type} [Quantity R] [Inhabited R]

variable (R) in
/-- The sizes can be counted, and neither is too large for the arithmetic. -/
def Countable (code : String) : Prop :=
  ∃ ram, ramUsage? code = some ram ∧ (Quantity.ofRatio? ram consoleRam : Option R).isSome ∧
    (Quantity.ofRatio? (romSize code) consoleRom : Option R).isSome

theorem remaining_eq_ok_iff (used available : Nat) :
    (∃ share : R, remaining used available = .ok share) ↔
      (Quantity.ofRatio? used available : Option R).isSome := by
  unfold remaining
  cases (Quantity.ofRatio? used available : Option R) <;> simp

theorem review_eq_ok_iff (code : String) :
    (∃ r : Review R, review code = .ok r) ↔ Countable R code := by
  simp only [review, exists_bind_eq_ok_iff, exists_pure_eq_ok, ramUsage_eq_ok_iff,
    remaining_eq_ok_iff, and_true, exists_and_right, Countable]

end Code

variable {R : Type} [Quantity R] [Inhabited R]

theorem Example.performanceOf_eq_ok_iff (code : String) (quality : R) :
    (∃ p, performanceOf code quality = .ok p) ↔ Code.Countable R code := by
  simp only [performanceOf, exists_bind_eq_ok_iff, exists_pure_eq_ok, Code.ramUsage_eq_ok_iff,
    Code.remaining_eq_ok_iff, and_true, exists_and_right, Code.Countable]

namespace Transpiler

/-- The figures of an answer that is C can be worked out: its memory, and the sizes of the finished
code if they are wanted. -/
def Settleable (c : Config R) (code : String) : Prop :=
  (Code.ramUsage? code).isSome ∧
    (c.quality.review = true ∨ c.quality.learning = true → Code.Countable R (Code.placed code))

omit [Inhabited R] in
theorem not_settleable_iff (c : Config R) (code : String) :
    ¬ Settleable c code ↔ Code.Unreadable code ∨
      (c.quality.review = true ∨ c.quality.learning = true) ∧
        ¬ Code.Countable R (Code.placed code) := by
  rw [Settleable, Code.ramUsage?_isSome_iff, Classical.not_and_iff_not_or_not, Classical.not_not,
    Classical.not_imp]

theorem reviewWarnings_eq_ok_iff (c : Config R) (code : String) :
    (∃ warnings, reviewWarnings c code = .ok warnings) ↔
      (c.quality.review = true → Code.Countable R code) := by
  rw [← Code.review_eq_ok_iff, reviewWarnings]
  split
  · rename_i hreview
    simp only [exists_bind_eq_ok_iff, exists_pure_eq_ok, and_true, hreview, forall_const]
  · rename_i hreview
    simp only [exists_pure_eq_ok, hreview, Bool.false_eq_true, false_imp_iff]

theorem conversion_eq_ok_iff (c : Config R) (source code provider : String) (duration cost : R) :
    (∃ result, conversion c source code provider duration cost = .ok result) ↔
      (Code.ramUsage? code).isSome ∧
        (c.quality.review = true → Code.Countable R (Code.placed code)) := by
  rw [← reviewWarnings_eq_ok_iff, Option.isSome_iff_exists]
  simp only [conversion, exists_bind_eq_ok_iff, exists_pure_eq_ok, Code.ramUsage_eq_ok_iff,
    and_true, exists_and_right]

theorem code_of_conversion {c : Config R} {source code provider : String} {duration cost : R}
    {result : Conversion R} (h : conversion c source code provider duration cost = .ok result) :
    result.code = Code.placed code := by
  obtain ⟨ram, warnings, -, rfl⟩ := Workbench.conversion_ok h
  rfl

end Transpiler

namespace Workbench

open Run

/-- The run ends with a fault. -/
def Broken {α : Type} (r : Except (Stop R) α) : Prop := ∃ fault, r = .error (.broken fault)

omit [Quantity R] [Inhabited R] in
theorem broken_error_iff {α : Type} (e : Stop R) :
    Broken (.error e : Except (Stop R) α) ↔ ∃ fault, e = .broken fault := by
  simp [Broken]

/-! ## Settling an answer -/

section Settling

variable {job : Job R} {answer : Option String} {duration cost : R} {w : Workbench R}

omit [Inhabited R] in
theorem store_ok (hsize : 0 ≤ w.transpiler.cache.maxSize) (job : Job R) (result : Conversion R) :
    ∃ w', store job result w = (.ok (), w') ∧ w'.rules = w.rules := by
  have hrules := store_keeps plain_rules job result w
  suffices hok : ∃ w', store job result w = (.ok (), w') by
    obtain ⟨w', hok⟩ := hok
    exact ⟨w', hok, by rw [← hrules, hok]⟩
  unfold store
  cases job.key? with
  | none => exact ⟨w, rfl⟩
  | some key =>
    obtain ⟨cache, hset⟩ : ∃ cache, w.transpiler.cache.set key result w.session.clock =
        some cache := by
      unfold Cache.set
      dsimp only
      rw [if_neg (by omega)]
      exact ⟨_, rfl⟩
    dsimp only
    unfold keep
    dsimp only
    rw [hset]
    exact ⟨_, rfl⟩

theorem learn_broken_iff (source code : String) (target : Target) (quality : R) (provider : String)
    (w : Workbench R) :
    Broken (learn source code target quality provider w).1 ↔
      w.transpiler.config.quality.learning = true ∧ ¬ Code.Countable R code := by
  rw [learn_apply, ← Example.performanceOf_eq_ok_iff code quality]
  split
  · rename_i hlearning
    cases Example.performanceOf code quality <;> simp [Broken, hlearning]
  · rename_i hlearning
    simp [Broken, hlearning]

variable (job duration cost) in
/-- An answer that is C leads to a fault if its figures cannot be worked out. -/
theorem settle_broken_iff (hsize : 0 ≤ w.transpiler.cache.maxSize)
    (hflaw : (Transpiler.flaw? answer : Option (Failure R)) = none) :
    Broken (settle job answer duration cost w).1 ↔
      ¬ Transpiler.Settleable w.transpiler.config (answer.getD "") := by
  obtain ⟨said, hsettle⟩ := settle_accepted job duration cost hflaw w
  have hmakes := Transpiler.conversion_eq_ok_iff w.transpiler.config job.request.source
    (answer.getD "") job.name duration cost
  rw [hsettle]
  cases hmade : Transpiler.conversion w.transpiler.config job.request.source (answer.getD "")
      job.name duration cost with
  | error e =>
    refine iff_of_true ⟨_, rfl⟩ fun h => ?_
    obtain ⟨result, hok⟩ := hmakes.mpr ⟨h.1, fun hreview => h.2 (.inl hreview)⟩
    rw [hmade] at hok
    cases hok
  | ok result =>
    obtain ⟨hram, hreview⟩ := hmakes.mp ⟨result, hmade⟩
    obtain ⟨w₁, hstore, hrules⟩ := store_ok hsize job result
    have hconfig := config_of_rules hrules
    have hlearn := learn_broken_iff job.request.source result.code job.request.target
      result.quality job.name w₁
    rw [hconfig, Transpiler.code_of_conversion hmade] at hlearn
    -- the review already counted the finished code; without one only learning wants the sizes
    have hiff : ¬ Transpiler.Settleable w.transpiler.config (answer.getD "") ↔
        w.transpiler.config.quality.learning = true ∧
          ¬ Code.Countable R (Code.placed (answer.getD "")) := by
      simp only [Transpiler.Settleable, hram, true_and, or_imp, not_and, Classical.not_imp]
      exact ⟨fun h => h hreview, fun h _ => h⟩
    rw [hiff, ← hlearn]
    dsimp only
    rw [hstore]
    dsimp only
    rw [Transpiler.code_of_conversion hmade]
    cases learn job.request.source (Code.placed (answer.getD "")) job.request.target
        result.quality job.name w₁ with
    | mk r w₂ => cases r <;> simp [Broken]

variable (job duration cost) in
theorem settle_ok_of_settleable (hsize : 0 ≤ w.transpiler.cache.maxSize)
    (hflaw : (Transpiler.flaw? answer : Option (Failure R)) = none)
    (hfigures : Transpiler.Settleable w.transpiler.config (answer.getD "")) :
    ∃ result w', settle job answer duration cost w = (.ok result, w') := by
  have hbroken := settle_broken_iff job duration cost hsize hflaw
  cases h : settle job answer duration cost w with
  | mk r w' =>
    rw [h] at hbroken
    cases r with
    | ok result => exact ⟨result, w', rfl⟩
    | error e =>
      cases e with
      | broken fault => exact absurd hfigures (hbroken.mp ⟨fault, rfl⟩)
      | failed why =>
        rw [(settle_failed h).1] at hflaw
        cases hflaw

end Settling

/-! ## Attempts -/

/-- The prompt leads to a fault. -/
def Asking.Breaks (a : Asking R) : Prop :=
  match a.answer with
  | .error (.broken _) => True
  | .error (.failed _) => False
  | .ok text => a.cost? = none ∨ (Transpiler.flaw? text : Option (Failure R)) = none ∧
      ¬ Transpiler.Settleable a.workbench.transpiler.config (text.getD "")

section Attempts

variable {job : Job R} {w : Workbench R}

variable (job) in
theorem tryOnce_broken_iff (hsize : 0 ≤ w.transpiler.cache.maxSize) (number : Nat) :
    Broken (tryOnce job number w).1 ↔ (asking job number w).Breaks := by
  have hopen : (asking job number w).workbench.transpiler = w.transpiler :=
    congrArg Prod.fst (announce_keeps quiet_still job number w)
  have hasked := ask_keeps job (asking job number w).workbench
  rw [tryOnce_apply, Asking.Breaks, Asking.cost?, hopen]
  rw [show (asking job number w).job = job from rfl]
  cases hask : ask job (asking job number w).workbench with
  | mk r w₁ =>
    have hanswer : (asking job number w).answer = r := congrArg Prod.fst hask
    rw [hask, hopen] at hasked
    rw [hanswer]
    cases r with
    | error e => cases e <;> simp [Broken]
    | ok text =>
      have hcharged := charge_rules job text w₁
      dsimp only at hasked ⊢
      unfold charge at hcharged ⊢
      cases hprice : job.provider.pricing.cost? job.prompt (text.getD "") with
      | none => simp [Broken]
      | some cost =>
        rw [hprice] at hcharged
        dsimp only at hcharged ⊢
        generalize Workbench.mk w₁.session
          { w₁.transpiler with spent := w₁.transpiler.spent + cost } = w₂ at hcharged ⊢
        have hconfig : w₂.transpiler.config = w.transpiler.config := by
          rw [config_of_rules hcharged, hasked]
        have hmaxSize : w₂.transpiler.cache.maxSize = w.transpiler.cache.maxSize := by
          rw [maxSize_of_rules hcharged, hasked]
        cases hflaw : (Transpiler.flaw? text : Option (Failure R)) with
        | some why =>
          rw [settle_flawed hflaw]
          simp [Broken]
        | none =>
          rw [settle_broken_iff _ _ _ (hmaxSize.symm ▸ hsize) hflaw, hconfig]
          simp

theorem permit_broken_iff (job : Job R) (w : Workbench R) :
    Broken (permit job w).1 ↔ Allowed job w ∧ ¬ Text.Short job.request.attempts := by
  unfold permit Allowed
  dsimp only
  split
  · rename_i why hrefused
    simp [Broken, hrefused]
  · rename_i hallowed
    rw [hallowed]
    split <;> simp_all [Broken]

/-- Attempts end with a fault exactly if one of their prompts leads to one, or if their number has
too many digits where it has to be written. -/
theorem attempts_broken_iff (hsize : 0 ≤ w.transpiler.cache.maxSize) (left number : Nat)
    (last : Failure R) :
    Broken (attempts job left number last w).1 ↔
      (¬ Text.Short job.request.attempts ∧ (0 < left → Allowed job w)) ∨
        ∃ a ∈ attemptAsks job left number w, a.Breaks := by
  induction left generalizing number last w with
  | zero =>
    rw [attempts]
    split
    · rename_i hshort
      simp [attemptAsks, hshort, Broken, bind_apply, say, surround, Run.update, Run.stop]
    · rename_i hlong
      simp [attemptAsks, hlong, Broken, Run.stop]
  | succ left ih =>
    rcases permit_apply job w with hpermit | ⟨e, hpermit⟩
    · have hshort := ((permit_eq_ok_iff job w).mp hpermit).2
      have htried := tryOnce_broken_iff job hsize number
      have hrules := tryOnce_rules job number w
      rw [attempts_succ hpermit, attemptAsks_succ hpermit]
      simp only [hshort, not_true_eq_false, false_and, false_or, List.mem_cons, exists_eq_or_imp]
      cases htry : tryOnce job number w with
      | mk r w' =>
        rw [htry] at htried hrules
        rw [← htried]
        cases r with
        | ok result => simp [Broken]
        | error e =>
          cases e with
          | broken fault => simp [Broken]
          | failed why =>
            have hkept := (afterFailure_rules number why (left ≠ 0) w').trans hrules
            have hrest := ih ((maxSize_of_rules hkept).symm ▸ hsize) (number + 1) why
            simpa [Broken, hshort] using hrest
    · have hbroken := permit_broken_iff job w
      rw [hpermit] at hbroken
      rw [attempts, bind_error hpermit, attemptAsks, hpermit]
      simpa [and_comm, broken_error_iff] using hbroken

end Attempts

/-! ## Requests -/

section Requests

/-- Before anything is asked a request ends with a fault exactly if a number of its target is too
long to be written, once its target is known and the day's budget is not spent. -/
theorem consider_broken_iff (request : Request) (w : Workbench R) :
    Broken (consider request w).1 ↔ request.target.problems.isEmpty = true ∧
      Quantity.upTo w.transpiler.config.budget.perDay (opened request w).transpiler.spent = false ∧
        ¬ request.target.Writable := by
  obtain ⟨console, hconsider⟩ := consider_apply request w
  rw [hconsider]
  split
  · rename_i htarget
    split
    · rename_i hspent
      simp [Broken, hspent]
    · rename_i hspent
      split
      · rename_i hwritable
        cases known? request w <;> simp [Broken, hwritable]
      · rename_i hlong
        simp [Broken, htarget, hlong, Bool.not_eq_true _ |>.mp hspent]
  · rename_i htarget
    simp [Broken, htarget]

theorem prepare_broken_iff {request : Request} (hwritable : request.target.Writable)
    (key? : Option String) (w : Workbench R) :
    Broken (prepare request key? w).1 ↔ ∃ fault, w.transpiler.preferred = .error fault := by
  obtain ⟨console, hprepare⟩ := prepare_apply hwritable key? w
  rw [hprepare]
  cases w.transpiler.preferred with
  | error fault => simp [Broken]
  | ok chosen =>
    dsimp only
    cases w.transpiler.providers.get? chosen.1 <;> simp [Broken]

/-- A request passes the gates, and a job is got ready for it. -/
def Ready (request : Request) (w : Workbench R) (job : Job R) (w' : Workbench R) : Prop :=
  ∃ key? w₁, consider request w = (.ok (.new key?), w₁) ∧ prepare request key? w₁ = (.ok job, w')

/-- A number of a request has too many digits where it has to be written: one of its target, if the
day's budget is not spent, or the number of attempts, if the first one is allowed or there is
none. -/
inductive Overlong (request : Request) (w : Workbench R) : Prop
  | target (htarget : request.target.problems.isEmpty = true)
      (hspent : Quantity.upTo w.transpiler.config.budget.perDay
        (opened request w).transpiler.spent = false) (hlong : ¬ request.target.Writable)
  | attempts {job : Job R} {w' : Workbench R} (hready : Ready request w job w')
      (hlong : ¬ Text.Short request.attempts) (hallowed : 0 < request.attempts → Allowed job w')

/-- A request that is not ready for its attempts is over with a fault for its target at most. -/
theorem overlong_iff_of_unready {request : Request} {w : Workbench R}
    (h : ∀ job w', ¬ Ready request w job w') :
    Overlong request w ↔ Broken (consider request w).1 := by
  rw [consider_broken_iff]
  constructor
  · rintro (⟨htarget, hspent, hlong⟩ | ⟨hready, -, -⟩)
    · exact ⟨htarget, hspent, hlong⟩
    · exact absurd hready (h _ _)
  · rintro ⟨htarget, hspent, hlong⟩
    exact .target htarget hspent hlong

theorem overlong_iff_of_ready {request : Request} {w w' : Workbench R} {job : Job R}
    (h : Ready request w job w') :
    Overlong request w ↔
      ¬ Text.Short request.attempts ∧ (0 < request.attempts → Allowed job w') := by
  constructor
  · rintro (⟨htarget, hspent, hlong⟩ | @⟨job', w'', hready, hlong, hallowed⟩)
    · obtain ⟨key?, w₁, hconsider, -⟩ := h
      obtain ⟨fault, hfault⟩ := (consider_broken_iff request w).mpr ⟨htarget, hspent, hlong⟩
      rw [hconsider] at hfault
      cases hfault
    · obtain ⟨key?, w₁, hconsider, hprepare⟩ := h
      obtain ⟨key?', w₁', hconsider', hprepare'⟩ := hready
      cases hconsider.symm.trans hconsider'
      cases hprepare.symm.trans hprepare'
      exact ⟨hlong, hallowed⟩
  · rintro ⟨hlong, hallowed⟩
    exact .attempts h hlong hallowed

/-- The fallbacks of a configuration are names. -/
def Named (c : Config R) : Prop := ∀ j ∈ c.providers.fallback, ∃ name, j = .str name

omit [Quantity R] [Inhabited R] in
theorem preferred_ok {t : Transpiler R} (h : Named t.config) (fault : Fault) :
    t.preferred ≠ .error fault := by
  have hfirst : ∀ l : List Json, (∀ j ∈ l, ∃ name, j = .str name) →
      ∃ found, Transpiler.firstAvailable t.providers l = .ok found := by
    intro l hl
    induction l with
    | nil => exact ⟨none, rfl⟩
    | cons j l ih =>
      obtain ⟨⟨name, rfl⟩, hrest⟩ := List.forall_mem_cons.mp hl
      rw [Transpiler.firstAvailable]
      split
      · exact ⟨some name, rfl⟩
      · exact ih hrest
  obtain ⟨found, hfound⟩ := hfirst _ h
  unfold Transpiler.preferred
  dsimp only
  split
  · intro h
    cases h
  · split
    · intro h
      cases h
    · rw [hfound]
      cases found <;> intro h <;> cases h

/-- Where the fallbacks are names, a request ends with a fault exactly if one of its numbers is too
long to be written, or if one of its prompts leads to a fault. -/
theorem transpile_broken_iff_breaks {w : Workbench R} (hsize : 0 ≤ w.transpiler.cache.maxSize)
    (hnamed : Named w.transpiler.config) (request : Request) :
    Broken (transpile request w).1 ↔
      Overlong request w ∨ ∃ a ∈ asks request w, a.Breaks := by
  have hconsidered := considered request w
  have hrules : (consider request w).2.rules = w.rules :=
    (consider_view plain_rules request w).trans (opened_rules request w)
  -- where no job is got ready nothing is asked, and only the target can have led to a fault
  have hover {r : Except (Stop R) (Conversion R)} (hasks : asks request w = [])
      (hunready : ∀ job w', ¬ Ready request w job w')
      (hended : Broken r ↔ Broken (consider request w).1) :
      Broken r ↔ Overlong request w ∨ ∃ a ∈ asks request w, a.Breaks := by
    rw [hended, overlong_iff_of_unready hunready, hasks]
    simp
  cases hconsider : consider request w with
  | mk r w₁ =>
    rw [hconsider] at hconsidered hrules
    have hunready (hnone : ∀ key?, r ≠ .ok (.new key?)) (job : Job R) (w' : Workbench R) :
        ¬ Ready request w job w' := by
      rintro ⟨key?, w₁', hready, -⟩
      cases hconsider.symm.trans hready
      exact hnone key? rfl
    cases r with
    | error e =>
      refine hover (by rw [asks, hconsider]) (hunready fun _ h => by cases h) ?_
      rw [transpile, bind_error hconsider, hconsider, broken_error_iff, broken_error_iff]
    | ok admission =>
      cases admission with
      | known result =>
        refine hover (by rw [asks, hconsider]) (hunready fun _ h => by cases h) ?_
        rw [transpile, bind_ok hconsider, hconsider]
        simp [Broken, Pure.pure, Run.done]
      | new key? =>
        have hwritable : request.target.Writable := by
          cases hconsidered with
          | new hwritable => exact hwritable
        have hready : (prepare request key? w₁).2.rules = w.rules :=
          (prepare_keeps plain_rules.toQuiet request key? w₁).trans hrules
        have hprepared : ¬ Broken (prepare request key? w₁).1 := by
          rw [prepare_broken_iff hwritable]
          rintro ⟨fault, hfault⟩
          exact preferred_ok ((config_of_rules hrules).symm ▸ hnamed) fault hfault
        cases hprepare : prepare request key? w₁ with
        | mk r w₂ =>
          rw [hprepare] at hprepared hready
          cases r with
          | error e =>
            refine hover (by rw [asks, hconsider]; dsimp only; rw [hprepare]) ?_ ?_
            · rintro job w' ⟨key?', w₁', hconsider', hprepare'⟩
              cases hconsider.symm.trans hconsider'
              cases hprepare.symm.trans hprepare'
            · rw [transpile, bind_ok hconsider, hconsider]
              dsimp only
              rw [bind_error hprepare]
              refine iff_of_false ?_ (by simp [Broken])
              rwa [broken_error_iff, ← broken_error_iff (α := Job R)]
          | ok job =>
            obtain ⟨-, hrequest, -⟩ := prepare_ok hprepare
            have hattempts : Broken (attempts job request.attempts.toNat 1 .noAttempt w₂).1 ↔ _ :=
              attempts_broken_iff ((maxSize_of_rules hready).symm ▸ hsize) _ _ _
            rw [hrequest, Int.lt_toNat, Int.natCast_zero] at hattempts
            rw [overlong_iff_of_ready ⟨key?, w₁, hconsider, hprepare⟩, transpile,
              bind_ok hconsider, asks, hconsider]
            dsimp only
            rw [bind_ok hprepare, hprepare]
            exact hattempts

end Requests

/-! ## Any events -/

theorem maxSize_of_problems {config : Config R} (h : config.problems = []) :
    0 ≤ config.caching.maxSize := by
  unfold Config.problems at h
  simp only [List.append_eq_nil_iff] at h
  obtain ⟨⟨⟨-, hsize⟩, -⟩, -⟩ := h
  split at hsize
  · cases hsize
  · omega

/-- Under a configuration without problems whose fallbacks are names, with providers whose answers
have a price, and as long as no provider breaks down itself: a request ends with a fault exactly if
one of its own numbers is too long to be written, or if one of its prompts is answered by something
that is taken for C and whose figures cannot be worked out, as when the length of an array has too
many digits. -/
theorem transpile_broken_iff {config : Config R} {providers : Entries (Provider R)}
    {s s' : Session R} {t : Transpiler R}
    (hcreate : Transpiler.create config providers s = (.ok t, s')) (hvalid : config.problems = [])
    (hnamed : Named config)
    (hpriced : ∀ p ∈ providers, ∀ prompt answer, (p.2.pricing.cost? prompt answer).isSome)
    (events : List (Event R)) (request : Request)
    (hanswers : ∀ a ∈ asks request (History.after ⟨⟨s', t⟩, []⟩ events).workbench,
      ¬ Broken a.answer) :
    let w := (History.after ⟨⟨s', t⟩, []⟩ events).workbench
    Broken (transpile request w).1 ↔ Overlong request w ∨
      ∃ a ∈ asks request w, ∃ answer, a.answer = .ok answer ∧
        (Transpiler.flaw? answer : Option (Failure R)) = none ∧
        (Code.Unreadable (answer.getD "") ∨
          (config.quality.review = true ∨ config.quality.learning = true) ∧
            ¬ Code.Countable R (Code.placed (answer.getD ""))) := by
  intro w
  have hrules : w.rules = (config, providers, config.caching.maxSize, config.caching.lifetime) :=
    (rules_after _ events).trans (create_rules hcreate).1
  have hconfig : w.transpiler.config = config := congrArg Prod.fst hrules
  have hproviders : w.transpiler.providers = providers := congrArg (·.2.1) hrules
  have hmaxSize : w.transpiler.cache.maxSize = config.caching.maxSize := congrArg (·.2.2.1) hrules
  rw [transpile_broken_iff_breaks (hmaxSize ▸ maxSize_of_problems hvalid) (hconfig ▸ hnamed)]
  refine or_congr_right (exists_congr fun a => and_congr_right fun ha => ?_)
  obtain ⟨-, hterms, ⟨name, hprovider⟩, -⟩ := asks_permitted ha
  have hthen : a.workbench.transpiler.config = config :=
    (congrArg Prod.fst hterms).trans ((config_of_rules (opened_rules request w)).trans hconfig)
  have hunbroken := hanswers a ha
  rw [Asking.Breaks, Asking.cost?]
  cases hanswer : a.answer with
  | error e =>
    rw [hanswer] at hunbroken
    cases e with
    | broken fault => exact absurd ⟨fault, rfl⟩ hunbroken
    | failed why => simp
  | ok answer =>
    have hprice := hpriced _ (Entries.mem_of_get? (hproviders ▸ hprovider)) a.job.prompt
      (answer.getD "")
    have hcost : a.job.provider.pricing.cost? a.job.prompt (answer.getD "") ≠ none :=
      Option.isSome_iff_ne_none.mp hprice
    simp only [hcost, false_or, hthen, Transpiler.not_settleable_iff, Except.ok.injEq,
      exists_eq_left']

/-! ## A length that cannot be read -/

/-- A program with an array of a length with more digits than can be read. -/
def longArray : String :=
  "void main(\x7b unsigned char a[" ++ (String.ofList (.replicate 4301 '1') ++ "]")

theorem toList_longArray : longArray.toList = "void main(\x7b unsigned char a".toList ++
    '[' :: (List.replicate 4301 '1' ++ [']']) := by
  have htext (front back : String) (digits : List Char) :
      (front ++ (String.ofList digits ++ back)).toList =
        front.toList ++ (digits ++ back.toList) := by simp
  have hfront : "void main(\x7b unsigned char a[".toList =
      "void main(\x7b unsigned char a".toList ++ ['['] := by decide
  have hback : "]".toList = [']'] := by decide
  refine (htext _ _ _).trans ?_
  rw [hfront, hback, List.append_assoc, List.singleton_append]

theorem unreadable_longArray : Code.Unreadable longArray := by
  refine ⟨"void main(\x7b unsigned char a".toList, _, List.replicate 4301 '1', [],
    toList_longArray, ⟨?_, rfl, ?_, fun d hd => ?_⟩, ?_⟩
  · decide +kernel
  · refine List.length_pos_iff.mp ?_
    rw [List.length_replicate]
    decide
  · rw [List.eq_of_mem_replicate hd]
    decide +kernel
  · show Text.digitLimit < (List.replicate 4301 '1').length
    rw [List.length_replicate]
    decide

theorem looksLikeC_longArray : Code.looksLikeC longArray = true := by
  have hstart : ∀ mark ∈ ["void main(", "unsigned char", "\x7b"],
      Text.occursIn mark.toList "void main(\x7b unsigned char a".toList = true := by decide
  have hhas : ∀ mark ∈ ["void main(", "unsigned char", "\x7b"],
      Text.contains longArray mark = true := by
    intro mark hmark
    exact Text.occursIn_trans (hstart mark hmark)
      (Text.occursIn_iff.mpr ⟨[], _, toList_longArray⟩)
  have hsub : ["void main(", "unsigned char", "\x7b"].Sublist Code.marks := by decide
  have hcount := hsub.countP_le (p := Text.contains longArray)
  rw [List.countP_eq_length.mpr hhas] at hcount
  exact decide_eq_true hcount

theorem flaw?_longArray : (Transpiler.flaw? (some longArray) : Option (Failure ℚ)) = none := by
  have hsaid : Text.allBlank longArray.toList = false := by
    rw [toList_longArray]
    rfl
  rw [Transpiler.flaw?, Option.getD_some, hsaid, looksLikeC_longArray]
  rfl

/-- An array of a length with more digits than can be read. -/
theorem transpile_broken_of_long_array :
    let text := "void main(\x7b unsigned char a[" ++ (String.ofList (.replicate 4301 '1') ++ "]")
    let providers : Entries (Provider ℚ) := [("wordy", .scripted "wordy" 0 (some 0))]
    let s : Session ℚ :=
      { clock := 0
        today := "2024-01-01"
        scripts := [("wordy", [⟨1, .text (some text)⟩])] }
    let r : Request := { source := "let x = 1;", attempts := 1 }
    ∃ s' t, Transpiler.create (Config.standard "gbdk") providers s = (.ok t, s') ∧
      Broken (transpile r ⟨s', t⟩).1 := by
  intro text providers s r
  have hlong : Code.Unreadable text := unreadable_longArray
  have hflaw : (Transpiler.flaw? (some text) : Option (Failure ℚ)) = none := flaw?_longArray
  clear_value text
  have hcreate : Transpiler.create (Config.standard "gbdk") providers s = (.ok _, _) := rfl
  have hvalid : (Config.standard "gbdk" : Config ℚ).problems = [] := by decide +kernel
  have hnamed : Named (Config.standard "gbdk" : Config ℚ) := by
    intro j hj
    have hj : j ∈ [Json.str "openai", Json.str "local"] := hj
    simp only [List.mem_cons, List.not_mem_nil, or_false] at hj
    rcases hj with rfl | rfl
    · exact ⟨_, rfl⟩
    · exact ⟨_, rfl⟩
  have hpriced : ∀ p ∈ providers, ∀ prompt answer, (p.2.pricing.cost? prompt answer).isSome := by
    intro p hp prompt answer
    rw [List.mem_singleton.mp hp]
    rfl
  have hbroken := transpile_broken_iff hcreate hvalid hnamed hpriced [] r
  refine ⟨_, _, hcreate, ?_⟩
  rw [show ∀ h : History ℚ, h.after [] = h from fun _ => rfl] at hbroken
  generalize hw : (Workbench.mk _ _ : Workbench ℚ) = w at hbroken ⊢
  have hconfig : w.transpiler.config = Config.standard "gbdk" := by
    subst hw
    rfl
  have hopened : opened r w = w := by
    subst hw
    rfl
  have hspent : w.transpiler.spent = 0 := by
    subst hw
    show (Quantity.ofNat 0 : ℚ) = 0
    decide
  have hlimit : (0 : ℚ) ≤ (Config.standard "gbdk").budget.perConversion := by decide
  have hbudget : (0 : ℚ) ≤ (Config.standard "gbdk").budget.perDay := by decide
  have hbelow : Quantity.upTo (Config.standard "gbdk").budget.perDay (0 : ℚ) = false := by decide
  obtain ⟨job, console, hrequest, -, hjob, -, hasks⟩ :=
    transpile_of_new (show r.target.problems.isEmpty = true from rfl)
      (by rw [hconfig, hopened, hspent, hbelow]) (show r.target.Writable by decide)
      (show known? r w = none by subst hw; rfl)
      (show (opened r w).transpiler.preferred = .ok ("wordy", true) by subst hw; rfl)
      (show (opened r w).transpiler.providers.get? "wordy" =
        some (.scripted "wordy" 0 (some 0)) by subst hw; rfl)
  have hpermit : permit job (admitted r w console) = (.ok (), admitted r w console) :=
    permit_free (by rw [hrequest]; decide) (by rw [hjob]; rfl)
      (by rw [admitted, hopened, hconfig]; exact hlimit)
      (by rw [admitted, hopened, hconfig, hspent]; exact hbudget)
  -- there is one attempt, so nothing else is asked
  have hone : asks r w = [asking job 1 (admitted r w console)] := by
    rw [hasks, show r.attempts.toNat = 0 + 1 from rfl, attemptAsks_succ hpermit]
    generalize tryOnce job 1 (admitted r w console) = tried
    obtain ⟨result, w'⟩ := tried
    cases result with
    | ok result => rfl
    | error e => cases e <;> rfl
  have hanswer : (asking job 1 (admitted r w console)).answer = .ok (some text) := by
    unfold Asking.answer ask asking
    rw [hjob]
    subst hw
    rfl
  refine (hbroken fun a ha => ?_).mpr (.inr ⟨_, by rw [hone]; exact List.mem_singleton.mpr rfl,
    some text, hanswer, hflaw, .inl hlong⟩)
  rw [hone, List.mem_singleton] at ha
  rw [ha, hanswer]
  rintro ⟨fault, hfault⟩
  cases hfault

end Workbench

end Cartridge
