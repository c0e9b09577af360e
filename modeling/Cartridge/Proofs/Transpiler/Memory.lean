import Cartridge.Proofs.Transpiler.Account
import Cartridge.Proofs.Transpiler.Gates

/-!
# What a transpiler remembers

Between requests a transpiler remembers results and examples. A request that fails leaves them as
they are, but for an expired result of an equal request, which is dropped when it is looked for. A
request that is answered anew keeps its result, if the cache is used, as the newest one; a request
that is answered from the cache changes nothing at all.

* `rules`, `rules_after`: what no request changes.
* `settle_accepted`, `learn_apply`: what becomes of an answer that is C, step by step.
* `Settled`, `settled`: what settling an answer comes to.
* `attempts_failed`, `attempts_ok`: what attempts leave behind.
* `transpile_remembers`: what a request leaves behind, by how it ends.
-/

namespace Cartridge

namespace Workbench

open Run

variable {R : Type} [Quantity R] [Inhabited R]

/-- The cache and the examples. -/
def memory (w : Workbench R) : Cache R (Conversion R) × List (Example R) :=
  (w.transpiler.cache, w.transpiler.examples)

/-- A cache becomes another when a result is kept at a time under a key, if there is one. -/
def Kept (key? : Option String) (result : Conversion R) (now : R)
    (c c' : Cache R (Conversion R)) : Prop :=
  match key? with
  | some key => c.set key result now = some c'
  | none => c' = c

omit [Inhabited R] in
theorem quiet_memory : Quiet (memory : Workbench R → _) := ⟨fun _ _ => rfl, fun _ _ => rfl⟩

/-! ## Rules -/

section Rules

variable {τ : Type} {view : Workbench R → τ}

theorem tryOnce_keeps (hview : Plain view) (hask : ∀ job, Keeps view (ask job))
    (hcharge : ∀ job answer, Keeps view (charge job answer)) (job : Job R) (number : Nat) :
    Keeps view (tryOnce job number) := by
  refine .bind (announce_keeps hview.toQuiet _ _) fun _ => .bind (hask _) fun answer => ?_
  exact .bind .get fun w => .bind (hcharge _ _) fun cost => settle_keeps hview _ _ _ _

/-- A plain view is kept by attempts if asking and paying keep it. -/
theorem attempts_keeps (hview : Plain view) (hask : ∀ job, Keeps view (ask job))
    (hcharge : ∀ job answer, Keeps view (charge job answer)) (job : Job R) (left number : Nat)
    (last : Failure R) : Keeps view (attempts job left number last) := by
  have hpermit : Keeps view (permit job) := by
    intro w
    rcases permit_apply job w with h | ⟨why, h⟩ <;> rw [h]
  induction left generalizing number last with
  | zero =>
    unfold attempts
    split
    · exact .bind (say_keeps hview.toQuiet _) fun _ => .stop _
    · exact .stop _
  | succ left ih =>
    have htry := tryOnce_keeps hview hask hcharge job number
    refine .bind hpermit fun _ => .bind (.attempt htry) fun outcome => ?_
    split
    · exact .pure _
    · exact .stop _
    · exact .bind (afterFailure_keeps hview.toQuiet _ _ _) fun _ => ih _ _

/-- A plain view is kept by requests if attempts keep it and it does not tell of the account. -/
theorem transpile_keeps (hview : Plain view) (hask : ∀ job, Keeps view (ask job))
    (hcharge : ∀ job answer, Keeps view (charge job answer))
    (hopened : ∀ request w, view (opened request w) = view w) (request : Request) :
    Keeps view (transpile request) := by
  have hconsider : Keeps view (consider request) := fun w =>
    (consider_view hview request w).trans (hopened request w)
  refine .bind hconsider fun admission => ?_
  split
  · exact .pure _
  · exact .bind (prepare_keeps hview.toQuiet _ _) fun job =>
      attempts_keeps hview hask hcharge job _ _ _

/-- What no request changes: the configuration, the providers and the limits of the cache. -/
def rules (w : Workbench R) : Config R × Entries (Provider R) × Int × Number R :=
  (w.transpiler.config, w.transpiler.providers, w.transpiler.cache.maxSize,
    w.transpiler.cache.lifetime)

omit [Quantity R] [Inhabited R] in
theorem config_of_rules {w w' : Workbench R} (h : w'.rules = w.rules) :
    w'.transpiler.config = w.transpiler.config := congrArg Prod.fst h

omit [Quantity R] [Inhabited R] in
theorem maxSize_of_rules {w w' : Workbench R} (h : w'.rules = w.rules) :
    w'.transpiler.cache.maxSize = w.transpiler.cache.maxSize := congrArg (·.2.2.1) h

omit [Inhabited R] in
theorem plain_rules : Plain (rules : Workbench R → _) :=
  ⟨⟨fun _ _ => rfl, fun _ _ => rfl⟩, fun _ _ => rfl, fun _ _ => rfl⟩

omit [Inhabited R] in
theorem ask_rules (job : Job R) : Keeps rules (ask job) := by
  intro w
  rw [rules, ask_keeps job w]
  rfl

theorem charge_rules (job : Job R) (answer : Option String) : Keeps rules (charge job answer) := by
  intro w
  unfold charge
  split <;> rfl

theorem opened_rules (request : Request) (w : Workbench R) :
    (opened request w).rules = w.rules := by
  unfold opened
  split <;> rfl

theorem tryOnce_rules (job : Job R) (number : Nat) : Keeps rules (tryOnce job number) :=
  tryOnce_keeps plain_rules ask_rules charge_rules job number

theorem afterFailure_rules (number : Nat) (why : Failure R) (more : Bool) :
    Keeps rules (afterFailure number why more) :=
  afterFailure_keeps plain_rules.toQuiet number why more

theorem transpile_rules (request : Request) :
    Keeps (rules : Workbench R → _) (transpile request) :=
  transpile_keeps plain_rules ask_rules charge_rules opened_rules request

theorem rules_after (h : History R) (events : List (Event R)) :
    (h.after events).workbench.rules = h.workbench.rules := by
  refine History.after_invariant (I := fun h' => h'.workbench.rules = h.workbench.rules) ?_ events
    rfl
  intro h' e heq
  cases e with
  | outside s => exact heq
  | request r => exact (transpile_rules r h'.workbench).trans heq

theorem create_rules {config : Config R} {providers : Entries (Provider R)} {s s' : Session R}
    {t : Transpiler R} (hcreate : Transpiler.create config providers s = (.ok t, s')) :
    (Workbench.mk s' t).rules =
        (config, providers, config.caching.maxSize, config.caching.lifetime) ∧
      t.cache.entries = [] := by
  unfold Transpiler.create at hcreate
  split at hcreate
  · cases hcreate
  · cases hcreate
    exact ⟨rfl, rfl⟩

end Rules

/-! ## Settling an answer -/

section Settling

variable {job : Job R} {answer : Option String} {duration cost : R} {w w' : Workbench R}
  {result : Conversion R} {why : Failure R} {r : Except (Stop R) (Conversion R)}

omit [Quantity R] [Inhabited R] in
theorem figure_ok {α : Type} (a : α) (w : Workbench R) : figure (.ok a) w = (.ok a, w) := rfl

omit [Quantity R] [Inhabited R] in
theorem figure_error {α : Type} (e : Code.Uncountable) (w : Workbench R) :
    figure (.error e : Except Code.Uncountable α) w = (.error (.broken (.ofUncountable e)), w) :=
  rfl

theorem learn_apply (source code : String) (target : Target) (quality : R) (provider : String)
    (w : Workbench R) :
    learn source code target quality provider w =
      if w.transpiler.config.quality.learning then
        match Example.performanceOf code quality with
        | .error e => (.error (.broken (.ofUncountable e)), w)
        | .ok performance =>
          (.ok (), { w with transpiler := { w.transpiler with
            examples := Example.remember w.transpiler.examples
              { source, code, target, quality, performance, time := w.session.clock, provider } } })
      else (.ok (), w) := by
  unfold learn
  rw [bind_ok (show (Run.get : Task R (Workbench R)) w = (.ok w, w) from rfl)]
  split
  · cases hperformance : Example.performanceOf code quality with
    | error e => exact bind_error (figure_error e w)
    | ok performance => exact bind_ok (figure_ok performance w)
  · rfl

theorem settle_flawed (hflaw : Transpiler.flaw? answer = some why) (w : Workbench R) :
    settle job answer duration cost w = (.error (.failed why), w) := by
  unfold settle
  rw [hflaw]
  rfl

variable (job duration cost) in
theorem settle_accepted (hflaw : (Transpiler.flaw? answer : Option (Failure R)) = none)
    (w : Workbench R) :
    ∃ said : Conversion R → Console → Console,
    settle job answer duration cost w =
      match Transpiler.conversion w.transpiler.config job.request.source (answer.getD "")
        job.name duration cost with
      | .error e => (.error (.broken (.ofUncountable e)), w)
      | .ok result =>
        match store job result w with
        | (.error e, w₁) => (.error e, w₁)
        | (.ok _, w₁) =>
          match learn job.request.source result.code job.request.target result.quality
            job.name w₁ with
          | (.error e, w₂) => (.error e, w₂)
          | (.ok _, w₂) => (.ok result, { w₂ with session := w₂.session.say (said result) }) := by
  refine ⟨fun result c => (c.success ("AI transpilation completed! Duration: " ++
    Quantity.fixed 2 duration ++ "s, Cost: $" ++ Quantity.fixed 4 cost)).info ("Quality: " ++
    Quantity.fixed 1 (result.quality * Quantity.ofNat 100) ++ "%, ROM: ~" ++
    toString result.notes.romSize ++ " bytes"), ?_⟩
  unfold settle
  rw [hflaw]
  dsimp only
  rw [bind_ok (show (Run.get : Task R (Workbench R)) w = (.ok w, w) from rfl)]
  cases hconversion : Transpiler.conversion w.transpiler.config job.request.source
      (answer.getD "") job.name duration cost with
  | error e => exact bind_error (figure_error e w)
  | ok result =>
    rw [bind_ok (figure_ok result w), bind_apply]
    dsimp only
    cases hstore : store job result w with
    | mk r w₁ =>
      cases r with
      | error e => rfl
      | ok _ =>
        dsimp only
        rw [bind_apply]
        cases hlearn : learn job.request.source result.code job.request.target result.quality
            job.name w₁ with
        | mk r w₂ =>
          cases r with
          | error e => rfl
          | ok _ => rfl

omit [Quantity R] [Inhabited R] in
theorem store_failed (job : Job R) (result : Conversion R) (w : Workbench R) :
    (store job result w).1 ≠ .error (.failed why) := by
  unfold store
  cases job.key? with
  | none =>
    intro h
    cases h
  | some key =>
    dsimp only
    unfold keep
    dsimp only
    split <;> simp

theorem learn_failed (source code : String) (target : Target) (quality : R) (provider : String)
    (w : Workbench R) : (learn source code target quality provider w).1 ≠ .error (.failed why) := by
  rw [learn_apply]
  split
  · split <;> simp
  · simp

/-- Nothing is learned from code whose figures cannot be worked out. -/
theorem learn_of_error {source code provider : String} {target : Target} {quality : R} {e : Stop R}
    (h : learn source code target quality provider w = (.error e, w')) : w' = w := by
  rw [learn_apply] at h
  split at h
  · split at h
    · cases h
      rfl
    · cases h
  · cases h

/-- Learning changes the examples only. -/
theorem learn_rest (source code : String) (target : Target) (quality : R) (provider : String)
    (w : Workbench R) :
    (learn source code target quality provider w).2.transpiler.cache = w.transpiler.cache ∧
      (learn source code target quality provider w).2.session = w.session := by
  rw [learn_apply]
  split
  · split <;> exact ⟨rfl, rfl⟩
  · exact ⟨rfl, rfl⟩

omit [Quantity R] [Inhabited R] in
theorem store_examples (job : Job R) (result : Conversion R) :
    Keeps (fun w => w.transpiler.examples) (store job result) := by
  intro w
  unfold store
  cases job.key? with
  | none => rfl
  | some key =>
    dsimp only
    unfold keep
    dsimp only
    split <;> rfl

variable (job answer duration cost w) in
/-- What settling an answer comes to: it is no use, or it is C and its figures cannot be worked out
or its result cannot be kept, or it is kept and learned. -/
inductive Settled : Except (Stop R) (Conversion R) → Workbench R → Prop
  | flawed {why : Failure R} (hflaw : Transpiler.flaw? answer = some why) :
      Settled (.error (.failed why)) w
  | broken {fault : Fault} {w' : Workbench R}
      (hexamples : w'.transpiler.examples = w.transpiler.examples) :
      Settled (.error (.broken fault)) w'
  | accepted {result : Conversion R} {w₁ w₂ : Workbench R}
      (hflaw : (Transpiler.flaw? answer : Option (Failure R)) = none)
      (hmade : Transpiler.conversion w.transpiler.config job.request.source (answer.getD "")
        job.name duration cost = .ok result)
      (hstore : store job result w = (.ok (), w₁))
      (hlearn : learn job.request.source result.code job.request.target result.quality
        job.name w₁ = (.ok (), w₂)) (said : Console → Console) :
      Settled (.ok result) { w₂ with session := w₂.session.say said }

theorem settled (h : settle job answer duration cost w = (r, w')) :
    Settled job answer duration cost w r w' := by
  cases hflaw : (Transpiler.flaw? answer : Option (Failure R)) with
  | some why =>
    rw [settle_flawed hflaw] at h
    cases h
    exact .flawed hflaw
  | none =>
    obtain ⟨said, hsettle⟩ := settle_accepted job duration cost hflaw w
    rw [hsettle] at h
    split at h
    · cases h
      exact .broken rfl
    · rename_i result hmade
      have hexamples := store_examples job result w
      split at h
      · rename_i e w₁ hstore
        cases h
        rw [hstore] at hexamples
        cases e with
        | failed why => exact absurd (congrArg Prod.fst hstore) (store_failed job result w)
        | broken fault => exact .broken hexamples
      · rename_i w₁ hstore
        rw [hstore] at hexamples
        split at h
        · rename_i e w₂ hlearn
          cases h
          cases e with
          | failed why => exact absurd (congrArg Prod.fst hlearn) (learn_failed _ _ _ _ _ w₁)
          | broken fault =>
            rw [learn_of_error hlearn]
            exact .broken hexamples
        · rename_i w₂ hlearn
          cases h
          exact .accepted hflaw hmade hstore hlearn (said result)

/-- Only an answer that is no use fails, and it changes nothing. -/
theorem settle_failed (h : settle job answer duration cost w = (.error (.failed why), w')) :
    Transpiler.flaw? answer = some why ∧ w' = w := by
  cases settled h with
  | flawed hflaw => exact ⟨hflaw, rfl⟩

/-- Only an answer that is C is settled, and the result is its conversion. -/
theorem conversion_of_settle (h : settle job answer duration cost w = (.ok result, w')) :
    (Transpiler.flaw? answer : Option (Failure R)) = none ∧
      Transpiler.conversion w.transpiler.config job.request.source (answer.getD "")
        job.name duration cost = .ok result := by
  cases settled h with
  | accepted hflaw hmade _ _ _ => exact ⟨hflaw, hmade⟩

omit [Quantity R] [Inhabited R] in
theorem kept_of_store (h : store job result w = (.ok (), w')) :
    Kept job.key? result w'.session.clock w.transpiler.cache w'.transpiler.cache := by
  unfold store at h
  cases hkey : job.key? with
  | none =>
    rw [hkey] at h
    cases h
    rfl
  | some key =>
    rw [hkey] at h
    dsimp only at h
    unfold keep at h
    dsimp only at h
    split at h
    · rename_i cache hset
      cases h
      exact hset
    · cases h

theorem settle_ok (h : settle job answer duration cost w = (.ok result, w')) :
    Kept job.key? result w'.session.clock w.transpiler.cache w'.transpiler.cache := by
  cases settled h with
  | @accepted _ w₁ w₂ _ _ hstore hlearn said =>
    have hkept := kept_of_store hstore
    obtain ⟨hcache, hsession⟩ := learn_rest job.request.source result.code job.request.target
      result.quality job.name w₁
    rw [hlearn] at hcache hsession
    rwa [← hcache, ← hsession] at hkept

end Settling

/-! ## Attempts -/

section Attempts

variable {job : Job R} {number left : Nat} {w w' : Workbench R} {result : Conversion R}
  {why last : Failure R}

/-- What an attempt leaves as it was before it settles the answer that it was given. -/
theorem paid_memory {answer : Option String} {w₁ w₂ : Workbench R} {cost : R}
    (hask : ask job (asking job number w).workbench = (.ok answer, w₁))
    (hcharge : charge job answer w₁ = (.ok cost, w₂)) : w₂.memory = w.memory := by
  have hasked : w₁.transpiler = (asking job number w).workbench.transpiler := by
    rw [← ask_keeps job (asking job number w).workbench, hask]
  have hopen : (asking job number w).workbench.memory = w.memory :=
    announce_keeps quiet_memory job number w
  unfold charge at hcharge
  split at hcharge
  · cases hcharge
  · cases hcharge
    rw [← hopen, memory, memory, hasked]

theorem tryOnce_failed (h : tryOnce job number w = (.error (.failed why), w')) :
    w'.memory = w.memory := by
  have hopen : (asking job number w).workbench.memory = w.memory :=
    announce_keeps quiet_memory job number w
  rw [tryOnce_apply] at h
  split at h
  · rename_i e w₁ hask
    cases h
    rw [← hopen, memory, memory, ← ask_keeps job (asking job number w).workbench, hask]
  · rename_i answer w₁ hask
    split at h
    · rename_i e w₂ hcharge
      unfold charge at hcharge
      split at hcharge
      · cases hcharge
        cases h
      · cases hcharge
    · rename_i cost w₂ hcharge
      rw [(settle_failed h).2]
      exact paid_memory hask hcharge

theorem tryOnce_ok (h : tryOnce job number w = (.ok result, w')) :
    Kept job.key? result w'.session.clock w.transpiler.cache w'.transpiler.cache := by
  rw [tryOnce_apply] at h
  split at h
  · cases h
  · rename_i answer w₁ hask
    split at h
    · cases h
    · rename_i cost w₂ hcharge
      have hcache : w₂.transpiler.cache = w.transpiler.cache :=
        congrArg Prod.fst (paid_memory hask hcharge)
      rw [← hcache]
      exact settle_ok h

theorem attempts_failed (h : attempts job left number last w = (.error (.failed why), w')) :
    w'.memory = w.memory := by
  induction left generalizing number last w with
  | zero =>
    rw [attempts] at h
    split at h
    · cases h
      exact say_keeps quiet_memory _ w
    · cases h
  | succ left ih =>
    rcases permit_apply job w with hpermit | ⟨e, hpermit⟩
    · rw [attempts_succ hpermit] at h
      split at h
      · cases h
      · cases h
      · rename_i flaw w₁ htry
        rw [ih h, afterFailure_keeps quiet_memory number flaw _ w₁, tryOnce_failed htry]
    · rw [attempts, bind_error hpermit] at h
      cases h
      rfl

theorem attempts_ok (h : attempts job left number last w = (.ok result, w')) :
    Kept job.key? result w'.session.clock w.transpiler.cache w'.transpiler.cache := by
  induction left generalizing number last w with
  | zero =>
    rw [attempts] at h
    split at h <;> cases h
  | succ left ih =>
    rcases permit_apply job w with hpermit | ⟨e, hpermit⟩
    · rw [attempts_succ hpermit] at h
      split at h
      · rename_i made w₁ htry
        cases h
        exact tryOnce_ok htry
      · cases h
      · rename_i flaw w₁ htry
        have hmemory := (afterFailure_keeps quiet_memory number flaw (left ≠ 0) w₁).trans
          (tryOnce_failed htry)
        have hcache : (afterFailure number flaw (left ≠ 0) w₁).2.transpiler.cache =
            w.transpiler.cache := congrArg Prod.fst hmemory
        rw [← hcache]
        exact ih h
    · rw [attempts, bind_error hpermit] at h
      cases h

end Attempts

/-! ## Whole requests -/

section Requests

variable (request : Request) (w : Workbench R)

theorem heard_memory (console : Console) : (heard request w console).memory = w.memory := by
  unfold heard opened memory
  split <;> rfl

theorem admitted_memory (console : Console) :
    (admitted request w console).memory = (searched request w, w.transpiler.examples) := by
  unfold admitted opened memory
  split <;> rfl

/-- What a request leaves behind, by how it ends. -/
inductive Remembers : Except (Stop R) (Conversion R) → Workbench R → Prop
  | failed {why : Failure R} {w' : Workbench R}
      (hmemory : w'.memory = w.memory ∨
        w'.memory = (searched request w, w.transpiler.examples)) :
      Remembers (.error (.failed why)) w'
  | again {first : Conversion R} (hknown : known? request w = some first) (console : Console) :
      Remembers (.ok (again first)) (heard request w console)
  | anew {result : Conversion R} {w' : Workbench R} (hanew : result.fromCache = false)
      (hkept : Kept (keyOf? request w) result w'.session.clock (searched request w)
        w'.transpiler.cache) :
      Remembers (.ok result) w'
  | broken {fault : Fault} {w' : Workbench R} : Remembers (.error (.broken fault)) w'

variable {request w}

theorem transpile_remembers (request : Request) (w : Workbench R) :
    Remembers request w (transpile request w).1 (transpile request w).2 := by
  have hconsidered := considered request w
  cases hconsider : consider request w with
  | mk r w₁ =>
    rw [hconsider] at hconsidered
    cases hconsidered with
    | refused why console =>
      rw [transpile, bind_error hconsider]
      exact .failed (.inl (heard_memory request w console))
    | unwritable hlong console =>
      rw [transpile, bind_error hconsider]
      exact .broken
    | known _ hknown console =>
      rw [transpile, bind_ok hconsider]
      exact .again hknown console
    | new hwritable hnew console hadmitted =>
      have hprepared := prepare_keeps quiet_memory request (keyOf? request w) w₁
      rw [transpile, bind_ok hconsider]
      dsimp only
      cases hprepare : prepare request (keyOf? request w) w₁ with
      | mk r w₂ =>
        rw [hprepare] at hprepared
        have hready : w₂.memory = (searched request w, w.transpiler.examples) :=
          hprepared.trans ((congrArg memory hadmitted).trans (admitted_memory request w console))
        cases r with
        | error e =>
          rw [bind_error hprepare]
          cases e with
          | failed why => exact .failed (.inr hready)
          | broken fault => exact .broken
        | ok job =>
          obtain ⟨-, -, hkey, -⟩ := prepare_ok hprepare
          rw [bind_ok hprepare]
          cases hattempts : attempts job request.attempts.toNat 1 .noAttempt w₂ with
          | mk r w₃ =>
            cases r with
            | ok result =>
              refine .anew (attempts_fromCache hattempts) ?_
              have hcache : w₂.transpiler.cache = searched request w := congrArg Prod.fst hready
              rw [← hkey, ← hcache]
              exact attempts_ok hattempts
            | error e =>
              cases e with
              | failed why => exact .failed (.inr ((attempts_failed hattempts).trans hready))
              | broken fault => exact .broken

/-- A result that is new is kept, if the cache is used. -/
theorem kept_of_anew {result : Conversion R} {w' : Workbench R}
    (h : transpile request w = (.ok result, w')) (hanew : result.fromCache = false) :
    Kept (keyOf? request w) result w'.session.clock (searched request w) w'.transpiler.cache := by
  have hremembers := transpile_remembers request w
  rw [h] at hremembers
  cases hremembers with
  | anew _ hkept => exact hkept
  | again _ _ => cases hanew

end Requests

end Workbench

end Cartridge
