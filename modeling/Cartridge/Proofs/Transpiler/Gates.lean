import Cartridge.Proofs.Transpiler.Asks

/-!
# The gates of a request

How a request fares before any provider is asked: it is refused, a number of its target has too many
digits, its result is known already, or a job is got ready for a provider. Nothing but the console,
the day's account and the entry of an equal request changes on the way.

* `known?`, `searched`, `keyOf?`: the result of an equal request, if there is one that is still
  good, what is left of the cache once it was looked for, and where a new result is to be kept.
* `consider_apply`, `considered`: the gates, one after the other, and what comes of them.
* `choose_apply`, `prepare_apply`: how a job is got ready.
* `job_of_new`, `transpile_of_new`, `transpile_of_permitted`: a request that passes the gates makes
  its attempts.
-/

namespace Cartridge

/-- The key under which the result of a request is kept. -/
def Request.key (r : Request) : String := Fingerprint.of r.source r.target

namespace Workbench

open Run

variable {R : Type} [Quantity R] [Inhabited R]

section Requests

variable (request : Request) (w : Workbench R)

/-- Whether a request uses the cache. -/
def usesCache : Bool := request.useCache && w.transpiler.config.caching.enabled

/-- The result of an equal request, if there is one that is still good. -/
def known? : Option (Conversion R) :=
  if usesCache request w then (w.transpiler.cache.get request.key w.session.clock).1 else none

/-- The cache once the result of an equal request was looked for. -/
def searched : Cache R (Conversion R) :=
  if usesCache request w then (w.transpiler.cache.get request.key w.session.clock).2
  else w.transpiler.cache

/-- The key under which the result of a request is kept, if the cache is used. -/
def keyOf? : Option String := if usesCache request w then some request.key else none

/-- The workbench with the day's account open, after something was said. -/
def heard (console : Console) : Workbench R :=
  { session := { w.session with console }, transpiler := (opened request w).transpiler }

/-- The same, once the result of an equal request was looked for. -/
def admitted (console : Console) : Workbench R :=
  { session := { w.session with console }
    transpiler := { (opened request w).transpiler with cache := searched request w } }

end Requests

variable {request : Request} {w : Workbench R}

theorem resetIfNewDay_heard (h : request.target.problems.isEmpty = true) (w : Workbench R) :
    ∃ console, resetIfNewDay w = (.ok (), heard request w console) := by
  unfold resetIfNewDay heard opened resets
  by_cases hday : w.session.today = w.transpiler.day
  · refine ⟨w.session.console, (if_pos hday).trans ?_⟩
    rw [if_neg (by simp [hday])]
  · refine ⟨w.session.console.info ("Daily budget reset: $" ++
      Quantity.fixed 2 w.transpiler.config.budget.perDay), (if_neg hday).trans ?_⟩
    rw [if_pos (by simp [h, hday])]
    rfl

/-- The account is of no matter to the cache. -/
theorem opened_cache (request : Request) (w : Workbench R) :
    (opened request w).transpiler.cache = w.transpiler.cache := by
  unfold opened
  split <;> rfl

theorem lookUp_heard (huses : usesCache request w = true) (console : Console) :
    lookUp request.key (heard request w console) =
      (.ok (known? request w), admitted request w console) := by
  rw [known?, admitted, searched, if_pos huses, if_pos huses, lookUp, heard]
  dsimp only
  rw [opened_cache]

omit [Inhabited R] in
theorem searched_eq (request : Request) (w : Workbench R) :
    searched request w = { w.transpiler.cache with entries := (searched request w).entries } := by
  unfold searched
  split
  · exact Cache.get_eq _ _ _
  · rfl

/-- A result that is known leaves the cache as it is. -/
theorem admitted_of_known {first : Conversion R} (hknown : known? request w = some first)
    (console : Console) : admitted request w console = heard request w console := by
  have hsame : searched request w = (opened request w).transpiler.cache := by
    rw [known?] at hknown
    rw [searched, opened_cache]
    split at hknown
    · rename_i huses
      rw [if_pos huses, (Cache.get_some hknown).1]
    · cases hknown
  rw [admitted, hsame, heard]

/-- The gates of a request: its target, the day's budget, its key, and the result of an equal
request. -/
theorem consider_apply (request : Request) (w : Workbench R) : ∃ console, consider request w =
    if request.target.problems.isEmpty then
      if Quantity.upTo w.transpiler.config.budget.perDay (opened request w).transpiler.spent then
        (.error (.failed (.refused (.spent (opened request w).transpiler.spent
          w.transpiler.config.budget.perDay))), heard request w console)
      else if request.target.Writable then
        match known? request w with
        | some first => (.ok (.known (again first)), heard request w console)
        | none => (.ok (.new (keyOf? request w)), admitted request w console)
      else (.error (.broken .tooManyDigits), heard request w console)
    else (.error (.failed (.badTarget request.target.problems)), w) := by
  have hconfig (console : Console) :
      (heard request w console).transpiler.config = w.transpiler.config := by
    unfold heard opened
    split <;> rfl
  unfold consider
  dsimp only
  by_cases hproblems : request.target.problems.isEmpty = true
  · obtain ⟨console, hreset⟩ := resetIfNewDay_heard hproblems w
    simp only [if_pos hproblems]
    rw [bind_ok hreset, bind_ok (show Run.get (heard request w console) = (.ok _, _) from rfl),
      hconfig, show (heard request w console).transpiler.spent =
        (opened request w).transpiler.spent from rfl]
    by_cases hspent : Quantity.upTo w.transpiler.config.budget.perDay
        (opened request w).transpiler.spent = true
    · simp only [if_pos hspent]
      exact ⟨console, rfl⟩
    · simp only [if_neg hspent]
      by_cases hwritable : request.target.Writable
      · simp only [Fingerprint.key, if_pos hwritable]
        rw [bind_ok (orBreak_ok _ _)]
        by_cases huses : usesCache request w = true
        · have hkey : keyOf? request w = some request.key := if_pos huses
          have hlookUp := lookUp_heard huses console
          unfold usesCache at huses
          unfold Request.key at hlookUp
          rw [if_pos huses, bind_ok hlookUp, hkey]
          cases hknown : known? request w with
          | none => exact ⟨console, rfl⟩
          | some first =>
            rw [admitted_of_known hknown]
            exact ⟨_, rfl⟩
        · have hsame : admitted request w console = heard request w console := by
            rw [admitted, searched, if_neg huses, ← opened_cache request w, heard]
          rw [known?, keyOf?, if_neg huses, if_neg huses]
          unfold usesCache at huses
          rw [if_neg huses]
          exact ⟨console, by rw [hsame]; rfl⟩
      · simp only [Fingerprint.key, if_neg hwritable]
        exact ⟨console, bind_error (orBreak_error _ _)⟩
  · simp only [if_neg hproblems]
    exact ⟨w.session.console, rfl⟩

variable (request w) in
/-- How a request fares before any provider is asked. -/
inductive Considered : Except (Stop R) (Admission R) → Workbench R → Prop
  | refused (why : Failure R) (console : Console) :
      Considered (.error (.failed why)) (heard request w console)
  | unwritable (hlong : ¬ request.target.Writable) (console : Console) :
      Considered (.error (.broken .tooManyDigits)) (heard request w console)
  | known {first : Conversion R} (hwritable : request.target.Writable)
      (hknown : known? request w = some first) (console : Console) :
      Considered (.ok (.known (again first))) (heard request w console)
  | new {w' : Workbench R} (hwritable : request.target.Writable)
      (hnew : known? request w = none) (console : Console)
      (hadmitted : w' = admitted request w console) : Considered (.ok (.new (keyOf? request w))) w'

theorem considered (request : Request) (w : Workbench R) :
    Considered request w (consider request w).1 (consider request w).2 := by
  obtain ⟨console, hconsider⟩ := consider_apply request w
  rw [hconsider]
  split
  · split
    · exact .refused _ console
    · split
      · rename_i hwritable
        cases hknown : known? request w with
        | some first => exact .known hwritable hknown console
        | none => exact .new hwritable hknown console rfl
      · rename_i hlong
        exact .unwritable hlong console
  · rename_i hproblems
    have hsame : heard request w w.session.console = w := by
      rw [heard, opened, resets, Bool.not_eq_true _ |>.mp hproblems]
      rfl
    have hrefused : Considered request w (.error (.failed (.badTarget request.target.problems)))
        (heard request w w.session.console) := .refused _ _
    rwa [hsame] at hrefused

/-- The numbers of a target are written before there can be a result. -/
theorem writable_of_ok {result : Conversion R} (h : (transpile request w).1 = .ok result) :
    request.target.Writable := by
  have hconsidered := considered request w
  cases hconsider : consider request w with
  | mk r w₁ =>
    rw [hconsider] at hconsidered
    cases hconsidered with
    | known hwritable => exact hwritable
    | new hwritable => exact hwritable
    | refused why console =>
      rw [transpile, bind_error hconsider] at h
      cases h
    | unwritable hlong console =>
      rw [transpile, bind_error hconsider] at h
      cases h

omit [Quantity R] [Inhabited R] in
theorem choose_apply (w : Workbench R) :
    ∃ console, choose w = match w.transpiler.preferred with
      | .error fault => (.error (.broken fault), w)
      | .ok (name, _) => (.ok name, { w with session := { w.session with console } }) := by
  unfold choose
  rw [bind_ok (show (Run.get : Task R (Workbench R)) w = (.ok w, w) from rfl), bind_apply]
  cases hpreferred : w.transpiler.preferred with
  | error fault => exact ⟨w.session.console, rfl⟩
  | ok chosen =>
    obtain ⟨name, substitute⟩ := chosen
    cases substitute with
    | false => exact ⟨w.session.console, rfl⟩
    | true => exact ⟨_, rfl⟩

/-- A job is got ready for the preferred provider. -/
theorem prepare_apply {request : Request} (hwritable : request.target.Writable)
    (key? : Option String) (w : Workbench R) :
    ∃ console, prepare request key? w = match w.transpiler.preferred with
      | .error fault => (.error (.broken fault), { w with session := { w.session with console } })
      | .ok (name, _) =>
        match w.transpiler.providers.get? name with
        | none => (.error (.failed .noProvider), { w with session := { w.session with console } })
        | some provider =>
          let examples := (Example.similar w.transpiler.examples request.source).map Example.sample
          (.ok
            { request
              key?
              prompt := Prompt.build request.source request.target examples
              name
              provider
              start := w.session.clock }, { w with session := { w.session with console } }) := by
  have hsaid (write : Console → Console) :
      say write w = (.ok (), { w with session := w.session.say write }) := rfl
  unfold prepare
  rw [bind_ok (show (Run.get : Task R (Workbench R)) w = (.ok w, w) from rfl)]
  dsimp only
  rw [Prompt.write_of_writable _ hwritable, bind_ok (orBreak_ok _ _), bind_ok (hsaid _), bind_apply]
  obtain ⟨console, hchoose⟩ := choose_apply { w with session := w.session.say (·.info
    ("AI transpilation starting... (JS: " ++ toString request.source.length ++ " chars)")) }
  rw [hchoose]
  dsimp only
  cases w.transpiler.preferred with
  | error fault => exact ⟨_, rfl⟩
  | ok chosen =>
    dsimp only
    cases w.transpiler.providers.get? chosen.1 with
    | none => exact ⟨console, rfl⟩
    | some provider => exact ⟨console, rfl⟩

/-- A request that passes the gates makes its attempts at a job for the preferred provider, with a
prompt of its own. -/
theorem job_of_new (htarget : request.target.problems.isEmpty = true)
    (hspent : Quantity.upTo w.transpiler.config.budget.perDay (opened request w).transpiler.spent =
      false) (hwritable : request.target.Writable) (hnew : known? request w = none) {name : String}
    {substitute : Bool}
    (hpreferred : (opened request w).transpiler.preferred = .ok (name, substitute))
    {provider : Provider R}
    (hprovider : (opened request w).transpiler.providers.get? name = some provider) :
    ∃ job console, job.request = request ∧ job.key? = keyOf? request w ∧ job.provider = provider ∧
      job.prompt = Prompt.build request.source request.target
        ((Example.similar (opened request w).transpiler.examples request.source).map
          Example.sample) ∧
      transpile request w =
        attempts job request.attempts.toNat 1 .noAttempt (admitted request w console) ∧
      asks request w = attemptAsks job request.attempts.toNat 1 (admitted request w console) := by
  obtain ⟨console, hconsider⟩ := consider_apply request w
  rw [if_pos htarget, if_neg (by simp [hspent]), if_pos hwritable, hnew] at hconsider
  obtain ⟨said, hprepare⟩ := prepare_apply hwritable (keyOf? request w) (admitted request w console)
  rw [show (admitted request w console).transpiler.preferred = .ok (name, substitute) from
    hpreferred] at hprepare
  dsimp only at hprepare
  rw [show (admitted request w console).transpiler.providers.get? name = some provider from
    hprovider] at hprepare
  have hexamples : (admitted request w console).transpiler.examples =
      (opened request w).transpiler.examples := rfl
  refine ⟨_, said, rfl, rfl, rfl, ?_, (bind_ok hconsider).trans (bind_ok hprepare), ?_⟩
  · rw [hexamples]
  · rw [asks, hconsider]
    dsimp only
    rw [hprepare]
    rfl

/-- A request that passes the gates makes its attempts at a job for the preferred provider. -/
theorem transpile_of_new (htarget : request.target.problems.isEmpty = true)
    (hspent : Quantity.upTo w.transpiler.config.budget.perDay (opened request w).transpiler.spent =
      false) (hwritable : request.target.Writable) (hnew : known? request w = none) {name : String}
    {substitute : Bool}
    (hpreferred : (opened request w).transpiler.preferred = .ok (name, substitute))
    {provider : Provider R}
    (hprovider : (opened request w).transpiler.providers.get? name = some provider) :
    ∃ job console, job.request = request ∧ job.key? = keyOf? request w ∧ job.provider = provider ∧
      transpile request w =
        attempts job request.attempts.toNat 1 .noAttempt (admitted request w console) ∧
      asks request w = attemptAsks job request.attempts.toNat 1 (admitted request w console) := by
  obtain ⟨job, console, hrequest, hkey, hjob, -, hmade⟩ :=
    job_of_new htarget hspent hwritable hnew hpreferred hprovider
  exact ⟨job, console, hrequest, hkey, hjob, hmade⟩

/-- If the first attempt is permitted its prompt is sent, and if it succeeds so does the request. -/
theorem transpile_of_permitted (htarget : request.target.problems.isEmpty = true)
    (hspent : Quantity.upTo w.transpiler.config.budget.perDay (opened request w).transpiler.spent =
      false) (hwritable : request.target.Writable) (hnew : known? request w = none) {name : String}
    {substitute : Bool}
    (hpreferred : (opened request w).transpiler.preferred = .ok (name, substitute))
    {provider : Provider R}
    (hprovider : (opened request w).transpiler.providers.get? name = some provider)
    (hattempts : 0 < request.attempts)
    (hpermit : ∀ job console, job.request = request → job.provider = provider →
      permit job (admitted request w console) = (.ok (), admitted request w console)) :
    ∃ job console, job.request = request ∧ job.key? = keyOf? request w ∧ job.provider = provider ∧
      asking job 1 (admitted request w console) ∈ asks request w ∧
      ∀ result w', tryOnce job 1 (admitted request w console) = (.ok result, w') →
        transpile request w = (.ok result, w') := by
  obtain ⟨job, console, hrequest, hkey, hjob, htranspile, hasks⟩ :=
    transpile_of_new htarget hspent hwritable hnew hpreferred hprovider
  have hpermitted := hpermit job console hrequest hjob
  obtain ⟨left, hleft⟩ : ∃ left, request.attempts.toNat = left + 1 :=
    ⟨request.attempts.toNat - 1, by omega⟩
  rw [hleft] at htranspile hasks
  rw [attemptAsks_succ hpermitted] at hasks
  refine ⟨job, console, hrequest, hkey, hjob, by rw [hasks]; exact List.mem_cons_self, ?_⟩
  intro result w' htry
  rw [htranspile, attempts_succ hpermitted, htry]

end Workbench

end Cartridge
