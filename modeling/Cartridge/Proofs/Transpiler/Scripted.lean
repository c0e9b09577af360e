import Cartridge.Proofs.Transpiler.Budget
import Cartridge.Proofs.Transpiler.Foreseen
import Cartridge.Proofs.Transpiler.Keys

/-!
# Providers that answer by a script

A provider whose calls are estimated at nothing is asked as long as the day's budget is not spent.
If the next reply of its script is C, the request that asks it succeeds at the first attempt.

* `Answers`: the provider that a request would ask replies with a C program, at a price.
* `transpile_of_answers`: such a request gets a new result and is charged the price.
* `transpile_of_unused`: the first request to a transpiler that has no other provider.
* `transpile_of_create`: so it is with a transpiler that was just put together.
-/

namespace Cartridge.Workbench

open Run

/-- A request would ask a provider that is estimated at nothing and whose script goes on with a C
program, at a price for each call. -/
structure Answers (request : Request) (w : Workbench ℚ) (price : ℚ) (text : String) : Prop where
  target : request.target.problems.isEmpty = true
  writable : request.target.Writable
  attempts : 0 < request.attempts
  short : Text.Short request.attempts
  unspent : Quantity.upTo w.transpiler.config.budget.perDay (opened request w).transpiler.spent =
    false
  new : known? request w = none
  limit : 0 ≤ w.transpiler.config.budget.perConversion
  room : 0 ≤ w.transpiler.cache.maxSize
  provider : ∃ name substitute, (opened request w).transpiler.preferred = .ok (name, substitute) ∧
    (opened request w).transpiler.providers.get? name = some (.scripted name 0 (some price)) ∧
      ∃ seconds rest later, w.session.scripts.get? name = some rest ∧
        nextOf rest = some (⟨seconds, .text (some text)⟩, later)
  accepted : (Transpiler.flaw? (some text) : Option (Failure ℚ)) = none
  settleable : Transpiler.Settleable w.transpiler.config text

variable {request : Request} {w : Workbench ℚ} {price : ℚ} {text : String}

theorem ask_script {job : Job ℚ} {name : String} {rest later : List (Timed ℚ Reply)} {seconds : ℚ}
    (hjob : job.provider = .scripted name 0 (some price))
    (hscript : w.session.scripts.get? name = some rest)
    (hnext : nextOf rest = some (⟨seconds, .text (some text)⟩, later)) :
    ∃ w', ask job w = (.ok (some text), w') ∧ w'.transpiler = w.transpiler := by
  have hheard (call : Call) : ((w.session.send call).hear name).1 = .text (some text) := by
    unfold Session.hear Session.send
    dsimp only
    rw [hscript, Option.bind_some, hnext]
  refine ⟨(ask job w).2, Prod.ext ?_ rfl, ask_keeps job w⟩
  show (job.provider.ask job.prompt w.session).1 = _
  rw [hjob]
  unfold Provider.ask Provider.scripted
  dsimp only
  rw [hheard]

/-- A request to a provider that answers is answered anew, and the price is charged. -/
theorem transpile_of_answers (h : Answers request w price text) :
    ∃ result w', transpile request w = (.ok result, w') ∧ result.fromCache = false ∧
      w'.transpiler.spent = (opened request w).transpiler.spent + price ∧
      w'.terms = (opened request w).terms := by
  obtain ⟨name, substitute, hpreferred, hprovider, seconds, rest, later, hscript, hnext⟩ :=
    h.provider
  have hterms : (opened request w).rules = w.rules := opened_rules request w
  have hconfig := config_of_rules hterms
  have hunspent : (opened request w).transpiler.spent ≤
      (opened request w).transpiler.config.budget.perDay := by
    rw [hconfig]
    exact (not_le.mp (of_decide_eq_false h.unspent)).le
  obtain ⟨job, console, -, -, hjob, -, htranspile⟩ :=
    transpile_of_permitted h.target h.unspent h.writable h.new hpreferred hprovider h.attempts
      fun job console hrequest hjob => permit_free (hrequest ▸ h.short) (by rw [hjob]; rfl)
        (by rw [admitted, hconfig]; exact h.limit) (by rw [admitted]; exact hunspent)
  obtain ⟨w₁, hask, hsame⟩ :=
    ask_script (w := (asking job 1 (admitted request w console)).workbench) hjob hscript hnext
  have hbefore : w₁.transpiler = (admitted request w console).transpiler := hsame
  let paid : Workbench ℚ :=
    { w₁ with transpiler := { w₁.transpiler with spent := w₁.transpiler.spent + price } }
  have hcharge : charge job (some text) w₁ = (.ok price, paid) := by
    rw [charge, hjob]
    rfl
  have hroom : 0 ≤ paid.transpiler.cache.maxSize := by
    show 0 ≤ w₁.transpiler.cache.maxSize
    rw [hbefore, admitted, searched_eq]
    exact h.room
  have hsettleable : Transpiler.Settleable paid.transpiler.config text := by
    show Transpiler.Settleable w₁.transpiler.config text
    rw [hbefore, admitted, hconfig]
    exact h.settleable
  obtain ⟨result, w', hsettle⟩ :=
    settle_ok_of_settleable job (w₁.session.clock - job.start) price hroom h.accepted hsettleable
  have htry : tryOnce job 1 (admitted request w console) = (.ok result, w') := by
    rw [tryOnce_apply, hask]
    dsimp only
    rw [hcharge]
    exact hsettle
  have hbooks := settle_keeps plain_books job (some text) (w₁.session.clock - job.start) price paid
  rw [hsettle] at hbooks
  refine ⟨result, w', htranspile result w' htry, settle_fromCache hsettle, ?_, ?_⟩
  · rw [show w'.transpiler.spent = w₁.transpiler.spent + price from congrArg (·.2.1) hbooks,
      hbefore, admitted]
  · rw [show w'.terms = paid.terms from congrArg (·.1) hbooks]
    show w₁.terms = _
    rw [terms, hbefore]
    rfl

/-- The first request to a transpiler whose only provider is estimated at nothing and replies with
a C program: its price is all that was spent, and its result is all that is kept. -/
theorem transpile_of_unused {name : String} {rest later : List (Timed ℚ Reply)} {seconds : ℚ}
    {substitute : Bool}
    (hproviders : w.transpiler.providers = [(name, .scripted name 0 (some price))])
    (hunused : w.transpiler.cache.entries = []) (hspent : w.transpiler.spent = 0)
    (hday : w.session.today = w.transpiler.day)
    (hpreferred : w.transpiler.preferred = .ok (name, substitute))
    (hscript : w.session.scripts.get? name = some rest)
    (hnext : nextOf rest = some (⟨seconds, .text (some text)⟩, later))
    (hbudget : 0 < w.transpiler.config.budget.perDay)
    (hlimit : 0 ≤ w.transpiler.config.budget.perConversion)
    (hroom : 0 < w.transpiler.cache.maxSize) (huses : usesCache request w = true)
    (htarget : request.target.problems.isEmpty = true) (hwritable : request.target.Writable)
    (hattempts : 0 < request.attempts) (hshort : Text.Short request.attempts)
    (haccepted : (Transpiler.flaw? (some text) : Option (Failure ℚ)) = none)
    (hsettleable : Transpiler.Settleable w.transpiler.config text) :
    ∃ result w', transpile request w = (.ok result, w') ∧ result.fromCache = false ∧
      w'.transpiler.spent = price ∧ w'.terms = w.terms ∧
      w'.transpiler.cache = { w.transpiler.cache with
        entries := [⟨request.key, w'.session.clock, result⟩] } := by
  have hopened : opened request w = w := by rw [opened, resets, if_neg (by simp [hday])]
  have hget : w.transpiler.cache.get request.key w.session.clock = (none, w.transpiler.cache) := by
    rw [Cache.get, Cache.find?, hunused]
    rfl
  have hsearched : searched request w = w.transpiler.cache := by rw [searched, if_pos huses, hget]
  have hanswers : Answers request w price text := by
    refine
      { target := htarget, writable := hwritable, attempts := hattempts, short := hshort,
        unspent := ?_, new := ?_, limit := hlimit, room := hroom.le, provider := ?_,
        accepted := haccepted, settleable := hsettleable }
    · rw [hopened, hspent]
      exact decide_eq_false (not_le.mpr hbudget)
    · rw [known?, if_pos huses, hget]
    · rw [hopened]
      refine ⟨name, substitute, hpreferred, ?_, seconds, rest, later, hscript, hnext⟩
      rw [hproviders]
      simp [Entries.get?]
  obtain ⟨result, w', hresult, hanew, hpaid, hterms⟩ := transpile_of_answers hanswers
  have hkept := kept_of_anew hresult hanew
  rw [hopened] at hpaid hterms
  rw [keyOf?, if_pos huses, hsearched] at hkept
  have hroom' : (w.transpiler.cache.entries.length : Int) < w.transpiler.cache.maxSize := by
    rw [hunused]
    exact hroom
  have hset := hkept.symm.trans (Cache.set_of_room hroom' request.key result w'.session.clock)
  refine ⟨result, w', hresult, hanew, by rw [hpaid, hspent, zero_add], hterms, ?_⟩
  rw [Option.some.inj hset, Cache.without, hunused]
  rfl

theorem transpile_of_create {config : Config ℚ} {name : String} {s s' : Session ℚ}
    {t : Transpiler ℚ} {rest later : List (Timed ℚ Reply)} {seconds : ℚ} {substitute : Bool}
    (hcreate : Transpiler.create config [(name, .scripted name 0 (some price))] s = (.ok t, s'))
    (hpreferred : t.preferred = .ok (name, substitute))
    (hscript : s.scripts.get? name = some rest)
    (hnext : nextOf rest = some (⟨seconds, .text (some text)⟩, later))
    (hbudget : 0 < config.budget.perDay) (hlimit : 0 ≤ config.budget.perConversion)
    (hroom : 0 < config.caching.maxSize)
    (huses : (request.useCache && config.caching.enabled) = true)
    (htarget : request.target.problems.isEmpty = true) (hwritable : request.target.Writable)
    (hattempts : 0 < request.attempts) (hshort : Text.Short request.attempts)
    (haccepted : (Transpiler.flaw? (some text) : Option (Failure ℚ)) = none)
    (hsettleable : Transpiler.Settleable config text) :
    ∃ result w', transpile request ⟨s', t⟩ = (.ok result, w') ∧ result.fromCache = false ∧
      w'.transpiler.spent = price ∧
      w'.terms = (config, [(name, .scripted name 0 (some price))], s.today) ∧
      w'.transpiler.cache =
        { maxSize := config.caching.maxSize
          lifetime := config.caching.lifetime
          entries := [⟨request.key, w'.session.clock, result⟩] } := by
  cases hcreate
  exact transpile_of_unused rfl rfl rfl rfl hpreferred hscript hnext hbudget hlimit hroom huses
    htarget hwritable hattempts hshort haccepted hsettleable

end Cartridge.Workbench
