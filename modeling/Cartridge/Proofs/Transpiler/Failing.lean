import Cartridge.Proofs.Transpiler.Keys
import Cartridge.Proofs.Transpiler.Scripted

/-!
# Requests that fail

A request that fails leaves nothing behind but what it paid for its answers. What it learned of the
date stays, and an expired result of an equal request is gone once it was looked for. A request
whose target has problems does not even get that far.

* `Cache.LeftBut`: a cache that lost an expired entry at most.
* `searched_leftBut`: a look-up drops no entry that is still good.
* `failed_leaves`: the whole transpiler after a request that failed, after any events.
-/

namespace Cartridge

/-- A cache is left as it was, but for an expired entry under a key that may be gone. -/
def Cache.LeftBut {R α : Type} [Quantity R] (key : String) (now : R) (c c' : Cache R α) : Prop :=
  c' = c ∨ ∃ before e later, c.entries = before ++ e :: later ∧ e.key = key ∧
    c.expired e.time now = true ∧ c' = { c with entries := before ++ later }

namespace Workbench

open Run

variable {R : Type} [Quantity R] [Inhabited R]

omit [Inhabited R] in
theorem searched_leftBut (request : Request) {w : Workbench R} (h : w.Distinct) :
    Cache.LeftBut request.key w.session.clock w.transpiler.cache (searched request w) := by
  unfold searched
  split
  · rcases Cache.get_cases h request.key w.session.clock with ⟨hget, -⟩ | ⟨_, _, _, _, hget⟩ |
      ⟨before, e, later, hsplit, hkey, hexpired, hget⟩
    · exact .inl (by rw [hget])
    · exact .inl (by rw [hget])
    · exact .inr ⟨before, e, later, hsplit, hkey, hexpired, by rw [hget]⟩
  · exact .inl rfl

/-- Opening the day's account changes neither what is remembered nor the terms but the day. -/
theorem opened_eq (request : Request) (w : Workbench R) :
    (opened request w).transpiler = { w.transpiler with
      spent := (opened request w).transpiler.spent
      day := (opened request w).transpiler.day } := by
  unfold opened
  split <;> rfl

/-- After a request that failed, the transpiler remembers what it did before, but for an expired
result of an equal request. -/
theorem memory_of_failed {request : Request} {w : Workbench R} (h : w.Distinct) {why : Failure R}
    (hfailed : (transpile request w).1 = .error (.failed why)) :
    Cache.LeftBut request.key w.session.clock w.transpiler.cache
        (transpile request w).2.transpiler.cache ∧
      (transpile request w).2.transpiler.examples = w.transpiler.examples := by
  have hremembers := transpile_remembers request w
  rw [hfailed] at hremembers
  cases hremembers with
  | failed hmemory =>
    rcases hmemory with hmemory | hmemory
    · exact ⟨.inl (congrArg Prod.fst hmemory), congrArg Prod.snd hmemory⟩
    · have hcache : (transpile request w).2.transpiler.cache = searched request w :=
        congrArg Prod.fst hmemory
      refine ⟨?_, congrArg Prod.snd hmemory⟩
      rw [hcache]
      exact searched_leftBut request h

/-- Once the day's budget is spent, a request is refused. -/
theorem transpile_of_spent {request : Request} {w : Workbench R}
    (htarget : request.target.problems.isEmpty = true)
    (hspent : Quantity.upTo w.transpiler.config.budget.perDay (opened request w).transpiler.spent =
      true) : (transpile request w).1 = .error (.failed (.refused
        (.spent (opened request w).transpiler.spent w.transpiler.config.budget.perDay))) := by
  obtain ⟨console, hconsider⟩ := consider_apply request w
  rw [if_pos htarget, if_pos hspent] at hconsider
  rw [transpile, bind_error hconsider]

/-- Whatever happened to a transpiler before: after a request that fails it is the same, but for
the account of the day, to which the answers are charged, and for an expired entry under the key of
the request. A request whose target has problems changes nothing at all and sends no prompt. -/
theorem failed_leaves {config : Config R} {providers : Entries (Provider R)} {s s' : Session R}
    {t : Transpiler R} (hcreate : Transpiler.create config providers s = (.ok t, s'))
    (events : List (Event R)) (request : Request) :
    let w := (History.after ⟨⟨s', t⟩, []⟩ events).workbench
    (∀ why, (transpile request w).1 = .error (.failed why) →
      ∃ cache, Cache.LeftBut request.key w.session.clock w.transpiler.cache cache ∧
        (transpile request w).2.transpiler = { w.transpiler with
          cache
          spent := (asks request w).foldl (fun spent a => a.pay spent)
            (opened request w).transpiler.spent
          day := (opened request w).transpiler.day }) ∧
    (request.target.problems ≠ [] →
      transpile request w = (.error (.failed (.badTarget request.target.problems)), w) ∧
        asks request w = []) := by
  intro w
  have hnew : (Workbench.mk s' t).Distinct := by
    unfold Distinct Cache.Distinct
    rw [(create_rules hcreate).2]
    exact List.nodup_nil
  have hdistinct : w.Distinct := distinct_after hnew events
  refine ⟨fun why hfailed => ?_, transpile_badTarget⟩
  obtain ⟨hcache, hexamples⟩ := memory_of_failed hdistinct hfailed
  refine ⟨_, hcache, ?_⟩
  have hbooks := transpile_books request w
  generalize transpile request w = p at hbooks hexamples ⊢
  obtain ⟨outcome, ⟨session, ⟨config', providers', cache, examples, spent, day⟩⟩⟩ := p
  have hopened := opened_eq request w
  generalize opened request w = w₀ at hbooks hopened ⊢
  obtain ⟨session₀, t₀⟩ := w₀
  simp only [books, terms, Prod.mk.injEq] at hbooks hexamples hopened ⊢
  obtain ⟨⟨rfl, rfl, rfl⟩, rfl, -⟩ := hbooks
  rw [hexamples, hopened]

/-- A request that is answered, and an equal one, long after, that may not ask. -/
theorem failed_leaves_of_expired_result :
    let text := "void main(void) \x7b unsigned char x; \x7d"
    let providers : Entries (Provider ℚ) := [("steady", Provider.scripted "steady" 0 (some 1))]
    let s : Session ℚ :=
      { clock := 0
        today := "2024-01-01"
        scripts := [("steady", [⟨1, .text (some text)⟩])] }
    let r : Request := { source := "let x = 1;" }
    let idle : Request := { source := "let x = 1;", attempts := 0 }
    ∃ s' t, Transpiler.create (Config.standard "gbdk") providers s = (.ok t, s') ∧
      ∃ late, let w := (History.after ⟨⟨s', t⟩, []⟩ [.request r, .outside late]).workbench
        w.transpiler.cache.entries ≠ [] ∧
        (transpile idle w).1 = .error (.failed .noAttempt) ∧
        ∃ cache, Cache.LeftBut idle.key w.session.clock w.transpiler.cache cache ∧
          (transpile idle w).2.transpiler = { w.transpiler with
            cache
            spent := (asks idle w).foldl (fun spent a => a.pay spent)
              (opened idle w).transpiler.spent
            day := (opened idle w).transpiler.day } := by
  intro text providers s r idle
  have hcreate : Transpiler.create (Config.standard "gbdk") providers s = (.ok _, _) := rfl
  have hleaves := failed_leaves hcreate
  refine ⟨_, _, hcreate, ?_⟩
  obtain ⟨first, w', hfirst, -, hpaid, hterms, hcache⟩ :=
    transpile_of_create hcreate rfl rfl rfl (by decide) (by decide) (by decide) rfl
      (show r.target.problems.isEmpty = true from rfl) (by decide) (by decide) (by decide)
      (by decide +kernel)
      ⟨by decide +kernel, fun _ => ⟨1, by decide +kernel, rfl, rfl⟩⟩
  generalize (Workbench.mk _ _ : Workbench ℚ) = w at hleaves hfirst ⊢
  have hconfig : w'.transpiler.config = Config.standard "gbdk" := congrArg (·.1) hterms
  have hproviders : w'.transpiler.providers = providers := congrArg (·.2.1) hterms
  have hday : w'.transpiler.day = "2024-01-01" := congrArg (·.2.2) hterms
  let late : Session ℚ := { clock := w'.session.clock + 86401, today := "2024-01-01" }
  have hexpired : w'.transpiler.cache.expired w'.session.clock late.clock = true := by
    rw [Cache.expired, hcache, add_sub_cancel_left]
    exact (by decide : (!(Number.whole 86400 : Number ℚ).isZero &&
      (Number.whole 86400).isBelow (86401 : ℚ)) = true)
  have hfind : w'.transpiler.cache.find? idle.key = some ⟨r.key, w'.session.clock, first⟩ := by
    rw [Cache.find?, hcache]
    exact List.find?_cons_of_pos (by simp; rfl)
  have hopened : opened idle ⟨late, w'.transpiler⟩ = ⟨late, w'.transpiler⟩ := by
    rw [opened, resets, if_neg (by simp [hday, late])]
  have hspent : Quantity.upTo w'.transpiler.config.budget.perDay w'.transpiler.spent = false := by
    rw [hconfig, hpaid]
    decide
  have hpreferred : w'.transpiler.preferred = .ok ("steady", true) := by
    rw [Transpiler.preferred, hconfig, hproviders]
    rfl
  have hnew : known? idle (⟨late, w'.transpiler⟩ : Workbench ℚ) = none := by
    rw [known?, Cache.get, hfind]
    dsimp only
    rw [if_pos hexpired]
    split <;> rfl
  obtain ⟨job, console, hrequest, -, -, htranspile, -⟩ :=
    transpile_of_new (show idle.target.problems.isEmpty = true from rfl) (by rwa [hopened])
      (by decide) hnew (by rwa [hopened]) (by rw [hopened, hproviders]; rfl)
  have hfailed : (transpile idle ⟨late, w'.transpiler⟩).1 = .error (.failed .noAttempt) := by
    rw [htranspile, show idle.attempts.toNat = 0 from rfl, attempts, hrequest, if_pos (by decide)]
    rfl
  have hafter (h : History ℚ) (r : Request) (s : Session ℚ) :
      (h.after [.request r, .outside s]).workbench = ⟨s, (transpile r h.workbench).2.transpiler⟩ :=
    rfl
  have hidle := (hleaves [.request r, .outside late] idle).1 .noAttempt
  refine ⟨late, ?_⟩
  rw [hafter, hfirst] at hidle ⊢
  exact ⟨by rw [hcache]; exact List.cons_ne_nil _ _, hfailed, hidle hfailed⟩

end Workbench

end Cartridge
