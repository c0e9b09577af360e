import Cartridge.Proofs.Fingerprint
import Cartridge.Proofs.Transpiler.Budget
import Cartridge.Proofs.Transpiler.Foreseen

/-!
# Results that are given a second time

Whatever happens to a transpiler, each result in its cache comes from a request that used the cache,
and no request under the same key was answered anew since then. So a result that is given a second
time is that of the last equal request that was answered anew; it is no older than the cache allows,
and giving it changes nothing but what is said and, on a new day, the account.

* `arrivals`: the requests among some events, each with the workbench to which it came.
* `Stems`: which request an entry of the cache comes from.
* `stems_next`: every request keeps the cache explained.
* `fromCache_stems`: a result from the cache, after any events.
-/

namespace Cartridge

namespace Workbench

open Run

variable {R : Type} [Quantity R] [Inhabited R]

/-! ## Requests and the workbenches to which they came -/

namespace History

/-- The requests among some events, each with the workbench to which it came. -/
def arrivals (h : History R) : List (Event R) → List (Request × Workbench R)
  | [] => []
  | .request r :: events => (r, h.workbench) :: arrivals (h.next (.request r)) events
  | .outside s :: events => arrivals (h.next (.outside s)) events

theorem after_request (h : History R) (r : Request) :
    (h.after [.request r]).workbench = (transpile r h.workbench).2 := rfl

theorem arrivals_request (h : History R) (r : Request) :
    h.arrivals [.request r] = [(r, h.workbench)] := rfl

end History

/-! ## Where the entries of the cache come from -/

section Stems

variable {log : List (Request × Workbench R)} {e : Stored R (Conversion R)} {r : Request}
  {w : Workbench R}

/-- A request that is answered anew, and whose result is kept under a key. -/
def Renews (key : String) (x : Request × Workbench R) : Prop :=
  usesCache x.1 x.2 = true ∧ x.1.key = key ∧
    ∃ result, (transpile x.1 x.2).1 = .ok result ∧ result.fromCache = false

/-- The entry holds the result of the last request that renewed its key, from when that one
ended. -/
def Stems (log : List (Request × Workbench R)) (e : Stored R (Conversion R)) : Prop :=
  ∃ earlier r w later, log = earlier ++ (r, w) :: later ∧ Renews e.key (r, w) ∧
    (transpile r w).1 = .ok e.value ∧ (transpile r w).2.session.clock = e.time ∧
    ∀ x ∈ later, ¬ Renews e.key x

theorem Stems.concat (h : Stems log e) (hnot : ¬ Renews e.key (r, w)) :
    Stems (log ++ [(r, w)]) e := by
  obtain ⟨earlier, r₀, w₀, later, rfl, hrenews, hvalue, htime, hlater⟩ := h
  refine ⟨earlier, r₀, w₀, later ++ [(r, w)], by simp, hrenews, hvalue, htime, ?_⟩
  intro x hx
  rcases List.mem_append.mp hx with hx | hx
  · exact hlater x hx
  · rwa [List.mem_singleton.mp hx]

/-- What a request leaves in the cache is what was there under other keys, or it renewed the key. -/
theorem mem_transpile (hanswered : ∀ fault, (transpile r w).1 ≠ .error (.broken fault))
    (he : e ∈ (transpile r w).2.transpiler.cache.entries) :
    e ∈ w.transpiler.cache.entries ∧ ¬ Renews e.key (r, w) ∨
      Renews e.key (r, w) ∧ (transpile r w).1 = .ok e.value ∧
        (transpile r w).2.session.clock = e.time := by
  have hremembers := transpile_remembers r w
  have hsearched : e ∈ (searched r w).entries → e ∈ w.transpiler.cache.entries := by
    unfold searched
    split
    · exact Cache.mem_of_mem_get
    · exact id
  unfold Renews
  generalize transpile r w = p at hremembers hanswered he ⊢
  obtain ⟨outcome, w'⟩ := p
  dsimp only at hremembers hanswered he ⊢
  cases hremembers with
  | failed hmemory =>
    refine .inl ⟨?_, fun ⟨_, _, _, h, _⟩ => by cases h⟩
    rcases hmemory with hmemory | hmemory
    · rwa [show w'.transpiler.cache = w.transpiler.cache from congrArg Prod.fst hmemory] at he
    · rw [show w'.transpiler.cache = searched r w from congrArg Prod.fst hmemory] at he
      exact hsearched he
  | again hknown console =>
    refine .inl ⟨?_, fun ⟨_, _, _, h, hanew⟩ => ?_⟩
    · unfold heard opened at he
      split at he <;> exact he
    · cases h
      cases hanew
  | @anew result _ hanew hkept =>
    unfold keyOf? Kept at hkept
    cases huses : usesCache r w with
    | true =>
      rw [huses] at hkept
      rcases Cache.mem_of_mem_set hkept he with rfl | ⟨he, hkey⟩
      · exact .inr ⟨⟨rfl, rfl, result, rfl, hanew⟩, rfl, rfl⟩
      · exact .inl ⟨hsearched he, fun ⟨_, h, _⟩ => hkey h.symm⟩
    | false =>
      rw [huses] at hkept
      rw [show w'.transpiler.cache = searched r w from hkept] at he
      exact .inl ⟨hsearched he, fun ⟨h, _⟩ => by cases h⟩
  | broken => exact absurd rfl (hanswered _)

/-- As long as no request ends with a fault, every entry of the cache stems from one of them. -/
theorem stems_after {h : History R}
    (hstems : ∀ e ∈ h.workbench.transpiler.cache.entries, Stems log e)
    (events : List (Event R))
    (hanswered : ∀ x ∈ h.arrivals events, ∀ fault,
      (transpile x.1 x.2).1 ≠ .error (.broken fault)) :
    ∀ e ∈ (h.after events).workbench.transpiler.cache.entries,
      Stems (log ++ h.arrivals events) e := by
  induction events generalizing h log with
  | nil => simpa [History.after, History.arrivals] using hstems
  | cons event events ih =>
    cases event with
    | outside s => exact ih hstems hanswered
    | request r =>
      rw [History.arrivals, List.forall_mem_cons] at hanswered
      have hstep : ∀ e ∈ (h.next (.request r)).workbench.transpiler.cache.entries,
          Stems (log ++ [(r, h.workbench)]) e := by
        intro e he
        rcases mem_transpile hanswered.1 he with ⟨he, hnot⟩ | ⟨hrenews, hvalue, htime⟩
        · exact (hstems e he).concat hnot
        · exact ⟨log, r, h.workbench, [], rfl, hrenews, hvalue, htime, by simp⟩
      have hrest := ih hstep hanswered.2
      rw [List.append_assoc] at hrest
      exact hrest

end Stems

/-! ## Results from the cache -/

/-- A result that is given a second time is that of an entry which is still good, and giving it
changes nothing but what is said and, on a new day, the account. -/
theorem known_of_fromCache {request : Request} {w : Workbench R} {result : Conversion R}
    (hresult : (transpile request w).1 = .ok result) (hcached : result.fromCache = true) :
    usesCache request w = true ∧
      (∃ e ∈ w.transpiler.cache.entries, e.key = request.key ∧ result = again e.value ∧
        w.transpiler.cache.expired e.time w.session.clock = false) ∧
      ∃ console, (transpile request w).2 = heard request w console := by
  have hremembers := transpile_remembers request w
  generalize transpile request w = p at hremembers hresult ⊢
  obtain ⟨outcome, w'⟩ := p
  subst hresult
  cases hremembers with
  | @again first hknown console =>
    have huses : usesCache request w = true := by
      by_contra hnot
      rw [known?, if_neg hnot] at hknown
      cases hknown
    rw [known?, if_pos huses] at hknown
    obtain ⟨-, e, he, hkey, hvalue, hgood⟩ := Cache.get_some hknown
    exact ⟨huses, ⟨e, he, hkey, by rw [hvalue], hgood⟩, console, rfl⟩
  | anew hanew _ =>
    rw [hanew] at hcached
    cases hcached

/-- A request whose result is known gets it again. -/
theorem transpile_of_known {request : Request} {w : Workbench R} {first : Conversion R}
    (htarget : request.target.problems.isEmpty = true)
    (hspent : Quantity.upTo w.transpiler.config.budget.perDay (opened request w).transpiler.spent =
      false) (hwritable : request.target.Writable) (hknown : known? request w = some first) :
    ∃ console, transpile request w = (.ok (again first), heard request w console) := by
  obtain ⟨console, hconsider⟩ := consider_apply request w
  rw [if_pos htarget, if_neg (by simp [hspent]), if_pos hwritable, hknown] at hconsider
  exact ⟨console, bind_ok hconsider⟩

/-- A request that is made again at once gets the same result, unless the day's budget was spent. -/
theorem transpile_again {request : Request} {w w' : Workbench R} {first : Conversion R}
    (hfirst : transpile request w = (.ok first, w')) (hanew : first.fromCache = false)
    (htarget : request.target.problems.isEmpty = true) (huses : usesCache request w = true)
    (hsize : 0 < w.transpiler.cache.maxSize)
    (hgood : w.transpiler.cache.expired w'.session.clock w'.session.clock = false)
    (hspent : Quantity.upTo w.transpiler.config.budget.perDay (opened request w').transpiler.spent =
      false) :
    ∃ console, transpile request w' = (.ok (again first), heard request w' console) := by
  have hrules : w'.rules = w.rules := by rw [← transpile_rules request w, hfirst]
  have hremembers := transpile_remembers request w
  rw [hfirst] at hremembers
  have hknown : known? request w' = some first := by
    cases hremembers with
    | again _ _ => cases hanew
    | anew _ hkept =>
      rw [keyOf?, if_pos huses] at hkept
      rw [known?, usesCache, config_of_rules hrules, ← usesCache, if_pos huses]
      have hsearched := searched_eq request w
      refine Cache.get_of_set hkept ?_ ?_
      · rw [hsearched]
        exact hsize
      · rw [hsearched]
        exact hgood
  exact transpile_of_known htarget (by rwa [config_of_rules hrules])
    (writable_of_ok (congrArg Prod.fst hfirst)) hknown

/-- Whatever happens to a new transpiler, as long as no request ends with a fault and the requests
so far do not share the fingerprint of another text: a result that is given a second time is, but
for the mark that it comes from the cache, the result of the last equal request that used the cache
and was answered anew; it is not older than the cache allows; and giving it sends no prompt and
changes nothing but what is said and, on a new day, the account. -/
theorem fromCache_stems {config : Config R} {providers : Entries (Provider R)} {s s' : Session R}
    {t : Transpiler R} (hcreate : Transpiler.create config providers s = (.ok t, s'))
    (events : List (Event R)) (request : Request) (result : Conversion R)
    (hanswered : ∀ x ∈ History.arrivals ⟨⟨s', t⟩, []⟩ events, ∀ fault,
      (transpile x.1 x.2).1 ≠ .error (.broken fault))
    (hdistinct : ∀ x ∈ History.arrivals ⟨⟨s', t⟩, []⟩ events, x.1.key = request.key →
      Fingerprint.preimage x.1.source x.1.target =
        Fingerprint.preimage request.source request.target)
    (hresult : (transpile request (History.after ⟨⟨s', t⟩, []⟩ events).workbench).1 = .ok result)
    (hcached : result.fromCache = true) :
    let h : History R := ⟨⟨s', t⟩, []⟩
    let w := (h.after events).workbench
    (∃ earlier r w₀ later first, h.arrivals events = earlier ++ (r, w₀) :: later ∧
      r.source = request.source ∧ r.target = request.target ∧ usesCache r w₀ = true ∧
      (transpile r w₀).1 = .ok first ∧ first.fromCache = false ∧
      result = { first with fromCache := true } ∧
      (∀ x ∈ later, x.1.source = request.source → x.1.target = request.target →
        usesCache x.1 x.2 = true →
        ∀ other, (transpile x.1 x.2).1 = .ok other → other.fromCache = true) ∧
      (config.caching.lifetime.isZero = true ∨ config.caching.lifetime.isBelow
        (w.session.clock - (transpile r w₀).2.session.clock) = false)) ∧
    asks request w = [] ∧
    ∃ console, (transpile request w).2 =
      { session := { w.session with console }, transpiler := (opened request w).transpiler } := by
  intro h w
  obtain ⟨-, ⟨e, he, hkey, rfl, hgood⟩, console, hafter⟩ := known_of_fromCache hresult hcached
  have hnew : h.workbench.transpiler.cache.entries = [] := (create_rules hcreate).2
  have hnone : ∀ e ∈ h.workbench.transpiler.cache.entries, Stems [] e := by simp [hnew]
  have hstems := stems_after hnone events hanswered e he
  rw [List.nil_append] at hstems
  obtain ⟨earlier, r, w₀, later, hlog, ⟨huses, hsame, first, hfirst, hanew⟩, hvalue, htime,
    hlater⟩ := hstems
  have hpreimage := hdistinct (r, w₀) (by rw [hlog]; simp) (hsame.trans hkey)
  obtain ⟨hsource, htarget⟩ := Fingerprint.preimage_inj hpreimage
  rw [hfirst] at hvalue
  cases hvalue
  have hlifetime : w.transpiler.cache.lifetime = config.caching.lifetime :=
    congrArg (·.2.2.2) ((rules_after h events).trans (create_rules hcreate).1)
  refine ⟨⟨earlier, r, w₀, later, e.value, hlog, hsource, htarget, huses, hfirst, hanew, rfl, ?_,
    ?_⟩, asks_of_fromCache (Prod.ext hresult rfl) hcached, console, hafter⟩
  · intro x hx hxsource hxtarget hxuses other hother
    have hxkey : x.1.key = e.key := by rw [Request.key, hxsource, hxtarget, hkey]; rfl
    by_contra hnot
    exact hlater x hx ⟨hxuses, hxkey, other, hother, by simpa using hnot⟩
  · rw [Cache.expired, hlifetime, ← htime] at hgood
    rcases Bool.and_eq_false_iff.mp hgood with hzero | hbelow
    · exact .inl (by simpa using hzero)
    · exact .inr hbelow

/-- A provider that answers at once, and the same request twice. -/
theorem fromCache_stems_of_steady_provider :
    let text := "void main(void) \x7b unsigned char x; \x7d"
    let providers : Entries (Provider ℚ) := [("steady", Provider.scripted "steady" 0 (some 0))]
    let s : Session ℚ :=
      { clock := 0
        today := "2024-01-01"
        scripts := [("steady", [⟨1, .text (some text)⟩])] }
    let r : Request := { source := "let x = 1;" }
    ∃ s' t, Transpiler.create (Config.standard "gbdk") providers s = (.ok t, s') ∧
      let w := (History.after ⟨⟨s', t⟩, []⟩ [.request r]).workbench
      ∃ result, (transpile r w).1 = .ok result ∧ result.fromCache = true ∧ asks r w = [] := by
  intro text providers s r
  have hcreate : Transpiler.create (Config.standard "gbdk") providers s = (.ok _, _) := rfl
  have hlater := fromCache_stems hcreate [.request r] r
  refine ⟨_, _, hcreate, ?_⟩
  generalize hw : (Workbench.mk _ _ : Workbench ℚ) = w at hlater ⊢
  have hrules : w.rules = (Config.standard "gbdk", providers, 1000, .whole 86400) := by
    subst hw
    rfl
  have hconfig : w.transpiler.config = Config.standard "gbdk" := congrArg Prod.fst hrules
  have hmaxSize : w.transpiler.cache.maxSize = 1000 := congrArg (·.2.2.1) hrules
  have hlifetime : w.transpiler.cache.lifetime = .whole 86400 := congrArg (·.2.2.2) hrules
  have hlimit : (0 : ℚ) ≤ (Config.standard "gbdk").budget.perConversion := by decide
  have hbudget : (0 : ℚ) ≤ (Config.standard "gbdk").budget.perDay := by decide
  have hbelow : Quantity.upTo (Config.standard "gbdk").budget.perDay (0 : ℚ) = false := by decide
  have hspent : w.transpiler.spent = 0 := by
    subst hw
    decide
  have hopened : opened r w = w := by
    subst hw
    rfl
  have hnew : known? r w = none := by
    subst hw
    rfl
  -- the first request is answered
  obtain ⟨first, w', hfirst, hfree⟩ : ∃ first w', transpile r w = (.ok first, w') ∧
      w'.transpiler.spent = 0 := by
    obtain ⟨job, console, -, -, hjob, -, htranspile⟩ :=
      transpile_of_permitted (show r.target.problems.isEmpty = true from rfl)
        (by rw [hconfig, hopened, hspent, hbelow]) (by decide) hnew
        (show (opened r w).transpiler.preferred = .ok ("steady", true) by subst hw; rfl)
        (show (opened r w).transpiler.providers.get? "steady" =
          some (.scripted "steady" 0 (some 0)) by subst hw; rfl) (by decide)
        fun job console hrequest hjob => permit_free (by rw [hrequest]; decide) (by rw [hjob]; rfl)
          (by rw [admitted, hopened, hconfig]; exact hlimit)
          (by rw [admitted, hopened, hconfig, hspent]; exact hbudget)
    have hanswer : ∃ w₁, ask job (asking job 1 (admitted r w console)).workbench =
        (.ok (some text), w₁) ∧ w₁.transpiler = (admitted r w console).transpiler := by
      unfold ask
      rw [hjob]
      subst hw
      exact ⟨_, rfl, rfl⟩
    obtain ⟨w₁, hask, hsame⟩ := hanswer
    have hcharge : charge job (some text) w₁ = (.ok 0, { w₁ with transpiler :=
        { w₁.transpiler with spent := w₁.transpiler.spent + 0 } }) := by
      rw [charge, hjob]
      rfl
    have hfigures : Transpiler.Settleable (Config.standard "gbdk" : Config ℚ) text :=
      ⟨by decide +kernel, fun _ => ⟨1, by decide +kernel, rfl, rfl⟩⟩
    have hroom : 0 ≤ w₁.transpiler.cache.maxSize := by
      rw [hsame, admitted, hopened, searched_eq, hmaxSize]
      decide
    have hflaw : (Transpiler.flaw? (some text) : Option (Failure ℚ)) = none := by decide +kernel
    have hsettleable : Transpiler.Settleable w₁.transpiler.config text := by
      rw [hsame, admitted, hopened, hconfig]
      exact hfigures
    obtain ⟨result, w', hsettle⟩ : ∃ result w', settle job (some text)
        (w₁.session.clock - job.start) 0
        { w₁ with transpiler := { w₁.transpiler with spent := w₁.transpiler.spent + 0 } } =
          (.ok result, w') := settle_ok_of_settleable job _ 0 hroom hflaw hsettleable
    have htry : tryOnce job 1 (admitted r w console) = (.ok result, w') := by
      rw [tryOnce_apply, hask]
      dsimp only
      rw [hcharge]
      exact hsettle
    have hbooks := settle_keeps plain_books job (some text) (w₁.session.clock - job.start) 0
      { w₁ with transpiler := { w₁.transpiler with spent := w₁.transpiler.spent + 0 } }
    rw [hsettle] at hbooks
    have hpaid : w'.transpiler.spent = w₁.transpiler.spent + 0 := congrArg (·.2.1) hbooks
    refine ⟨result, w', htranspile result w' htry, ?_⟩
    rw [hpaid, hsame, admitted, hopened, hspent, add_zero]
  have hanew : first.fromCache = false := by
    have hremembers := transpile_remembers r w
    rw [hfirst] at hremembers
    cases hremembers with
    | anew hanew _ => exact hanew
    | again hknown _ =>
      rw [hnew] at hknown
      cases hknown
  have hpaid : (opened r w').transpiler.spent = 0 := by
    unfold opened
    split
    · rfl
    · exact hfree
  have hgood : w.transpiler.cache.expired w'.session.clock w'.session.clock = false := by
    rw [Cache.expired, hlifetime, sub_self]
    decide
  obtain ⟨console, hagain⟩ := transpile_again hfirst hanew rfl (by rw [usesCache, hconfig]; rfl)
    (by rw [hmaxSize]; decide) hgood (by rw [hconfig, hpaid, hbelow])
  have hafter : (History.after ⟨w, []⟩ [.request r]).workbench = w' := by
    rw [History.after_request, hfirst]
  have hresult : (transpile r (History.after ⟨w, []⟩ [.request r]).workbench).1 =
      .ok (again first) := by
    rw [hafter, hagain]
  have harrivals (x : Request × Workbench ℚ)
      (hx : x ∈ History.arrivals ⟨w, []⟩ [.request r]) : x = (r, w) := by
    rwa [History.arrivals_request, List.mem_singleton] at hx
  refine ⟨again first, hresult, rfl, (hlater _ ?_ ?_ hresult rfl).2.1⟩
  · intro x hx fault
    rw [harrivals x hx, hfirst]
    exact fun h => by cases h
  · intro x hx _
    rw [harrivals x hx]

end Workbench

end Cartridge
