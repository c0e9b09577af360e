import Cartridge.Proofs.Project.Rerun
import Cartridge.Proofs.Transpiler.Charges

/-!
# The cost of a project and the account

A conversion of a project names a cost, the sum of the costs of its chunks, and adds to the account
of the day what its prompts cost. The two differ by two things: an answer that is rejected is paid
for and is in no result, and a result that was known already has its cost of long ago, which is not
paid again.

* `Deals`: requests that were answered one after another, with the workbenches that they came to.
* `Deals.account_eq`: what a row of deals adds to the account.
* `FileResults.cost_eq`: what files cost is what the conversions of their chunks cost.
* `convertAt_cost`: the cost of a project and what is added to the account.
-/

namespace Cartridge

open Run

variable {R α : Type} [Quantity R] [Inhabited R]

/-! ## The account of a studio -/

namespace Studio

/-- The workbench has the transpiler of the studio, made for it if it was not there. -/
def Serves (s : Studio R) (w : Workbench R) : Prop := ready s = (.ok w.transpiler, s.putBack w)

/-- What was spent so far on the present day. -/
def account (s : Studio R) : R :=
  match s.transpiler? with
  | some t => (t.openedOn s.session.today).spent
  | none => Quantity.ofNat 0

variable {s s₁ : Studio R} {task : Workbench.Task R α} {a : α} {w w' : Workbench R}

/-- A task that ends was done at a workbench that the studio serves. -/
theorem serves_of_work (h : work task s = (.ok a, s₁)) :
    ∃ w w', s.Serves w ∧ task w = (.ok a, w') ∧ s₁ = s.putBack w' := by
  unfold work at h
  obtain ⟨t, s₂, hready, htask⟩ := bind_eq_ok h
  have hput : s₂ = s.putBack ⟨s₂.session, t⟩ := by
    unfold ready at hready
    split at hready
    · rename_i t' ht
      cases hready
      rw [putBack, ← ht]
    · split at hready
      · cases hready
        rfl
      · cases hready
  cases hdone : task ⟨s₂.session, t⟩ with
  | mk r w' =>
    rw [hdone] at htask
    obtain ⟨rfl, rfl⟩ := Prod.mk.inj htask
    refine ⟨⟨s₂.session, t⟩, w', ?_, hdone, ?_⟩
    · rw [Serves, ← hput]
      exact hready
    · rw [hput]
      rfl

theorem Serves.transpiler_eq (h : s.Serves w) {t : Transpiler R} (ht : s.transpiler? = some t) :
    w.transpiler = t := by
  rw [Serves, ready_of_some ht] at h
  exact (Except.ok.inj (congrArg Prod.fst h)).symm

theorem create_account {config : Config R} {providers : Entries (Provider R)} {s s' : Session R}
    {t : Transpiler R} (h : Transpiler.create config providers s = (.ok t, s')) :
    (t.openedOn s'.today).spent = Quantity.ofNat 0 := by
  unfold Transpiler.create at h
  split at h
  · cases h
  · cases h
    exact congrArg Transpiler.spent (if_pos rfl)

/-- The account of the studio is the account at the workbench that it serves. -/
theorem Serves.account_eq (h : s.Serves w) :
    (w.transpiler.openedOn w.session.today).spent = s.account := by
  unfold Serves ready at h
  unfold account
  cases ht : s.transpiler? with
  | some t =>
    rw [ht] at h
    obtain ⟨htranspiler, hstudio⟩ := Prod.mk.inj h
    have hsession : w.session = s.session := (congrArg Studio.session hstudio).symm
    rw [hsession, ← Except.ok.inj htranspiler]
  | none =>
    rw [ht] at h
    dsimp only at h
    split at h
    · rename_i t session hcreate
      obtain ⟨htranspiler, hstudio⟩ := Prod.mk.inj h
      have hsession : w.session = session := (congrArg Studio.session hstudio).symm
      rw [hsession, ← Except.ok.inj htranspiler]
      exact create_account hcreate
    · cases h

/-- While the date stays the same, the account is what the transpiler spent since the last reset. -/
theorem account_of_day {t : Transpiler R} (ht : s.transpiler? = some t)
    (hday : t.day = s.session.today) : s.account = t.spent := by
  unfold account
  rw [ht]
  dsimp only
  rw [Transpiler.openedOn, if_pos hday.symm]

end Studio

namespace Workbench

/-- After a request that was answered the account is that of the present day. -/
theorem day_of_ok {request : Request} {w w' : Workbench R} {result : Conversion R}
    (h : transpile request w = (.ok result, w')) : w'.transpiler.day = w'.session.today := by
  have hterms : w'.terms = (opened request w).terms := by
    have hbooks := transpile_books request w
    rw [h] at hbooks
    exact congrArg Prod.fst hbooks
  have hdate : w'.session.today = w.session.today := by
    have hkept := transpile_today request w
    rw [h] at hkept
    exact hkept
  have hday : w'.transpiler.day = (opened request w).transpiler.day := congrArg (·.2.2) hterms
  rw [hday, hdate, opened_eq_openedOn (target_of_ok h), Transpiler.openedOn]
  split
  · rename_i hsame
    exact hsame.symm
  · rfl

end Workbench

namespace Project

/-! ## Deals -/

/-- A request that was answered, and the workbench that it came to. -/
structure Deal (R : Type) where
  request : Request
  workbench : Workbench R
  result : Conversion R

namespace Deal

/-- The prompts that were sent for the request. -/
def asks (d : Deal R) : List (Workbench.Asking R) := Workbench.asks d.request d.workbench

/-- What was paid for answers that were rejected. -/
def wasted (d : Deal ℚ) : ℚ := Workbench.wasted d.asks

/-- The cost that is named but was not paid, as the result was known already. -/
def reused (d : Deal ℚ) : ℚ := if d.result.fromCache then d.result.cost else 0

end Deal

/-- Requests are made one after another, with nothing but messages in between, and each is
answered. -/
inductive Deals : Studio R → List (Deal R) → Studio R → Prop
  | done (write : Console → Console) (s : Studio R) : Deals s [] (s.said write)
  | next {s s' : Studio R} {d : Deal R} {rest : List (Deal R)} {w' : Workbench R}
      (before : Console → Console) (hserves : (s.said before).Serves d.workbench)
      (hresult : Workbench.transpile d.request d.workbench = (.ok d.result, w'))
      (hrest : Deals (s.putBack w') rest s') : Deals s (d :: rest) s'

variable {requests : List Request} {rs : List (Conversion R)} {s s' : Studio R}

theorem deals_of_carries (h : Carries Workbench.transpile requests s (.ok rs) s') :
    ∃ deals, Deals s deals s' ∧ deals.map (·.request) = requests ∧
      deals.map (·.result) = rs := by
  generalize hout : Except.ok rs = outcome at h
  induction h generalizing rs with
  | done write s =>
    cases hout
    exact ⟨[], .done write s, rfl, rfl⟩
  | stopped => cases hout
  | @next request rest s s₁ s' r outcome before hcall _ ih =>
    cases outcome with
    | error e => cases hout
    | ok rs' =>
      cases hout
      obtain ⟨deals, hdeals, hrequests, hresults⟩ := ih rfl
      obtain ⟨w, w', hserves, hresult, rfl⟩ := Studio.serves_of_work hcall
      refine ⟨⟨request, w, r⟩ :: deals, .next before hserves hresult hdeals, ?_, ?_⟩
      · rw [List.map_cons, hrequests]
      · rw [List.map_cons, hresults]

/-- Each result of a row was come by in one of the ways there are. -/
theorem Deals.earned {deals : List (Deal R)} (h : Deals s deals s') :
    ∀ d ∈ deals, Workbench.Earned d.request d.workbench d.result := by
  induction h with
  | done => exact fun d hd => by cases hd
  | next before hserves hresult _ ih =>
    exact List.forall_mem_cons.mpr ⟨Workbench.earned hresult, ih⟩

/-- After a row of deals the transpiler is there, and its account is that of the present day. -/
theorem Deals.day_eq {deals : List (Deal R)} (h : Deals s deals s') (hne : deals ≠ []) :
    ∃ t, s'.transpiler? = some t ∧ t.day = s'.session.today := by
  induction h with
  | done => exact absurd rfl hne
  | @next s s' d rest w' before hserves hresult hrest ih =>
    cases rest with
    | cons d' rest => exact ih (List.cons_ne_nil d' rest)
    | nil =>
      cases hrest with
      | done write => exact ⟨w'.transpiler, rfl, Workbench.day_of_ok hresult⟩

/-- What a row of deals adds to the account, beside the costs that their results name. -/
theorem Deals.account_eq {s s' : Studio ℚ} {deals : List (Deal ℚ)} (h : Deals s deals s') :
    s'.account + (deals.map Deal.reused).sum =
      s.account + (deals.map Deal.wasted).sum + (deals.map (·.result.cost)).sum := by
  induction h with
  | done write s =>
    have hsame : (s.said write).account = s.account := rfl
    rw [hsame]
    simp
  | @next s s' d rest w' before hserves hresult _ ih =>
    have hbefore : (Workbench.opened d.request d.workbench).transpiler.spent = s.account := by
      rw [Workbench.opened_eq_openedOn (Workbench.target_of_ok hresult)]
      exact hserves.account_eq
    have hafter : (s.putBack w').account = w'.transpiler.spent :=
      Studio.account_of_day rfl (Workbench.day_of_ok hresult)
    have hspent := Workbench.spent_of_ok hresult
    rw [hbefore, ← hafter] at hspent
    have hsplit : d.reused + (if d.result.fromCache then 0 else d.result.cost) =
        d.result.cost := by
      unfold Deal.reused
      split
      · exact add_zero _
      · exact zero_add _
    have hwasted : Workbench.wasted (Workbench.asks d.request d.workbench) = d.wasted := rfl
    rw [hwasted] at hspent
    rw [List.map_cons, List.map_cons, List.map_cons, List.sum_cons, List.sum_cons, List.sum_cons]
    linarith

/-! ## The costs of files -/

theorem total_eq_sum (l : List ℚ) : Quantity.total l = l.sum := by
  have hzero : (Quantity.ofNat 0 : ℚ) = 0 := by
    rw [Quantity.ofNat, Quantity.ofRatio_eq]
    exact zero_div _
  rw [Quantity.total, hzero, Workbench.foldl_add, zero_add]

/-- What files cost is what the conversions of their chunks cost. -/
theorem FileResults.cost_eq {files : List SourceFile} {rs : List (Conversion ℚ)}
    {results : List (FileResult ℚ)} (h : FileResults files rs results) :
    (results.map (·.cost)).sum = (rs.map (·.cost)).sum := by
  have hfile : ∀ r ∈ results, r.cost = (r.chunks.map (·.cost)).sum := by
    intro r hr
    obtain ⟨-, f, -, hfigures⟩ := h.figures r hr
    rw [← total_eq_sum]
    exact congrArg FileResult.cost hfigures
  have hchunks : (results.flatMap (·.chunks)).map (·.cost) = rs.map (·.cost) := by
    obtain ⟨hlength, hzip⟩ := h.chunks
    rw [hzip, ← List.map_uncurry_zip_eq_zipWith, List.map_map]
    show ((files.flatMap parts).zip rs).map ((·.cost) ∘ Prod.snd) = _
    rw [← List.map_map, List.map_snd_zip hlength.le]
  calc (results.map (·.cost)).sum
      = (results.map fun r => (r.chunks.map (·.cost)).sum).sum := by
        rw [List.map_congr_left hfile]
    _ = ((results.flatMap (·.chunks)).map (·.cost)).sum := by
        rw [List.map_flatMap, List.flatMap_def, List.sum_flatten, List.map_map]
        rfl
    _ = (rs.map (·.cost)).sum := by rw [hchunks]

/-! ## Conversions of projects -/

/-- A conversion that succeeds is a row of deals, one for each request that it plans. -/
theorem deals_of_convertAt {path : String} {o : Settings} {w w' : Workshop R}
    {result : ProjectResult R} (h : convertAt path o w = (.ok result, w')) :
    ∃ p deals, foundAt path w = .ok p ∧ p.files ≠ [] ∧ deals.map (·.request) = p.plan o ∧
      Deals w.studio deals w'.studio ∧ FileResults p.ordered (deals.map (·.result)) result.files ∧
      result = p.resultOf result.files result.duration := by
  rw [convertAt_apply] at h
  obtain ⟨hresult, hstudio⟩ := Prod.mk.inj h
  obtain ⟨p, hfound, hfiles⟩ := found_of_convert hresult
  obtain ⟨outcome, hcarries, hends⟩ := convert_makes hfiles path o Workbench.transpile w.studio
  rw [← hfound] at hcarries hends
  rw [hresult] at hends
  cases hends with
  | @ok rs _ hright =>
    obtain ⟨deals, hdeals, hrequests, rfl⟩ := deals_of_carries hcarries
    refine ⟨p, deals, hfound, hfiles, hrequests, ?_, hright⟩
    rw [← hstudio]
    exact hdeals

/-- After a conversion that succeeds the account is that of the present day. -/
theorem day_of_convertAt {path : String} {o : Settings} {w w' : Workshop R}
    {result : ProjectResult R} (h : convertAt path o w = (.ok result, w')) {t : Transpiler R}
    (ht : w'.studio.transpiler? = some t) : t.day = w'.studio.session.today := by
  obtain ⟨p, deals, -, hfiles, hrequests, hdeals, -⟩ := deals_of_convertAt h
  have hne : deals ≠ [] := by
    rintro rfl
    exact plan_ne_nil hfiles o hrequests.symm
  obtain ⟨t', ht', hday⟩ := hdeals.day_eq hne
  obtain rfl : t' = t := Option.some.inj (ht'.symm.trans ht)
  exact hday

/-- The cost of a project that was converted is what was added to the account of the day, without
what was paid for answers that were rejected, and with the costs of long ago of the results that
were known already. While the date stays the same the account is what the transpiler had spent. -/
theorem convertAt_cost {path : String} {o : Settings} {w w' : Workshop ℚ}
    {result : ProjectResult ℚ} (h : convertAt path o w = (.ok result, w')) :
    (∀ t, w.studio.transpiler? = some t → t.day = w.studio.session.today →
      w.studio.account = t.spent) ∧
    ∃ p deals t', foundAt path w = .ok p ∧ deals.map (·.request) = p.plan o ∧
      Deals w.studio deals w'.studio ∧
      (∀ d ∈ deals, Workbench.Earned d.request d.workbench d.result) ∧
      FileResults p.ordered (deals.map (·.result)) result.files ∧
      w'.studio.transpiler? = some t' ∧
      result.cost = t'.spent - w.studio.account - (deals.map Deal.wasted).sum +
        (deals.map Deal.reused).sum := by
  refine ⟨fun t ht hday => Studio.account_of_day ht hday, ?_⟩
  obtain ⟨p, deals, hfound, hfiles, hrequests, hdeals, hresults, hfigures⟩ := deals_of_convertAt h
  have hne : deals ≠ [] := by
    rintro rfl
    exact plan_ne_nil hfiles o hrequests.symm
  obtain ⟨t', ht', hday⟩ := hdeals.day_eq hne
  refine ⟨p, deals, t', hfound, hrequests, hdeals, hdeals.earned, hresults, ht', ?_⟩
  have haccount := hdeals.account_eq
  rw [Studio.account_of_day ht' hday] at haccount
  have hcost : result.cost = (deals.map (·.result.cost)).sum := by
    calc result.cost = Quantity.total (result.files.map (·.cost)) := congrArg (·.cost) hfigures
      _ = ((deals.map (·.result)).map (·.cost)).sum := by rw [total_eq_sum, hresults.cost_eq]
      _ = (deals.map (·.result.cost)).sum := by rw [List.map_map]; rfl
  rw [hcost]
  linarith

/-- The file is converted by the steady provider. -/
theorem convertAt_cost_of_steady : ∃ result w', convertAt "/main.ts" {} steady = (.ok result, w') ∧
    ∃ p deals t', foundAt "/main.ts" steady = .ok p ∧ deals.map (·.request) = p.plan {} ∧
      Deals steady.studio deals w'.studio ∧ w'.studio.transpiler? = some t' ∧
      result.cost = t'.spent - steady.studio.account - (deals.map Deal.wasted).sum +
        (deals.map Deal.reused).sum := by
  obtain ⟨result, w₁, -, hfirst, -⟩ := first_of_steady
  obtain ⟨-, p, deals, t', hfound, hrequests, hdeals, -, -, ht', hcost⟩ := convertAt_cost hfirst
  exact ⟨result, w₁, hfirst, p, deals, t', hfound, hrequests, hdeals, ht', hcost⟩

/-- What a new result of the steady provider costs. -/
theorem cost_of_steady {request : Request} {w : Workbench ℚ} {result : Conversion ℚ}
    (ht : steady.studio.transpiler? = some w.transpiler)
    (h : Workbench.Earned request w result) : result.cost = 1 := by
  have hstart := Option.some.inj ht
  cases h with
  | again hknown hasks =>
    have hnothing : Workbench.known? request w = none := by
      unfold Workbench.known?
      rw [← hstart]
      split <;> rfl
    rw [hnothing] at hknown
    cases hknown
  | @anew _ before a hanew hasks hbefore hused =>
    have hmem : a ∈ Workbench.asks request w := by
      rw [hasks]
      exact List.mem_append_right _ List.mem_cons_self
    obtain ⟨-, -, ⟨name, hprovider⟩, -⟩ := Workbench.asks_permitted hmem
    have hscripted : a.job.provider = .scripted "steady" 0 (some 1) := by
      have hin := Entries.mem_of_get? hprovider
      rw [← hstart] at hin
      exact congrArg Prod.snd (List.mem_singleton.mp hin)
    have hcost := hused.cost_eq
    unfold Workbench.Asking.cost? at hcost
    split at hcost
    · rw [hscripted] at hcost
      exact (Option.some.inj hcost).symm
    · cases hcost

theorem cost_of_first {result : ProjectResult ℚ} {w₁ : Workshop ℚ}
    (h : convertAt "/main.ts" {} steady = (.ok result, w₁)) : result.cost = 1 := by
  obtain ⟨p, deals, hfound, -, hrequests, hdeals, hresults, hfigures⟩ := deals_of_convertAt h
  obtain ⟨p', hfound', -, q, hplan, -⟩ := foundAt_steady
  obtain rfl : p' = p := Except.ok.inj (hfound'.symm.trans hfound)
  rw [hplan] at hrequests
  obtain ⟨d, rfl, -⟩ := List.map_eq_singleton_iff.mp hrequests
  cases hdeals with
  | @next _ _ _ _ w' before hserves hresult hrest =>
    have ht : steady.studio.transpiler? = some d.workbench.transpiler := by
      obtain ⟨t, ht⟩ : ∃ t, steady.studio.transpiler? = some t := ⟨_, rfl⟩
      rw [hserves.transpiler_eq (show (steady.studio.said before).transpiler? = some t from ht)]
      exact ht
    have hone := cost_of_steady ht (Workbench.earned hresult)
    calc result.cost = Quantity.total (result.files.map (·.cost)) := congrArg (·.cost) hfigures
      _ = d.result.cost + 0 := by rw [total_eq_sum, hresults.cost_eq]; rfl
      _ = 1 := by rw [hone, add_zero]

/-- The file is converted a second time at once: its result was known, so a cost is named that is
not added to the account. -/
theorem cost_ne_added_of_second_run :
    ∃ (w w' : Workshop ℚ) (result : ProjectResult ℚ) (t t' : Transpiler ℚ),
      convertAt "/main.ts" {} w = (.ok result, w') ∧ w.studio.transpiler? = some t ∧
      t.day = w.studio.session.today ∧ w'.studio.transpiler? = some t' ∧
      result.cost ≠ t'.spent - t.spent := by
  obtain ⟨result, w₁, t, hfirst, ht, hconfig, hsize, hspent, -, hcount, hfresh, hstays⟩ :=
    first_of_steady
  -- what the first run names and leaves
  have hcost : result.cost = 1 := cost_of_first hfirst
  have hday : t.day = w₁.studio.session.today := day_of_convertAt hfirst ht
  have hopened : t.openedOn w₁.studio.session.today = t := if_pos hday.symm
  -- the second run
  rw [convertAt_apply] at hfirst
  cases hconvert : convert Workbench.transpile "/main.ts" (foundAt "/main.ts" steady) {}
      steady.studio with
  | mk r s' =>
    rw [hconvert] at hfirst
    cases hfirst
    obtain ⟨duration, console, hagain⟩ := convert_again hconvert (fun t ht => by cases ht; rfl) ht
      rfl (by rw [hconfig]; rfl) (by rw [hcount, hsize]; decide) hstays s'.session hfresh
      (by rw [hopened, hconfig, hspent]; decide)
    rw [hopened] at hagain
    have hsecond := convertAt_apply "/main.ts" {} { steady with studio := s' }
    rw [foundAt_again hconvert s'.session, hagain] at hsecond
    refine ⟨_, _, _, t, t, hsecond, ht, hday, rfl, ?_⟩
    rw [sub_self]
    show result.cost ≠ 0
    rw [hcost]
    exact one_ne_zero

end Project

end Cartridge
