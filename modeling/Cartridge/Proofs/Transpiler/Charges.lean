import Cartridge.Proofs.Transpiler.Account
import Cartridge.Proofs.Transpiler.Reuse

/-!
# What a request that succeeds is charged

A request that succeeds was charged for the answer that it uses and for the answers before it that
were rejected. The cost that its result names is that of the answer that it uses; where the result
was known already it is the cost of long ago, and nothing is charged.

* `Asking.rejected`: an answer came and is not taken for code.
* `Earned`: how a request came by its result, with what it was charged.
* `earned`: every request that succeeds came by its result in one of these ways.
* `spent_of_ok`: the account after a request that succeeds, in exact arithmetic.
* `transpile_today`: no request changes the date.
-/

namespace Cartridge.Workbench

open Run

variable {R : Type} [Quantity R] [Inhabited R]

/-! ## Answers that are rejected -/

namespace Asking

/-- Whether an answer came that is not taken for code. -/
def rejected (a : Asking R) : Bool :=
  match a.answer with
  | .ok answer => (Transpiler.flaw? answer : Option (Failure R)).isSome
  | .error _ => false

omit [Inhabited R] in
theorem rejected_of_answer {a : Asking R} {answer : Option String} (h : a.answer = .ok answer) :
    a.rejected = (Transpiler.flaw? answer : Option (Failure R)).isSome := by
  rw [rejected, h]

theorem cost?_of_answer {a : Asking R} {answer : Option String} (h : a.answer = .ok answer) :
    a.cost? = a.job.provider.pricing.cost? a.job.prompt (answer.getD "") := by
  rw [cost?, h]

/-- The answer is paid for and used, at a cost. -/
structure Used (a : Asking R) (cost : R) : Prop where
  accepted : a.rejected = false
  cost_eq : a.cost? = some cost

/-- The answer is of no use: it did not come, or it is rejected. -/
def Useless (a : Asking R) : Prop := a.rejected = true ∨ a.cost? = none

end Asking

/-! ## One attempt -/

section Attempts

variable {job : Job R} {number left : Nat} {w w' : Workbench R} {result : Conversion R}
  {why last : Failure R} {answer : Option String} {duration cost : R}

theorem charge_ok (h : charge job answer w = (.ok cost, w')) :
    job.provider.pricing.cost? job.prompt (answer.getD "") = some cost := by
  unfold charge at h
  split at h
  · cases h
  · rename_i hcost
    cases h
    exact hcost

theorem conversion_cost {c : Config R} {source code provider : String}
    (h : Transpiler.conversion c source code provider duration cost = .ok result) :
    result.cost = cost := by
  obtain ⟨ram, warnings, -, rfl⟩ := conversion_ok h
  rfl

/-- An answer that is settled has no flaw, and its result names what was paid for it. -/
theorem settle_cost (h : settle job answer duration cost w = (.ok result, w')) :
    (Transpiler.flaw? answer : Option (Failure R)) = none ∧ result.cost = cost := by
  obtain ⟨hflaw, hmade⟩ := conversion_of_settle h
  exact ⟨hflaw, conversion_cost hmade⟩

theorem tryOnce_used (h : tryOnce job number w = (.ok result, w')) :
    (asking job number w).Used result.cost := by
  rw [tryOnce_apply] at h
  split at h
  · cases h
  · rename_i answer w₁ hask
    have hanswer : (asking job number w).answer = .ok answer := congrArg Prod.fst hask
    split at h
    · cases h
    · rename_i cost w₂ hcharge
      obtain ⟨hflaw, hcost⟩ := settle_cost h
      refine ⟨?_, ?_⟩
      · rw [Asking.rejected_of_answer hanswer, hflaw]
        rfl
      · rw [Asking.cost?_of_answer hanswer, hcost]
        exact charge_ok hcharge

theorem tryOnce_useless (h : tryOnce job number w = (.error (.failed why), w')) :
    (asking job number w).Useless := by
  rw [tryOnce_apply] at h
  split at h
  · rename_i e w₁ hask
    have hanswer : (asking job number w).answer = .error e := congrArg Prod.fst hask
    right
    rw [Asking.cost?, hanswer]
  · rename_i answer w₁ hask
    have hanswer : (asking job number w).answer = .ok answer := congrArg Prod.fst hask
    split at h
    · rename_i e w₂ hcharge
      unfold charge at hcharge
      split at hcharge
      · cases hcharge
        cases h
      · cases hcharge
    · left
      rw [Asking.rejected_of_answer hanswer, (settle_failed h).1]
      rfl

/-- Attempts that succeed end with the answer that is used, and none before it was of use. -/
theorem attempts_used (h : attempts job left number last w = (.ok result, w')) :
    ∃ before a, attemptAsks job left number w = before ++ [a] ∧ (∀ b ∈ before, b.Useless) ∧
      a.Used result.cost := by
  induction left generalizing number last w with
  | zero =>
    rw [attempts] at h
    split at h <;> cases h
  | succ left ih =>
    rcases permit_apply job w with hpermit | ⟨e, hpermit⟩
    · rw [attempts_succ hpermit] at h
      rw [attemptAsks_succ hpermit]
      split at h
      · rename_i made w₁ htry
        cases h
        refine ⟨[], asking job number w, ?_, ?_, tryOnce_used htry⟩
        · rw [htry, List.nil_append]
        · intro b hb
          cases hb
      · cases h
      · rename_i flaw w₁ htry
        obtain ⟨before, a, hasks, hbefore, hused⟩ := ih h
        refine ⟨asking job number w :: before, a, ?_, ?_, hused⟩
        · rw [htry, List.cons_append, ← hasks]
        · intro b hb
          rcases List.mem_cons.mp hb with rfl | hb
          · exact tryOnce_useless htry
          · exact hbefore b hb
    · rw [attempts, bind_error hpermit] at h
      cases h

end Attempts

/-! ## A whole request -/

/-- How a request comes by its result: the result of an equal request is known and given again, at
no charge, or the answer to the last prompt is used, and none before it was of use. -/
inductive Earned (request : Request) (w : Workbench R) : Conversion R → Prop
  | again {first : Conversion R} (hknown : known? request w = some first)
      (hasks : asks request w = []) : Earned request w (again first)
  | anew {result : Conversion R} {before : List (Asking R)} {a : Asking R}
      (hanew : result.fromCache = false) (hasks : asks request w = before ++ [a])
      (hbefore : ∀ b ∈ before, b.Useless) (hused : a.Used result.cost) : Earned request w result

theorem earned {request : Request} {w w' : Workbench R} {result : Conversion R}
    (h : transpile request w = (.ok result, w')) : Earned request w result := by
  have hconsidered := considered request w
  cases hconsider : consider request w with
  | mk r w₁ =>
    rw [hconsider] at hconsidered
    cases hconsidered with
    | refused why console =>
      rw [transpile, bind_error hconsider] at h
      cases h
    | unwritable hlong console =>
      rw [transpile, bind_error hconsider] at h
      cases h
    | known _ hknown console =>
      rw [transpile, bind_ok hconsider] at h
      cases h
      refine .again hknown ?_
      rw [asks, hconsider]
    | new _ hnew console hadmitted =>
      rw [transpile, bind_ok hconsider] at h
      obtain ⟨job, w₂, hprepare, hattempts⟩ := bind_eq_ok h
      obtain ⟨before, a, hasks, hbefore, hused⟩ := attempts_used hattempts
      refine .anew (attempts_fromCache hattempts) ?_ hbefore hused
      rw [asks, hconsider]
      dsimp only
      rw [hprepare]
      exact hasks

/-- A request that succeeds has a target without problems. -/
theorem target_of_ok {request : Request} {w w' : Workbench R} {result : Conversion R}
    (h : transpile request w = (.ok result, w')) :
    request.target.problems.isEmpty = true := by
  by_contra hproblems
  rw [(transpile_badTarget (by simpa using hproblems)).1] at h
  cases h

/-! ## The account in exact arithmetic -/

/-- What was paid for answers that were rejected. -/
def wasted (l : List (Asking ℚ)) : ℚ := ((l.filter Asking.rejected).filterMap Asking.cost?).sum

theorem sum_costs_of_useless {l : List (Asking ℚ)} (h : ∀ b ∈ l, b.Useless) :
    (l.filterMap Asking.cost?).sum = wasted l := by
  unfold wasted
  induction l with
  | nil => rfl
  | cons b l ih =>
    have hrest := ih fun c hc => h c (List.mem_cons_of_mem b hc)
    cases hrejected : b.rejected with
    | true =>
      rw [List.filter_cons_of_pos hrejected]
      cases hcost : b.cost? with
      | none => rw [List.filterMap_cons_none hcost, List.filterMap_cons_none hcost, hrest]
      | some cost =>
        rw [List.filterMap_cons_some hcost, List.filterMap_cons_some hcost, List.sum_cons,
          List.sum_cons, hrest]
    | false =>
      have hfree : b.cost? = none := (h b List.mem_cons_self).resolve_left (by simp [hrejected])
      rw [List.filter_cons_of_neg (by simp [hrejected]), List.filterMap_cons_none hfree, hrest]

theorem wasted_append_used {before : List (Asking ℚ)} {a : Asking ℚ} {cost : ℚ}
    (h : a.Used cost) : wasted (before ++ [a]) = wasted before := by
  have hnone : [a].filter Asking.rejected = [] :=
    List.filter_cons_of_neg (by rw [h.accepted]; exact Bool.false_ne_true)
  rw [wasted, List.filter_append, hnone, List.append_nil, wasted]

theorem foldl_add (l : List ℚ) (start : ℚ) : l.foldl (· + ·) start = start + l.sum := by
  induction l generalizing start with
  | nil => simp
  | cons x l ih => rw [List.foldl_cons, ih, List.sum_cons, add_assoc]

/-- The account after a request that succeeds: what was paid for rejected answers is added, and what
the result names as its cost, unless it was known already. -/
theorem spent_of_ok {request : Request} {w w' : Workbench ℚ} {result : Conversion ℚ}
    (h : transpile request w = (.ok result, w')) :
    w'.transpiler.spent = (opened request w).transpiler.spent + wasted (asks request w) +
      (if result.fromCache then 0 else result.cost) := by
  have hspent := (transpile_sends request w).spent_eq
  rw [h, foldl_add] at hspent
  rw [hspent]
  cases earned h with
  | @again first hknown hasks =>
    have hcached : (again first).fromCache = true := rfl
    rw [hasks, if_pos hcached, add_zero]
    rfl
  | anew hanew hasks hbefore hused =>
    rw [hasks, wasted_append_used hused, List.filterMap_append, List.sum_append,
      sum_costs_of_useless hbefore, List.filterMap_cons_some hused.cost_eq, List.filterMap_nil,
      List.sum_singleton, hanew, if_neg Bool.false_ne_true, add_assoc]

/-! ## The date -/

/-- The date. -/
def today (w : Workbench R) : String := w.session.today

omit [Inhabited R] in
theorem plain_today : Plain (today : Workbench R → _) :=
  ⟨⟨fun _ _ => rfl, fun _ _ => rfl⟩, fun _ _ => rfl, fun _ _ => rfl⟩

omit [Inhabited R] in
theorem ask_today (job : Job R) : Keeps today (ask job) := ask_aside (fun _ _ _ _ _ => rfl) job

theorem transpile_today (request : Request) : Keeps (today : Workbench R → _) (transpile request) :=
  transpile_keeps plain_today ask_today
    (fun job answer w => congrArg Session.today (charge_session job answer w))
    (fun request w => congrArg Session.today (opened_session request w)) request

end Cartridge.Workbench
