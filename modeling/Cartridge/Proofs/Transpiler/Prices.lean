import Cartridge.Proofs.Transpiler.Budget
import Cartridge.Proofs.Transpiler.Gates
import Mathlib.Tactic.NormNum
import Mathlib.Tactic.Ring

/-!
# Prices and estimates

A call is let through if its estimate is within the limit of one conversion. The estimate counts the
characters of prompt and source at one price; the prompt is then paid for by tokens at another. So a
limit covers the prompt only for some services: for the others the prompt alone costs more than the
estimate.

* `source_lt_prompt`: the prompt of a request holds its source, and more.
* `Covered`: the services, and the lengths, for which the estimate covers the prompt.
* `limit_covers_iff`: the limit covers the prompt for these and for no others.
-/

namespace Cartridge.Workbench

open Provider

/-! ## Lengths -/

theorem lt_length_build (source : String) (t : Target) (samples : List Prompt.Sample) :
    source.length < (Prompt.build source t samples).length := by
  unfold Prompt.build Prompt.fromTemplate Prompt.request
  simp only [String.length_append]
  have hframe : 0 < "\n```\n".length := by decide
  omega

section Prompts

variable {R : Type} [Quantity R] [Inhabited R] {request : Request} {w : Workbench R} {a : Asking R}

/-- The prompt of a request is built around its source. -/
theorem asks_prompt (ha : a ∈ asks request w) :
    ∃ samples, a.job.prompt = Prompt.build request.source request.target samples := by
  unfold asks at ha
  split at ha
  · rename_i key? w₁ _
    split at ha
    · rename_i job w₂ hprepare
      obtain ⟨-, -, -, hprompt, -⟩ := prepare_ok hprepare
      rw [(attemptAsks_permitted job _ _ _ a ha).1]
      exact ⟨_, hprompt⟩
    · cases ha
  · cases ha

theorem source_lt_prompt (ha : a ∈ asks request w) :
    request.source.length < a.job.prompt.length := by
  obtain ⟨samples, hprompt⟩ := asks_prompt ha
  rw [hprompt]
  exact lt_length_build _ _ _

end Prompts

/-! ## Prices -/

/-- What a million tokens of a prompt cost, in dollars. -/
def promptPrice? : Service → Option ℕ
  | .claude .. => some 3
  | .openAI .. => some 30
  | .openRouter _ model _ => (isClaudeModel? model).map fun cheaper => if cheaper then 15 else 30
  | .ownMachine _ | .bare => some 0

/-- What a million tokens are estimated to cost, in dollars. -/
def estimatedPrice : Kind → ℕ
  | .claude => 15
  | .openAI => 10
  | .openRouter => 8
  | .ownMachine | .bare => 0

theorem rate_eq (k : Kind) : (k.rate : ℚ) = estimatedPrice k / 1000 := by
  cases k <;> simp [Kind.rate, estimatedPrice, Quantity.ofNat, Quantity.ofRatio_eq]

/-- What a prompt alone costs: a price for each of its tokens. -/
theorem promptCost_eq {s : Service} {prompt : String} {cost : ℚ}
    (h : (s.pricing : Pricing ℚ).cost? prompt "" = some cost) :
    ∃ price, promptPrice? s = some price ∧
      cost = price * (tokensOf prompt.length : ℕ) / 1000000 := by
  have hempty : tokens "" = 0 := rfl
  have hprompt : tokens prompt = tokensOf prompt.length := rfl
  cases s with
  | claude key model url =>
    refine ⟨3, rfl, ?_⟩
    rw [← Option.some.inj h]
    simp [Quantity.ofNat, Quantity.ofRatio_eq, hempty, hprompt]
    ring
  | openAI key model url =>
    refine ⟨30, rfl, ?_⟩
    rw [← Option.some.inj h]
    simp [Quantity.ofNat, Quantity.ofRatio_eq, hempty, hprompt]
    ring
  | openRouter key model url =>
    unfold Service.pricing at h
    unfold promptPrice?
    dsimp only at h ⊢
    cases hmodel : isClaudeModel? model with
    | none =>
      rw [hmodel] at h
      cases h
    | some cheaper =>
      rw [hmodel] at h
      refine ⟨_, rfl, ?_⟩
      cases cheaper with
      | false =>
        rw [← Option.some.inj h]
        simp [Quantity.ofRatio_eq]
        ring
      | true =>
        rw [← Option.some.inj h]
        simp [Quantity.ofRatio_eq]
        ring
  | ownMachine settings =>
    refine ⟨0, rfl, ?_⟩
    rw [← Option.some.inj h]
    simp [Quantity.ofNat, Quantity.ofRatio_eq]
  | bare =>
    refine ⟨0, rfl, ?_⟩
    rw [← Option.some.inj h]
    simp [rate_eq, estimatedPrice]

/-- Cost and estimate compare by their prices. -/
theorem cost_le_estimate_iff (price estimated tokens length : ℕ) :
    (price * tokens / 1000000 : ℚ) ≤ length / 4000 * (estimated / 1000) ↔
      4 * (price * tokens) ≤ length * estimated := by
  rw [div_mul_div_comm, div_le_div_iff₀ (by norm_num) (by norm_num)]
  have hscaled : (price * tokens * (4000 * 1000) : ℚ) = 1000000 * (4 * (price * tokens) : ℕ) := by
    push_cast
    ring
  have hlength : (length * estimated * 1000000 : ℚ) = 1000000 * (length * estimated : ℕ) := by
    push_cast
    ring
  rw [hscaled, hlength, mul_le_mul_iff_right₀ (by norm_num)]
  exact Nat.cast_le

/-! ## What a limit covers -/

/-- The services, and the lengths of prompt and source, for which the estimate covers the prompt. -/
def Covered : Service → ℕ → ℕ → Prop
  | .claude .., _, _ => True
  | .openAI .., _, _ => False
  | .openRouter _ model _, prompt, source =>
    isClaudeModel? model = some true ∧ 15 * tokensOf prompt ≤ 2 * (prompt + source)
  | .ownMachine _, _, _ => True
  | .bare, _, _ => True

theorem covered_iff {s : Service} {prompt source price : ℕ} (hprice : promptPrice? s = some price)
    (hlength : source < prompt) :
    4 * (price * tokensOf prompt) ≤ (prompt + source) * estimatedPrice s.kind ↔
      Covered s prompt source := by
  have htokens : prompt ≤ 4 * tokensOf prompt ∧ 4 * tokensOf prompt ≤ prompt + 3 := by
    unfold tokensOf
    omega
  cases s with
  | claude key model url =>
    cases hprice
    simp only [Service.kind, estimatedPrice, Covered, iff_true]
    omega
  | openAI key model url =>
    cases hprice
    simp only [Service.kind, estimatedPrice, Covered, iff_false]
    omega
  | openRouter key model url =>
    unfold promptPrice? at hprice
    dsimp only at hprice
    simp only [Service.kind, estimatedPrice, Covered]
    cases hmodel : isClaudeModel? model with
    | none =>
      rw [hmodel] at hprice
      cases hprice
    | some cheaper =>
      rw [hmodel] at hprice
      cases cheaper with
      | false =>
        cases hprice
        simp
        omega
      | true =>
        cases hprice
        simp
        omega
  | ownMachine settings =>
    cases hprice
    simp [Covered]
  | bare =>
    cases hprice
    simp [Covered]

theorem tooDear_iff_lt {t : Transpiler ℚ} {estimated : ℚ} :
    (∃ e limit, t.refusal? estimated = some (.tooDear e limit)) ↔
      t.config.budget.perConversion < estimated := by
  simp only [refusal?_eq_tooDear_iff]
  constructor
  · rintro ⟨e, limit, hbelow, -, -⟩
    exact of_decide_eq_true hbelow
  · intro hlt
    exact ⟨_, _, decide_eq_true hlt, rfl, rfl⟩

/-- The prompt alone costs no more than its estimate for the services and lengths that are covered.
For these, every limit that lets a prompt through covers its cost, and for no others. -/
theorem limit_covers_iff {request : Request} {w : Workbench ℚ} {a : Asking ℚ}
    (ha : a ∈ asks request w) {s : Service} (hs : a.job.provider = ofService s) {cost : ℚ}
    (hcost : a.job.provider.pricing.cost? a.job.prompt "" = some cost) :
    let covered := Covered s a.job.prompt.length request.source.length
    (cost ≤ a.estimate ↔ covered) ∧
    (covered → cost ≤ a.workbench.transpiler.config.budget.perConversion) ∧
    ((∀ t : Transpiler ℚ, (¬ ∃ e limit, t.refusal? a.estimate = some (.tooDear e limit)) →
      cost ≤ t.config.budget.perConversion) ↔ covered) := by
  intro covered
  obtain ⟨hrequest, -, -, hpermitted⟩ := asks_permitted ha
  rw [hs] at hcost
  obtain ⟨price, hprice, hcost⟩ := promptCost_eq hcost
  have hestimate : a.estimate = ((a.job.prompt.length + request.source.length : ℕ) : ℚ) / 4000 *
      (estimatedPrice s.kind / 1000) := by
    rw [Asking.estimate, estimate_eq, hrequest, hs, ← rate_eq]
    rfl
  have hcovered : cost ≤ a.estimate ↔ covered := by
    rw [hcost, hestimate, cost_le_estimate_iff]
    exact covered_iff hprice (source_lt_prompt ha)
  refine ⟨hcovered, fun h => (hcovered.mpr h).trans (refusal?_eq_none hpermitted).1, ?_⟩
  simp only [tooDear_iff_lt, not_lt]
  constructor
  · intro h
    -- the estimate itself is the least limit that lets the prompt through
    have hexact := h { a.workbench.transpiler with
      config := { a.workbench.transpiler.config with
        budget := { a.workbench.transpiler.config.budget with perConversion := a.estimate } } }
      le_rfl
    exact hcovered.mp hexact
  · intro h t ht
    exact (hcovered.mpr h).trans ht

/-- A request for one of OpenAI's models, and a workbench whose limit is what it is estimated at. -/
def hurried : Request := { source := "let x = 1;", useCache := false, attempts := 1 }

def hurriedPrompt : String := Prompt.build hurried.source hurried.target []

def openAI : Service := .openAI (.str "key") (.str "gpt-4") Kind.openAI.defaultUrl

def hurriedEstimate : ℚ := Transpiler.estimate hurriedPrompt hurried.source Kind.openAI.rate

def hurriedWorkbench : Workbench ℚ where
  session := { clock := 0, today := "2024-01-01" }
  transpiler :=
    { config :=
        { providers := { primary := "openai" }
          budget := { perConversion := hurriedEstimate, perDay := hurriedEstimate + 1 }
          quality := { minScore := 0 }
          tools := { libraryPath := "gbdk" } }
      providers := [("openai", ofService openAI)]
      cache := { maxSize := 1000, lifetime := .whole 86400 }
      spent := 0
      day := "2024-01-01" }

/-- The prompt is sent, and costs more than the limit. -/
theorem limit_covers_iff_of_hurried : ∃ a ∈ asks hurried hurriedWorkbench, ∃ cost,
    a.job.provider.pricing.cost? a.job.prompt "" = some cost ∧
      a.workbench.transpiler.config.budget.perConversion < cost := by
  have hopened : opened hurried hurriedWorkbench = hurriedWorkbench := rfl
  have hnonneg : 0 ≤ hurriedEstimate :=
    estimate_nonneg _ _ (by rw [rate_eq]; norm_num [estimatedPrice])
  have hspent : Quantity.upTo hurriedWorkbench.transpiler.config.budget.perDay
      (opened hurried hurriedWorkbench).transpiler.spent = false :=
    decide_eq_false (not_le.mpr (show (0 : ℚ) < hurriedEstimate + 1 by linarith))
  obtain ⟨job, console, hrequest, -, hjob, hprompt, -, hasks⟩ :=
    job_of_new (show hurried.target.problems.isEmpty = true from rfl) hspent (by decide) rfl
      (show (opened hurried hurriedWorkbench).transpiler.preferred = .ok ("openai", false) from rfl)
      (show (opened hurried hurriedWorkbench).transpiler.providers.get? "openai" =
        some (ofService openAI) from rfl)
  have hestimate : Transpiler.estimate job.prompt job.request.source job.provider.rate =
      hurriedEstimate := by
    have hsamples : (Example.similar (opened hurried hurriedWorkbench).transpiler.examples
        hurried.source).map Example.sample = [] := by
      rw [hopened, show hurriedWorkbench.transpiler.examples = [] from rfl]
      simp [Example.similar, Example.byQuality]
    have hrate : (ofService openAI : Provider ℚ).rate = Kind.openAI.rate := rfl
    rw [hprompt, hsamples, hrequest, hjob, hrate, hurriedEstimate, hurriedPrompt]
  have hpermit : permit job (admitted hurried hurriedWorkbench console) =
      (.ok (), admitted hurried hurriedWorkbench console) :=
    permit_of_within (by rw [hrequest]; decide) hestimate le_rfl
      (show (0 : ℚ) + hurriedEstimate ≤ hurriedEstimate + 1 by linarith)
  have ha : asking job 1 (admitted hurried hurriedWorkbench console) ∈
      asks hurried hurriedWorkbench := by
    rw [hasks, show hurried.attempts.toNat = 0 + 1 from rfl, attemptAsks_succ hpermit]
    exact List.mem_cons_self
  obtain ⟨cost, hcost⟩ : ∃ cost, job.provider.pricing.cost? job.prompt "" = some cost := by
    rw [hjob]
    exact ⟨_, rfl⟩
  have hdear : hurriedEstimate < cost := by
    rw [← hestimate]
    exact not_le.mp (mt (limit_covers_iff ha hjob hcost).1.mp not_false)
  exact ⟨_, ha, cost, hcost, hdear⟩

end Cartridge.Workbench
