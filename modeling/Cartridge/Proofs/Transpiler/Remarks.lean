import Cartridge.Proofs.Code.Completion
import Cartridge.Proofs.Transpiler.Foreseen

/-!
# Remarks on a conversion

An answer that is taken for code is completed before it is reviewed. So the remarks on a conversion
never say that the console's header is missing.

* `noHeader_not_mem_reviewWarnings`: the remarks on placed code.
* `warnings_of_conversion`: the remarks on a conversion are those on its code.
* `conversion_completes`: what a conversion makes of an answer.
-/

namespace Cartridge.Transpiler

variable {R : Type} [Quantity R] [Inhabited R]

theorem findings_of_review {code : String} {r : Code.Review R} (h : Code.review code = .ok r) :
    r.findings = Code.findings code := by
  unfold Code.review at h
  simp only [bind, Except.bind, pure, Except.pure] at h
  split at h
  · cases h
  · split at h
    · cases h
    · split at h
      · cases h
      · injection h with h
        rw [← h]

/-- No other finding has the message of a missing header. -/
theorem eq_noHeader_of_message {f : Code.Finding}
    (h : f.message = Code.Finding.noHeader.message) : f = .noHeader := by
  cases f with
  | noHeader => rfl
  | dynamicMemory line => simp [Code.Finding.message] at h
  | floatingPoint line => simp [Code.Finding.message] at h
  | noMain => exact absurd h (by decide)
  | unbalanced => exact absurd h (by decide)

theorem noHeader_not_mem_reviewWarnings {c : Config R} {code : String} {warnings : List String}
    (h : reviewWarnings c (Code.placed code) = .ok warnings) :
    Code.Finding.noHeader.message ∉ warnings := by
  unfold reviewWarnings at h
  split at h
  · cases hreview : (Code.review (Code.placed code) : Except Code.Uncountable (Code.Review R)) with
    | error e =>
      rw [hreview] at h
      cases h
    | ok r =>
      rw [hreview] at h
      injection h with h
      rw [← h]
      intro hmem
      rcases List.mem_append.mp hmem with hlow | hcomplaint
      · -- the remark on a low score begins with another letter
        split at hlow
        · rw [List.mem_singleton] at hlow
          have hhead := congrArg (·.toList.head?) hlow
          simp [Code.Finding.message] at hhead
        · cases hlow
      · obtain ⟨f, hf, hmessage⟩ := List.mem_map.mp hcomplaint
        rw [eq_noHeader_of_message hmessage, findings_of_review hreview] at hf
        exact Code.noHeader_not_mem_findings code (List.mem_filter.mp hf).1
  · injection h with h
    rw [← h]
    exact List.not_mem_nil

theorem warnings_of_conversion {c : Config R} {source code provider : String} {duration cost : R}
    {result : Conversion R} (h : conversion c source code provider duration cost = .ok result) :
    reviewWarnings c (Code.placed code) = .ok result.notes.warnings := by
  obtain ⟨ram, warnings, hwarnings, rfl⟩ := Workbench.conversion_ok h
  exact hwarnings

/-- Whatever the answer, placement keeps all its characters in their order and makes sure of both
headers. So no review of placed code finds that the header is missing, and the remarks on a
conversion, whose code is the placed answer, never say so. -/
theorem conversion_completes (c : Config R) (source code provider : String) (duration cost : R) :
    code.toList.Sublist (Code.placed code).toList ∧
      Text.contains (Code.placed code) Code.consoleHeader = true ∧
      Text.contains (Code.placed code) Code.ioHeader = true ∧
      Code.Finding.noHeader ∉ Code.findings (Code.placed code) ∧
      ∀ result, conversion c source code provider duration cost = .ok result →
        result.code = Code.placed code ∧
          Code.Finding.noHeader.message ∉ result.notes.warnings := by
  have hheaders := Code.contains_placed code
  refine ⟨Code.sublist_placed code, hheaders _ (by simp [Code.headers]),
    hheaders _ (by simp [Code.headers]), Code.noHeader_not_mem_findings code, ?_⟩
  intro result h
  exact ⟨code_of_conversion h, noHeader_not_mem_reviewWarnings (warnings_of_conversion h)⟩

/-- An answer without headers that calls for a hint, and for a remark of another kind. -/
theorem conversion_completes_of_headless :
    let code := "unsigned char a[2]; float f;"
    ∃ result, conversion (Config.standard "gbdk" : Config ℚ) "let x = 1;" code "steady" 0 0 =
        .ok result ∧
      code.toList.Sublist result.code.toList ∧
      Code.Finding.noHeader.message ∉ result.notes.warnings := by
  intro code
  have hram : (Code.ramUsage? code).isSome = true := by decide +kernel
  have hsizes : Code.Countable ℚ (Code.placed code) := ⟨3, by decide +kernel, rfl, rfl⟩
  obtain ⟨result, hresult⟩ := (conversion_eq_ok_iff (Config.standard "gbdk" : Config ℚ)
    "let x = 1;" code "steady" 0 0).mpr ⟨hram, fun _ => hsizes⟩
  obtain ⟨hkept, -, -, -, hremarks⟩ := conversion_completes (Config.standard "gbdk" : Config ℚ)
    "let x = 1;" code "steady" 0 0
  obtain ⟨hcode, hwarnings⟩ := hremarks result hresult
  exact ⟨result, hresult, hcode ▸ hkept, hwarnings⟩

end Cartridge.Transpiler
