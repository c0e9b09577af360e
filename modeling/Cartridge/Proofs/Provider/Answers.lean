import Cartridge.Proofs.Json.Readable
import Cartridge.Proofs.Quantity
import Cartridge.Session

/-!
# Answers of services

What becomes of a prompt that is sent to a service. Whatever comes back, it is a text or a failure
that the service is blamed for, with one exception: a document whose parts lie too deep is a fault.

* `Holds`: the place where the body of an answer has its text, by the kind of service.
* `codeOf_eq_ok_iff`: when an answer gives code, and which.
* `ask_foreseen`: what becomes of every outcome.
-/

namespace Cartridge.Provider

open Json

/-! ## Bodies -/

theorem get_eq_iff {j v : Json} {key : String} (hv : v ≠ .null) :
    j.get key = v ↔ j.get? key = some v := by
  unfold Json.get
  cases j.get? key with
  | none => simp [hv.symm]
  | some w => simp

theorem string?_eq_some_iff {j : Json} {text : String} :
    string? j = some text ↔ j = .str text := by
  cases j <;> simp [string?]

/-- The body of an answer has a text where its kind of service puts it. -/
inductive Holds : Kind → Json → String → Prop
  | claude {body : Json} {blocks : List Json} (h : body.get? "content" = some (.arr blocks)) :
      Holds .claude body ("\n".intercalate (blocks.filterMap blockText?))
  | chat {k : Kind} {body first message : Json} {rest : List Json} {text : String}
      (hkind : k = .openAI ∨ k = .openRouter)
      (h : body.get? "choices" = some (.arr (first :: rest)))
      (hmessage : first.get? "message" = some message)
      (htext : message.get? "content" = some (.str text)) : Holds k body text
  | ownMachine {body : Json} {text : String} (h : body.get? "response" = some (.str text)) :
      Holds .ownMachine body text

theorem string?_getD_eq_iff {j : Json} {text : String} (htext : text ≠ "") :
    (string? j).getD "" = text ↔ j = .str text := by
  rw [← string?_eq_some_iff]
  cases string? j with
  | none => simp [htext.symm]
  | some t => simp

/-- The text of a chat is that of its first choice. -/
theorem holds_chat_iff {k : Kind} (hkind : k = .openAI ∨ k = .openRouter) {body : Json}
    {text : String} : Holds k body text ↔ ∃ first rest message,
      body.get? "choices" = some (.arr (first :: rest)) ∧ first.get? "message" = some message ∧
        message.get? "content" = some (.str text) := by
  constructor
  · intro h
    cases h with
    | claude h => simp at hkind
    | chat _ h hmessage htext => exact ⟨_, _, _, h, hmessage, htext⟩
    | ownMachine h => simp at hkind
  · rintro ⟨first, rest, message, h, hmessage, htext⟩
    exact .chat hkind h hmessage htext

theorem chat_eq_iff {body : Json} {text : String} (htext : text ≠ "") :
    contentOf .openAI body = text ↔ ∃ first rest message,
      body.get? "choices" = some (.arr (first :: rest)) ∧ first.get? "message" = some message ∧
        message.get? "content" = some (.str text) := by
  constructor
  · intro h
    unfold contentOf at h
    dsimp only at h
    split at h
    · rename_i first rest hchoices
      rw [string?_getD_eq_iff htext, get_eq_iff (by simp)] at h
      unfold Json.get at h
      cases hmessage : first.get? "message" with
      | none =>
        rw [hmessage] at h
        cases h
      | some message =>
        rw [hmessage] at h
        exact ⟨first, rest, message, (get_eq_iff (by simp)).mp hchoices, hmessage, h⟩
    · exact absurd h.symm htext
  · rintro ⟨first, rest, message, hchoices, hmessage, hcontent⟩
    have hfirst : first.get "message" = message := by
      rw [Json.get, hmessage]
      rfl
    rw [contentOf, (get_eq_iff (by simp)).mpr hchoices]
    dsimp only
    rw [hfirst, string?_getD_eq_iff htext, get_eq_iff (by simp)]
    exact hcontent

/-- A text that is not empty is read from the place where it is put. -/
theorem contentOf_eq_iff {k : Kind} {body : Json} {text : String} (htext : text ≠ "") :
    contentOf k body = text ↔ Holds k body text := by
  cases k with
  | claude =>
    constructor
    · intro h
      unfold contentOf at h
      dsimp only at h
      split at h
      · rename_i blocks hblocks
        rw [← h]
        exact .claude ((get_eq_iff (by simp)).mp hblocks)
      · exact absurd h.symm htext
    · intro h
      cases h with
      | claude h => rw [contentOf, (get_eq_iff (by simp)).mpr h]
      | chat hkind => simp at hkind
  | openAI => rw [chat_eq_iff htext, holds_chat_iff (.inl rfl)]
  | openRouter =>
    rw [show contentOf .openRouter body = contentOf .openAI body from rfl, chat_eq_iff htext,
      holds_chat_iff (.inr rfl)]
  | ownMachine =>
    rw [contentOf, string?_getD_eq_iff htext, get_eq_iff (by simp)]
    constructor
    · exact .ownMachine
    · intro h
      cases h with
      | chat hkind => simp at hkind
      | ownMachine h => exact h
  | bare =>
    constructor
    · intro h
      exact absurd h.symm htext
    · intro h
      cases h with
      | chat hkind => simp at hkind

/-! ## Outcomes -/

theorem isTooDeep_iff {o : Outcome} :
    o.isTooDeep = true ↔ ∃ r, o = .answered r ∧ Json.read r.body = .error .tooDeep := by
  cases o with
  | unreachable text => simp [Outcome.isTooDeep]
  | answered r =>
    unfold Outcome.isTooDeep
    dsimp only
    split
    · rename_i hdeep
      simp [hdeep]
    · rename_i hother
      simpa using hother

theorem not_isTooDeep {r : Response} (h : Json.read r.body ≠ .error .tooDeep) :
    (Outcome.answered r).isTooDeep = false := by
  rw [Bool.eq_false_iff, Ne, isTooDeep_iff]
  rintro ⟨_, hr, hdeep⟩
  cases hr
  exact h hdeep

theorem mem_keyStatuses_iff {status : Int} :
    Failure.keyStatuses.contains status = true ↔ status = 401 ∨ status = 403 := by
  simp [Failure.keyStatuses]

/-- The kind of failure that the status of an error stands for. -/
def kindOfStatus (status : Int) : FailureKind :=
  if status = 401 ∨ status = 403 then .providerKey
  else if status = 429 then .providerRate
  else .provider

/-- An error is told by its status, whatever the body is. -/
theorem bodyOf_of_error {k : Kind} {r : Response} (h : 400 ≤ r.status) :
    ∃ why, bodyOf k (.answered r) = .error why ∧
      Cartridge.Failure.kindOfProvider why = kindOfStatus r.status ∧
      why.status? = some r.status := by
  unfold bodyOf kindOfStatus
  dsimp only
  by_cases hkey : r.status = 401 ∨ r.status = 403
  · rw [if_pos (mem_keyStatuses_iff.mpr hkey), if_pos hkey]
    exact ⟨_, rfl, rfl, rfl⟩
  · rw [if_neg (mt mem_keyStatuses_iff.mp hkey), if_neg hkey]
    by_cases hrate : r.status = 429
    · rw [if_pos (show r.status = Failure.rateStatus from hrate), if_pos hrate]
      exact ⟨_, rfl, rfl, congrArg some hrate.symm⟩
    · rw [if_neg (show ¬ r.status = Failure.rateStatus from hrate), if_neg hrate, if_pos h]
      exact ⟨_, rfl, rfl, rfl⟩

theorem bodyOf_of_fine {k : Kind} {r : Response} (h : r.status < 400) :
    bodyOf k (.answered r) =
      match Json.read r.body with
      | .error _ => .error (.unreadable k.label r.status)
      | .ok (.obj entries) => .ok (.obj entries)
      | .ok other => .error (.notAnObject k.label r.status other.kindName) := by
  have hkey : ¬ Failure.keyStatuses.contains r.status = true := by
    rw [mem_keyStatuses_iff]
    omega
  have hrate : ¬ r.status = Failure.rateStatus := by
    unfold Failure.rateStatus
    omega
  unfold bodyOf
  dsimp only
  exact (if_neg hkey).trans ((if_neg hrate).trans (if_neg (by omega)))

theorem bodyOf_eq_ok_iff {k : Kind} {o : Outcome} {body : Json} :
    bodyOf k o = .ok body ↔ ∃ r entries, o = .answered r ∧ r.status < 400 ∧
      Json.read r.body = .ok (.obj entries) ∧ body = .obj entries := by
  constructor
  · intro h
    cases o with
    | unreachable text => cases h
    | answered r =>
      by_cases herror : 400 ≤ r.status
      · obtain ⟨why, hbody, -, -⟩ := bodyOf_of_error (k := k) herror
        rw [hbody] at h
        cases h
      · rw [bodyOf_of_fine (by omega)] at h
        split at h
        · cases h
        · rename_i entries hread
          cases h
          exact ⟨r, entries, rfl, by omega, hread, rfl⟩
        · cases h
  · rintro ⟨r, entries, rfl, hfine, hread, rfl⟩
    rw [bodyOf_of_fine hfine, hread]

/-- Code is what is extracted from a text that stands in its place, in the object of an answer whose
status is no error. -/
theorem codeOf_eq_ok_iff {k : Kind} {o : Outcome} {code : String} :
    codeOf k o = .ok code ↔ ∃ r entries text, o = .answered r ∧ r.status < 400 ∧
      Json.read r.body = .ok (.obj entries) ∧ Holds k (.obj entries) text ∧ text ≠ "" ∧
      code = Code.extract text := by
  constructor
  · intro h
    unfold codeOf at h
    cases hbody : bodyOf k o with
    | error why =>
      rw [hbody] at h
      cases h
    | ok body =>
      rw [hbody] at h
      obtain ⟨r, entries, ho, hfine, hread, rfl⟩ := bodyOf_eq_ok_iff.mp hbody
      by_cases htext : contentOf k (.obj entries) = ""
      · simp [htext, bind, Except.bind] at h
      · simp only [htext, bind, Except.bind, if_false] at h
        cases h
        exact ⟨r, entries, _, ho, hfine, hread, (contentOf_eq_iff htext).mp rfl, htext, rfl⟩
  · rintro ⟨r, entries, text, rfl, hfine, hread, hholds, htext, rfl⟩
    have hbody : bodyOf k (.answered r) = .ok (.obj entries) :=
      bodyOf_eq_ok_iff.mpr ⟨r, entries, rfl, hfine, hread, rfl⟩
    unfold codeOf
    rw [hbody]
    simp only [bind, Except.bind, (contentOf_eq_iff htext).mpr hholds, htext, if_false]
    rfl

section Asking

variable {R : Type} [Quantity R]

theorem query?_isSome {s : Service} (hs : s.kind ≠ .bare) (prompt : String) :
    (s.query? prompt).isSome := by
  cases s with
  | bare => exact absurd rfl hs
  | _ => rfl

/-- What becomes of an outcome. -/
def answerOf (k : Kind) (o : Outcome) : Except (Stop R) (Option String) :=
  if o.isTooDeep then .error (.broken .tooDeep)
  else
    match codeOf k o with
    | .ok code => .ok (some code)
    | .error why => .error (.failed (.provider why))

omit [Quantity R] in
theorem answerOf_error_iff {k : Kind} {o : Outcome} (e : Stop R) :
    answerOf k o = .error e ↔ if o.isTooDeep then e = .broken .tooDeep
      else ∃ why, codeOf k o = .error why ∧ e = .failed (.provider why) := by
  unfold answerOf
  split
  · simp [eq_comm]
  · cases codeOf k o <;> simp [eq_comm]

omit [Quantity R] in
theorem answerOf_ok_iff {k : Kind} {o : Outcome} (code : Option String) :
    (answerOf k o : Except (Stop R) (Option String)) = .ok code ↔
      o.isTooDeep = false ∧ ∃ c, codeOf k o = .ok c ∧ code = some c := by
  unfold answerOf
  split
  · rename_i hdeep
    simp [hdeep]
  · rename_i hdeep
    cases codeOf k o <;> simp [hdeep, eq_comm]

theorem codeOf_of_error {k : Kind} {r : Response} (h : 400 ≤ r.status) :
    ∃ why, codeOf k (.answered r) = .error why ∧
      Cartridge.Failure.kindOfProvider why = kindOfStatus r.status ∧
      why.status? = some r.status := by
  obtain ⟨why, hbody, hwhy⟩ := bodyOf_of_error (k := k) h
  refine ⟨why, ?_, hwhy⟩
  rw [codeOf, hbody]
  rfl

variable [Inhabited R]

theorem ask_of_query {s : Service} {prompt : String} {q : Query} (h : s.query? prompt = some q)
    (session : Session R) :
    let heard := (session.send ⟨q.url, q.payload.get? "model", prompt⟩).listen
    (ofService s).ask prompt session = (answerOf s.kind heard.1, heard.2) := by
  intro heard
  unfold ask ofService answerOf
  dsimp only
  rw [h]
  dsimp only
  split
  · rfl
  · cases codeOf s.kind heard.1 <;> rfl

/-- Whatever comes back for a prompt, it is a text or a failure that the service is blamed for; only
a document whose parts lie too deep is a fault. -/
theorem ask_foreseen {s : Service} (hs : s.kind ≠ .bare) (prompt : String) (session : Session R) :
    ∃ call : Call, call.prompt = prompt ∧
      let heard := (session.send call).listen
      let answer := (ofService s : Provider R).ask prompt session
      answer.2 = heard.2 ∧
      (∀ fault, answer.1 = .error (.broken fault) ↔ fault = .tooDeep ∧
        ∃ r, heard.1 = .answered r ∧ Json.read r.body = .error .tooDeep) ∧
      (∀ why, answer.1 = .error (.failed why) → ∃ failure, why = .provider failure) ∧
      (∀ r, heard.1 = .answered r → Json.read r.body ≠ .error .tooDeep → 400 ≤ r.status →
        ∃ failure, answer.1 = .error (.failed (.provider failure)) ∧
          (Failure.provider failure : Cartridge.Failure R).kind = kindOfStatus r.status ∧
          failure.status? = some r.status) ∧
      ∀ code, answer.1 = .ok code ↔ ∃ r entries text, heard.1 = .answered r ∧ r.status < 400 ∧
        Json.read r.body = .ok (.obj entries) ∧ Holds s.kind (.obj entries) text ∧ text ≠ "" ∧
        code = some (Code.extract text) := by
  obtain ⟨q, hq⟩ := Option.isSome_iff_exists.mp (query?_isSome hs prompt)
  refine ⟨⟨q.url, q.payload.get? "model", prompt⟩, rfl, ?_⟩
  intro heard answer
  have hanswer : answer = (answerOf s.kind heard.1, heard.2) := ask_of_query hq session
  rw [hanswer]
  refine ⟨rfl, fun fault => ?_, fun why h => ?_, fun r hr hread herror => ?_, fun code => ?_⟩
  · rw [answerOf_error_iff, ← isTooDeep_iff]
    cases heard.1.isTooDeep <;> simp
  · rw [answerOf_error_iff] at h
    split at h
    · cases h
    · obtain ⟨failure, -, hwhy⟩ := h
      exact ⟨failure, Stop.failed.inj hwhy⟩
  · obtain ⟨failure, hcode, hkind, hstatus⟩ := codeOf_of_error (k := s.kind) herror
    refine ⟨failure, ?_, hkind, hstatus⟩
    rw [answerOf_error_iff, hr, not_isTooDeep hread]
    exact ⟨failure, hcode, rfl⟩
  · rw [answerOf_ok_iff]
    constructor
    · rintro ⟨-, c, hcode, rfl⟩
      obtain ⟨r, entries, text, ho, hfine, hread, hholds, htext, rfl⟩ := codeOf_eq_ok_iff.mp hcode
      exact ⟨r, entries, text, ho, hfine, hread, hholds, htext, rfl⟩
    · rintro ⟨r, entries, text, ho, hfine, hread, hholds, htext, rfl⟩
      have hcode : codeOf s.kind heard.1 = .ok (Code.extract text) :=
        codeOf_eq_ok_iff.mpr ⟨r, entries, text, ho, hfine, hread, hholds, htext, rfl⟩
      rw [ho] at hcode ⊢
      exact ⟨not_isTooDeep (by simp [hread]), _, hcode, rfl⟩

end Asking

/-- A session in which the network answers with lists that lie too deep. -/
def nestedSession : Session ℚ where
  clock := 0
  today := "2024-01-01"
  network := [⟨1, .answered
    ⟨200, "OK", .ofList
      (List.replicate (depthLimit + 1) '[' ++ List.replicate (depthLimit + 1) ']')⟩⟩]

/-- An answer that should be blamed on the service is a fault. -/
theorem ask_foreseen_of_nested :
    ((ofService (.openAI (.str "key") (.str "gpt-4") "https://api.openai.com") : Provider ℚ).ask
      "let x = 1;" nestedSession).1 = .error (.broken .tooDeep) := by
  obtain ⟨call, -, -, hbroken, -⟩ := ask_foreseen (R := ℚ)
    (s := .openAI (.str "key") (.str "gpt-4") "https://api.openai.com") (by decide) "let x = 1;"
    nestedSession
  exact (hbroken .tooDeep).mpr ⟨rfl, _, rfl, read_nested _ _⟩

end Cartridge.Provider
