import Cartridge.Code.Extraction
import Cartridge.Proofs.Pattern.Substitution

/-!
# Fenced C

The first fence of an answer begins where the opening stands first, and its text reaches to where
the closing stands first behind that. Neither the opening nor the closing can overlap itself, so
nothing that stands before the fence, and nothing that the code begins or ends with, moves these two
places.

* `Text.Unbordered`, `Text.prefix_of_unbordered`: a needle that does not overlap itself does not
  stand across the place where it was put into a text.
* `find?_fence`: the first fence of an answer and its text.
* `extract_fenced`: code that is fenced as C comes back.
-/

namespace Cartridge

namespace Text

/-! ## Needles that do not overlap themselves -/

/-- What is left of the needle once it has lost some of its first characters is no beginning of
it. -/
def Unbordered (needle : List Char) : Prop :=
  ∀ n < needle.length, 0 < n → ¬ needle.drop n <+: needle

/-- A needle that begins in a part of a text behind which the needle was put lies within that
part. -/
theorem prefix_of_unbordered {needle part rest : List Char} (hneedle : Unbordered needle)
    (hpart : part ≠ []) (h : needle <+: part ++ (needle ++ rest)) : needle <+: part := by
  rcases Nat.lt_or_ge part.length needle.length with hshort | hlong
  · exfalso
    obtain ⟨excess, rfl⟩ := List.prefix_of_prefix_length_le (List.prefix_append part _) h
      (Nat.le_of_lt hshort)
    -- what exceeds the part stands where the needle was put, and is the end of the needle as well
    have hrest : excess <+: part ++ excess ++ rest := (List.prefix_append_right_inj part).mp h
    have hborder : excess <+: part ++ excess :=
      List.prefix_of_prefix_length_le hrest (List.prefix_append _ rest) (by simp)
    apply hneedle part.length hshort (List.length_pos_iff.mpr hpart)
    rwa [List.drop_left]
  · exact List.prefix_of_prefix_length_le h (List.prefix_append part _) hlong

/-- A needle that a text does not have does not begin in the text either when it stands right behind
it. -/
theorem not_prefix_of_unbordered {needle text part rest : List Char} (hneedle : Unbordered needle)
    (htext : occursIn needle text = false) (hpart : part ≠ []) (hsuffix : part <:+ text) :
    needle.isPrefixOf (part ++ (needle ++ rest)) = false := by
  rw [Bool.eq_false_iff] at htext ⊢
  intro h
  apply htext
  obtain ⟨before, rfl⟩ := hsuffix
  obtain ⟨after, hafter⟩ := prefix_of_unbordered hneedle hpart (List.isPrefixOf_iff_prefix.mp h)
  exact occursIn_iff.mpr ⟨before, after, by rw [← hafter, List.append_assoc]⟩

end Text

namespace Code

open Pattern (exactly inOrder nearest findFrom Found)

/-! ## The first fence -/

section Fence

variable {opening closing : String} {before code after : List Char}

/-- A fenced block with a given opening and closing; its text is group 1. -/
def fence (opening closing : String) : Pattern :=
  inOrder [exactly opening, .group 1 anything, exactly closing]

/-- What follows the text of a fence, which began at `start`: the closing; the text is
remembered. -/
def closed (closing : String) (start : Place) (k : Place → Option Found) (stop : Place) :
    Option Found :=
  (exactly closing).match? k { stop with groups := (1, start.spanTo stop) :: stop.groups }

theorem closed_of_not_begins {start stop : Place} {k : Place → Option Found}
    (h : closing.toList.isPrefixOf stop.rest = false) : closed closing start k stop = none := by
  show (if closing.toList.isPrefixOf stop.rest then _ else none) = none
  rw [h]
  rfl

theorem closed_of_begins {start stop : Place} {k : Place → Option Found}
    (h : closing.toList <+: stop.rest) :
    closed closing start k stop =
      k (Place.skip { stop with groups := (1, start.spanTo stop) :: stop.groups }
        closing.toList.length) := by
  show (if closing.toList.isPrefixOf stop.rest then _ else none) = _
  rw [if_pos (List.isPrefixOf_iff_prefix.mpr h)]

/-- The piece between two places of a text. -/
theorem text_spanTo {start : Place} (h : start.rest = code ++ after) :
    (start.spanTo (start.skip code.length)).text = code := by
  have hindex : (start.skip code.length).index = start.index + code.length :=
    Place.skip_index (by rw [h, List.length_append]; omega)
  show start.rest.take ((start.skip code.length).index - start.index) = code
  rw [hindex, Nat.add_sub_cancel_left, h, List.take_left]

/-- A fence that begins at a place has the text up to the first closing. -/
theorem fence_foundAt (hopening : opening ≠ "") (hclosing : Text.Unbordered closing.toList)
    (hcode : Text.occursIn closing.toList code = false) {here : Place}
    (hrest : here.rest = opening.toList ++ (code ++ (closing.toList ++ after))) :
    ∃ m, (fence opening closing).foundAt here = some m ∧ m.group 1 = code := by
  have hstart : (here.skip opening.toList.length).rest = code ++ (closing.toList ++ after) := by
    rw [Place.skip_rest, hrest, List.drop_left]
  have hstop : ((here.skip opening.toList.length).skip code.length).rest =
      closing.toList ++ after := by
    rw [Place.skip_rest, hstart, List.drop_left]
  have hfound : (fence opening closing).foundAt here =
      nearest (fun _ => true)
        (closed closing (here.skip opening.toList.length) fun stop =>
          if here.index < stop.index then some ⟨here, stop⟩ else none)
        (code ++ (closing.toList ++ after)) 0 (here.skip opening.toList.length) := by
    show (if opening.toList.isPrefixOf here.rest then
      nearest _ _ (here.skip opening.toList.length).rest 0 _ else none) = _
    rw [if_pos (List.isPrefixOf_iff_prefix.mpr ⟨_, hrest.symm⟩), hstart]
    rfl
  have hbehind : here.index < ((here.skip opening.toList.length).skip code.length).index := by
    have hpos : 0 < opening.toList.length := by
      rw [List.length_pos_iff, ne_eq, String.toList_eq_nil_iff]
      exact hopening
    rw [Place.skip_index (by rw [hstart, List.length_append]; omega),
      Place.skip_index (by rw [hrest, List.length_append]; omega)]
    omega
  rw [hfound, Pattern.nearest_append_of_ahead hstart (fun _ _ => rfl)]
  · obtain ⟨m, hclosed, hgroup⟩ : ∃ m, closed closing (here.skip opening.toList.length)
        (fun stop => if here.index < stop.index then some ⟨here, stop⟩ else none)
        ((here.skip opening.toList.length).skip code.length) = some m ∧ m.group 1 = code := by
      rw [closed_of_begins ⟨after, hstop.symm⟩, if_pos]
      · refine ⟨_, rfl, ?_⟩
        rw [Found.group, Found.group?, Place.skip_groups, List.lookup_cons_self]
        exact text_spanTo hstart
      · rw [Place.skip_index (by simp only [hstop, List.length_append]; omega)]
        exact Nat.lt_of_lt_of_le hbehind (Nat.le_add_right _ _)
    exact ⟨m, Pattern.nearest_of_some hclosed _, hgroup⟩
  · intro there ahead hne hsuffix hthere
    apply closed_of_not_begins
    rw [hthere]
    exact Text.not_prefix_of_unbordered hclosing hcode hne hsuffix

/-- The first fence of an answer begins where the opening stands first, and its text is what stands
between that and the first closing. -/
theorem find?_fence (hne : opening ≠ "") (hopening : Text.Unbordered opening.toList)
    (hclosing : Text.Unbordered closing.toList)
    (hbefore : Text.occursIn opening.toList before = false)
    (hcode : Text.occursIn closing.toList code = false) :
    ∃ m, (fence opening closing).find?
        (before ++ (opening.toList ++ (code ++ (closing.toList ++ after)))) = some m ∧
      m.group 1 = code := by
  have hfrom : ∀ ahead passed index, ahead <:+ before →
      ∃ m, findFrom (fence opening closing)
          (ahead ++ (opening.toList ++ (code ++ (closing.toList ++ after)))) passed index =
            some m ∧ m.group 1 = code := by
    intro ahead
    induction ahead with
    | nil =>
      intro passed index _
      obtain ⟨c, rest, hopens⟩ := List.exists_cons_of_ne_nil
        (mt String.toList_eq_nil_iff.mp hne)
      obtain ⟨m, hfound, hgroup⟩ : ∃ m, (fence opening closing).foundAt ⟨passed,
          opening.toList ++ (code ++ (closing.toList ++ after)), index, []⟩ = some m ∧
            m.group 1 = code := fence_foundAt hne hclosing hcode rfl
      rw [hopens, List.cons_append] at hfound
      rw [List.nil_append, hopens, List.cons_append, findFrom, hfound]
      exact ⟨m, rfl, hgroup⟩
    | cons c ahead ih =>
      intro passed index hsuffix
      have hnone : (fence opening closing).foundAt ⟨passed,
          c :: (ahead ++ (opening.toList ++ (code ++ (closing.toList ++ after)))), index, []⟩ =
            none :=
        Pattern.foundAt_of_not_begins
          (Text.not_prefix_of_unbordered hopening hbefore (List.cons_ne_nil c ahead) hsuffix)
      rw [List.cons_append, findFrom, hnone]
      exact ih _ _ ((List.suffix_cons c ahead).trans hsuffix)
  exact hfrom before [] 0 (List.suffix_refl before)

end Fence

/-! ## Code that is fenced as C -/

theorem unbordered_opening : Text.Unbordered "```c\n".toList := by
  unfold Text.Unbordered
  decide

theorem unbordered_closing : Text.Unbordered "\n```".toList := by
  unfold Text.Unbordered
  decide

/-- Code that is fenced as C comes back without the blanks at its ends, whatever stands before and
after the fence and whatever the code begins and ends with. -/
theorem extract_fenced (before code after : String) (hne : code ≠ "")
    (hbefore : Text.contains before "```c\n" = false)
    (hcode : Text.contains code "\n```" = false) :
    extract (before ++ "```c\n" ++ code ++ "\n```" ++ after) = Text.stripped code := by
  obtain ⟨m, hfound, hgroup⟩ : ∃ m, (fence "```c\n" "\n```").find? (before.toList ++
      ("```c\n".toList ++ (code.toList ++ ("\n```".toList ++ after.toList)))) = some m ∧
        m.group 1 = code.toList :=
    find?_fence (by decide) unbordered_opening unbordered_closing hbefore hcode
  have hanswer : (before ++ "```c\n" ++ code ++ "\n```" ++ after).toList =
      before.toList ++ ("```c\n".toList ++ (code.toList ++ ("\n```".toList ++ after.toList))) := by
    simp only [String.toList_append, List.append_assoc]
  have hfenced : fenced? cFence (before ++ "```c\n" ++ code ++ "\n```" ++ after).toList =
      some code.toList := by
    have hfilled : ¬ code.toList.isEmpty = true := by
      rw [List.isEmpty_iff, String.toList_eq_nil_iff]
      exact hne
    rw [hanswer, fenced?, show cFence = fence "```c\n" "\n```" from rfl, hfound]
    dsimp only
    rw [hgroup, if_neg hfilled]
  rw [extract, hfenced, Text.stripped]

/-- Another fence before it, backticks on both sides of the opening, and code that ends with
backticks do not move the fence. -/
theorem extract_fenced_of_backticks :
    let before := "Not this:\n```\nint old;\n```\n``"
    let code := "``\nvoid main(void) \x7b\x7d\n``\n"
    let after := "\n```c\nint late;\n```"
    code ≠ "" ∧ Text.contains before "```c\n" = false ∧ Text.contains code "\n```" = false ∧
      extract (before ++ "```c\n" ++ code ++ "\n```" ++ after) =
        "``\nvoid main(void) \x7b\x7d\n``" := by
  intro before code after
  have hne : code ≠ "" := by decide
  have hbefore : Text.contains before "```c\n" = false := by decide
  have hcode : Text.contains code "\n```" = false := by decide
  have hstripped : Text.stripped code = "``\nvoid main(void) \x7b\x7d\n``" := by decide
  exact ⟨hne, hbefore, hcode, (extract_fenced before code after hne hbefore hcode).trans hstripped⟩

end Code

end Cartridge
