import Cartridge.Cache
import Cartridge.Proofs.Quantity
import Mathlib.Data.Finset.Card
import Mathlib.Data.List.Infix
import Mathlib.Tactic.NormNum

/-!
# What a cache gives back

An expired entry stays in the cache until it is asked for, so the cache may hold entries that it
will never give back, and asking frees room out of order. With exact times and a clock that does not
go back this is never noticed: whatever is still good was stored after whatever has expired, so an
expired entry goes before a good one does.

* `stored`: what a cache without limits would hold, the newest first.
* `Follows`: the entries are some of these, and the good ones among the newest are all there.
* `follows_act`: each action keeps the cache and what was stored in step.
* `get_after`: a cache gives back the last value of a key unless it has expired or too many other
  keys were set since.
-/

namespace Cartridge.Cache

variable {α : Type}

/-! ## Actions -/

section Actions

variable {R : Type} [Quantity R]

/-- What can be done with a cache. -/
inductive Action (α : Type) where
  | set (key : String) (value : α)
  | get (key : String)
  | clear

/-- The key under which an action stores a value. -/
def Action.key? : Action α → Option String
  | .set key _ => some key
  | _ => none

/-- The cache after an action at a time. -/
def act (c : Cache R α) (now : R) : Action α → Option (Cache R α)
  | .set key value => c.set key value now
  | .get key => some (c.get key now).2
  | .clear => some c.clear

/-- The cache after actions, each with its time. -/
def after (c : Cache R α) (actions : List (R × Action α)) : Option (Cache R α) :=
  actions.foldlM (fun c a => c.act a.1 a.2) c

/-- What a cache without limits holds after an action, the newest first. -/
def record (l : List (Stored R α)) (now : R) : Action α → List (Stored R α)
  | .set key value => ⟨key, now, value⟩ :: l.filter (·.key ≠ key)
  | .get _ => l
  | .clear => []

/-- What a cache without limits holds after actions, the newest first. -/
def stored (actions : List (R × Action α)) : List (Stored R α) :=
  actions.foldl (fun l a => record l a.1 a.2) []

/-- The keys that are set by actions. -/
def keysOf (actions : List (R × Action α)) : List String := actions.filterMap (·.2.key?)

end Actions

/-! ## Entries that are good -/

/-- The entry has not expired. -/
def Good (lifetime : Number ℚ) (now : ℚ) (e : Stored ℚ α) : Prop :=
  lifetime.value = 0 ∨ now - e.time ≤ lifetime.value

instance (lifetime : Number ℚ) (now : ℚ) : DecidablePred (Good (α := α) lifetime now) :=
  fun _ => inferInstanceAs (Decidable (_ ∨ _))

theorem expired_iff (c : Cache ℚ α) (now : ℚ) (e : Stored ℚ α) :
    c.expired e.time now = true ↔ ¬ Good c.lifetime now e := by
  unfold expired Good
  rw [Bool.and_eq_true, Bool.not_eq_true', Number.isBelow_iff, ← Bool.not_eq_true,
    Number.isZero_iff, not_or, not_le]

theorem value_get (c : Cache ℚ α) (key : String) (now : ℚ) (value : α) :
    (c.get key now).1 = some value ↔
      ∃ e, c.find? key = some e ∧ e.value = value ∧ Good c.lifetime now e := by
  unfold Cache.get
  cases hfind : c.find? key with
  | none => simp
  | some e =>
    by_cases hexpired : c.expired e.time now = true
    · have hbad := (expired_iff c now e).mp hexpired
      simp [hexpired, hbad]
    · have hgood : Good c.lifetime now e := not_not.mp (mt (expired_iff c now e).mpr hexpired)
      simp [hexpired, hgood]

theorem Good.earlier {lifetime : Number ℚ} {now now' : ℚ} {e e' : Stored ℚ α}
    (hgood : Good lifetime now' e) (hnow : now ≤ now') (htime : e.time ≤ e'.time) :
    Good lifetime now e' := by
  rcases hgood with h | h
  · exact .inl h
  · refine .inr (le_trans ?_ h)
    exact sub_le_sub hnow htime

/-! ## Lists -/

theorem filter_prefix {β : Type} {p : β → Bool} {l : List β}
    (h : l.Pairwise fun a b => p b = true → p a = true) : l.filter p <+: l := by
  induction l with
  | nil => exact List.prefix_rfl
  | cons a l ih =>
    rw [List.pairwise_cons] at h
    by_cases ha : p a = true
    · rw [List.filter_cons_of_pos ha, List.prefix_cons_inj]
      exact ih h.2
    · have hnone : (a :: l).filter p = [] := by
        refine List.filter_eq_nil_iff.mpr fun b hb => ?_
        rcases List.mem_cons.mp hb with rfl | hb
        · exact ha
        · exact fun hpb => ha (h.1 b hb hpb)
      rw [hnone]
      exact List.nil_prefix

/-- Where at most one item is left out, leaving it out makes room for one more. -/
theorem take_filter_prefix {β : Type} {p : β → Bool} {l : List β}
    (h : l.Pairwise fun a b => p a = true ∨ p b = true) (n : Nat) :
    (l.filter p).take n <+: (l.take (n + 1)).filter p := by
  induction l generalizing n with
  | nil => simp
  | cons a l ih =>
    rw [List.pairwise_cons] at h
    by_cases ha : p a = true
    · cases n with
      | zero => simp
      | succ n =>
        rw [List.take_succ_cons, List.filter_cons_of_pos ha, List.filter_cons_of_pos ha,
          List.take_succ_cons, List.prefix_cons_inj]
        exact ih h.2 n
    · have hall : ∀ b ∈ l, p b = true := fun b hb => (h.1 b hb).resolve_left ha
      rw [List.take_succ_cons, List.filter_cons_of_neg ha, List.filter_cons_of_neg ha,
        List.filter_eq_self.mpr hall,
        List.filter_eq_self.mpr fun b hb => hall b (List.mem_of_mem_take hb)]

theorem reverse_drop_length_sub {β : Type} (l : List β) (n : Nat) :
    (l.drop (l.length - n)).reverse = l.reverse.take n := by
  rw [List.reverse_drop]
  rcases Nat.le_total l.length n with h | h
  · rw [List.take_of_length_le (by rw [List.length_reverse]; omega),
      List.take_of_length_le (by rwa [List.length_reverse])]
  · rw [Nat.sub_sub_self h]

/-! ## The cache and what was stored -/

/-- The entries, the newest first. -/
def recent (c : Cache ℚ α) : List (Stored ℚ α) := c.entries.reverse

theorem recent_set {c : Cache ℚ α} (hsize : 0 ≤ c.maxSize) (key : String) (value : α) (now : ℚ) :
    ∃ c', c.set key value now = some c' ∧ c'.maxSize = c.maxSize ∧ c'.lifetime = c.lifetime ∧
      c'.recent = (⟨key, now, value⟩ :: c.recent.filter (·.key ≠ key)).take c.maxSize.toNat := by
  unfold Cache.set
  dsimp only
  rw [if_neg (by omega)]
  refine ⟨_, rfl, rfl, rfl, ?_⟩
  have hreverse : (c.without key ++ [(⟨key, now, value⟩ : Stored ℚ α)]).reverse =
      ⟨key, now, value⟩ :: c.recent.filter (·.key ≠ key) := by
    rw [List.reverse_append, without, recent, List.filter_reverse]
    rfl
  rw [recent, reverse_drop_length_sub, hreverse]

/-- A cache at a time, and what a cache without limits would hold. -/
structure Follows (c : Cache ℚ α) (now : ℚ) (l : List (Stored ℚ α)) : Prop where
  size_le : c.recent.length ≤ c.maxSize.toNat
  sublist : c.recent.Sublist l
  keys : (l.map Stored.key).Nodup
  times : l.Pairwise fun a b => b.time ≤ a.time
  past : ∀ e ∈ l, e.time ≤ now
  good : (l.filter (Good c.lifetime now ·)).take c.maxSize.toNat <+: c.recent

namespace Follows

variable {c : Cache ℚ α} {now : ℚ} {l : List (Stored ℚ α)}

theorem good_prefix (h : Follows c now l) (later : ℚ) :
    l.filter (Good c.lifetime later ·) <+: l :=
  filter_prefix <| h.times.imp fun htime hgood =>
    decide_eq_true ((of_decide_eq_true hgood).earlier le_rfl htime)

theorem pass (h : Follows c now l) {later : ℚ} (hlater : now ≤ later) : Follows c later l := by
  refine ⟨h.size_le, h.sublist, h.keys, h.times, fun e he => (h.past e he).trans hlater, ?_⟩
  -- what is still good later is good now, and comes first among it
  have hfilter : l.filter (Good c.lifetime later ·) =
      (l.filter (Good c.lifetime now ·)).filter (Good c.lifetime later ·) := by
    rw [List.filter_filter]
    refine List.filter_congr fun e _ => ?_
    rw [Bool.eq_iff_iff, Bool.and_eq_true, decide_eq_true_iff, decide_eq_true_iff]
    exact ⟨fun hgood => ⟨hgood, hgood.earlier hlater le_rfl⟩, And.left⟩
  have hcommon : l.filter (Good c.lifetime later ·) <+: l.filter (Good c.lifetime now ·) := by
    rw [hfilter]
    exact filter_prefix <| (h.times.filter _).imp fun htime hgood =>
      decide_eq_true ((of_decide_eq_true hgood).earlier le_rfl htime)
  exact (hcommon.take _).trans h.good

theorem eq_of_key (h : Follows c now l) {e e' : Stored ℚ α} (he : e ∈ c.recent)
    (he' : e' ∈ c.recent) (hkey : e.key = e'.key) : e = e' :=
  List.inj_on_of_nodup_map h.keys (h.sublist.subset he) (h.sublist.subset he') hkey

theorem find?_eq_some (h : Follows c now l) {key : String} {e : Stored ℚ α} :
    c.find? key = some e ↔ e ∈ c.recent ∧ e.key = key := by
  have hmem : ∀ e, c.find? key = some e → e ∈ c.recent ∧ e.key = key := by
    intro e hfind
    unfold find? at hfind
    refine ⟨List.mem_reverse.mpr (List.mem_of_find?_eq_some hfind), ?_⟩
    simpa using List.find?_some hfind
  refine ⟨hmem e, fun ⟨he, hkey⟩ => ?_⟩
  cases hfind : c.find? key with
  | none =>
    have hnone := List.find?_eq_none.mp hfind e (List.mem_reverse.mp he)
    exact absurd (decide_eq_true hkey) hnone
  | some e' =>
    obtain ⟨he', hkey'⟩ := hmem e' hfind
    rw [h.eq_of_key he' he (hkey'.trans hkey.symm)]

theorem get_eq_some (h : Follows c now l) {key : String} {value : α} :
    (c.get key now).1 = some value ↔
      ∃ e ∈ c.recent, e.key = key ∧ e.value = value ∧ Good c.lifetime now e := by
  rw [value_get]
  constructor
  · rintro ⟨e, hfind, hvalue, hgood⟩
    obtain ⟨he, hkey⟩ := h.find?_eq_some.mp hfind
    exact ⟨e, he, hkey, hvalue, hgood⟩
  · rintro ⟨e, he, hkey, hvalue, hgood⟩
    exact ⟨e, h.find?_eq_some.mpr ⟨he, hkey⟩, hvalue, hgood⟩

/-- A good entry is there exactly if it is among the newest that were stored. -/
theorem mem_recent (h : Follows c now l) {e : Stored ℚ α} (hgood : Good c.lifetime now e) :
    e ∈ c.recent ↔ e ∈ l.take c.maxSize.toNat := by
  have hgoods := h.good
  constructor
  · intro he
    have hmem : e ∈ l.filter (Good c.lifetime now ·) :=
      List.mem_filter.mpr ⟨h.sublist.subset he, decide_eq_true hgood⟩
    refine ((h.good_prefix now).take _).subset ?_
    rcases Nat.le_total (l.filter (Good c.lifetime now ·)).length c.maxSize.toNat with hlen | hlen
    · rwa [List.take_of_length_le hlen]
    · -- the cache is full of good entries
      have hfull : (l.filter (Good c.lifetime now ·)).take c.maxSize.toNat = c.recent :=
        hgoods.eq_of_length_le (by rw [List.length_take, Nat.min_eq_left hlen]; exact h.size_le)
      rwa [hfull]
  · intro he
    have hmem : e ∈ (l.take c.maxSize.toNat).filter (Good c.lifetime now ·) :=
      List.mem_filter.mpr ⟨he, decide_eq_true hgood⟩
    have hfew : ((l.take c.maxSize.toNat).filter (Good c.lifetime now ·)).length ≤
        c.maxSize.toNat := (List.length_filter_le _ _).trans (List.length_take_le _ _)
    exact hgoods.subset <|
      (List.prefix_take_iff.mpr ⟨(List.take_prefix _ l).filter _, hfew⟩).subset hmem

/-! ### Steps -/

theorem good_set (h : Follows c now l) (key : String) (value : α) :
    ((record l now (.set key value)).filter (Good c.lifetime now ·)).take c.maxSize.toNat <+:
      ⟨key, now, value⟩ :: c.recent.filter (·.key ≠ key) := by
  rw [record]
  by_cases hgood : Good c.lifetime now (⟨key, now, value⟩ : Stored ℚ α)
  · rw [List.filter_cons, if_pos (decide_eq_true hgood)]
    cases hn : c.maxSize.toNat with
    | zero => exact List.nil_prefix
    | succ n =>
      rw [List.take_succ_cons, List.prefix_cons_inj, List.filter_filter]
      have hothers : (l.filter (Good c.lifetime now ·)).Pairwise fun a b =>
          decide (a.key ≠ key) = true ∨ decide (b.key ≠ key) = true := by
        refine ((List.pairwise_map.mp h.keys).filter _).imp fun {a b} hab => ?_
        by_cases ha : a.key = key
        · exact .inr (decide_eq_true fun hb => hab (ha.trans hb.symm))
        · exact .inl (decide_eq_true ha)
      have hroom := take_filter_prefix hothers n
      rw [List.filter_filter] at hroom
      have hheld := h.good.filter (fun e => decide (e.key ≠ key))
      rw [hn] at hheld
      refine List.IsPrefix.trans ?_ (hroom.trans hheld)
      rw [List.filter_congr fun e _ => Bool.and_comm _ _]
  · -- nothing was stored later, so nothing else is good either
    have hnone : ((⟨key, now, value⟩ :: l.filter (·.key ≠ key) : List (Stored ℚ α)).filter
        (Good c.lifetime now ·)) = [] := by
      refine List.filter_eq_nil_iff.mpr fun e he hgood' => hgood ?_
      rcases List.mem_cons.mp he with rfl | he
      · exact of_decide_eq_true hgood'
      · exact (of_decide_eq_true hgood').earlier le_rfl (h.past e (List.mem_filter.mp he).1)
    rw [hnone, List.take_nil]
    exact List.nil_prefix

theorem set (h : Follows c now l) (hsize : 0 ≤ c.maxSize) (key : String) (value : α) :
    ∃ c', c.set key value now = some c' ∧ c'.maxSize = c.maxSize ∧ c'.lifetime = c.lifetime ∧
      Follows c' now (record l now (.set key value)) := by
  obtain ⟨c', hset, hmax, hlifetime, hrecent⟩ := recent_set hsize key value now
  refine ⟨c', hset, hmax, hlifetime, ?_, ?_, ?_, ?_, ?_, ?_⟩
  · rw [hrecent, hmax]
    exact List.length_take_le _ _
  · rw [hrecent]
    exact (List.take_sublist _ _).trans ((h.sublist.filter _).cons_cons _)
  · refine List.nodup_cons.mpr ⟨?_, h.keys.sublist (List.filter_sublist.map _)⟩
    intro hmem
    obtain ⟨e, he, hkey⟩ := List.mem_map.mp hmem
    exact of_decide_eq_true (List.mem_filter.mp he).2 hkey
  · exact List.pairwise_cons.mpr
      ⟨fun e he => h.past e (List.mem_filter.mp he).1, h.times.filter _⟩
  · intro e he
    rcases List.mem_cons.mp he with rfl | he
    · exact le_rfl
    · exact h.past e (List.mem_filter.mp he).1
  · rw [hrecent, hmax, hlifetime]
    exact List.prefix_take_iff.mpr ⟨h.good_set key value, List.length_take_le _ _⟩

theorem drop (h : Follows c now l) {key : String} {e : Stored ℚ α} (hfind : c.find? key = some e)
    (hexpired : ¬ Good c.lifetime now e) : Follows { c with entries := c.without key } now l := by
  have hrecent : recent { c with entries := c.without key } =
      c.recent.filter fun e => decide (e.key ≠ key) := by
    rw [recent, without, recent, List.filter_reverse]
  refine ⟨?_, ?_, h.keys, h.times, h.past, ?_⟩
  · rw [hrecent]
    exact (List.length_filter_le _ _).trans h.size_le
  · rw [hrecent]
    exact List.filter_sublist.trans h.sublist
  · rw [hrecent]
    have hkept := h.good.filter fun e => decide (e.key ≠ key)
    rwa [List.filter_eq_self.mpr ?_] at hkept
    intro e' he'
    refine decide_eq_true fun hkey => hexpired ?_
    obtain ⟨he, hkey'⟩ := h.find?_eq_some.mp hfind
    rw [h.eq_of_key he (h.good.subset he') (hkey'.trans hkey.symm)]
    exact of_decide_eq_true (List.mem_filter.mp (List.mem_of_mem_take he')).2

theorem get (h : Follows c now l) (key : String) : Follows (c.get key now).2 now l := by
  unfold Cache.get
  cases hfind : c.find? key with
  | none => exact h
  | some e =>
    dsimp only
    split
    · rename_i hexpired
      exact h.drop hfind ((expired_iff c now e).mp hexpired)
    · exact h

theorem empty {c : Cache ℚ α} (hempty : c.entries = []) (now : ℚ) : Follows c now [] := by
  have hrecent : c.recent = [] := by rw [recent, hempty, List.reverse_nil]
  refine ⟨?_, ?_, List.nodup_nil, .nil, by simp, by simp⟩
  · rw [hrecent]
    exact Nat.zero_le _
  · rw [hrecent]

end Follows

theorem get_settings (c : Cache ℚ α) (key : String) (now : ℚ) :
    (c.get key now).2.maxSize = c.maxSize ∧ (c.get key now).2.lifetime = c.lifetime := by
  unfold Cache.get
  split
  · exact ⟨rfl, rfl⟩
  · split <;> exact ⟨rfl, rfl⟩

/-- An action keeps the cache and what was stored in step, and the settings as they are. -/
theorem follows_act {c : Cache ℚ α} {now : ℚ} {l : List (Stored ℚ α)} (h : Follows c now l)
    (hsize : 0 ≤ c.maxSize) (a : Action α) :
    ∃ c', c.act now a = some c' ∧ c'.maxSize = c.maxSize ∧ c'.lifetime = c.lifetime ∧
      Follows c' now (record l now a) := by
  cases a with
  | set key value => exact h.set hsize key value
  | get key =>
    obtain ⟨hmax, hlifetime⟩ := get_settings c key now
    exact ⟨_, rfl, hmax, hlifetime, h.get key⟩
  | clear => exact ⟨_, rfl, rfl, rfl, .empty rfl now⟩

theorem follows_actions {c : Cache ℚ α} {start : ℚ} {l : List (Stored ℚ α)}
    (h : Follows c start l) (hsize : 0 ≤ c.maxSize) {actions : List (ℚ × Action α)}
    (hclock : (start :: actions.map Prod.fst).Pairwise (· ≤ ·)) :
    ∃ c' finish, c.after actions = some c' ∧ c'.maxSize = c.maxSize ∧ c'.lifetime = c.lifetime ∧
      finish ∈ start :: actions.map Prod.fst ∧
      Follows c' finish (actions.foldl (fun l a => record l a.1 a.2) l) := by
  induction actions generalizing c start l with
  | nil => exact ⟨c, start, rfl, rfl, rfl, List.mem_cons_self, h⟩
  | cons a actions ih =>
    rw [List.map_cons, List.pairwise_cons] at hclock
    obtain ⟨c₁, hact, hmax₁, hlifetime₁, h₁⟩ :=
      follows_act (h.pass (hclock.1 _ List.mem_cons_self)) hsize a.2
    obtain ⟨c₂, finish, hafter, hmax₂, hlifetime₂, hfinish, h₂⟩ := ih h₁ (by rwa [hmax₁]) hclock.2
    refine ⟨c₂, finish, ?_, hmax₂.trans hmax₁, hlifetime₂.trans hlifetime₁,
      List.mem_cons_of_mem _ hfinish, h₂⟩
    rw [after, List.foldlM_cons, hact]
    exact hafter

theorem follows_after {maxSize : Int} (hsize : 0 ≤ maxSize) (lifetime : Number ℚ)
    {actions : List (ℚ × Action α)} (hclock : (actions.map Prod.fst).Pairwise (· ≤ ·)) :
    ∃ c, after { maxSize, lifetime } actions = some c ∧ c.maxSize = maxSize ∧
      c.lifetime = lifetime ∧ c.recent.length ≤ maxSize.toNat ∧
      ∀ now, (∀ a ∈ actions, a.1 ≤ now) → Follows c now (stored actions) := by
  cases actions with
  | nil => exact ⟨_, rfl, rfl, rfl, Nat.zero_le _, fun now _ => .empty rfl now⟩
  | cons a actions =>
    obtain ⟨hfirst, hrest⟩ := List.pairwise_cons.mp hclock
    obtain ⟨c, finish, hafter, hmax, hlifetime, hfinish, h⟩ := follows_actions
      (Follows.empty (c := { maxSize, lifetime }) rfl a.1) hsize
      (List.pairwise_cons.mpr ⟨by simpa using hfirst, hclock⟩)
    refine ⟨c, hafter, hmax, hlifetime, h.size_le.trans_eq (by rw [hmax]),
      fun now hnow => h.pass ?_⟩
    rcases List.mem_cons.mp hfinish with rfl | hfinish
    · exact hnow a List.mem_cons_self
    · obtain ⟨b, hb, rfl⟩ := List.mem_map.mp hfinish
      exact hnow b hb

/-! ## What was stored -/

theorem keysOf_set (time : ℚ) (key : String) (value : α) (actions : List (ℚ × Action α)) :
    keysOf ((time, .set key value) :: actions) = key :: keysOf actions := rfl

theorem keysOf_get (time : ℚ) (key : String) (actions : List (ℚ × Action α)) :
    keysOf ((time, .get key) :: actions) = keysOf actions := rfl

theorem mem_keysOf {key : String} {actions : List (ℚ × Action α)} :
    key ∈ keysOf actions ↔ ∃ a ∈ actions, ∃ value, a.2 = .set key value := by
  rw [keysOf, List.mem_filterMap]
  refine exists_congr fun a => and_congr_right fun _ => ?_
  cases a.2 <;> simp [Action.key?]

/-- Without a clear, what was stored before stays behind what is stored, but for the keys that are
set again. -/
theorem foldl_record {actions : List (ℚ × Action α)} (hclear : ∀ a ∈ actions, a.2 ≠ .clear)
    (l : List (Stored ℚ α)) :
    actions.foldl (fun l a => record l a.1 a.2) l =
      stored actions ++ l.filter (·.key ∉ keysOf actions) := by
  induction actions generalizing l with
  | nil => simp [stored, keysOf]
  | cons a actions ih =>
    obtain ⟨time, action⟩ := a
    have hrest := ih fun b hb => hclear b (List.mem_cons_of_mem _ hb)
    rw [stored, List.foldl_cons, List.foldl_cons, hrest, hrest (record [] _ _)]
    cases action with
    | set key value =>
      rw [List.append_assoc, List.append_cancel_left_eq, record, record, keysOf_set,
        List.filter_nil, ← List.singleton_append, List.filter_append, List.append_cancel_left_eq,
        List.filter_filter]
      refine List.filter_congr fun e _ => ?_
      simp [Bool.and_comm]
    | get key =>
      rw [keysOf_get]
      simp [record]
    | clear => exact absurd rfl (hclear _ List.mem_cons_self)

theorem length_stored {actions : List (ℚ × Action α)} (hclear : ∀ a ∈ actions, a.2 ≠ .clear) :
    (stored actions).length = (keysOf actions).toFinset.card := by
  induction actions with
  | nil => rfl
  | cons a actions ih =>
    obtain ⟨time, action⟩ := a
    have hrest : ∀ b ∈ actions, b.2 ≠ .clear := fun b hb => hclear b (List.mem_cons_of_mem _ hb)
    rw [stored, List.foldl_cons, foldl_record hrest, List.length_append, ih hrest]
    cases action with
    | set key value =>
      rw [keysOf_set, List.toFinset_cons]
      by_cases hkey : key ∈ keysOf actions
      · rw [Finset.insert_eq_of_mem (List.mem_toFinset.mpr hkey)]
        simp [record, hkey]
      · rw [Finset.card_insert_of_notMem (mt List.mem_toFinset.mp hkey)]
        simp [record, hkey]
    | get key => rfl
    | clear => exact absurd rfl (hclear _ List.mem_cons_self)

theorem mem_record {l : List (Stored ℚ α)} {now : ℚ} {a : Action α} {e : Stored ℚ α}
    (he : e ∈ record l now a) :
    a = .set e.key e.value ∧ now = e.time ∨ e ∈ l ∧ a ≠ .clear ∧ a.key? ≠ some e.key := by
  cases a with
  | set key value =>
    rcases List.mem_cons.mp he with rfl | he
    · exact .inl ⟨rfl, rfl⟩
    · obtain ⟨hmem, hkey⟩ := List.mem_filter.mp he
      exact .inr ⟨hmem, by simp, fun h => of_decide_eq_true hkey (Option.some.inj h).symm⟩
  | get key => exact .inr ⟨he, by simp, by simp [Action.key?]⟩
  | clear => cases he

/-- What is stored was set, and neither cleared nor set again. -/
theorem exists_of_mem_stored {actions : List (ℚ × Action α)} {e : Stored ℚ α}
    (he : e ∈ stored actions) :
    ∃ before later, actions = before ++ (e.time, .set e.key e.value) :: later ∧
      (∀ a ∈ later, a.2 ≠ .clear) ∧ e.key ∉ keysOf later := by
  induction actions using List.reverseRecOn with
  | nil => cases he
  | append_singleton actions a ih =>
    rw [stored, List.foldl_concat] at he
    rcases mem_record he with ⟨haction, htime⟩ | ⟨hmem, hclear, hkey⟩
    · exact ⟨actions, [], by rw [← haction, ← htime], by simp, by simp [keysOf]⟩
    · obtain ⟨before, later, rfl, hquiet, hnew⟩ := ih hmem
      refine ⟨before, later ++ [a], by simp, ?_, ?_⟩
      · intro b hb
        rcases List.mem_append.mp hb with hb | hb
        · exact hquiet b hb
        · rw [List.mem_singleton.mp hb]
          exact hclear
      · rw [keysOf, List.filterMap_append, List.mem_append, not_or]
        exact ⟨hnew, by simpa using hkey⟩

/-- An entry is among the newest exactly if it was set, not cleared, and too few other keys were
set since. -/
theorem mem_take_stored {actions : List (ℚ × Action α)} {e : Stored ℚ α} {n : Nat} :
    e ∈ (stored actions).take n ↔
      ∃ before later, actions = before ++ (e.time, .set e.key e.value) :: later ∧
        (∀ a ∈ later, a.2 ≠ .clear) ∧ e.key ∉ keysOf later ∧ (keysOf later).toFinset.card < n := by
  have hsplit : ∀ before later : List (ℚ × Action α), (∀ a ∈ later, a.2 ≠ .clear) →
      e.key ∉ keysOf later →
      ∃ rest, stored (before ++ (e.time, .set e.key e.value) :: later) =
        stored later ++ e :: rest := by
    intro before later hclear hnew
    rw [stored, List.foldl_append, List.foldl_cons, foldl_record hclear, record]
    rw [List.filter_cons, if_pos (decide_eq_true hnew)]
    exact ⟨_, rfl⟩
  constructor
  · intro he
    obtain ⟨before, later, rfl, hclear, hnew⟩ := exists_of_mem_stored (List.mem_of_mem_take he)
    refine ⟨before, later, rfl, hclear, hnew, ?_⟩
    obtain ⟨rest, hrest⟩ := hsplit before later hclear hnew
    by_contra hn
    rw [hrest, List.take_append_of_le_length (by rw [length_stored hclear]; omega)] at he
    obtain ⟨_, _, rfl, -, -⟩ := exists_of_mem_stored (List.mem_of_mem_take he)
    exact hnew (mem_keysOf.mpr ⟨_, List.mem_append_right _ List.mem_cons_self, _, rfl⟩)
  · rintro ⟨before, later, rfl, hclear, hnew, hn⟩
    obtain ⟨rest, hrest⟩ := hsplit before later hclear hnew
    rw [hrest, List.take_append, length_stored hclear]
    obtain ⟨m, hm⟩ : ∃ m, n - (keysOf later).toFinset.card = m + 1 :=
      ⟨n - (keysOf later).toFinset.card - 1, by omega⟩
    rw [hm, List.take_succ_cons]
    exact List.mem_append_right _ List.mem_cons_self

/-! ## Whole runs -/

/-- After any actions under a clock that does not go back, there are at most `maxSize` entries, and
a cache gives back a value exactly if it was the last one set for the key since the last clear, has
not expired, and fewer than `maxSize` other keys were set since. -/
theorem get_after {maxSize : Int} (hsize : 0 ≤ maxSize) (lifetime : Number ℚ)
    {actions : List (ℚ × Action α)} (hclock : (actions.map Prod.fst).Pairwise (· ≤ ·)) :
    ∃ c, after { maxSize, lifetime } actions = some c ∧ (c.size : Int) ≤ maxSize ∧
      ∀ key value now, (∀ a ∈ actions, a.1 ≤ now) →
        ((c.get key now).1 = some value ↔
          ∃ before time later, actions = before ++ (time, .set key value) :: later ∧
            (∀ a ∈ later, a.2 ≠ .clear ∧ ∀ other, a.2 ≠ .set key other) ∧
            (lifetime.value = 0 ∨ now - time ≤ lifetime.value) ∧
            ((keysOf later).toFinset.card : Int) < maxSize) := by
  obtain ⟨c, hafter, rfl, rfl, hlength, hfollows⟩ := follows_after hsize lifetime hclock
  refine ⟨c, hafter, ?_, fun key value now hnow => ?_⟩
  · rw [recent, List.length_reverse] at hlength
    unfold size
    omega
  · have h := hfollows now hnow
    rw [h.get_eq_some]
    constructor
    · rintro ⟨e, he, rfl, rfl, hgood⟩
      rw [h.mem_recent hgood, mem_take_stored] at he
      obtain ⟨before, later, hactions, hclear, hnew, hfew⟩ := he
      refine ⟨before, e.time, later, hactions, fun a ha => ⟨hclear a ha, ?_⟩, hgood, by omega⟩
      intro other hset
      exact hnew (mem_keysOf.mpr ⟨a, ha, other, hset⟩)
    · rintro ⟨before, time, later, hactions, hlater, hgood, hfew⟩
      have hgood' : Good c.lifetime now ⟨key, time, value⟩ := hgood
      refine ⟨⟨key, time, value⟩, ?_, rfl, rfl, hgood'⟩
      rw [h.mem_recent hgood', mem_take_stored]
      refine ⟨before, later, hactions, fun a ha => (hlater a ha).1, fun hmem => ?_, by omega⟩
      obtain ⟨a, ha, other, hset⟩ := mem_keysOf.mp hmem
      exact (hlater a ha).2 other hset

/-- A key that is set again stays when the oldest goes. -/
theorem get_after_overwrite :
    ∃ c : Cache ℚ Nat, after { maxSize := 2, lifetime := .whole 60 }
        [(0, .set "a" 1), (1, .set "b" 2), (2, .set "a" 3), (3, .set "c" 4)] = some c ∧
      (c.size : Int) ≤ 2 ∧ (c.get "a" 62).1 = some 3 := by
  have hclock : (([(0, .set "a" 1), (1, .set "b" 2), (2, .set "a" 3), (3, .set "c" 4)] :
      List (ℚ × Action Nat)).map Prod.fst).Pairwise (· ≤ ·) := by
    decide
  obtain ⟨c, hafter, hsize, hget⟩ := get_after (by decide : (0 : Int) ≤ 2) (.whole 60) hclock
  refine ⟨c, hafter, hsize, (hget "a" 3 62 (by norm_num)).mpr ?_⟩
  refine ⟨[(0, .set "a" 1), (1, .set "b" 2)], 2, [(3, .set "c" 4)], rfl, by simp, .inr ?_, ?_⟩
  · norm_num [Number.value]
  · decide

end Cartridge.Cache
