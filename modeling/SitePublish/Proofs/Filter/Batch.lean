import Mathlib.Algebra.BigOperators.Group.List.Basic
import Mathlib.Algebra.GroupWithZero.Nat
import Mathlib.Data.List.Induction
import SitePublish.Filter.Batch
import SitePublish.Proofs.Dict
import SitePublish.Proofs.Filter.Rules

/-!
# Batches and their statistics

A batch is what filing its files one after the other comes to: each file goes to the end of one of
two lists and is counted once. So the lists are the files in their order, parted by the decisions,
the counts are those of the lists, and two batches joined are the batch of all their files. A file
over which two patterns disagree is never among the included ones.
-/

set_option autoImplicit false

namespace SitePublish

/-- A list parted into the members with a property and the others, each part in the order of the
list. -/
inductive Parted {α : Type} (keep : α → Prop) : List α → List α → List α → Prop
  | nil : Parted keep [] [] []
  | take {a : α} {l taken left : List α} (holds : keep a) (more : Parted keep l taken left) :
      Parted keep (a :: l) (a :: taken) left
  | leave {a : α} {l taken left : List α} (fails : ¬ keep a) (more : Parted keep l taken left) :
      Parted keep (a :: l) taken (a :: left)

theorem parted_filter {α : Type} (p : α → Bool) (l : List α) :
    Parted (fun a => p a = true) l (l.filter p) (l.filter fun a => !p a) := by
  induction l with
  | nil => exact .nil
  | cons a l ih =>
    by_cases h : p a = true
    · rw [List.filter_cons_of_pos h, List.filter_cons_of_neg (by simp [h])]
      exact .take h ih
    · rw [List.filter_cons_of_neg h, List.filter_cons_of_pos (by simp [h])]
      exact .leave h ih

namespace FilterRule

theorem mem_order (r : FilterRule) : r ∈ order := by
  cases r <;> decide

instance : LT FilterRule := ⟨fun r q => order.idxOf r < order.idxOf q⟩

instance : DecidableLT FilterRule := fun r q =>
  inferInstanceAs (Decidable (order.idxOf r < order.idxOf q))

instance : IsStrictTotalOrder FilterRule (· < ·) where
  trichotomous r _ not_before not_after :=
    (List.idxOf_inj (mem_order r)).mp (le_antisymm (not_lt.mp not_after) (not_lt.mp not_before))
  irrefl r := lt_irrefl (order.idxOf r)
  trans _ _ _ before after := Nat.lt_trans before after

theorem order_sorted : order.Pairwise (· < ·) := by
  decide

end FilterRule

abbrev RuleTally := Dict FilterRule Nat

namespace RuleTally

def count (t : RuleTally) (r : FilterRule) : Nat := (Dict.get? t r).getD 0

def add (t : RuleTally) (r : FilterRule) (n : Nat) : RuleTally := Dict.insert t r (count t r + n)

def merge (t u : RuleTally) : RuleTally := u.foldl (fun t e => add t e.1 e.2) t

theorem get?_add (t : RuleTally) (r q : FilterRule) (n : Nat) :
    Dict.get? (add t r n) q = if q = r then some (count t r + n) else Dict.get? t q :=
  Dict.get?_insert t r q _

theorem get?_merge {u : RuleTally} (distinct : (Dict.keys u).Nodup) (t : RuleTally)
    (r : FilterRule) :
    Dict.get? (merge t u) r =
      ((Dict.get? u r).map fun n => count t r + n).or (Dict.get? t r) := by
  induction u generalizing t with
  | nil => rfl
  | cons e u ih =>
    obtain ⟨q, n⟩ := e
    obtain ⟨fresh, distinct⟩ := List.nodup_cons.mp distinct
    rw [merge, List.foldl_cons, ← merge, ih distinct, count, get?_add, Dict.get?]
    by_cases same : q = r
    · subst same
      have none : Dict.get? u q = none := Dict.get?_eq_none_iff.mpr fresh
      simp [none]
    · simp [same, Ne.symm same, count]

theorem sortedKeys_merge {t : RuleTally} (h : Dict.SortedKeys t) (u : RuleTally) :
    Dict.SortedKeys (merge t u) := by
  induction u generalizing t with
  | nil => exact h
  | cons e u ih => exact ih (h.insert e.1 _)

end RuleTally

namespace FilterStats

instance : Add FilterStats where
  add s t :=
    { total := s.total + t.total
      included := s.included + t.included
      excluded := s.excluded + t.excluded
      byRule := RuleTally.merge s.byRule t.byRule
      conflicts := s.conflicts + t.conflicts }

def zero : FilterStats := ⟨0, 0, 0, [], 0⟩

def tally (s : FilterStats) (d : FilterDecision) : FilterStats where
  total := s.total + 1
  included := if d.included then s.included + 1 else s.included
  excluded := if d.included then s.excluded else s.excluded + 1
  byRule := RuleTally.add s.byRule d.rule 1
  conflicts := if d.conflict.isSome then s.conflicts + 1 else s.conflicts

section Rules

variable (ds es : List FilterDecision)

theorem mem_byRule {r : FilterRule} {n : Nat} :
    (r, n) ∈ (ofDecisions ds).byRule ↔ 0 < n ∧ n = countRule r ds := by
  simp only [ofDecisions, List.mem_filter, List.mem_map, Prod.mk.injEq, decide_eq_true_eq]
  constructor
  · rintro ⟨⟨q, -, rfl, rfl⟩, positive⟩
    exact ⟨Nat.pos_of_ne_zero positive, rfl⟩
  · rintro ⟨positive, rfl⟩
    exact ⟨⟨r, r.mem_order, rfl, rfl⟩, Nat.pos_iff_ne_zero.mp positive⟩

theorem byRule_keys : (Dict.keys (ofDecisions ds).byRule).Sublist FilterRule.order := by
  have all : Dict.keys (FilterRule.order.map fun r => (r, countRule r ds)) = FilterRule.order := by
    rw [Dict.keys, List.map_map]
    exact List.map_id _
  conv_rhs => rw [← all]
  exact List.filter_sublist.map Prod.fst

theorem byRule_sorted : Dict.SortedKeys (ofDecisions ds).byRule :=
  FilterRule.order_sorted.sublist (byRule_keys ds)

theorem get?_byRule (r : FilterRule) : Dict.get? (ofDecisions ds).byRule r =
    if countRule r ds = 0 then none else some (countRule r ds) := by
  split
  · next zero =>
    rw [Dict.get?_eq_none_iff]
    intro mem
    obtain ⟨⟨q, n⟩, there, rfl⟩ := List.mem_map.mp mem
    obtain ⟨positive, rfl⟩ := (mem_byRule ds).mp there
    exact positive.ne' zero
  · next positive =>
    have there : (r, countRule r ds) ∈ (ofDecisions ds).byRule :=
      (mem_byRule ds).mpr ⟨Nat.pos_of_ne_zero positive, rfl⟩
    exact Dict.get?_of_mem (byRule_sorted ds).nodup there

theorem count_byRule (r : FilterRule) :
    RuleTally.count (ofDecisions ds).byRule r = countRule r ds := by
  rw [RuleTally.count, get?_byRule]
  split
  · next zero => exact zero.symm
  · rfl

theorem sum_countRule : (FilterRule.order.map fun r => countRule r ds).sum = ds.length := by
  induction ds with
  | nil => rfl
  | cons d ds ih =>
    have one (r : FilterRule) :
        countRule r (d :: ds) = countRule r ds + if d.rule = r then 1 else 0 := by
      simp [countRule, List.countP_cons]
    have once : (FilterRule.order.map fun r => if d.rule = r then 1 else 0).sum = 1 := by
      cases d.rule <;> rfl
    simp only [one, List.sum_map_add, ih, once, List.length_cons]

theorem byRule_sum : (Dict.values (ofDecisions ds).byRule).sum = ds.length := by
  have nonzero (rows : RuleTally) :
      ((rows.filter fun e => e.2 ≠ 0).map Prod.snd).sum = (rows.map Prod.snd).sum := by
    induction rows with
    | nil => rfl
    | cons e rows ih =>
      by_cases zero : e.2 = 0
      · rw [List.filter_cons_of_neg (by simp [zero]), ih, List.map_cons, List.sum_cons, zero,
          Nat.zero_add]
      · rw [List.filter_cons_of_pos (by simp [zero]), List.map_cons, List.sum_cons, ih,
          List.map_cons, List.sum_cons]
  rw [Dict.values, ofDecisions, nonzero, List.map_map]
  exact sum_countRule ds

theorem byRule_append : (ofDecisions (ds ++ es)).byRule =
    RuleTally.merge (ofDecisions ds).byRule (ofDecisions es).byRule := by
  refine (byRule_sorted _).ext (RuleTally.sortedKeys_merge (byRule_sorted ds) _) fun r => ?_
  have both : countRule r (ds ++ es) = countRule r ds + countRule r es := List.countP_append
  rw [RuleTally.get?_merge (byRule_sorted es).nodup, count_byRule, get?_byRule, get?_byRule,
    get?_byRule, both]
  by_cases here : countRule r ds = 0 <;> by_cases there : countRule r es = 0 <;> simp [here, there]

end Rules

theorem total_eq (ds : List FilterDecision) :
    (ofDecisions ds).total = (ofDecisions ds).included + (ofDecisions ds).excluded := by
  have sides := List.length_eq_countP_add_countP (fun d : FilterDecision => d.included) (l := ds)
  simpa [ofDecisions] using sides

theorem ofDecisions_append (ds es : List FilterDecision) :
    ofDecisions (ds ++ es) = ofDecisions ds + ofDecisions es := by
  have rules := byRule_append ds es
  simp only [ofDecisions, List.length_append, List.countP_append] at rules ⊢
  rw [rules]
  rfl

theorem tally_eq (s : FilterStats) (d : FilterDecision) : s.tally d = s + ofDecisions [d] := by
  have rule : (ofDecisions [d]).byRule = [(d.rule, 1)] := by
    refine (byRule_sorted [d]).ext (List.pairwise_singleton _ _) fun r => ?_
    rw [get?_byRule, Dict.get?]
    by_cases same : d.rule = r <;> simp [countRule, same, Dict.get?]
  change s.tally d = FilterStats.mk _ _ _ (RuleTally.merge s.byRule (ofDecisions [d]).byRule) _
  rw [rule]
  cases included : d.included <;> cases conflict : d.conflict.isSome <;>
    simp [tally, RuleTally.merge, ofDecisions, included, conflict]

end FilterStats

namespace FilterBatch

variable {α : Type}

instance : Append (FilterBatch α) where
  append b c := ⟨b.included ++ c.included, b.excluded ++ c.excluded, b.stats + c.stats⟩

def empty : FilterBatch α := ⟨[], [], .zero⟩

def file (b : FilterBatch α) (c : Classified α) : FilterBatch α where
  included := if c.decision.included then b.included ++ [c] else b.included
  excluded := if c.decision.included then b.excluded else b.excluded ++ [c]
  stats := b.stats.tally c.decision

theorem ofClassified_append (files more : List (Classified α)) :
    ofClassified (files ++ more) = ofClassified files ++ ofClassified more := by
  simp only [ofClassified, List.filter_append, List.map_append, FilterStats.ofDecisions_append]
  rfl

theorem file_eq (b : FilterBatch α) (c : Classified α) : b.file c = b ++ ofClassified [c] := by
  change b.file c = ⟨b.included ++ _, b.excluded ++ _, b.stats + _⟩
  rw [file, FilterStats.tally_eq]
  cases h : c.decision.included <;> simp [ofClassified, h]

theorem ofClassified_eq_foldl (files : List (Classified α)) :
    ofClassified files = files.foldl file empty := by
  induction files using List.reverseRecOn with
  | nil => rfl
  | append_singleton files c ih =>
    rw [List.foldl_append, List.foldl_cons, List.foldl_nil, ← ih, file_eq, ofClassified_append]

/-- A batch gives account of the files, each under the decision about it. -/
structure Accounts (decision : α → FilterDecision) (files : List α) (b : FilterBatch α) :
    Prop where
  parted : Parted (fun c => c.decision.included = true)
    (files.map fun x => ⟨x, decision x⟩) b.included b.excluded
  total : b.stats.total = files.length
  included : b.stats.included = b.included.length
  excluded : b.stats.excluded = b.excluded.length
  whole : b.stats.total = b.stats.included + b.stats.excluded
  rules_once : (Dict.keys b.stats.byRule).Sublist FilterRule.order
  mem_byRule : ∀ r n, (r, n) ∈ b.stats.byRule ↔
    0 < n ∧ n = files.countP fun x => (decision x).rule = r
  byRule_sum : (Dict.values b.stats.byRule).sum = b.stats.total
  conflicts : b.stats.conflicts = files.countP fun x => (decision x).conflict.isSome
  conflicts_excluded : b.stats.conflicts = b.excluded.countP fun c => c.decision.conflict.isSome
  included_quiet : ∀ c ∈ b.included, c.decision.conflict = none

theorem accounts_ofClassified {decision : α → FilterDecision}
    (quiet : ∀ x, (decision x).included = true → (decision x).conflict = none) (files : List α) :
    (ofClassified (files.map fun x => ⟨x, decision x⟩)).Accounts decision files := by
  let cs : List (Classified α) := files.map fun x => ⟨x, decision x⟩
  have silent : ∀ c ∈ cs, c.decision.included = true → c.decision.conflict = none := by
    intro c hc included
    obtain ⟨x, -, rfl⟩ := List.mem_map.mp hc
    exact quiet x included
  have counted (p : FilterDecision → Bool) :
      (cs.map Classified.decision).countP p = files.countP fun x => p (decision x) := by
    rw [List.map_map, List.countP_map]
    rfl
  have listed (p : FilterDecision → Bool) :
      (cs.map Classified.decision).countP p = (cs.filter fun c => p c.decision).length := by
    rw [List.countP_map, List.countP_eq_length_filter]
    rfl
  refine {
    parted := parted_filter (fun c => c.decision.included) cs
    total := by simp [ofClassified, FilterStats.ofDecisions]
    included := listed _
    excluded := listed _
    whole := FilterStats.total_eq _
    rules_once := FilterStats.byRule_keys _
    mem_byRule := fun r n => ?_
    byRule_sum := FilterStats.byRule_sum _
    conflicts := counted _
    conflicts_excluded := ?_
    included_quiet := fun c hc => ?_ }
  · have decided := FilterStats.mem_byRule (cs.map Classified.decision) (r := r) (n := n)
    rwa [FilterStats.countRule, counted] at decided
  · change (cs.map Classified.decision).countP _ = (cs.filter _).countP _
    rw [List.countP_filter, List.countP_map]
    refine List.countP_congr fun c hc => ?_
    cases included : c.decision.included with
    | false => simp
    | true => simp [silent c hc included]
  · obtain ⟨there, included⟩ := List.mem_filter.mp hc
    exact silent c there included

end FilterBatch

namespace ProductionFilter

theorem conflict_eq_none_of_included (f : ProductionFilter) {path : String}
    {content : Option String} (included : (f.classify path content).included = true) :
    (f.classify path content).conflict = none := by
  cases read : SitePath.ofText path with
  | error e => exact (classify_of_error read f content).2.1
  | ok p =>
    rw [classify_of_ok read] at included ⊢
    obtain ⟨takes, disagrees⟩ := f.decide_spec p content
    rw [← Option.not_isSome_iff_eq_none, disagrees]
    rintro ⟨rule, -, excluded⟩
    rcases takes.mp included with site | ⟨-, kept⟩
    · rw [site] at rule
      cases rule
    · exact kept excluded

/-- A batch is filed file by file and gives account of all of them, and of two lists of files joined
the batch is the two batches joined; for files as they come from outside and for candidates. -/
theorem batches_account (f : ProductionFilter) :
    (∀ files : List FileInput,
      f.classifyInputs files = (files.map f.classifyInput).foldl .file .empty ∧
      (f.classifyInputs files).Accounts (fun i => f.classify i.path i.content) files) ∧
    (∀ files : List Candidate,
      f.classifyCandidates files = (files.map f.classifyCandidate).foldl .file .empty ∧
      (f.classifyCandidates files).Accounts
        (fun c => f.classify c.path.text c.content.text?) files) ∧
    (∀ files more : List FileInput,
      f.classifyInputs (files ++ more) = f.classifyInputs files ++ f.classifyInputs more) ∧
    ∀ files more : List Candidate,
      f.classifyCandidates (files ++ more) =
        f.classifyCandidates files ++ f.classifyCandidates more := by
  refine ⟨fun files => ⟨?_, ?_⟩, fun files => ⟨?_, ?_⟩, fun files more => ?_, fun files more => ?_⟩
  · exact FilterBatch.ofClassified_eq_foldl _
  · exact FilterBatch.accounts_ofClassified (fun i => f.conflict_eq_none_of_included) files
  · exact FilterBatch.ofClassified_eq_foldl _
  · exact FilterBatch.accounts_ofClassified (fun c => f.conflict_eq_none_of_included) files
  · rw [classifyInputs, List.map_append, FilterBatch.ofClassified_append]
    rfl
  · rw [classifyCandidates, List.map_append, FilterBatch.ofClassified_append]
    rfl

end ProductionFilter

end SitePublish
