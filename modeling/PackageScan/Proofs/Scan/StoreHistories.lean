import Mathlib.Data.List.Basic
import PackageScan.Proofs.Scan.Histories

/-!
# What a store holds is told by its history

Rules are added, switched on and off, and results are made. The list of these operations, the
history, tells everything that can be read off the store later (`Store.Reflects`):

* **Rules.** An addition stands as long as no later one has its identifier. The store holds the
  rules of the additions that stand, in the order of these additions, each switched as the latest
  operation after its addition has it.
* **Results.** The rows are the results that have been made, in order. Hence what is read now is a
  prefix of what is read later.

Adding a rule again moves it behind all others and forgets how it was switched. Switching changes
the first rule with an identifier only; there is no second one, as two additions with one
identifier do not both stand.
-/

namespace PackageScan

namespace Store

/-- A change to the rules or the rows of a store. -/
inductive Operation where
  | addRule (rule : StoredRule)
  | setRuleActive (id : Nat) (isActive : Bool)
  | createScanResult (result : ScanResult)
  | createQueryResult (result : QueryResult)

namespace Operation

/-- What the operation does to a store. -/
def perform (s : Store) : Operation → Except StoreError Store
  | addRule rule => .ok (s.addRule rule)
  | setRuleActive id isActive => .ok (s.setRuleActive id isActive)
  | createScanResult result => s.storeScanResult result
  | createQueryResult result => s.storeQueryResult result

/-- Performs operations one after another. -/
def performAll (history : List Operation) (s : Store) : Except StoreError Store :=
  history.foldlM perform s

/-- The rule that the operation adds. -/
def rule? : Operation → Option StoredRule
  | addRule rule => some rule
  | setRuleActive _ _ | createScanResult _ | createQueryResult _ => none

/-- How the operation switches the rule with the identifier. -/
def switch? (id : Nat) : Operation → Option Bool
  | setRuleActive switched isActive => if switched = id then some isActive else none
  | addRule _ | createScanResult _ | createQueryResult _ => none

/-- The result of a scan that the operation makes. -/
def scanResult? : Operation → Option ScanResult
  | createScanResult result => some result
  | addRule _ | setRuleActive _ _ | createQueryResult _ => none

/-- The result of a query rule that the operation makes. -/
def queryResult? : Operation → Option QueryResult
  | createQueryResult result => some result
  | addRule _ | setRuleActive _ _ | createScanResult _ => none

end Operation

open Operation

/-- The operation at a place of the history adds a rule, and no later one adds a rule with the same
identifier. -/
structure Stands (history : List Operation) (place : Nat) (rule : StoredRule) : Prop where
  /-- The rule is added at the place. -/
  added : history[place]? = some (.addRule rule)
  /-- It is not added again. -/
  not_again : ∀ later other, place < later → history[later]? = some (.addRule other) →
    other.id ≠ rule.id

/-- The rule as the latest operation that switches it has it. -/
def switched (later : List Operation) (rule : StoredRule) : StoredRule :=
  { rule with isActive := (later.filterMap (switch? rule.id)).getLast?.getD rule.isActive }

/-- The rule added at a place as it is after the history. -/
def current (history : List Operation) (place : Nat × StoredRule) : StoredRule :=
  switched (history.drop (place.1 + 1)) place.2

/-- The store is what the history tells, and the additions that stand are those listed. -/
structure Reflects (history : List Operation) (standing : List (Nat × StoredRule)) (s : Store) :
    Prop where
  /-- Additions are listed in the order of the history. -/
  ordered : standing.Pairwise fun first second => first.1 < second.1
  /-- Those that stand are listed. -/
  mem_standing : ∀ place rule, (place, rule) ∈ standing ↔ Stands history place rule
  /-- The rules are those of the additions that stand. -/
  ruleRows_eq : s.ruleRows = standing.map (current history)
  /-- The results of scans are those that have been made. -/
  scanRows_eq : s.scanRows = history.filterMap scanResult?
  /-- The results of query rules are those that have been made. -/
  queryRows_eq : s.queryRows = history.filterMap queryResult?
  /-- No call is refused. -/
  outages_eq : s.outages = []

/-! ### Additions that stand -/

section Standing

variable {history : List Operation} {place : Nat} {rule added : StoredRule} {op : Operation}

theorem Stands.lt (h : Stands history place rule) : place < history.length :=
  (List.getElem?_eq_some_iff.mp h.added).1

/-- A place of a history with one more operation is one of the history or the last. -/
private theorem getElem?_concat_eq_some {op' : Operation} : (history ++ [op])[place]? = some op' ↔
    history[place]? = some op' ∨ place = history.length ∧ op = op' := by
  rw [List.getElem?_append]
  split_ifs with hlt
  · exact (or_iff_left fun hlast => hlt.ne hlast.1).symm
  · rw [List.getElem?_eq_none (Nat.le_of_not_lt hlt), List.getElem?_singleton]
    split_ifs with hzero
    · simp [show place = history.length by omega]
    · simp [show place ≠ history.length by omega]

/-- An operation that adds no rule leaves all additions standing. -/
private theorem stands_concat_of_none (h : op.rule? = none) :
    Stands (history ++ [op]) place rule ↔ Stands history place rule := by
  have hadds (p : Nat) (r : StoredRule) :
      (history ++ [op])[p]? = some (.addRule r) ↔ history[p]? = some (.addRule r) := by
    rw [getElem?_concat_eq_some, or_iff_left]
    rintro ⟨-, rfl⟩
    exact nomatch h
  constructor
  · rintro ⟨hadded, hagain⟩
    exact ⟨(hadds _ _).mp hadded, fun later other hlt hother =>
      hagain later other hlt ((hadds _ _).mpr hother)⟩
  · rintro ⟨hadded, hagain⟩
    exact ⟨(hadds _ _).mpr hadded, fun later other hlt hother =>
      hagain later other hlt ((hadds _ _).mp hother)⟩

/-- An addition stands, and leaves those standing that have another identifier. -/
private theorem stands_concat_addRule :
    Stands (history ++ [.addRule added]) place rule ↔
      Stands history place rule ∧ rule.id ≠ added.id ∨ place = history.length ∧ rule = added := by
  constructor
  · rintro ⟨hadded, hagain⟩
    obtain hbefore | ⟨rfl, heq⟩ := getElem?_concat_eq_some.mp hadded
    · have hlt : place < history.length := (List.getElem?_eq_some_iff.mp hbefore).1
      have hlast := hagain history.length added hlt (getElem?_concat_eq_some.mpr (.inr ⟨rfl, rfl⟩))
      refine .inl ⟨⟨hbefore, fun later other hlater hother => ?_⟩, hlast.symm⟩
      exact hagain later other hlater (getElem?_concat_eq_some.mpr (.inl hother))
    · exact .inr ⟨rfl, (Operation.addRule.inj heq).symm⟩
  · rintro (⟨hstands, hne⟩ | ⟨rfl, rfl⟩)
    · refine ⟨getElem?_concat_eq_some.mpr (.inl hstands.added), fun later other hlt hother => ?_⟩
      obtain hbefore | ⟨-, heq⟩ := getElem?_concat_eq_some.mp hother
      · exact hstands.not_again later other hlt hbefore
      · obtain rfl := Operation.addRule.inj heq
        exact hne.symm
    · refine ⟨getElem?_concat_eq_some.mpr (.inr ⟨rfl, rfl⟩), fun later other hlt hother => ?_⟩
      obtain hbefore | ⟨rfl, -⟩ := getElem?_concat_eq_some.mp hother
      · exact absurd (List.getElem?_eq_some_iff.mp hbefore).1 hlt.not_gt
      · exact absurd hlt (lt_irrefl _)

end Standing

/-! ### How rules are switched -/

section Switching

variable {later : List Operation} {rule : StoredRule} {op : Operation}

@[simp] theorem id_switched : (switched later rule).id = rule.id := rfl

@[simp] theorem scanner_switched : (switched later rule).scanner = rule.scanner := rfl

@[simp] theorem switched_nil : switched [] rule = rule := rfl

/-- The latest operation decides, if it switches the rule at all. -/
private theorem switched_concat : switched (later ++ [op]) rule =
    match op.switch? rule.id with
    | some isActive => { switched later rule with isActive }
    | none => switched later rule := by
  rw [switched, List.filterMap_append]
  cases h : op.switch? rule.id with
  | some isActive => simp [h, switched]
  | none => simp [h, switched]

/-- Switching changes the only rule with the identifier, wherever it stands. -/
private theorem setActive_eq_map {rows : List StoredRule} (id : Nat) (isActive : Bool)
    (h : (rows.map (·.id)).Nodup) : setActive id isActive rows =
      rows.map fun rule => if rule.id = id then { rule with isActive } else rule := by
  induction rows with
  | nil => rfl
  | cons rule rest ih =>
    rw [List.map_cons, List.nodup_cons] at h
    rw [setActive, List.map_cons]
    by_cases hid : rule.id = id
    · rw [if_pos hid, if_pos hid]
      -- the rest is left alone, since the identifier does not occur there
      have hrest : ∀ other ∈ rest, other.id ≠ id := fun other hother heq =>
        h.1 (List.mem_map.mpr ⟨other, hother, heq.trans hid.symm⟩)
      rw [List.map_congr_left fun other hother => if_neg (hrest other hother), List.map_id']
    · rw [if_neg hid, if_neg hid, ih h.2]

end Switching

/-! ### One operation -/

namespace Reflects

variable {history : List Operation} {standing : List (Nat × StoredRule)} {s : Store}

theorem nil : Reflects [] [] {} where
  ordered := List.Pairwise.nil
  mem_standing place rule := by
    refine iff_of_false List.not_mem_nil fun h => ?_
    exact Nat.not_lt_zero _ h.lt
  ruleRows_eq := rfl
  scanRows_eq := rfl
  queryRows_eq := rfl
  outages_eq := rfl

section Step

variable (h : Reflects history standing s)
include h

private theorem current_concat {place : Nat × StoredRule} (hmem : place ∈ standing)
    (op : Operation) :
    current (history ++ [op]) place =
      match op.switch? place.2.id with
      | some isActive => { current history place with isActive }
      | none => current history place := by
  have hlt : place.1 < history.length := ((h.mem_standing _ _).mp hmem).lt
  rw [current, List.drop_append_of_le_length hlt, switched_concat]
  rfl

/-- **Identifiers are distinct**: of two additions with one identifier only the later stands. -/
theorem nodup_ids : (s.ruleRows.map (·.id)).Nodup := by
  rw [h.ruleRows_eq, List.map_map, List.Nodup, List.pairwise_map]
  refine h.ordered.imp_of_mem fun {first second} hfirst hsecond hlt => ?_
  have hstands : Stands history first.1 first.2 := (h.mem_standing _ _).mp hfirst
  have hadded := ((h.mem_standing _ _).mp hsecond).added
  exact (hstands.not_again second.1 second.2 hlt hadded).symm

/-! What an operation adds to the rows of results comes behind them. -/

theorem scanRows_concat (op : Operation) :
    (history ++ [op]).filterMap scanResult? = s.scanRows ++ op.scanResult?.toList := by
  rw [List.filterMap_append, ← h.scanRows_eq]
  cases op <;> rfl

private theorem queryRows_concat (op : Operation) :
    (history ++ [op]).filterMap queryResult? = s.queryRows ++ op.queryResult?.toList := by
  rw [List.filterMap_append, ← h.queryRows_eq]
  cases op <;> rfl

/-- Adding a rule takes out the one with its identifier and puts it behind all others. -/
theorem addRule (rule : StoredRule) : Reflects (history ++ [.addRule rule])
    (standing.filter (fun place => place.2.id != rule.id) ++ [(history.length, rule)])
    (s.addRule rule) where
  ordered := by
    rw [List.pairwise_append]
    refine ⟨h.ordered.filter _, List.pairwise_singleton _ _, fun first hfirst last hlast => ?_⟩
    rw [List.mem_singleton.mp hlast]
    exact ((h.mem_standing _ _).mp (List.mem_of_mem_filter hfirst)).lt
  mem_standing place added := by
    rw [stands_concat_addRule, ← h.mem_standing]
    simp
  ruleRows_eq := by
    have hlast : current (history ++ [.addRule rule]) (history.length, rule) = rule := by
      rw [current, List.drop_eq_nil_of_le (by simp), switched_nil]
    have hothers : (standing.map (current history)).filter (fun other => other.id != rule.id) =
        (standing.filter fun place => place.2.id != rule.id).map
          (current (history ++ [.addRule rule])) := by
      rw [List.filter_map]
      refine List.map_congr_left fun place hplace => ?_
      rw [h.current_concat (List.mem_of_mem_filter hplace)]
      rfl
    rw [Store.addRule, h.ruleRows_eq, List.map_append, List.map_singleton, hlast, hothers]
  scanRows_eq := by
    rw [h.scanRows_concat]
    exact (List.append_nil _).symm
  queryRows_eq := by
    rw [h.queryRows_concat]
    exact (List.append_nil _).symm
  outages_eq := h.outages_eq

/-- An operation that adds no rule leaves all additions standing. The store reflects it as soon as
each rule is switched, and each result made, as the operation says. -/
private theorem concat_of_none {op : Operation} {after : Store} (hop : op.rule? = none)
    (hrules : after.ruleRows = standing.map (current (history ++ [op])))
    (hscans : after.scanRows = s.scanRows ++ op.scanResult?.toList)
    (hqueries : after.queryRows = s.queryRows ++ op.queryResult?.toList)
    (houtages : after.outages = s.outages) : Reflects (history ++ [op]) standing after where
  ordered := h.ordered
  mem_standing place rule := by
    rw [stands_concat_of_none hop, h.mem_standing]
  ruleRows_eq := hrules
  scanRows_eq := hscans.trans (h.scanRows_concat op).symm
  queryRows_eq := hqueries.trans (h.queryRows_concat op).symm
  outages_eq := houtages.trans h.outages_eq

theorem setRuleActive (id : Nat) (isActive : Bool) :
    Reflects (history ++ [.setRuleActive id isActive]) standing (s.setRuleActive id isActive) := by
  refine h.concat_of_none rfl ?_ (List.append_nil _).symm (List.append_nil _).symm rfl
  rw [Store.setRuleActive, setActive_eq_map id isActive h.nodup_ids, h.ruleRows_eq, List.map_map]
  refine List.map_congr_left fun place hplace => ?_
  rw [h.current_concat hplace]
  by_cases hid : place.2.id = id
  · simp [switch?, current, hid]
  · simp [switch?, current, hid, Ne.symm hid]

private theorem ruleRows_eq_concat {op : Operation} (hop : ∀ id, op.switch? id = none) :
    s.ruleRows = standing.map (current (history ++ [op])) := by
  rw [h.ruleRows_eq]
  refine List.map_congr_left fun place hplace => ?_
  rw [h.current_concat hplace, hop]

theorem createScanResult (result : ScanResult) :
    Reflects (history ++ [.createScanResult result]) standing (s.createScanResult result) :=
  h.concat_of_none rfl (h.ruleRows_eq_concat fun _ => rfl) rfl (List.append_nil _).symm rfl

theorem createQueryResult (result : QueryResult) :
    Reflects (history ++ [.createQueryResult result]) standing (s.createQueryResult result) :=
  h.concat_of_none rfl (h.ruleRows_eq_concat fun _ => rfl) (List.append_nil _).symm rfl rfl

/-- Each operation is performed, and the store reflects the history with it. -/
private theorem perform (op : Operation) : ∃ standing' after, op.perform s = .ok after ∧
    Reflects (history ++ [op]) standing' after := by
  match op with
  | .addRule rule => exact ⟨_, _, rfl, h.addRule rule⟩
  | .setRuleActive id isActive => exact ⟨_, _, rfl, h.setRuleActive id isActive⟩
  | .createScanResult result =>
    exact ⟨_, _, guarded_eq_self h.outages_eq, h.createScanResult result⟩
  | .createQueryResult result =>
    exact ⟨_, _, guarded_eq_self h.outages_eq, h.createQueryResult result⟩

/-! ### Histories -/

/-- After any more operations the store reflects the whole history. -/
private theorem performAll (more : List Operation) : ∃ standing' after,
    performAll more s = .ok after ∧ Reflects (history ++ more) standing' after := by
  induction more generalizing history standing s with
  | nil => exact ⟨standing, s, rfl, by rwa [List.append_nil]⟩
  | cons op rest ih =>
    obtain ⟨_, next, hnext, hreflects⟩ := h.perform op
    obtain ⟨last, after, hafter, hall⟩ := ih hreflects
    refine ⟨last, after, ?_, by rwa [List.append_assoc] at hall⟩
    rw [Operation.performAll, List.foldlM_cons, hnext]
    exact hafter

/-! ### Readings -/

/-- The rules of a kind are those of the additions of that kind that stand. -/
theorem rules_eq (kind : ScannerKind) : s.rules kind =
    .ok ((standing.filter fun place => place.2.scanner = kind).map (current history)) := by
  rw [Store.rules, guarded_eq_self h.outages_eq, rulesOf, h.ruleRows_eq, List.filter_map]
  rfl

/-- The active rules are those among the rules of the kind. -/
private theorem activeRules_eq (kind : ScannerKind) {rules : List StoredRule}
    (hrules : s.rules kind = .ok rules) :
    s.activeRules kind = .ok ⟨kind, rules.filter StoredRule.isActive⟩ := by
  obtain ⟨-, hrulesOf⟩ := guarded_eq_ok.mp hrules
  rw [activeRules, guarded_eq_self h.outages_eq, snapshot, Except.ok.inj hrulesOf]

private theorem scanResults_eq (upload : Nat) : s.scanResults upload =
    (history.filterMap scanResult?).filter fun r => r.upload = upload := by
  rw [scanResults, h.scanRows_eq]

private theorem queryResults_eq (version : Nat) : s.queryResults version =
    (history.filterMap queryResult?).filter fun r => r.version = version := by
  rw [queryResults, h.queryRows_eq]

/-- Results that have been made are not lost, nor moved. -/
private theorem scanResults_prefix {more : List Operation} {standing' : List (Nat × StoredRule)}
    {after : Store} (hafter : Reflects (history ++ more) standing' after) (upload : Nat) :
    s.scanResults upload <+: after.scanResults upload := by
  rw [h.scanResults_eq, hafter.scanResults_eq, List.filterMap_append, List.filter_append]
  exact List.prefix_append _ _

private theorem queryResults_prefix {more : List Operation} {standing' : List (Nat × StoredRule)}
    {after : Store} (hafter : Reflects (history ++ more) standing' after) (version : Nat) :
    s.queryResults version <+: after.queryResults version := by
  rw [h.queryResults_eq, hafter.queryResults_eq, List.filterMap_append, List.filter_append]
  exact List.prefix_append _ _

end Step

end Reflects

/-- **What a store holds is told by its history.** All operations of a history are performed on a
new store. Afterwards no two rules have one identifier. The rules of a kind are those of the
additions that stand and are of that kind, in the order of the additions and each as it was switched
last; the active rules are those of them that are active. The results of scans of an upload, and
those of query rules on a version, are the ones that have been made, in order; after any more
operations they are still the first. -/
theorem readings_of_history (history : List Operation) : ∃ s, performAll history {} = .ok s ∧
    (s.ruleRows.map (·.id)).Nodup ∧
    (∀ kind, ∃ standing : List (Nat × StoredRule),
      (standing.Pairwise fun first second => first.1 < second.1) ∧
      (∀ place rule, (place, rule) ∈ standing ↔
        Stands history place rule ∧ rule.scanner = kind) ∧
      s.rules kind = .ok (standing.map (current history)) ∧
      s.activeRules kind =
        .ok ⟨kind, (standing.map (current history)).filter StoredRule.isActive⟩) ∧
    (∀ upload, s.scanResults upload =
      (history.filterMap scanResult?).filter fun r => r.upload = upload) ∧
    (∀ version, s.queryResults version =
      (history.filterMap queryResult?).filter fun r => r.version = version) ∧
    ∀ more, ∃ after, performAll more s = .ok after ∧
      (∀ upload, s.scanResults upload <+: after.scanResults upload) ∧
      ∀ version, s.queryResults version <+: after.queryResults version := by
  obtain ⟨standing, s, hs, h⟩ := Reflects.nil.performAll history
  refine ⟨s, hs, h.nodup_ids, fun kind => ?_, h.scanResults_eq, h.queryResults_eq, fun more => ?_⟩
  · have hrules := h.rules_eq kind
    refine ⟨_, h.ordered.filter _, fun place rule => ?_, hrules, h.activeRules_eq kind hrules⟩
    rw [List.mem_filter, h.mem_standing, decide_eq_true_iff, List.nil_append]
  · obtain ⟨_, after, hafter, hreflects⟩ := h.performAll more
    exact ⟨after, hafter, h.scanResults_prefix hreflects, h.queryResults_prefix hreflects⟩

/-- A rule added again moves behind the others and is as it was added. -/
example : (performAll [.addRule ⟨1, "a", .yara, none, true⟩, .addRule ⟨2, "b", .yara, none, true⟩,
      .setRuleActive 1 false, .addRule ⟨1, "c", .yara, none, true⟩] {}).toOption.map
      Store.ruleRows =
    some [⟨2, "b", .yara, none, true⟩, ⟨1, "c", .yara, none, true⟩] := by
  decide

end Store

end PackageScan
