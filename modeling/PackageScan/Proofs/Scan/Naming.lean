import PackageScan.Proofs.Ordered
import PackageScan.Scan.Result

/-!
# The rules that a payload names

A result lists the known rules that its payload names. The list is a set: it holds each rule once,
in order, and holds those known rules of the scanner whose names the payload has. In particular a
result that lists a rule has matches.
-/

namespace PackageScan

namespace IdSet

variable {id : Nat} {ids : List Nat}

theorem insertsInOrder : InsertsInOrder IdSet.insert where
  nil _ := rfl
  cons _ _ _ := rfl

/-- **A set holds the identifiers of the list.** -/
theorem mem_ofList : id ∈ ofList ids ↔ id ∈ ids := by
  rw [ofList, insertsInOrder.mem_foldl, or_iff_right List.not_mem_nil]

theorem sorted_ofList : (ofList ids).Pairwise (· < ·) :=
  insertsInOrder.sorted_foldl List.Pairwise.nil

theorem ofList_eq_self (h : ids.Pairwise (· < ·)) : ofList ids = ids :=
  insertsInOrder.foldl_eq_self h

end IdSet

namespace ScanResult

variable {stamp : Stamp} {upload id : Nat} {kind : ScannerKind} {payload : Payload}
variable {known : List StoredRule}

/-- A rule is listed when it is known, belongs to the scanner and has a name that the payload
gives. -/
theorem mem_resolve : id ∈ resolve kind payload known ↔
    ∃ rule ∈ known, rule.scanner = kind ∧ rule.name ∈ payload.ruleNames kind ∧ rule.id = id := by
  rw [resolve]
  rw [IdSet.mem_ofList, List.mem_map]
  simp only [List.mem_filter, Bool.and_eq_true, decide_eq_true_eq, List.contains_iff_mem,
    and_assoc]

theorem nodup_matchedRules : (create stamp upload kind payload known).matchedRules.Nodup := by
  have hsorted : (create stamp upload kind payload known).matchedRules.Pairwise (· < ·) :=
    IdSet.sorted_ofList
  exact hsorted.imp ne_of_lt

/-- A result that lists a rule has matches. -/
theorem hasMatches_of_mem (h : id ∈ (create stamp upload kind payload known).matchedRules) :
    (create stamp upload kind payload known).hasMatches = true := by
  obtain ⟨rule, -, -, hname, -⟩ := mem_resolve.mp h
  rw [hasMatches, ruleNames, Bool.not_eq_true', List.isEmpty_eq_false_iff]
  exact List.ne_nil_of_mem hname

end ScanResult

end PackageScan
