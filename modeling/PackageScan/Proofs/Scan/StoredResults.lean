import PackageScan.Proofs.Json.Reading
import PackageScan.Proofs.Scan.Naming
import PackageScan.Proofs.Time.Timestamps
import PackageScan.Proofs.Uuid

/-!
# Stored results are read as they are written

A row does not say whether its payload is the answer of a remote scanner or a list of matches; the
kind of scanner beside it does. So any answer of a remote scanner is read back as it is, also one
that looks like a list of matches, and what is read for the local rule engine is a list of match
records (`Payload.IsMatchList`) or nothing at all.

A result is proper (`ScanResult.IsProper`) if its parts are what their types say: sets are in order,
identifiers have sixty-four bits, the time is one of the calendar. Whatever is read is proper, and
fits its scanner.
-/

namespace PackageScan

/-! ### Match records -/

/-- A match record: an object with the name of a rule, a list of tags and an object of texts, or the
list of the three. -/
inductive RuleMatch.IsRecord : Json → Prop
  | object {fields : List (String × Json)} {rule : String} {tags : List String}
      {texts : Dictionary String} :
      Dictionary.find? fields "rule" = some (.str rule) →
      Dictionary.find? fields "tags" = some (.strs tags) →
      Dictionary.find? fields "meta" = some (.ofTexts texts) → IsRecord (.obj fields)
  | list {rule : String} {tags : List String} {texts : Dictionary String} :
      IsRecord (.arr [.str rule, .strs tags, .ofTexts texts])

/-- A list of match records. -/
def Payload.IsMatchList (j : Json) : Prop :=
  ∃ items, j = .arr items ∧ ∀ item ∈ items, RuleMatch.IsRecord item

namespace RuleMatch

/-- A record is read from its three values. -/
private theorem ofJson?_eq_some {j : Json} {m : RuleMatch} :
    ofJson? j = some m ↔ ∃ tags, j.record? ["rule", "tags", "meta"] =
      some [.str m.rule, tags, .ofTexts m.metaData] ∧ tags.nameSet? = some m.tags := by
  rw [ofJson?]
  constructor
  · intro h
    obtain ⟨values, hvalues, h⟩ := Option.bind_eq_some_iff.mp h
    split at h
    · rename_i rule tags texts
      obtain ⟨s, hs, h⟩ := Option.bind_eq_some_iff.mp h
      obtain ⟨names, hnames, h⟩ := Option.bind_eq_some_iff.mp h
      obtain ⟨d, hd, h⟩ := Option.bind_eq_some_iff.mp h
      obtain rfl := Option.some.inj h
      rw [Json.asStr?_eq_some.mp hs, Json.textDictionary?_eq_some.mp hd] at hvalues
      exact ⟨tags, hvalues, hnames⟩
    · exact nomatch h
  · rintro ⟨tags, hvalues, htags⟩
    have htexts : (Json.ofTexts m.metaData).textDictionary? = some m.metaData :=
      Json.textDictionary?_eq_some.mpr rfl
    rw [hvalues]
    simp only [Option.bind_eq_bind, Option.bind_some, Json.asStr?, htags, htexts]

/-- A match is read back if its tags are in order. -/
private theorem ofJson?_toJson {m : RuleMatch} (h : m.tags.Pairwise (· < ·)) :
    ofJson? m.toJson = some m := by
  have hfields := @Json.record?_obj
    [("rule", .str m.rule), ("tags", .strs m.tags), ("meta", .ofTexts m.metaData)] (by simp)
  exact ofJson?_eq_some.mpr ⟨.strs m.tags, hfields, Json.nameSet?_strs h⟩

private theorem sorted_of_ofJson? {j : Json} {m : RuleMatch} (h : ofJson? j = some m) :
    m.tags.Pairwise (· < ·) := by
  obtain ⟨tags, -, htags⟩ := ofJson?_eq_some.mp h
  exact Json.sorted_of_nameSet? htags

/-- The three values of a match record. -/
private theorem isRecord_iff {j : Json} : IsRecord j ↔ ∃ rule tags texts,
    j.record? ["rule", "tags", "meta"] = some [.str rule, .strs tags, .ofTexts texts] := by
  constructor
  · intro h
    cases h with
    | @object fields rule tags texts hrule htags hmeta =>
      refine ⟨rule, tags, texts, ?_⟩
      rw [Json.record?, List.mapM_cons, List.mapM_cons, List.mapM_cons, hrule, htags, hmeta]
      rfl
    | @list rule tags texts => exact ⟨rule, tags, texts, rfl⟩
  · rintro ⟨rule, tags, texts, h⟩
    cases j with
    | obj fields =>
      have hvalues := Json.mapM_eq_some.mp h
      cases hvalues with
      | cons hrule hvalues =>
        cases hvalues with
        | cons htags hvalues =>
          cases hvalues with
          | cons hmeta _ => exact .object hrule htags hmeta
    | arr items =>
      obtain ⟨-, hitems⟩ := Option.ite_none_right_eq_some.mp h
      rw [Option.some.inj hitems]
      exact .list
    | _ => exact nomatch h

/-- A match can be read from just the match records. -/
private theorem isSome_ofJson? {j : Json} : (ofJson? j).isSome = true ↔ IsRecord j := by
  rw [Option.isSome_iff_exists, isRecord_iff]
  constructor
  · rintro ⟨m, h⟩
    obtain ⟨tags, hvalues, htags⟩ := ofJson?_eq_some.mp h
    obtain ⟨names, rfl⟩ := Json.isSome_nameSet?.mp (Option.isSome_of_eq_some htags)
    exact ⟨m.rule, names, m.metaData, hvalues⟩
  · rintro ⟨rule, tags, texts, h⟩
    obtain ⟨names, hnames⟩ :=
      Option.isSome_iff_exists.mp (Json.isSome_nameSet?.mpr ⟨tags, rfl⟩)
    exact ⟨⟨rule, names, texts⟩, ofJson?_eq_some.mpr ⟨.strs tags, h, hnames⟩⟩

end RuleMatch

/-! ### Payloads -/

namespace Payload

variable {kind : ScannerKind} {payload : Payload} {j : Json}

/-- The tags of each match are in order. -/
def IsProper (payload : Payload) : Prop :=
  ∀ records, payload = .found records → ∀ m ∈ records, m.tags.Pairwise (· < ·)

/-- A payload that fits its scanner is read back. -/
private theorem ofJson?_toJson (hfits : payload.fits kind = true) (h : payload.IsProper) :
    ofJson? kind payload.toJson = some payload := by
  rw [ofJson?]
  cases payload with
  | found records =>
    have hkind : ¬kind.isRemote = true := by
      rw [fits] at hfits
      simpa using hfits
    have hrecords : Json.list? RuleMatch.ofJson? (.arr (records.map RuleMatch.toJson)) =
        some records :=
      Json.list?_map fun m hm => RuleMatch.ofJson?_toJson (h records rfl m hm)
    rw [if_neg hkind, toJson, hrecords, Option.map_some]
  | remote answer => exact if_pos hfits

/-- What is read fits the scanner. -/
private theorem of_ofJson? (h : ofJson? kind j = some payload) :
    payload.fits kind = true ∧ payload.IsProper := by
  rw [ofJson?] at h
  split_ifs at h with hkind
  · obtain rfl := Option.some.inj h
    exact ⟨hkind, fun records hrecords => nomatch hrecords⟩
  · obtain ⟨found, hfound, rfl⟩ := Option.map_eq_some_iff.mp h
    refine ⟨by rw [fits, eq_false_of_ne_true hkind]; rfl, fun records hrecords m hm => ?_⟩
    obtain rfl := Payload.found.inj hrecords
    obtain ⟨item, hitem⟩ := Json.exists_of_list? hfound hm
    exact RuleMatch.sorted_of_ofJson? hitem

/-- For the local rule engine just the lists of match records can be read. -/
private theorem isSome_ofJson? (hkind : kind.isRemote = false) :
    (ofJson? kind j).isSome = true ↔ IsMatchList j := by
  rw [ofJson?, if_neg (by rw [hkind]; exact Bool.false_ne_true), Option.isSome_map,
    Json.isSome_list?]
  simp only [RuleMatch.isSome_ofJson?, IsMatchList]

end Payload

/-! ### Rows -/

private theorem ScannerKind.ofJson?_toJson (kind : ScannerKind) :
    ofJson? kind.toJson = some kind := by
  cases kind <;> rfl

namespace ScanResult

/-- The parts of a result are what their types say. -/
structure IsProper (r : ScanResult) : Prop where
  created : r.stamp.created.IsProper
  upload : r.upload < 2 ^ 64
  payload : r.payload.IsProper
  rules : r.matchedRules.Pairwise (· < ·)
  ruleIds : ∀ id ∈ r.matchedRules, id < 2 ^ 64

/-- The names of the fields of a row. -/
def fieldNames : List String :=
  ["id", "upload_id", "scanner", "results", "matched_rules", "created"]

/-- A row is read from its six values. -/
private theorem ofJson?_eq_some {j : Json} {r : ScanResult} :
    ofJson? j = some r ↔ ∃ id upload scanner results rules created,
      j.record? fieldNames = some [.str id, upload, scanner, results, rules, .str created] ∧
      Uuid.parse? id = some r.stamp.id ∧ upload.asNat64? = some r.upload ∧
      ScannerKind.ofJson? scanner = some r.scanner ∧
      (∃ ids, Json.list? Json.asNat64? rules = some ids ∧ IdSet.ofList ids = r.matchedRules) ∧
      Timestamp.parse? created = some r.stamp.created ∧
      Payload.ofJson? r.scanner results = some r.payload := by
  rw [ofJson?, ← fieldNames]
  constructor
  · intro h
    obtain ⟨values, hvalues, h⟩ := Option.bind_eq_some_iff.mp h
    split at h
    · obtain ⟨id, hid, h⟩ := Option.bind_eq_some_iff.mp h
      obtain ⟨uuid, huuid, h⟩ := Option.bind_eq_some_iff.mp h
      obtain ⟨upload, hupload, h⟩ := Option.bind_eq_some_iff.mp h
      obtain ⟨scanner, hscanner, h⟩ := Option.bind_eq_some_iff.mp h
      obtain ⟨ids, hids, h⟩ := Option.bind_eq_some_iff.mp h
      obtain ⟨created, hcreated, h⟩ := Option.bind_eq_some_iff.mp h
      obtain ⟨time, htime, h⟩ := Option.bind_eq_some_iff.mp h
      obtain ⟨payload, hpayload, h⟩ := Option.bind_eq_some_iff.mp h
      obtain rfl := Option.some.inj h
      rw [Json.asStr?_eq_some.mp hid, Json.asStr?_eq_some.mp hcreated] at hvalues
      exact ⟨id, _, _, _, _, created, hvalues, huuid, hupload, hscanner, ⟨ids, hids, rfl⟩, htime,
        hpayload⟩
    · exact nomatch h
  · rintro ⟨id, upload, scanner, results, rules, created, hvalues, hid, hupload, hscanner,
      ⟨ids, hids, hrules⟩, hcreated, hpayload⟩
    rw [hvalues]
    simp only [Option.bind_eq_bind, Option.bind_some, Json.asStr?, hid, hupload, hscanner, hids,
      hcreated, hpayload, hrules]

/-- A proper result that fits its scanner is read back. -/
private theorem ofJson?_toJson {r : ScanResult} (h : r.IsProper)
    (hfits : r.payload.fits r.scanner = true) :
    ofJson? r.toJson = some r := by
  have hfields := @Json.record?_obj
    [("id", .str r.stamp.id.render), ("upload_id", .nat r.upload), ("scanner", r.scanner.toJson),
      ("results", r.payload.toJson), ("matched_rules", .arr (r.matchedRules.map Json.nat)),
      ("created", .str r.stamp.created.render)] (by simp)
  have hids : Json.list? Json.asNat64? (.arr (r.matchedRules.map Json.nat)) = some r.matchedRules :=
    Json.list?_map fun id hid => Json.asNat64?_nat (h.ruleIds id hid)
  exact ofJson?_eq_some.mpr ⟨_, _, _, _, _, _, hfields, r.stamp.id.parse?_render,
    Json.asNat64?_nat h.upload, ScannerKind.ofJson?_toJson r.scanner,
    ⟨r.matchedRules, hids, IdSet.ofList_eq_self h.rules⟩, Timestamp.parse?_render h.created,
    Payload.ofJson?_toJson hfits h.payload⟩

/-- What is read is proper and fits its scanner. -/
private theorem of_ofJson? {j : Json} {r : ScanResult} (h : ofJson? j = some r) :
    r.IsProper ∧ r.payload.fits r.scanner = true := by
  obtain ⟨id, upload, scanner, results, rules, created, -, -, hupload, -, ⟨ids, hids, hrules⟩,
    hcreated, hpayload⟩ := ofJson?_eq_some.mp h
  obtain ⟨hfits, hproper⟩ := Payload.of_ofJson? hpayload
  refine ⟨⟨Timestamp.isProper_of_parse? hcreated, Json.lt_of_asNat64? hupload, hproper, ?_, ?_⟩,
    hfits⟩
  · rw [← hrules]
    exact IdSet.sorted_ofList
  · intro id hid
    rw [← hrules, IdSet.mem_ofList] at hid
    obtain ⟨item, hitem⟩ := Json.exists_of_list? hids hid
    exact Json.lt_of_asNat64? hitem

/-- **Stored results are read as they are written.** A proper result that fits its scanner is read
back from what is written for it. Whatever is read is proper and fits its scanner, and is read back
again. A row of the local rule engine whose payload is no list of match records cannot be read. -/
theorem reading_toJson :
    (∀ r : ScanResult, r.IsProper → r.payload.fits r.scanner = true →
      ofJson? r.toJson = some r) ∧
    (∀ j r, ofJson? j = some r →
      r.IsProper ∧ r.payload.fits r.scanner = true ∧ ofJson? r.toJson = some r) ∧
    (∀ (j id upload scanner results rules created : Json),
      j.record? fieldNames = some [id, upload, scanner, results, rules, created] →
      ScannerKind.ofJson? scanner = some .yara → ¬Payload.IsMatchList results →
      ofJson? j = none) := by
  refine ⟨fun r h hfits => ofJson?_toJson h hfits, fun j r h => ?_, ?_⟩
  · obtain ⟨hproper, hfits⟩ := of_ofJson? h
    exact ⟨hproper, hfits, ofJson?_toJson hproper hfits⟩
  · intro j id upload scanner results rules created hvalues hscanner hresults
    refine Option.eq_none_iff_forall_ne_some.mpr fun r h => hresults ?_
    -- what has been read has six values, which are those of the row
    obtain ⟨_, _, scanner', results', _, _, hvalues', -, -, hscanner', -, -, hpayload⟩ :=
      ofJson?_eq_some.mp h
    obtain ⟨-, -, rfl, rfl, -⟩ : _ ∧ _ ∧ scanner = scanner' ∧ results = results' ∧ _ := by
      simpa using hvalues.symm.trans hvalues'
    have hkind : r.scanner = .yara := Option.some.inj (hscanner'.symm.trans hscanner)
    rw [hkind] at hpayload
    exact (Payload.isSome_ofJson? rfl).mp (Option.isSome_of_eq_some hpayload)

/-- The answer of a remote scanner that looks like a list of matches. -/
def lookalike : ScanResult where
  stamp := {}
  upload := 7
  scanner := .customs
  payload := .remote (.arr [.obj [("meta", .obj []), ("rule", .str "a"), ("tags", .arr [])]])
  matchedRules := [1, 2]

/-- The same row of the local rule engine, with a payload that is no list at all. -/
def misfit : ScanResult := { lookalike with scanner := .yara, payload := .remote (.str "a") }

/-- An answer that looks like a list of matches is read back as the answer that it is; what is
written for a payload that does not fit is not read. -/
theorem reading_toJson_lookalike :
    (lookalike.IsProper ∧ lookalike.payload.fits lookalike.scanner = true ∧
      ofJson? lookalike.toJson = some lookalike) ∧
    ¬Payload.IsMatchList misfit.payload.toJson ∧ ofJson? misfit.toJson = none := by
  obtain ⟨hback, -, hrejected⟩ := reading_toJson
  have hproper : lookalike.IsProper := {
    created := ⟨by decide, by decide, by decide, by decide, by decide⟩
    upload := by decide
    payload := fun records hrecords => nomatch hrecords
    rules := by decide
    ruleIds := by decide }
  have hlist : ¬Payload.IsMatchList misfit.payload.toJson := by
    rintro ⟨items, hitems, -⟩
    cases hitems
  refine ⟨⟨hproper, rfl, hback lookalike hproper rfl⟩, hlist, ?_⟩
  exact hrejected misfit.toJson _ _ _ _ _ _ rfl rfl hlist

end ScanResult

end PackageScan
