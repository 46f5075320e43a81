import PackageScan.Proofs.Json.Reading
import PackageScan.Proofs.Scan.Naming
import PackageScan.Proofs.Scan.Submitting

/-!
# What becomes of the answer of a remote scanner

A reply gives an answer if its status is one of success and its body is JSON that is no object with
a field for an error (`Reply.Gives`). A run that asks a remote scanner stores the answer as it is,
with the known rules that it lists; a reply that gives no answer makes the run fail with the whole
reply, and nothing is stored (`Submission.run_remote_ensures`).

What the rules of an answer are is a matter of its shape: they are the texts in a list under one key
of an object, and other values name no rules (`Payload.Lists`).
-/

namespace PackageScan

open Logged

/-! ### Answers -/

/-- The reply gives the value as its answer. -/
structure Reply.Gives (reply : Reply) (value : Json) : Prop where
  /-- The status is one of success. -/
  success : 200 ≤ reply.status ∧ reply.status < 300
  /-- The body writes the value. -/
  parse : Json.parse? reply.body = some value
  /-- The value is no object that reports an error. -/
  no_error : ∀ fields reported, value = .obj fields → ("error", reported) ∉ fields

namespace Reply

variable {reply : Reply} {value : Json}

private theorem reportsError_eq_false :
    reportsError value = false ↔
      ∀ fields reported, value = .obj fields → ("error", reported) ∉ fields := by
  rw [reportsError, Option.isSome_eq_false_iff, Option.isNone_iff_eq_none]
  cases value with
  | obj fields =>
    rw [show (Json.obj fields).get? errorKey = fields.lookup "error" from rfl,
      List.lookup_eq_none_iff]
    constructor
    · rintro h _ reported hfields hmem
      obtain rfl := Json.obj.inj hfields
      exact absurd (h _ hmem) (by simp)
    · rintro h ⟨key, reported⟩ hmem
      rw [bne_iff_ne]
      rintro rfl
      exact h fields reported rfl hmem
  | null | bool | int | real | str | arr => simp [Json.get?]

/-- **What an answer is.** A reply is answered by the value that it gives. -/
theorem answer_eq_ok : reply.answer = .ok value ↔ reply.Gives value := by
  have hsuccess : reply.isSuccess = true ↔ 200 ≤ reply.status ∧ reply.status < 300 := by
    rw [isSuccess, Bool.and_eq_true, decide_eq_true_iff, decide_eq_true_iff]
  rw [answer]
  cases hparse : Json.parse? reply.body with
  | none => exact iff_of_false (fun h => nomatch h) fun h => nomatch hparse.symm.trans h.parse
  | some parsed =>
    dsimp only
    split_ifs with hrefused
    · refine iff_of_false (fun h => nomatch h) fun h => ?_
      obtain rfl : parsed = value := Option.some.inj (hparse.symm.trans h.parse)
      rw [hsuccess.mpr h.success, reportsError_eq_false.mpr h.no_error] at hrefused
      exact nomatch hrefused
    · rw [Bool.not_eq_true, Bool.or_eq_false_iff, Bool.not_eq_false', reportsError_eq_false,
        hsuccess] at hrefused
      rw [Except.ok.injEq]
      constructor
      · rintro rfl
        exact ⟨hrefused.1, hparse, hrefused.2⟩
      · exact fun h => Option.some.inj (hparse.symm.trans h.parse)

/-- A reply that gives no answer is the reason for there being none. -/
private theorem answer_eq_error (h : ∀ value, ¬ reply.Gives value) :
    reply.answer = .error (.response reply) := by
  have hnot (value : Json) : reply.answer ≠ .ok value := fun hok => h value (answer_eq_ok.mp hok)
  rw [answer] at hnot ⊢
  cases hparse : Json.parse? reply.body with
  | none => rfl
  | some parsed =>
    rw [hparse] at hnot
    dsimp only at hnot ⊢
    split_ifs at hnot ⊢ with hrefused
    · rfl
    · exact absurd rfl (hnot parsed)

end Reply

/-! ### Rules that an answer lists -/

/-- The value is an object with a list of rules in which the name occurs. -/
def Payload.Lists (value : Json) (name : String) : Prop :=
  ∃ fields items, value = .obj fields ∧
    Dictionary.find? fields "matchedRules" = some (.arr items) ∧ Json.str name ∈ items

namespace Payload

variable {value : Json} {name : String} {kind : ScannerKind}

private theorem mem_listedRules : name ∈ listedRules value ↔ Lists value name := by
  rw [listedRules, Lists]
  cases value with
  | obj fields =>
    rw [show (Json.obj fields).get? rulesKey = Dictionary.find? fields "matchedRules" from rfl]
    cases hrules : Dictionary.find? fields "matchedRules" with
    | none => simp [hrules]
    | some rules => cases rules <;> simp [hrules, List.mem_filterMap, Json.asStr?_eq_some]
  | null | bool | int | real | str | arr => simp [Json.get?]

/-- Only one kind of remote scanner names rules. -/
private theorem mem_ruleNames_remote :
    name ∈ (remote value).ruleNames kind ↔ kind = .customs ∧ Lists value name := by
  rw [ruleNames]
  split_ifs with hkind
  · rw [NameSet.mem_ofList, mem_listedRules, and_iff_right hkind]
  · exact iff_of_false List.not_mem_nil fun h => hkind h.1

end Payload

namespace ScanResult

variable {stamp : Stamp} {upload : Nat} {kind : ScannerKind} {payload : Payload}
variable {known : List StoredRule}

/-- There are matches when the payload names a rule, known or not. -/
private theorem hasMatches_create : (create stamp upload kind payload known).hasMatches = true ↔
    ∃ name, name ∈ payload.ruleNames kind := by
  rw [hasMatches, Bool.not_eq_true', List.isEmpty_eq_false_iff, ruleNames]
  constructor
  · exact List.exists_mem_of_ne_nil _
  · rintro ⟨name, hname⟩
    exact List.ne_nil_of_mem hname

/-- The rules that are listed for an answer of a remote scanner. -/
private theorem mem_resolve_remote {id : Nat} {value : Json} {store : Store} :
    id ∈ resolve kind (.remote value) (store.rulesOf kind) ↔
      kind = .customs ∧ ∃ row ∈ store.ruleRows,
        row.scanner = kind ∧ Payload.Lists value row.name ∧ row.id = id := by
  rw [mem_resolve]
  constructor
  · rintro ⟨row, hrow, hscanner, hname, hid⟩
    obtain ⟨hkind, hlists⟩ := Payload.mem_ruleNames_remote.mp hname
    exact ⟨hkind, row, List.mem_of_mem_filter hrow, hscanner, hlists, hid⟩
  · rintro ⟨hkind, row, hrow, hscanner, hlists, hid⟩
    have hof : row ∈ store.rulesOf kind := List.mem_filter.mpr ⟨hrow, decide_eq_true hscanner⟩
    exact ⟨row, hof, hscanner, Payload.mem_ruleNames_remote.mpr ⟨hkind, hlists⟩, hid⟩

end ScanResult

/-! ### Runs -/

/-- A configured remote scanner answers with what the reply is answered by. -/
private theorem Engine.remote_yields {kind : ScannerKind} {endpoint : Endpoint} {site : String}
    {network : Network} {upload : Upload} {snapshot : Snapshot} {reply : Reply}
    (hconfigured : endpoint.isConfigured = true)
    (hreply : network endpoint.apiUrl ⟨endpoint.apiKey, upload.downloadUrl site⟩ = .ok reply) :
    Yields ((Engine.remote kind endpoint site network).run upload snapshot)
      ((reply.answer.mapError .remote).map .remote) := by
  have hask : Yields (ask network endpoint.apiUrl ⟨endpoint.apiKey, upload.downloadUrl site⟩)
      reply.answer := by
    rw [ask, hreply]
    exact .after (yields_pure _)
  rw [Engine.remote]
  dsimp only
  rw [if_pos hconfigured]
  exact .after (.bind hask (yields_pure _))

namespace Submission

variable {kind : ScannerKind} {files : Files} {stamp : Stamp} {validation : Json} {id : Nat}
variable {store : Store} {upload : Upload}

/-- The upload passes the gate: validation says that it is an extension, or says nothing and the
upload says so itself. -/
def Admits (validation : Json) (upload : Upload) : Prop :=
  validation.isExtension? = some true ∨
    validation.isExtension? = none ∧ upload.isExtension = true

/-- An upload that passes the gate and has a package is scanned. -/
private theorem opening_eq_ask (houtages : store.outages = [])
    (hupload : store.upload id = .ok upload)
    (hadmits : Admits validation upload) (hfile : files.has upload.path = true) :
    opening kind files validation id store = .ask upload (store.snapshot kind) := by
  have hrules : store.activeRules kind = .ok (store.snapshot kind) :=
    Store.guarded_eq_self houtages
  have hbehind : behindGate kind files upload store = .ask upload (store.snapshot kind) := by
    rw [behindGate, if_pos hfile, hrules]
  rw [opening, hupload, ← hbehind]
  rcases hadmits with hgate | ⟨hgate, hflag⟩
  · simp [hgate]
  · simp [hgate, hflag]

/-- A store that refuses nothing takes the result of a payload. -/
private theorem conclude_ok (houtages : store.outages = []) (payload : Payload) :
    conclude stamp kind id store (.ok payload) =
      .ok (.create stamp id kind payload (store.rulesOf kind),
        store.createScanResult (.create stamp id kind payload (store.rulesOf kind))) := by
  have hrules : store.rules kind = .ok (store.rulesOf kind) := Store.guarded_eq_self houtages
  have hstored (result : ScanResult) :
      store.storeScanResult result = .ok (store.createScanResult result) :=
    Store.guarded_eq_self houtages
  rw [conclude, Outcome.ok_bind, hrules, Outcome.mapError_ok, Outcome.ok_bind]
  dsimp only
  rw [hstored, Outcome.mapError_ok, Outcome.ok_bind]
  rfl

section Remote

variable {desk after : Desk} {endpoint : Endpoint} {site : String} {network : Network}
variable {reply : Reply} {outcome : ScanOutcome}

/-- A run that takes an upload to a remote scanner comes to what the reply is answered by. -/
private theorem Ends.of_remote
    (h : Ends (Engine.remote kind endpoint site network) files stamp validation id desk outcome
      after)
    (hconfigured : endpoint.isConfigured = true) (houtages : desk.store.outages = [])
    (hupload : desk.store.upload id = .ok upload) (hadmits : Admits validation upload)
    (hfile : files.has upload.path = true)
    (hreply : network endpoint.apiUrl ⟨endpoint.apiKey, upload.downloadUrl site⟩ = .ok reply) :
    match reply.answer with
    | .error e => outcome = .failed (.remote e) ∧ after.store = desk.store
    | .ok value =>
      let result := .create stamp id kind (.remote value) (desk.store.rulesOf kind)
      outcome = .stored result ∧ after.store = desk.store.createScanResult result := by
  have hask :
      opening kind files validation id desk.store = .ask upload (desk.store.snapshot kind) :=
    opening_eq_ask houtages hupload hadmits hfile
  have hanswer {asked : Upload} {snapshot : Snapshot} {answer : Except ScanError Payload}
      (hopening : opening kind files validation id desk.store = .ask asked snapshot)
      (hasked : Answers ((Engine.remote kind endpoint site network).run asked snapshot) answer) :
      answer = (reply.answer.mapError .remote).map .remote := by
    obtain ⟨rfl, -⟩ := Opening.ask.inj (hask.symm.trans hopening)
    obtain ⟨j, rfl⟩ := hasked
    exact Engine.remote_yields hconfigured hreply j
  cases h with
  | skipped hopening | stopped hopening => exact nomatch hask.symm.trans hopening
  | failed hopening hasked hend =>
    rw [hanswer hopening hasked] at hend
    cases hvalue : reply.answer with
    | error e =>
      rw [hvalue] at hend
      obtain rfl := Except.error.inj hend
      exact ⟨rfl, rfl⟩
    | ok value =>
      rw [hvalue] at hend
      exact nomatch (conclude_ok houtages _).symm.trans hend
  | stored hopening hasked hend =>
    rw [hanswer hopening hasked] at hend
    cases hvalue : reply.answer with
    | error e =>
      rw [hvalue] at hend
      exact nomatch hend
    | ok value =>
      rw [hvalue] at hend
      obtain ⟨rfl, rfl⟩ := Prod.mk.inj (Except.ok.inj ((conclude_ok houtages _).symm.trans hend))
      exact ⟨rfl, rfl⟩

/-- **What becomes of a reply.** An upload that passes the gate and has a package is taken to a
remote scanner that replies. The run ends with a result exactly if the reply gives an answer, and
the answer is then the payload; otherwise the run fails for good with the reply as it came, and the
store is left alone. A result is stored, and lists those known rules of the scanner that the answer
lists by name; it has matches if the answer lists any name. For this only the answers of one kind of
scanner count. -/
theorem run_remote_ensures (hconfigured : endpoint.isConfigured = true)
    (houtages : desk.store.outages = []) (hupload : desk.store.upload id = .ok upload)
    (hadmits : Admits validation upload) (hfile : files.has upload.path = true)
    (hreply : network endpoint.apiUrl ⟨endpoint.apiKey, upload.downloadUrl site⟩ = .ok reply) :
    Ensures (run (Engine.remote kind endpoint site network) files stamp validation id desk)
      fun reached =>
        (∀ value, reply.Gives value ↔
          ∃ result, reached.1 = .stored result ∧ result.payload = .remote value) ∧
        ((∀ value, ¬ reply.Gives value) →
          reached.1 = .failed (.remote (.response reply)) ∧
            (ScanError.remote (.response reply)).isTransient = false ∧
            reached.2.store = desk.store) ∧
        ∀ result, reached.1 = .stored result →
          reached.2.store = desk.store.createScanResult result ∧
          result.upload = id ∧ result.scanner = kind ∧
          ∃ value, result.payload = .remote value ∧
            result.matchedRules.Pairwise (· < ·) ∧
            (∀ rule, rule ∈ result.matchedRules ↔
              kind = .customs ∧ ∃ row ∈ desk.store.ruleRows,
                row.scanner = kind ∧ Payload.Lists value row.name ∧ row.id = rule) ∧
            (result.hasMatches = true ↔ kind = .customs ∧ ∃ name, Payload.Lists value name) := by
  refine (run_ensures _ files stamp validation id desk).mono fun ⟨outcome, after⟩ hends => ?_
  have hreached := hends.of_remote hconfigured houtages hupload hadmits hfile hreply
  dsimp only
  by_cases hgives : ∃ value, reply.Gives value
  · obtain ⟨value, hvalue⟩ := hgives
    rw [Reply.answer_eq_ok.mpr hvalue] at hreached
    obtain ⟨rfl, hstore⟩ := hreached
    refine ⟨fun other => ⟨fun hother => ?_, ?_⟩, fun hnone => absurd hvalue (hnone value), ?_⟩
    · obtain rfl : value = other := Option.some.inj (hvalue.parse.symm.trans hother.parse)
      exact ⟨_, rfl, rfl⟩
    · rintro ⟨_, ⟨⟩, hpayload⟩
      obtain rfl : value = other := Payload.remote.inj hpayload
      exact hvalue
    · rintro _ ⟨⟩
      refine ⟨hstore, rfl, rfl, value, rfl, IdSet.sorted_ofList, fun rule => ?_, ?_⟩
      · exact ScanResult.mem_resolve_remote
      · simp only [ScanResult.hasMatches_create, Payload.mem_ruleNames_remote, exists_and_left]
  · have hnone : ∀ value, ¬ reply.Gives value := not_exists.mp hgives
    rw [Reply.answer_eq_error hnone] at hreached
    obtain ⟨rfl, hstore⟩ := hreached
    refine ⟨fun value => iff_of_false (hnone value) ?_, fun _ => ⟨rfl, rfl, hstore⟩, ?_⟩
    · rintro ⟨_, ⟨⟩, -⟩
    · rintro _ ⟨⟩

end Remote

/-- A desk with a package in the store and two rules of a remote scanner. -/
def listed : Desk where
  store := ((Store.addUpload {} ⟨1, "a.xpi", true, .ofNat 0⟩).addRule
    ⟨7, "r", .customs, none, true⟩).addRule ⟨8, "s", .customs, none, true⟩

/-- A reply that lists a number and the name of the first of these rules. -/
def listing : Reply := ⟨200, "\x7b\"matchedRules\": [1, \"r\"]\x7d"⟩

/-- What the reply lists. -/
def listedValue : Json := .obj [("matchedRules", .arr [.int 1, .str "r"])]

/-- A remote scanner that always gives this reply. -/
def lister : Engine :=
  .remote .customs ⟨"https://scanner.example", "key"⟩ "https://site.example" fun _ _ => .ok listing

/-- The run ends with a result that lists the first rule and not the second. -/
theorem run_remote_ensures_listing : ∃ result,
    ((run lister (fun _ => some (.directory [])) {} .null 1 listed).run {}).1.1 =
      .stored result ∧ 7 ∈ result.matchedRules ∧ 8 ∉ result.matchedRules ∧
      result.hasMatches = true := by
  have hgives : listing.Gives listedValue := by
    refine ⟨by decide, rfl, ?_⟩
    rintro _ reported ⟨⟩
    simp
  have hlists (name : String) : Payload.Lists listedValue name ↔ name = "r" := by
    simp [← Payload.mem_listedRules, Payload.listedRules, Json.get?, Dictionary.find?,
      Payload.rulesKey, Json.asStr?, listedValue, eq_comm]
  have hrun : Ensures (run lister (fun _ => some (.directory [])) {} .null 1 listed) _ :=
    run_remote_ensures (by decide) rfl rfl (.inr ⟨rfl, rfl⟩) rfl rfl
  obtain ⟨hstored, -, hresult⟩ := hrun {}
  obtain ⟨result, hend, hpayload⟩ := (hstored listedValue).mp hgives
  obtain ⟨-, -, -, value, hvalue, -, hmem, hmatches⟩ := hresult result hend
  obtain rfl : listedValue = value := Payload.remote.inj (hpayload.symm.trans hvalue)
  refine ⟨result, hend, (hmem 7).mpr ⟨rfl, _, List.mem_cons_self, rfl, ?_, rfl⟩, ?_, ?_⟩
  · exact (hlists "r").mpr rfl
  · rw [hmem]
    rintro ⟨-, row, hrow, -, hname, hid⟩
    have hrows : row = ⟨7, "r", .customs, none, true⟩ ∨ row = ⟨8, "s", .customs, none, true⟩ := by
      simpa [listed, Store.addRule, Store.addUpload] using hrow
    rw [hlists] at hname
    obtain rfl | rfl := hrows
    · exact absurd hid (by decide)
    · exact absurd hname (by decide)
  · exact hmatches.mpr ⟨rfl, "r", (hlists "r").mpr rfl⟩

end Submission

end PackageScan
