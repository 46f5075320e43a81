import Mathlib.Data.List.Basic
import PackageScan.Settings.File

/-!
# Settings that a file leaves out

A settings file writes some of the single settings (`Settings.Leaf`), at the top of the document or
in one of its tables. Each record that is read asks the value for its fields one by one
(`Toml.record?_eq_some`), and a field that is written is read while one that is missing gets a
default (`Toml.Gives`). There are three defaults for a setting in a table: the settings below the
file if the table is missing as well, and if it is not, fixed bounds for packages and empty texts
for endpoints.

* **Settings of a file**: each one that is written has the value that is written, and each other one
  the value that the environment gives it, unless it belongs to an endpoint with a table in the
  file: then it is empty (`Settings.leaf_of_parse`).
* **An endpoint with half a table** loses what the environment says about the other half
  (`Settings.leaf_ne_halfWritten`).
-/

namespace PackageScan

/-! ### Fields of records -/

namespace Toml

/-- The value of one field of a record, given by its place in the record and its name. -/
def fieldAt? (index : Nat) (name : String) : Toml → Option Toml
  | table _ fields => fields.lookup name
  | array items => items[index]?
  | tables items => (items[index]?).map (table .header)
  | _ => none

/-- The value at a path of fields. -/
def valueAt? : List (Nat × String) → Toml → Option Toml
  | [], t => some t
  | (index, name) :: path, t => (t.fieldAt? index name).bind (valueAt? path)

/-- The field has the value that is written, or the default if none is. -/
def Gives {α : Type} (value? : Toml → Option α) (default : α) (written : Option Toml) (a : α) :
    Prop :=
  (∀ t, written = some t → value? t = some a) ∧ (written = none → a = default)

@[simp] theorem valueAt?_singleton (index : Nat) (name : String) (t : Toml) :
    t.valueAt? [(index, name)] = t.fieldAt? index name := by
  simp only [valueAt?, Option.bind_fun_some]

variable {names : List String} {values : List (Option Toml)} {t : Toml}

/-- A record is asked for its fields one by one. -/
theorem record?_eq_some (h : t.record? names = some values) :
    values = names.mapIdx fun index name => t.fieldAt? index name := by
  cases t with
  | table _ fields | time _ =>
    rw [← Option.some.inj h]
    exact List.ext_getElem (by simp) (by simp [fieldAt?])
  | array items | tables items => exact (Option.some.inj h).symm
  | _ => exact nomatch h

private theorem gives_of_orElse {α : Type} {value? : Toml → Option α} {default a : α}
    {written : Option Toml} (h : orElse value? default written = some a) :
    Gives value? default written a := by
  cases written with
  | none => exact ⟨fun _ ht => (nomatch ht), fun _ => (Option.some.inj h).symm⟩
  | some t =>
    refine ⟨fun u hu => ?_, fun hnone => nomatch hnone⟩
    rw [← Option.some.inj hu]
    exact h

variable {α β : Type} {value? : Toml → Option α} {default a : α} {written : Option Toml}

/-- The value renamed. -/
theorem Gives.map (h : Gives value? default written a) (f : α → β) :
    Gives (fun t => (value? t).map f) (f default) written (f a) :=
  ⟨fun t ht => congrArg (Option.map f) (h.1 t ht), fun hnone => congrArg f (h.2 hnone)⟩

/-- A field of a record that is itself a field: if the record is missing, so is the field, and it
has the value that it has in the default for the record. -/
theorem Gives.below {record? : Toml → Option β} {base b : β} {doc : Toml}
    {index index' : Nat} {name name' : String}
    (h : Gives record? base (doc.fieldAt? index name) b) (project : β → α)
    (hfield : ∀ t, record? t = some b →
      Gives value? default (t.fieldAt? index' name') (project b)) :
    Gives value? (if (doc.fieldAt? index name).isSome then default else project base)
      (doc.valueAt? [(index, name), (index', name')]) (project b) := by
  rw [valueAt?]
  cases hrecord : doc.fieldAt? index name with
  | none => exact ⟨fun _ ht => (nomatch ht), fun _ => congrArg project (h.2 hrecord)⟩
  | some t =>
    rw [Option.bind_some, valueAt?_singleton]
    exact hfield t (h.1 t hrecord)

end Toml

open Toml (Gives)

private theorem Endpoint.gives_of_ofToml? {t : Toml} {e : Endpoint} (h : ofToml? t = some e) :
    Gives Toml.asText? "" (t.fieldAt? 0 "api_url") e.apiUrl ∧
      Gives Toml.asText? "" (t.fieldAt? 1 "api_key") e.apiKey := by
  obtain ⟨values, hvalues, h⟩ := Option.bind_eq_some_iff.mp h
  obtain rfl := Toml.record?_eq_some hvalues
  obtain ⟨url, hurl, h⟩ := Option.bind_eq_some_iff.mp h
  obtain ⟨key, hkey, h⟩ := Option.bind_eq_some_iff.mp h
  cases h
  exact ⟨Toml.gives_of_orElse hurl, Toml.gives_of_orElse hkey⟩

private theorem ArchiveLimits.gives_of_ofToml? {t : Toml} {l : ArchiveLimits}
    (h : ofToml? t = some l) :
    Gives Toml.asNat? ({} : ArchiveLimits).maxEntries (t.fieldAt? 0 "max_entries") l.maxEntries ∧
      Gives Toml.asNat? ({} : ArchiveLimits).maxEntrySize (t.fieldAt? 1 "max_entry_size")
        l.maxEntrySize ∧
      Gives Toml.asNat? ({} : ArchiveLimits).maxTotalSize (t.fieldAt? 2 "max_total_size")
        l.maxTotalSize := by
  obtain ⟨values, hvalues, h⟩ := Option.bind_eq_some_iff.mp h
  obtain rfl := Toml.record?_eq_some hvalues
  obtain ⟨entries, hentries, h⟩ := Option.bind_eq_some_iff.mp h
  obtain ⟨entry, hentry, h⟩ := Option.bind_eq_some_iff.mp h
  obtain ⟨total, htotal, h⟩ := Option.bind_eq_some_iff.mp h
  cases h
  exact ⟨Toml.gives_of_orElse hentries, Toml.gives_of_orElse hentry, Toml.gives_of_orElse htotal⟩

/-! ### Single settings -/

namespace Settings

/-- A single setting. -/
inductive Leaf where
  /-- Where the first remote scanner is. -/
  | customsUrl
  /-- The key of the first remote scanner. -/
  | customsKey
  /-- Where the second remote scanner is. -/
  | watUrl
  /-- The key of the second remote scanner. -/
  | watKey
  /-- Seconds that a remote scanner has for its answer. -/
  | timeout
  /-- Most entries of a package. -/
  | maxEntries
  /-- Most bytes of one entry. -/
  | maxEntrySize
  /-- Most bytes of all entries. -/
  | maxTotalSize
  /-- How the rules of a snapshot are compiled. -/
  | policy
  /-- Where remote scanners fetch packages. -/
  | siteUrl
  deriving DecidableEq, Repr

/-- The value of a single setting. -/
inductive Leaf.Value where
  /-- A text. -/
  | text (s : String)
  /-- A number. -/
  | number (n : Nat)
  /-- A way to compile rules. -/
  | policy (p : CompilationPolicy)
  deriving DecidableEq, Repr

namespace Leaf

/-- Where a document writes the setting. -/
def path : Leaf → List (Nat × String)
  | customsUrl => [(0, "customs"), (0, "api_url")]
  | customsKey => [(0, "customs"), (1, "api_key")]
  | watUrl => [(1, "wat"), (0, "api_url")]
  | watKey => [(1, "wat"), (1, "api_key")]
  | timeout => [(2, "scanner_timeout_secs")]
  | maxEntries => [(3, "archive"), (0, "max_entries")]
  | maxEntrySize => [(3, "archive"), (1, "max_entry_size")]
  | maxTotalSize => [(3, "archive"), (2, "max_total_size")]
  | policy => [(4, "compilation_policy")]
  | siteUrl => [(5, "site_url")]

/-- The value that is written for the setting. -/
def read? : Leaf → Toml → Option Value
  | customsUrl, t | customsKey, t | watUrl, t | watKey, t | siteUrl, t => t.asText?.map .text
  | timeout, t | maxEntries, t | maxEntrySize, t | maxTotalSize, t => t.asNat?.map .number
  | policy, t => (t.choice? CompilationPolicy.ofName?).map .policy

/-- Does the setting belong to an endpoint? -/
def isOfEndpoint : Leaf → Bool
  | customsUrl | customsKey | watUrl | watKey => true
  | _ => false

end Leaf

/-- The value of a single setting. -/
def leaf (s : Settings) : Leaf → Leaf.Value
  | .customsUrl => .text s.customs.apiUrl
  | .customsKey => .text s.customs.apiKey
  | .watUrl => .text s.wat.apiUrl
  | .watKey => .text s.wat.apiKey
  | .timeout => .number s.timeoutSecs
  | .maxEntries => .number s.archive.maxEntries
  | .maxEntrySize => .number s.archive.maxEntrySize
  | .maxTotalSize => .number s.archive.maxTotalSize
  | .policy => .policy s.policy
  | .siteUrl => .text s.siteUrl

/-- Has the endpoint that the setting belongs to a table in the document? -/
def Leaf.hasEndpointTable (l : Leaf) (doc : Toml) : Prop :=
  l.isOfEndpoint = true ∧ (doc.valueAt? l.path.dropLast).isSome = true

instance (l : Leaf) (doc : Toml) : Decidable (l.hasEndpointTable doc) :=
  inferInstanceAs (Decidable (_ ∧ _))

/-- The value of a setting that a document does not write: endpoints with a table in the document
start from nothing, and all else from the settings below the document. -/
def leafWithout (base : Settings) (doc : Toml) (l : Leaf) : Leaf.Value :=
  if l.hasEndpointTable doc then .text "" else base.leaf l

variable {base s : Settings} {doc : Toml}

/-- The settings that a document writes over others, record by record. -/
private theorem gives_of_ofToml? (h : ofToml? base doc = some s) :
    Gives Endpoint.ofToml? base.customs (doc.fieldAt? 0 "customs") s.customs ∧
      Gives Endpoint.ofToml? base.wat (doc.fieldAt? 1 "wat") s.wat ∧
      Gives Toml.asNat? base.timeoutSecs (doc.fieldAt? 2 "scanner_timeout_secs") s.timeoutSecs ∧
      Gives ArchiveLimits.ofToml? base.archive (doc.fieldAt? 3 "archive") s.archive ∧
      Gives (Toml.choice? CompilationPolicy.ofName?) base.policy
        (doc.fieldAt? 4 "compilation_policy") s.policy ∧
      Gives Toml.asText? base.siteUrl (doc.fieldAt? 5 "site_url") s.siteUrl := by
  obtain ⟨values, hvalues, h⟩ := Option.bind_eq_some_iff.mp h
  obtain rfl := Toml.record?_eq_some hvalues
  obtain ⟨customs, hcustoms, h⟩ := Option.bind_eq_some_iff.mp h
  obtain ⟨wat, hwat, h⟩ := Option.bind_eq_some_iff.mp h
  obtain ⟨timeout, htimeout, h⟩ := Option.bind_eq_some_iff.mp h
  obtain ⟨archive, harchive, h⟩ := Option.bind_eq_some_iff.mp h
  obtain ⟨policy, hpolicy, h⟩ := Option.bind_eq_some_iff.mp h
  obtain ⟨site, hsite, h⟩ := Option.bind_eq_some_iff.mp h
  cases h
  exact ⟨Toml.gives_of_orElse hcustoms, Toml.gives_of_orElse hwat, Toml.gives_of_orElse htimeout,
    Toml.gives_of_orElse harchive, Toml.gives_of_orElse hpolicy, Toml.gives_of_orElse hsite⟩

private theorem leafWithout_of_not_isOfEndpoint {l : Leaf} (h : l.isOfEndpoint = false) :
    leafWithout base doc l = base.leaf l :=
  if_neg fun htable => Bool.false_ne_true (h.symm.trans htable.1)

private theorem leafWithout_of_isOfEndpoint {l : Leaf} {index : Nat} {name : String}
    (h : l.isOfEndpoint = true) (hpath : l.path.dropLast = [(index, name)]) :
    leafWithout base doc l =
      if (doc.fieldAt? index name).isSome then .text "" else base.leaf l := by
  simp only [leafWithout, Leaf.hasEndpointTable, h, hpath, Toml.valueAt?_singleton, true_and]

/-- The settings of an endpoint: those that its table leaves out are empty. -/
private theorem gives_of_endpoint {base e : Endpoint} {index : Nat} {name : String}
    (h : Gives Endpoint.ofToml? base (doc.fieldAt? index name) e) :
    Gives (fun t => t.asText?.map Leaf.Value.text)
        (if (doc.fieldAt? index name).isSome then .text "" else .text base.apiUrl)
        (doc.valueAt? [(index, name), (0, "api_url")]) (.text e.apiUrl) ∧
      Gives (fun t => t.asText?.map Leaf.Value.text)
        (if (doc.fieldAt? index name).isSome then .text "" else .text base.apiKey)
        (doc.valueAt? [(index, name), (1, "api_key")]) (.text e.apiKey) := by
  have hurl := h.below Endpoint.apiUrl fun t ht => (Endpoint.gives_of_ofToml? ht).1
  have hkey := h.below Endpoint.apiKey fun t ht => (Endpoint.gives_of_ofToml? ht).2
  rw [← apply_ite Leaf.Value.text, ← apply_ite Leaf.Value.text]
  exact ⟨hurl.map Leaf.Value.text, hkey.map Leaf.Value.text⟩

/-- The bounds on packages: the default for those that the table leaves out is also the one for a
table that is missing. -/
private theorem gives_of_archive {l : ArchiveLimits}
    (h : Gives ArchiveLimits.ofToml? {} (doc.fieldAt? 3 "archive") l) :
    Gives Toml.asNat? ({} : ArchiveLimits).maxEntries
        (doc.valueAt? [(3, "archive"), (0, "max_entries")]) l.maxEntries ∧
      Gives Toml.asNat? ({} : ArchiveLimits).maxEntrySize
        (doc.valueAt? [(3, "archive"), (1, "max_entry_size")]) l.maxEntrySize ∧
      Gives Toml.asNat? ({} : ArchiveLimits).maxTotalSize
        (doc.valueAt? [(3, "archive"), (2, "max_total_size")]) l.maxTotalSize := by
  have hentries := h.below ArchiveLimits.maxEntries
    fun t ht => (ArchiveLimits.gives_of_ofToml? ht).1
  have hentry := h.below ArchiveLimits.maxEntrySize
    fun t ht => (ArchiveLimits.gives_of_ofToml? ht).2.1
  have htotal := h.below ArchiveLimits.maxTotalSize
    fun t ht => (ArchiveLimits.gives_of_ofToml? ht).2.2
  rw [ite_self] at hentries hentry htotal
  exact ⟨hentries, hentry, htotal⟩

/-- **One setting.** A setting that a document writes has the value that is written, and another one
the value that it has without. -/
theorem gives_leaf (h : ofToml? base doc = some s) (hbase : base.archive = {}) (l : Leaf) :
    Gives l.read? (leafWithout base doc l) (doc.valueAt? l.path) (s.leaf l) := by
  obtain ⟨hcustoms, hwat, htimeout, harchive, hpolicy, hsite⟩ := gives_of_ofToml? h
  cases l with
  | customsUrl =>
    rw [leafWithout_of_isOfEndpoint rfl rfl]
    exact (gives_of_endpoint hcustoms).1
  | customsKey =>
    rw [leafWithout_of_isOfEndpoint rfl rfl]
    exact (gives_of_endpoint hcustoms).2
  | watUrl =>
    rw [leafWithout_of_isOfEndpoint rfl rfl]
    exact (gives_of_endpoint hwat).1
  | watKey =>
    rw [leafWithout_of_isOfEndpoint rfl rfl]
    exact (gives_of_endpoint hwat).2
  | maxEntries =>
    rw [leafWithout_of_not_isOfEndpoint rfl, leaf, hbase]
    exact (gives_of_archive (hbase ▸ harchive)).1.map Leaf.Value.number
  | maxEntrySize =>
    rw [leafWithout_of_not_isOfEndpoint rfl, leaf, hbase]
    exact (gives_of_archive (hbase ▸ harchive)).2.1.map Leaf.Value.number
  | maxTotalSize =>
    rw [leafWithout_of_not_isOfEndpoint rfl, leaf, hbase]
    exact (gives_of_archive (hbase ▸ harchive)).2.2.map Leaf.Value.number
  | timeout =>
    rw [leafWithout_of_not_isOfEndpoint rfl, Leaf.path, Toml.valueAt?_singleton]
    exact htimeout.map Leaf.Value.number
  | policy =>
    rw [leafWithout_of_not_isOfEndpoint rfl, Leaf.path, Toml.valueAt?_singleton]
    exact hpolicy.map Leaf.Value.policy
  | siteUrl =>
    rw [leafWithout_of_not_isOfEndpoint rfl, Leaf.path, Toml.valueAt?_singleton]
    exact hsite.map Leaf.Value.text

/-- **Settings of a file.** Each setting that the document writes has the value that is written, and
each other one the value that the environment gives it, unless it belongs to an endpoint with a
table in the document: then it is empty. -/
theorem leaf_of_parse {env : Environment} {source : String}
    (h : parse (ofEnvironment env) source = .ok s) :
    ∃ doc, Toml.parse? source = some doc ∧ ∀ l : Leaf,
      (∀ t, doc.valueAt? l.path = some t → l.read? t = some (s.leaf l)) ∧
      (doc.valueAt? l.path = none →
        s.leaf l = if l.hasEndpointTable doc then .text "" else (ofEnvironment env).leaf l) := by
  rw [parse] at h
  split at h
  · rename_i settings hsettings
    cases h
    obtain ⟨doc, hdoc, hread⟩ := Option.bind_eq_some_iff.mp hsettings
    exact ⟨doc, hdoc, fun l => gives_leaf hread rfl l⟩
  · exact nomatch h

/-- An environment that says where the first remote scanner is and how many seconds it has. -/
def keyedEnvironment : Environment :=
  .ofList [("XSCAN_CUSTOMS_API_URL", "https://scan.example"), ("XSCAN_CUSTOMS_API_KEY", "secret"),
    ("XSCAN_SCANNER_TIMEOUT", "30")]

/-- A file that writes a setting at its top and one of a table. -/
def partialFile : String := "site_url = \"https://site.example\"\n[archive]\nmax_entries = 7\n"

/-- The settings of this file in this environment. -/
def partialSettings : Settings where
  customs := { apiUrl := "https://scan.example", apiKey := "secret" }
  timeoutSecs := 30
  archive := { maxEntries := 7 }
  siteUrl := "https://site.example"

/-- Where these settings come from. -/
theorem leaf_of_parse_partialFile :
    parse (ofEnvironment keyedEnvironment) partialFile = .ok partialSettings ∧
      ∃ doc, Toml.parse? partialFile = some doc ∧ ∀ l : Leaf,
        (∀ t, doc.valueAt? l.path = some t → l.read? t = some (partialSettings.leaf l)) ∧
        (doc.valueAt? l.path = none →
          partialSettings.leaf l =
            if l.hasEndpointTable doc then .text ""
            else (ofEnvironment keyedEnvironment).leaf l) := by
  have hparse : parse (ofEnvironment keyedEnvironment) partialFile = .ok partialSettings := by
    decide +kernel
  exact ⟨hparse, leaf_of_parse hparse⟩

/-- A file that says where the first remote scanner is, but not its key. -/
def halfWrittenFile : String := "[customs]\napi_url = \"https://scan.example\"\n"

/-- The settings of this file in the same environment. -/
def halfWrittenSettings : Settings where
  customs := { apiUrl := "https://scan.example" }
  timeoutSecs := 30

/-- **Half a table**: the key of the endpoint is not what the environment says, although the file
does not write it. -/
theorem leaf_ne_halfWritten :
    parse (ofEnvironment keyedEnvironment) halfWrittenFile = .ok halfWrittenSettings ∧
      ∃ doc, Toml.parse? halfWrittenFile = some doc ∧
        doc.valueAt? Leaf.customsKey.path = none ∧
        halfWrittenSettings.leaf .customsKey ≠
          (ofEnvironment keyedEnvironment).leaf .customsKey := by
  have hdoc : ((Toml.parse? halfWrittenFile).map fun doc =>
      (doc.valueAt? Leaf.customsKey.path).isNone) = some true := by decide +kernel
  obtain ⟨doc, hdoc, hnone⟩ := Option.map_eq_some_iff.mp hdoc
  refine ⟨by decide +kernel, doc, hdoc, Option.isNone_iff_eq_none.mp hnone, by decide +kernel⟩

end Settings

end PackageScan
