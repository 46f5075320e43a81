import PackageScan.Json.Record
import PackageScan.Uuid

/-!
# What is scanned

An upload waits to be admitted; a version has been published. A scan of an upload is given what
validation has found out about it, of which only one field matters here: whether the package is
an extension (`Json.isExtension?`).
-/

namespace PackageScan

/-- A package that waits to be admitted. -/
structure Upload where
  /-- Identifies the upload. -/
  id : Nat
  /-- Where the package is. -/
  path : String
  /-- Is the package an extension? -/
  isExtension : Bool
  /-- Names the upload in download addresses. -/
  uuid : Uuid
  deriving DecidableEq, Repr

namespace Upload

/-- The upload as JSON. -/
def toJson (u : Upload) : Json :=
  Json.obj
    [("id", .nat u.id), ("path", .str u.path), ("is_webextension", .bool u.isExtension),
      ("uuid", .str u.uuid.render)]

/-- A text without the slashes at its end. -/
def trimSlashes (site : String) : String :=
  String.ofList (site.toList.reverse.dropWhile fun c => c == '/').reverse

/-- The address at which a remote scanner finds the package. -/
def downloadUrl (u : Upload) (site : String) : String :=
  trimSlashes site ++ "/uploads/file/" ++ u.uuid.renderSimple

end Upload

/-- A package that has been published. -/
structure Version where
  /-- Identifies the version. -/
  id : Nat
  /-- The add-on it is a version of. -/
  addon : Nat
  /-- Where the package is. -/
  path : String
  deriving DecidableEq, Repr

/-- The version as JSON. -/
def Version.toJson (v : Version) : Json :=
  Json.obj [("id", .nat v.id), ("addon_id", .nat v.addon), ("file_path", .str v.path)]

/-- What validation has found out about whether the package is an extension. -/
def Json.isExtension? (payload : Json) : Option Bool := do
  (← (← payload.get? "metadata").get? "is_webextension").asBool?

end PackageScan
