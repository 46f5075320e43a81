import PackageScan.Json.Parser
import PackageScan.Log.Code

/-!
# Asking remote scanners

A remote scanner is asked once and answers with a status and a body. The answer counts if the
status is one of success and the body is JSON that does not report an error; everything else is
an error that keeps the status and the body as they came (`Reply.answer`).
-/

namespace PackageScan

/-- What a remote scanner is asked. -/
structure Request where
  /-- Tells who is asking. -/
  apiKey : String
  /-- Where the package can be fetched. -/
  downloadUrl : String
  deriving DecidableEq, Repr

/-- The request as JSON. -/
def Request.toJson (r : Request) : Json :=
  Json.mkObj [("api_key", .str r.apiKey), ("download_url", .str r.downloadUrl)]

/-- What came back from a remote scanner. -/
structure Reply where
  /-- The status. -/
  status : Nat
  /-- The body. -/
  body : String
  deriving DecidableEq, Repr

/-- Why a remote scanner has no answer. -/
inductive RemoteError where
  /-- It could not be reached. -/
  | unavailable (reason : String)
  /-- It has not given an answer that counts. -/
  | response (reply : Reply)
  deriving DecidableEq, Repr

namespace RemoteError

/-- The error in words. -/
def message : RemoteError → String
  | unavailable reason => s!"scanner unavailable: {reason}"
  | response reply => s!"scanner returned an error response (status {reply.status}): {reply.body}"

/-- The code under which the error is logged. -/
def code : RemoteError → Code
  | unavailable _ => .scannerUnavailable
  | response _ => .scannerResponseError

end RemoteError

/-- Sends a request to an address; the reply, or why there is none. -/
abbrev Network := String → Request → Except String Reply

namespace Reply

/-- Is the status one of success? -/
def isSuccess (r : Reply) : Bool := 200 ≤ r.status && r.status < 300

/-- The key under which an answer reports an error. -/
def errorKey : String := "error"

/-- Is this an object that reports an error? -/
def reportsError (answer : Json) : Bool := (answer.get? errorKey).isSome

/-- The answer in a reply. -/
def answer (r : Reply) : Except RemoteError Json :=
  match Json.parse? r.body with
  | none => .error (.response r)
  | some answer =>
    if !r.isSuccess || reportsError answer then .error (.response r) else .ok answer

end Reply

end PackageScan
