/-!
# Event codes

Every error, warning and success that is logged carries a short code. The registry gives the
codes of errors and warnings a category, a severity, a description and whether the failure
leaves later work possible; a code outside the registry has the defaults of `Code.severity`,
`Code.category`, `Code.description` and `Code.isRecoverable`.
-/

namespace PackageScan

/-- The code of a log event. -/
structure Code where
  /-- The code as it is written. -/
  text : String
  deriving DecidableEq, Repr, Inhabited

/-- How grave an event is, the gravest first. -/
inductive Severity where
  | critical
  | high
  | medium
  | low
  deriving DecidableEq, Repr

namespace Severity

/-- The name of a severity. -/
def name : Severity → String
  | critical => "Critical"
  | high => "High"
  | medium => "Medium"
  | low => "Low"

/-- Position in the order of gravity, the gravest at zero. -/
def rank : Severity → Nat
  | critical => 0
  | high => 1
  | medium => 2
  | low => 3

end Severity

namespace Code

/-! ### Codes -/

/-- Something that should not happen. -/
def internalError : Code := ⟨"ERR001"⟩
/-- Settings that cannot be used. -/
def configurationError : Code := ⟨"ERR003"⟩

/-- A character that begins no token. -/
def invalidCharacter : Code := ⟨"E020"⟩
/-- A text literal without its end. -/
def unterminatedString : Code := ⟨"E021"⟩
/-- A malformed integer. -/
def invalidNumber : Code := ⟨"E022"⟩
/-- An identifier beyond the limit. -/
def identifierTooLong : Code := ⟨"E023"⟩
/-- A literal beyond the limit. -/
def stringTooLarge : Code := ⟨"E024"⟩
/-- A block comment without its end. -/
def unterminatedComment : Code := ⟨"E025"⟩
/-- A regular expression without its end. -/
def unterminatedRegex : Code := ⟨"E026"⟩
/-- An escape that stands for nothing. -/
def invalidEscape : Code := ⟨"E027"⟩
/-- A source beyond the limit. -/
def sourceTooLarge : Code := ⟨"E028"⟩
/-- A hex string without its end. -/
def unterminatedHexString : Code := ⟨"E029"⟩

/-- A token in a wrong place. -/
def unexpectedToken : Code := ⟨"E040"⟩
/-- A source that ends too early. -/
def unexpectedEndOfInput : Code := ⟨"E041"⟩
/-- A condition nested too deeply. -/
def maxRecursionDepth : Code := ⟨"E042"⟩
/-- Any other offence against the grammar. -/
def grammarViolation : Code := ⟨"E043"⟩

/-- Two rules of one name. -/
def duplicateRule : Code := ⟨"E060"⟩
/-- Two strings of one name. -/
def duplicateString : Code := ⟨"E061"⟩
/-- A string that is not declared. -/
def undefinedString : Code := ⟨"E062"⟩
/-- A rule that is not declared. -/
def undefinedRule : Code := ⟨"E063"⟩
/-- A string that is not used. -/
def unreferencedString : Code := ⟨"E064"⟩
/-- A malformed hex string. -/
def invalidHexString : Code := ⟨"E065"⟩
/-- A regular expression that cannot be built. -/
def invalidRegex : Code := ⟨"E066"⟩
/-- Too many rules or strings. -/
def limitExceeded : Code := ⟨"E067"⟩
/-- A rule without a condition. -/
def missingCondition : Code := ⟨"E068"⟩
/-- A modifier that the kind of string does not take. -/
def invalidModifier : Code := ⟨"E069"⟩
/-- An operand of the wrong type. -/
def typeMismatch : Code := ⟨"E070"⟩
/-- A string that would match everywhere. -/
def emptyString : Code := ⟨"E071"⟩

/-- No archive at the path. -/
def archiveNotFound : Code := ⟨"E100"⟩
/-- An archive that cannot be read as one. -/
def corruptArchive : Code := ⟨"E101"⟩
/-- An entry that cannot be read. -/
def entryReadFailure : Code := ⟨"E102"⟩
/-- An entry beyond the limit. -/
def entryTooLarge : Code := ⟨"E103"⟩
/-- An entry name that leads out of the archive. -/
def unsafeEntryPath : Code := ⟨"E104"⟩
/-- Content that is not text in UTF-8. -/
def decodeReplacement : Code := ⟨"W100"⟩

/-- Nothing to scan at the path, or no such upload. -/
def targetNotFound : Code := ⟨"E120"⟩
/-- A remote scanner that cannot be reached. -/
def scannerUnavailable : Code := ⟨"E121"⟩
/-- A remote scanner that answers with an error. -/
def scannerResponseError : Code := ⟨"E122"⟩
/-- Rules that do not compile. -/
def ruleCompilationFailed : Code := ⟨"E123"⟩
/-- A store that refuses. -/
def storeFailure : Code := ⟨"E124"⟩
/-- A follow-up action that fails. -/
def actionFailure : Code := ⟨"E125"⟩
/-- A rule left out of a set. -/
def ruleSkipped : Code := ⟨"W120"⟩

/-- A rule set is ready. -/
def compilationComplete : Code := ⟨"I060"⟩
/-- An archive has been scanned. -/
def archiveScanned : Code := ⟨"I100"⟩
/-- A scan result has been stored. -/
def scanResultStored : Code := ⟨"I120"⟩
/-- A scan was not needed. -/
def scanSkipped : Code := ⟨"I121"⟩
/-- The result of a rescan has been stored. -/
def queryResultStored : Code := ⟨"I130"⟩
/-- A follow-up action has been started. -/
def actionDispatched : Code := ⟨"I131"⟩

/-- A warning without a code of its own. -/
def plainWarning : Code := ⟨"W000"⟩
/-- An information without a code of its own. -/
def plainInfo : Code := ⟨"I000"⟩
/-- A debug event. -/
def plainDebug : Code := ⟨"D000"⟩

/-! ### Registry -/

/-- What the registry knows of a code. -/
structure Metadata where
  /-- The code. -/
  code : Code
  /-- The part of the program it belongs to. -/
  category : String
  /-- How grave it is. -/
  severity : Severity
  /-- Does later work remain possible? -/
  recoverable : Bool
  /-- What has happened, in words. -/
  description : String
  deriving DecidableEq, Repr

/-- The registered codes. -/
def registry : List Metadata :=
  [⟨internalError, "System", .critical, false, "Critical internal error"⟩,
    ⟨configurationError, "System", .high, false, "Invalid configuration"⟩,
    ⟨invalidCharacter, "Lexical", .high, false, "Invalid character in rule source"⟩,
    ⟨unterminatedString, "Lexical", .high, false, "Unterminated string literal"⟩,
    ⟨invalidNumber, "Lexical", .high, false, "Invalid number literal"⟩,
    ⟨identifierTooLong, "Lexical", .medium, false, "Identifier exceeds length limit"⟩,
    ⟨stringTooLarge, "Lexical", .medium, false, "String literal exceeds size limit"⟩,
    ⟨unterminatedComment, "Lexical", .high, false, "Unterminated block comment"⟩,
    ⟨unterminatedRegex, "Lexical", .high, false, "Unterminated regular expression"⟩,
    ⟨invalidEscape, "Lexical", .high, false, "Invalid escape sequence"⟩,
    ⟨sourceTooLarge, "Lexical", .medium, false, "Rule source exceeds size limit"⟩,
    ⟨unterminatedHexString, "Lexical", .high, false, "Unterminated hex string"⟩,
    ⟨unexpectedToken, "Syntax", .high, false, "Unexpected token"⟩,
    ⟨unexpectedEndOfInput, "Syntax", .high, false, "Unexpected end of rule source"⟩,
    ⟨maxRecursionDepth, "Syntax", .high, false, "Condition nesting too deep"⟩,
    ⟨grammarViolation, "Syntax", .high, false, "Grammar violation"⟩,
    ⟨duplicateRule, "Validation", .high, false, "Duplicate rule identifier"⟩,
    ⟨duplicateString, "Validation", .high, false, "Duplicate string identifier"⟩,
    ⟨undefinedString, "Validation", .high, false, "Undefined string identifier"⟩,
    ⟨undefinedRule, "Validation", .high, false, "Undefined rule identifier"⟩,
    ⟨unreferencedString, "Validation", .medium, false, "String declared but never used"⟩,
    ⟨invalidHexString, "Validation", .high, false, "Invalid hex string"⟩,
    ⟨invalidRegex, "Validation", .high, false, "Invalid regular expression"⟩,
    ⟨limitExceeded, "Validation", .medium, false, "Implementation limit exceeded"⟩,
    ⟨missingCondition, "Validation", .high, false, "Rule has no condition"⟩,
    ⟨invalidModifier, "Validation", .medium, false, "Modifier not valid for string"⟩,
    ⟨typeMismatch, "Validation", .high, false, "Operand has the wrong type"⟩,
    ⟨emptyString, "Validation", .medium, false, "Empty string pattern"⟩,
    ⟨archiveNotFound, "Archive", .high, false, "Archive path does not exist"⟩,
    ⟨corruptArchive, "Archive", .high, false, "Archive container cannot be parsed"⟩,
    ⟨entryReadFailure, "Archive", .medium, true, "Archive entry could not be read"⟩,
    ⟨entryTooLarge, "Archive", .medium, true, "Archive entry exceeds size limit"⟩,
    ⟨unsafeEntryPath, "Archive", .high, false, "Archive entry path escapes the archive"⟩,
    ⟨decodeReplacement, "Archive", .low, true, "Undecodable bytes replaced"⟩,
    ⟨targetNotFound, "Scanner", .high, true, "Scan target artifact missing"⟩,
    ⟨scannerUnavailable, "Scanner", .high, true, "Remote scanner unavailable"⟩,
    ⟨scannerResponseError, "Scanner", .high, true, "Remote scanner returned an error"⟩,
    ⟨ruleCompilationFailed, "Scanner", .high, true, "Rule compilation failed"⟩,
    ⟨storeFailure, "Scanner", .high, true, "Persistence layer failure"⟩,
    ⟨actionFailure, "Scanner", .high, true, "Follow-up action failed"⟩,
    ⟨ruleSkipped, "Scanner", .medium, true, "Invalid rule skipped"⟩]

/-- The registry entry of a code. -/
def metadata? (code : Code) : Option Metadata :=
  registry.find? fun entry => entry.code == code

/-- Severity of a code, medium where it is not registered. -/
def severity (code : Code) : Severity := (code.metadata?.map Metadata.severity).getD .medium

/-- Category of a code. -/
def category (code : Code) : String := (code.metadata?.map Metadata.category).getD "Unknown"

/-- Description of a code. -/
def description (code : Code) : String :=
  (code.metadata?.map Metadata.description).getD "Unknown error"

/-- Does later work remain possible? An unregistered code is taken to allow it. -/
def isRecoverable (code : Code) : Bool := (code.metadata?.map Metadata.recoverable).getD true

end Code

end PackageScan
