import PackageScan.Limits
import PackageScan.Log.Journal
import PackageScan.Rule.Token
import PackageScan.Text.Blank
import PackageScan.Text.Hexadecimal

/-!
# Reading tokens

A source alternates between gaps and tokens. `Gap.read` measures white space and comments, and
`Token.read` reads one token from the characters after a gap. Neither knows where in the source
it stands: both answer with a number of characters, and faults with the number of characters
before the fault. `Lexer.scan` alone keeps positions, by advancing over what was measured.

The language is context sensitive in one place. Right after a string name and `=` an opening
brace starts a hex string and a slash starts a regular expression; everywhere else a brace is a
token of its own and a slash starts a comment or nothing.
-/

namespace PackageScan

/-- Why an integer is malformed. -/
inductive NumberFault where
  /-- No digit follows the hexadecimal mark. -/
  | missingDigits
  /-- A letter, a digit or an underscore follows. -/
  | unexpectedCharacter
  /-- The value does not fit sixty-four bits with a sign. -/
  | overflow
  deriving DecidableEq, Repr

/-- What is wrong with a number, in words. -/
def NumberFault.message : NumberFault → String
  | missingDigits => "missing digits"
  | unexpectedCharacter => "unexpected character after number"
  | overflow => "integer overflow"

/-- Why a source cannot be read as tokens. -/
inductive LexFault where
  /-- The character begins no token. -/
  | invalidCharacter (character : Char)
  /-- A quoted text has no end on its line. -/
  | unterminatedString
  /-- A hex string has no closing brace. -/
  | unterminatedHexString
  /-- A regular expression has no closing slash on its line. -/
  | unterminatedRegex
  /-- A block comment has no end. -/
  | unterminatedComment
  /-- The escape stands for nothing. -/
  | invalidEscape (sequence : String)
  /-- The integer is malformed. -/
  | invalidNumber (text : String) (reason : NumberFault)
  /-- The identifier is beyond the limit. -/
  | identifierTooLong (length : Nat)
  /-- The literal is beyond the limit. -/
  | stringTooLarge (size : Nat)
  /-- The source is beyond the limit. -/
  | sourceTooLarge (size : Nat)
  /-- The source has more tokens than the limit allows. -/
  | tooManyTokens
  deriving DecidableEq, Repr

namespace LexFault

/-- The fault in words. -/
def message : LexFault → String
  | invalidCharacter character => s!"invalid character '{character}'"
  | unterminatedString => "unterminated string literal"
  | unterminatedHexString => "unterminated hex string"
  | unterminatedRegex => "unterminated regular expression"
  | unterminatedComment => "unterminated block comment"
  | invalidEscape sequence => "invalid escape sequence '\\" ++ sequence ++ "'"
  | invalidNumber text reason => s!"invalid number '{text}': {reason.message}"
  | identifierTooLong length =>
    s!"identifier too long: {length} characters (max {Limits.identifierLength})"
  | stringTooLarge size => s!"string too large: {size} bytes (max {Limits.literalSize})"
  | sourceTooLarge size => s!"rule source too large: {size} bytes (max {Limits.sourceSize})"
  | tooManyTokens => s!"too many tokens (max {Limits.tokenCount})"

/-- The code under which the fault is logged. -/
def code : LexFault → Code
  | invalidCharacter _ => .invalidCharacter
  | unterminatedString => .unterminatedString
  | unterminatedHexString => .unterminatedHexString
  | unterminatedRegex => .unterminatedRegex
  | unterminatedComment => .unterminatedComment
  | invalidEscape _ => .invalidEscape
  | invalidNumber _ _ => .invalidNumber
  | identifierTooLong _ => .identifierTooLong
  | stringTooLarge _ => .stringTooLarge
  | sourceTooLarge _ | tooManyTokens => .sourceTooLarge

end LexFault

/-- A fault and the place in the source that it is reported at. -/
structure LexError where
  /-- What is wrong. -/
  fault : LexFault
  /-- Where. -/
  position : Position
  deriving DecidableEq, Repr

/-! ### Gaps -/

/-- Where a reader of a gap stands. -/
inductive Gap.Mode where
  /-- Among white space. -/
  | blank
  /-- In a comment that ends with its line. -/
  | line
  /-- Before the second character of a comment that is closed; the number of characters of the
  gap before it. -/
  | opening (start : Nat)
  /-- In a comment that is closed; the number of characters of the gap before it. -/
  | block (start : Nat)
  /-- Before the last character of a comment that is closed. -/
  | closing
  deriving DecidableEq, Repr

/-- The white space and comments between two tokens. -/
structure Gap where
  /-- Number of characters. -/
  width : Nat
  /-- Number of comments begun. -/
  comments : Nat
  /-- A closed comment without its end: the number of characters before it. -/
  unclosed : Option Nat
  deriving DecidableEq, Repr

/-- Measures a gap from its start, or from inside one where some characters and comments have
been counted already. -/
def Gap.read (mode : Gap.Mode) (width comments : Nat) : List Char → Gap
  | [] =>
    match mode with
    | .opening start | .block start => ⟨width, comments, some start⟩
    | .blank | .line | .closing => ⟨width, comments, none⟩
  | c :: rest =>
    match mode with
    | .blank =>
      if Text.isBlank c then Gap.read .blank (width + 1) comments rest
      else if c = '/' ∧ rest.head? = some '/' then
        Gap.read .line (width + 1) (comments + 1) rest
      else if c = '/' ∧ rest.head? = some '*' then
        Gap.read (.opening width) (width + 1) (comments + 1) rest
      else ⟨width, comments, none⟩
    | .line => Gap.read (if c = '\n' then .blank else .line) (width + 1) comments rest
    | .opening start => Gap.read (.block start) (width + 1) comments rest
    | .block start =>
      Gap.read (if c = '*' ∧ rest.head? = some '/' then .closing else .block start) (width + 1)
        comments rest
    | .closing => Gap.read .blank (width + 1) comments rest

/-! ### Tokens -/

namespace Token

/-- A token and its number of characters, or a fault and the number of characters before the
place it is reported at. -/
abbrev Reading := Except (LexFault × Nat) (Token × Nat)

/-- Characters of identifiers. -/
def isWordChar (c : Char) : Bool := c.isAlphanum || c == '_'

/-- The leading run of identifier characters. -/
def wordOf (cs : List Char) : List Char := cs.takeWhile isWordChar

/-- Passes a name that is within the limit. -/
def checkLength (name : List Char) : Except (LexFault × Nat) Unit :=
  if Limits.identifierLength < name.length then .error (.identifierTooLong name.length, 0)
  else .ok ()

/-- A reserved word or an identifier. -/
def readWord (cs : List Char) : Reading := do
  let name := wordOf cs
  checkLength name
  let text := String.ofList name
  match Keyword.ofWord? text with
  | some k => .ok (.keyword k, name.length)
  | none => .ok (.identifier text, name.length)

/-- The name of a string, or a prefix of names, after its dollar sign. -/
def readStringName (cs : List Char) : Reading := do
  let name := wordOf cs
  checkLength name
  match cs.drop name.length with
  | '*' :: _ => .ok (.stringPrefix (String.ofList name), name.length + 2)
  | _ => .ok (.stringName (String.ofList name), name.length + 1)

/-- The number of occurrences of a string, after its number sign. -/
def readStringCount (cs : List Char) : Reading := do
  let name := wordOf cs
  if name.isEmpty then .error (.invalidCharacter '#', 0)
  checkLength name
  .ok (.stringCount (String.ofList name), name.length + 1)

/-- The byte that two characters write in hexadecimal. The first one may also be a plus sign. -/
def hexByte? (high low : Char) : Option UInt8 :=
  match Hexadecimal.value? high, Hexadecimal.value? low with
  | some h, some l => some (h * 16 + l).toUInt8
  | none, some l => if high = '+' then some l.toUInt8 else none
  | _, none => none

/-- The byte that the character after a backslash stands for. -/
def simpleEscape? (c : Char) : Option UInt8 :=
  if c = 'n' then some 10
  else if c = 't' then some 9
  else if c = 'r' then some 13
  else if c = '"' then some 34
  else if c = '\\' then some 92
  else none

/-- The rest of a quoted text. The bytes read so far are held in reverse together with their
number, `width` counts the characters read so far, the opening quote included, and the result
says why the text cannot be read or gives its bytes and its characters. -/
def readText (bytes : List UInt8) (size width : Nat) :
    List Char → Except (LexFault × Nat) (List UInt8 × Nat)
  | [] => .error (.unterminatedString, 0)
  | '\\' :: 'x' :: rest =>
    match rest with
    | high :: low :: rest =>
      match hexByte? high low with
      | some b =>
        if Limits.literalSize < size + 1 then .error (.stringTooLarge (size + 1), 0)
        else readText (b :: bytes) (size + 1) (width + 4) rest
      | none => .error (.invalidEscape (String.ofList ['x', high, low]), width)
    | rest => .error (.invalidEscape (String.ofList ('x' :: rest)), width)
  | '\\' :: c :: rest =>
    match simpleEscape? c with
    | some b =>
      if Limits.literalSize < size + 1 then .error (.stringTooLarge (size + 1), 0)
      else readText (b :: bytes) (size + 1) (width + 2) rest
    | none => .error (.invalidEscape (String.ofList [c]), width)
  | c :: rest =>
    if c = '"' then .ok (bytes.reverse, width + 1)
    else if c = '\n' ∨ c = '\\' then .error (.unterminatedString, 0)
    else
      let size := size + c.utf8Size
      if Limits.literalSize < size then .error (.stringTooLarge size, 0)
      else readText ((Utf8.encodeChar c).reverse ++ bytes) size (width + 1) rest

/-- The rest of a hex string, with the same arguments as for a quoted text. -/
def readHex (body : List Char) (size width : Nat) :
    List Char → Except (LexFault × Nat) (List Char × Nat)
  | [] => .error (.unterminatedHexString, 0)
  | c :: rest =>
    if c = '\x7d' then .ok (body.reverse, width + 1)
    else
      let size := size + c.utf8Size
      if Limits.literalSize < size then .error (.stringTooLarge size, 0)
      else readHex (c :: body) size (width + 1) rest

/-- The rest of a regular expression up to its closing slash, with the same arguments as for a
quoted text. An escaped slash loses its backslash, every other escape stays. -/
def readRegex (pattern : List Char) (size width : Nat) :
    List Char → Except (LexFault × Nat) (List Char × Nat)
  | [] => .error (.unterminatedRegex, 0)
  | '\\' :: c :: rest =>
    if c = '\n' then .error (.unterminatedRegex, 0)
    else if c = '/' then
      if Limits.literalSize < size + 1 then .error (.stringTooLarge (size + 1), 0)
      else readRegex ('/' :: pattern) (size + 1) (width + 2) rest
    else
      let size := size + 1 + c.utf8Size
      if Limits.literalSize < size then .error (.stringTooLarge size, 0)
      else readRegex (c :: '\\' :: pattern) size (width + 2) rest
  | c :: rest =>
    if c = '/' then .ok (pattern.reverse, width + 1)
    else if c = '\n' ∨ c = '\\' then .error (.unterminatedRegex, 0)
    else
      let size := size + c.utf8Size
      if Limits.literalSize < size then .error (.stringTooLarge size, 0)
      else readRegex (c :: pattern) size (width + 1) rest

/-- The flags right after a regular expression. -/
def regexFlags (cs : List Char) : List Char := cs.takeWhile fun c => c == 'i' || c == 's'

/-- Value of a run of digits. -/
def digitsValue (base : Nat) (ds : List Char) : Nat :=
  ds.foldl (fun n d => n * base + (Hexadecimal.value? d).getD 0) 0

/-- The digits of an integer after its sign: their base, the width of the mark before them, and
the digits. -/
def integerDigits (cs : List Char) : Nat × Nat × List Char :=
  match cs with
  | '0' :: 'x' :: rest | '0' :: 'X' :: rest =>
    (16, 2, rest.takeWhile Hexadecimal.isDigit)
  | _ => (10, 0, cs.takeWhile Char.isDigit)

/-- The factor and the width of a suffix. -/
def integerSuffix : List Char → Nat × Nat
  | 'K' :: 'B' :: _ => (1024, 2)
  | 'M' :: 'B' :: _ => (1024 * 1024, 2)
  | _ => (1, 0)

/-- Largest value of an integer. -/
def integerMax : Nat := 0x7fffffffffffffff

/-- The integer that digits and a factor stand for, if it is at most the largest one. More than
nineteen digits after the leading zeros are too many in either base. -/
def integerValue? (base factor : Nat) (digits : List Char) : Option Nat :=
  if 19 < (digits.dropWhile (· == '0')).length then none
  else
    let value := digitsValue base digits * factor
    if integerMax < value then none else some value

/-- An integer after its sign. -/
def readInteger (negative : Bool) (cs : List Char) : Reading :=
  let signWidth := if negative then 1 else 0
  let (base, markWidth, digits) := integerDigits cs
  let fault (text : String) (reason : NumberFault) : Reading :=
    .error (.invalidNumber text reason, signWidth)
  if digits.isEmpty then fault "0x" .missingDigits
  else
    let rest := cs.drop (markWidth + digits.length)
    let (factor, suffixWidth) := integerSuffix rest
    let followed := match rest.drop suffixWidth with
      | c :: _ => isWordChar c
      | [] => false
    let text := String.ofList digits
    if followed then fault text .unexpectedCharacter
    else
      match integerValue? base factor digits with
      | none => fault text .overflow
      | some magnitude =>
        .ok (.integer (if negative then -(magnitude : Int) else magnitude),
          signWidth + markWidth + digits.length + suffixWidth)

/-- A token that is not a word, a name, a literal or an integer. -/
def readPunctuation (cs : List Char) : Reading :=
  match cs with
  | ':' :: _ => .ok (.colon, 1)
  | ',' :: _ => .ok (.comma, 1)
  | '\x7b' :: _ => .ok (.leftBrace, 1)
  | '\x7d' :: _ => .ok (.rightBrace, 1)
  | '(' :: _ => .ok (.leftParen, 1)
  | ')' :: _ => .ok (.rightParen, 1)
  | '=' :: '=' :: _ => .ok (.equal, 2)
  | '=' :: _ => .ok (.assign, 1)
  | '!' :: '=' :: _ => .ok (.notEqual, 2)
  | '<' :: '=' :: _ => .ok (.lessEqual, 2)
  | '<' :: _ => .ok (.less, 1)
  | '>' :: '=' :: _ => .ok (.greaterEqual, 2)
  | '>' :: _ => .ok (.greater, 1)
  | c :: _ => .error (.invalidCharacter c, 0)
  | [] => .error (.unterminatedString, 0)

/-- Does a literal begin with the character? `valueNext` says that the value of a string
declaration is due. -/
def opensLiteral (valueNext : Bool) (c : Char) : Bool :=
  c == '"' || (valueNext && (c == '\x7b' || c == '/'))

/-- A literal, the first character of which is given apart. -/
def readLiteral (opening : Char) (rest : List Char) : Reading := do
  if opening = '"' then
    let (bytes, width) ← readText [] 0 1 rest
    .ok (.text bytes, width)
  else if opening = '/' then
    let (pattern, width) ← readRegex [] 0 1 rest
    let flags := regexFlags (rest.drop (width - 1))
    .ok (.regex ⟨String.ofList pattern, flags.contains 'i', flags.contains 's'⟩,
      width + flags.length)
  else
    let (body, width) ← readHex [] 0 1 rest
    .ok (.hex (String.ofList body), width)

/-- The token that a text starts with, its first character given apart. -/
def read (valueNext : Bool) (c : Char) (rest : List Char) : Reading :=
  if opensLiteral valueNext c then readLiteral c rest
  else if c = '$' then readStringName rest
  else if c = '#' then readStringCount rest
  else if c.isDigit then readInteger false (c :: rest)
  else if c = '-' && (rest.head?.any Char.isDigit) then readInteger true rest
  else if c.isAlpha || c = '_' then readWord (c :: rest)
  else readPunctuation (c :: rest)

end Token

/-! ### Sources -/

/-- What was counted while a source was read. -/
structure LexMetrics where
  /-- Tokens, the end of input counted as one; zero for a source that cannot be read. -/
  tokens : Nat := 0
  /-- Literals begun. -/
  literals : Nat := 0
  /-- Comments begun. -/
  comments : Nat := 0
  deriving DecidableEq, Repr

namespace Lexer

/-- Is the value of a string declaration due after these tokens, the latest first? -/
def valueNext : List (Located Token) → Bool
  | ⟨.assign, _⟩ :: ⟨.stringName _, _⟩ :: _ => true
  | _ => false

/-- Reads the rest of a source from a position, after the tokens `seen`, the latest first. At
most `budget` more tokens are allowed. -/
def scanFrom (budget : Nat) (cs : List Char) (position : Position)
    (seen : List (Located Token)) (metrics : LexMetrics) :
    LexMetrics × Except LexError TokenStream :=
  let gap := Gap.read .blank 0 0 cs
  let metrics := { metrics with comments := metrics.comments + gap.comments }
  match gap.unclosed with
  | some before =>
    (metrics, .error ⟨.unterminatedComment, position.advanceAll (cs.take before)⟩)
  | none =>
    let start := position.advanceAll (cs.take gap.width)
    match cs.drop gap.width with
    | [] =>
      ({ metrics with tokens := seen.length + 1 }, .ok ⟨seen.reverse, start⟩)
    | c :: rest =>
      match budget with
      | 0 => (metrics, .error ⟨.tooManyTokens, start⟩)
      | budget + 1 =>
        let due := valueNext seen
        let metrics :=
          if Token.opensLiteral due c then { metrics with literals := metrics.literals + 1 }
          else metrics
        match Token.read due c rest with
        | .error (fault, before) =>
          (metrics, .error ⟨fault, start.advanceAll ((c :: rest).take before)⟩)
        | .ok (token, width) =>
          let stop := start.advanceAll ((c :: rest).take width)
          scanFrom budget ((c :: rest).drop width) stop (⟨token, ⟨start, stop⟩⟩ :: seen)
            metrics

/-- Reads a source: what was counted, and its tokens or the first fault. -/
def scan (source : String) : LexMetrics × Except LexError TokenStream :=
  if Limits.sourceSize < source.utf8ByteSize then
    ({}, .error ⟨.sourceTooLarge source.utf8ByteSize, .start⟩)
  else scanFrom Limits.tokenCount source.toList .start [] {}

/-- The tokens of a source. -/
def tokenize (source : String) : Except LexError TokenStream := (scan source).2

/-- Reads a source and logs what was counted, or that the source is too large. -/
def scanLogged (source : String) : Logged (LexMetrics × Except LexError TokenStream) := do
  let (metrics, outcome) := scan source
  match outcome with
  | .ok _ =>
    Log.debug "Rule source tokenized"
      [("tokens", toString metrics.tokens), ("pattern_literals", toString metrics.literals),
        ("comments", toString metrics.comments)]
  | .error ⟨.sourceTooLarge size, _⟩ =>
    Log.error .sourceTooLarge "Rule source rejected"
      [("size", toString size), ("limit", toString Limits.sourceSize)]
  | .error _ => pure ()
  return (metrics, outcome)

end Lexer

end PackageScan
