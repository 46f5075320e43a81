import PackageScan.Rule.Keyword
import PackageScan.Source.Position
import PackageScan.Text.Utf8

/-!
# Tokens of the rule language

A `TokenStream` is the list of tokens of a source together with the place where the source ends.
The end of input is not a token; where one may be missing, `Option Token` is used and
`Token.describe?` names either.
-/

namespace PackageScan

/-- A regular expression as it is written between slashes. -/
structure RegexLiteral where
  /-- The expression, slashes without their backslash. -/
  pattern : String
  /-- Letters of either case match. -/
  caseInsensitive : Bool := false
  /-- The dot matches a newline. -/
  dotMatchesNewline : Bool := false
  deriving DecidableEq, Repr, Inhabited

/-- A token. -/
inductive Token where
  /-- A reserved word. -/
  | keyword (k : Keyword)
  /-- The name of a rule, a tag or a meta entry. -/
  | identifier (name : String)
  /-- The name of a string; empty for a lone dollar sign. -/
  | stringName (name : String)
  /-- All strings whose name starts so. -/
  | stringPrefix (start : String)
  /-- The number of occurrences of a string. -/
  | stringCount (name : String)
  /-- A quoted text, its escapes resolved. -/
  | text (bytes : List UInt8)
  /-- What stands between the braces of a hex string. -/
  | hex (body : String)
  /-- A regular expression with its flags. -/
  | regex (literal : RegexLiteral)
  /-- An integer, its suffix and sign applied. -/
  | integer (value : Int)
  | colon
  | assign
  | leftBrace
  | rightBrace
  | leftParen
  | rightParen
  | comma
  | equal
  | notEqual
  | less
  | lessEqual
  | greater
  | greaterEqual
  deriving DecidableEq, Repr, Inhabited

namespace Token

/-- Is the token a comparison operator? -/
def isComparison : Token → Bool
  | equal | notEqual | less | lessEqual | greater | greaterEqual => true
  | _ => false

/-- The token as text. Bytes of a quoted text that are no UTF-8 are replaced, and flags of a
regular expression are left out. -/
def display : Token → String
  | keyword k => k.word
  | identifier name => name
  | stringName name => "$" ++ name
  | stringPrefix start => "$" ++ start ++ "*"
  | stringCount name => "#" ++ name
  | text bytes => "\"" ++ Utf8.decodeLossy bytes ++ "\""
  | hex body => "\x7b" ++ body ++ "\x7d"
  | regex literal => "/" ++ literal.pattern ++ "/"
  | integer value => toString value
  | colon => ":"
  | assign => "="
  | leftBrace => "\x7b"
  | rightBrace => "\x7d"
  | leftParen => "("
  | rightParen => ")"
  | comma => ","
  | equal => "=="
  | notEqual => "!="
  | less => "<"
  | lessEqual => "<="
  | greater => ">"
  | greaterEqual => ">="

/-- What an error message calls the token. -/
def describe : Token → String
  | keyword k => s!"keyword '{k.word}'"
  | identifier name => s!"identifier '{name}'"
  | text _ => "text string"
  | hex _ => "hex string"
  | regex _ => "regular expression"
  | integer value => s!"integer {value}"
  | token => "'" ++ token.display ++ "'"

/-- The text of a token or of the end of input. -/
def display? : Option Token → String
  | some token => token.display
  | none => "<eof>"

/-- What an error message calls a token or the end of input. -/
def describe? : Option Token → String
  | some token => token.describe
  | none => "end of input"

end Token

/-- The tokens of a source. -/
structure TokenStream where
  /-- The tokens in the order of the source. -/
  tokens : List (Located Token)
  /-- The place where the source ends. -/
  stop : Position
  deriving DecidableEq, Repr

namespace TokenStream

/-- Number of tokens, the end of input counted as one. -/
def size (ts : TokenStream) : Nat := ts.tokens.length + 1

/-- The tokens without their places. -/
def values (ts : TokenStream) : List Token := ts.tokens.map Located.value

end TokenStream

end PackageScan
