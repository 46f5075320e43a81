import PackageScan.Limits
import PackageScan.Log.Journal
import PackageScan.Rule.Declaration

/-!
# Reading rules from tokens

A parser takes tokens from the front of a list and answers with what they write and the tokens
that are left. In a condition `or` binds loosest, then `and`, then `not`, then comparisons; the
binary operators associate to the left. Parentheses and negations nest at most
`Limits.conditionDepth` deep, and the reader of conditions is structural in the depth that is
left. Loops over operands and rules are bounded by the number of tokens.
-/

namespace PackageScan

/-- What would be right where something else stands. -/
inductive Expected where
  /-- A reserved word. -/
  | keyword (k : Keyword)
  /-- A punctuation mark. -/
  | token (t : Token)
  | ruleName
  | tag
  | metaKey
  | metaValue
  | stringDeclaration
  | stringValue
  | expression
  | stringName
  deriving DecidableEq, Repr

/-- What is expected, in words. -/
def Expected.message : Expected → String
  | keyword k => s!"'{k.word}'"
  | token t => "'" ++ t.display ++ "'"
  | ruleName => "rule name"
  | tag => "tag"
  | metaKey => "meta key"
  | metaValue => "meta value"
  | stringDeclaration => "string declaration"
  | stringValue => "text, hex or regex string"
  | expression => "expression"
  | stringName => "string identifier"

/-- Why tokens cannot be read as rules. -/
inductive SyntaxFault where
  /-- Another token stands there. -/
  | unexpected (expected : Expected) (found : Token)
  /-- The source ends there. -/
  | endOfInput (expected : Expected)
  /-- A condition nests too deeply. -/
  | tooDeep
  /-- A string is declared without a name. -/
  | unnamedString
  /-- A negative number of strings is asked for. -/
  | negativeQuantifier
  /-- A string is referred to without a name. -/
  | unnamedReference
  /-- The token has a meaning only in a set of strings. -/
  | onlyAfterOf (token : Token)
  deriving DecidableEq, Repr

namespace SyntaxFault

/-- The fault in words. -/
def message : SyntaxFault → String
  | unexpected expected found => s!"unexpected {found.describe}, expected {expected.message}"
  | endOfInput expected => s!"unexpected end of input, expected {expected.message}"
  | tooDeep => s!"condition nested too deeply (max {Limits.conditionDepth})"
  | unnamedString => "string declarations must be named"
  | negativeQuantifier => "quantifier must not be negative"
  | unnamedReference => "anonymous string reference outside a loop"
  | onlyAfterOf token => s!"{token.describe} is only valid after 'of'"

/-- The code under which the fault is logged. -/
def code : SyntaxFault → Code
  | unexpected _ _ => .unexpectedToken
  | endOfInput _ => .unexpectedEndOfInput
  | tooDeep => .maxRecursionDepth
  | _ => .grammarViolation

end SyntaxFault

/-- A fault and the stretch of source that it is reported at. -/
structure SyntaxError where
  /-- What is wrong. -/
  fault : SyntaxFault
  /-- Where. -/
  span : Span
  deriving DecidableEq, Repr

namespace Parser

/-- Tokens that are still to be read. -/
abbrev Tokens := List (Located Token)

/-- Something, or the fault that stands in its way. -/
abbrev Outcome (α : Type) := Except SyntaxError α

/-- Reads an expression from the front of the tokens. -/
abbrev ExprReader := Tokens → Outcome (Expr × Tokens)

section

variable (stop : Position) (bound : Nat)

/-- The span of the first token, or of the end of input. -/
def spanHere : Tokens → Span
  | [] => .point stop
  | t :: _ => t.span

/-- Reports that something else is expected here. -/
def expectedHere {α : Type} (expected : Expected) : Tokens → Outcome α
  | [] => .error ⟨.endOfInput expected, .point stop⟩
  | t :: _ => .error ⟨.unexpected expected t.value, t.span⟩

/-- Takes a reserved word. -/
def expectKeyword (k : Keyword) : Tokens → Outcome (Span × Tokens)
  | ts@(t :: rest) =>
    if t.value = .keyword k then .ok (t.span, rest) else expectedHere stop (.keyword k) ts
  | [] => expectedHere stop (.keyword k) []

/-- Takes a punctuation mark. -/
def expectToken (mark : Token) : Tokens → Outcome (Span × Tokens)
  | ts@(t :: rest) =>
    if t.value = mark then .ok (t.span, rest) else expectedHere stop (.token mark) ts
  | [] => expectedHere stop (.token mark) []

/-! ### Conditions -/

/-- The items of a set of strings after its opening parenthesis, those read so far in
reverse. -/
def setItems (seen : List SetItem) : Tokens → Outcome (List SetItem × Tokens)
  | [] => expectedHere stop .stringName []
  | ts@(t :: rest) =>
    let item? : Option SetItem := match t.value with
      | .stringName name => if name.isEmpty then none else some (.name name)
      | .stringPrefix start => some (.startingWith start)
      | _ => none
    match item? with
    | none => expectedHere stop .stringName ts
    | some item =>
      match rest with
      | ⟨.comma, _⟩ :: rest => setItems (item :: seen) rest
      | rest => .ok ((item :: seen).reverse, rest)

/-- A set of strings after its quantifier, which stands at `start`. -/
def quantified (quantifier : Quantifier) (start : Span) (ts : Tokens) :
    Outcome (Expr × Tokens) := do
  let (_, ts) ← expectKeyword stop .of ts
  match ts with
  | ⟨.keyword .them, span⟩ :: rest => .ok (.ofSet quantifier .them (start.join span), rest)
  | ts =>
    let (_, ts) ← expectToken stop .leftParen ts
    let (items, ts) ← setItems stop [] ts
    let (span, ts) ← expectToken stop .rightParen ts
    .ok (.ofSet quantifier (.items items) (start.join span), ts)

/-- An operand; `nested` reads what stands in parentheses. -/
def primary (nested : ExprReader) : ExprReader
  | [] => expectedHere stop .expression []
  | ts@(t :: rest) =>
    match t.value with
    | .keyword .true => .ok (.bool true, rest)
    | .keyword .false => .ok (.bool false, rest)
    | .keyword .filesize => .ok (.filesize, rest)
    | .keyword .any => quantified stop .any t.span rest
    | .keyword .all => quantified stop .all t.span rest
    | .keyword .none => quantified stop .none t.span rest
    | .integer value =>
      match rest with
      | ⟨.keyword .of, _⟩ :: _ =>
        if value < 0 then .error ⟨.negativeQuantifier, t.span⟩
        else quantified stop (.atLeast value) t.span rest
      | _ => .ok (.int value, rest)
    | .stringName name =>
      if name.isEmpty then .error ⟨.unnamedReference, t.span⟩
      else .ok (.found name t.span, rest)
    | .stringCount name => .ok (.count name t.span, rest)
    | .identifier name => .ok (.rule name t.span, rest)
    | .leftParen => do
      let (inner, rest) ← nested rest
      let (_, rest) ← expectToken stop .rightParen rest
      .ok (inner, rest)
    | .keyword .them => .error ⟨.onlyAfterOf t.value, t.span⟩
    | .stringPrefix _ => .error ⟨.onlyAfterOf t.value, t.span⟩
    | _ => expectedHere stop .expression ts

/-- The span of a comparison: that of its operator, widened by those of its operands. -/
def comparisonSpan (op : Span) (left right : Expr) : Span :=
  let widen (acc : Span) (e : Expr) : Span := match e.span? with
    | some span => acc.join span
    | none => acc
  widen (widen op left) right

/-- An operand, or a comparison of two. -/
def comparison (nested : ExprReader) (ts : Tokens) : Outcome (Expr × Tokens) := do
  let (left, ts) ← primary stop nested ts
  match ts with
  | t :: rest =>
    match Comparison.ofToken? t.value with
    | some op =>
      let (right, rest) ← primary stop nested rest
      .ok (.compare op left right (comparisonSpan t.span left right), rest)
    | none => .ok (left, ts)
  | [] => .ok (left, [])

/-- Goes on with a chain of operands that an operator joins, the earlier ones to the left. The
first argument bounds the number of operators. -/
def chainFrom (operator : Keyword) (combine : Expr → Expr → Expr)
    (operand : ExprReader) : Nat → Expr → ExprReader
  | 0, left, ts => .ok (left, ts)
  | fuel + 1, left, ts =>
    match ts with
    | t :: rest =>
      if t.value = .keyword operator then do
        let (right, rest) ← operand rest
        chainFrom operator combine operand fuel (combine left right) rest
      else .ok (left, ts)
    | [] => .ok (left, [])

/-- A chain of operands that an operator joins. There are at most `bound` tokens. -/
def chain (operator : Keyword) (combine : Expr → Expr → Expr)
    (operand : ExprReader) (ts : Tokens) : Outcome (Expr × Tokens) := do
  let (left, rest) ← operand ts
  chainFrom operator combine operand bound left rest

/-- Disjunctions of conjunctions of what `operand` reads. -/
def disjunction (operand : ExprReader) : ExprReader :=
  chain bound .or .or (chain bound .and .and operand)

/-- Reports that the condition nests too deeply here. -/
def tooDeep (ts : Tokens) : Outcome (Expr × Tokens) := .error ⟨.tooDeep, spanHere stop ts⟩

/-- A negation or a comparison; `negated` reads what is negated, `nested` what stands in
parentheses. -/
def negation (negated nested : ExprReader) : ExprReader
  | ⟨.keyword .not, _⟩ :: rest => do
    let (inner, rest) ← negated rest
    .ok (.not inner, rest)
  | ts => comparison stop nested ts

/-- A negation or a comparison inside which parentheses and negations nest at most so deep. -/
def unary : Nat → ExprReader
  | 0 => negation stop (tooDeep stop) (tooDeep stop)
  | depth + 1 => negation stop (unary depth) (disjunction bound (unary depth))

/-- A condition. -/
def condition : ExprReader := disjunction bound (unary stop bound (Limits.conditionDepth - 1))

/-! ### Rules -/

/-- The modifiers before a rule: is it private, is it global? -/
def ruleModifiers (isPrivate isGlobal : Bool) : Tokens → (Bool × Bool) × Tokens
  | ⟨.keyword .private, _⟩ :: rest => ruleModifiers true isGlobal rest
  | ⟨.keyword .global, _⟩ :: rest => ruleModifiers isPrivate true rest
  | ts => ((isPrivate, isGlobal), ts)

/-- The identifiers at the front, those read so far in reverse. -/
def identifiers (seen : List String) : Tokens → List String × Tokens
  | ⟨.identifier name, _⟩ :: rest => identifiers (name :: seen) rest
  | ts => (seen.reverse, ts)

/-- The tags of a rule, if it has any. -/
def tags : Tokens → Outcome (List String × Tokens)
  | ⟨.colon, _⟩ :: rest =>
    match identifiers [] rest with
    | ([], rest) => expectedHere stop .tag rest
    | (names, rest) => .ok (names, rest)
  | ts => .ok ([], ts)

/-- The value of a meta entry that a token writes. -/
def metaValue? : Token → Option MetaValue
  | .text bytes => some (.text (Utf8.decodeLossy bytes))
  | .integer value => some (.integer value)
  | .keyword .true => some (.boolean true)
  | .keyword .false => some (.boolean false)
  | _ => none

/-- The meta entries at the front, those read so far in reverse. -/
def metaEntries (seen : List MetaEntry) : Tokens → Outcome (List MetaEntry × Tokens)
  | ⟨.identifier key, keySpan⟩ :: rest =>
    match rest with
    | ⟨.assign, _⟩ :: rest =>
      match rest with
      | t :: rest' =>
        match metaValue? t.value with
        | some value => metaEntries (⟨key, value, keySpan.join t.span⟩ :: seen) rest'
        | none => expectedHere stop .metaValue (t :: rest')
      | [] => expectedHere stop .metaValue []
    | rest => expectedHere stop (.token .assign) rest
  | ts => .ok (seen.reverse, ts)

/-- The string value that a token writes. -/
def stringValue? : Token → Option StringValue
  | .text bytes => some (.text bytes)
  | .hex body => some (.hex body)
  | .regex literal => some (.regex literal)
  | _ => none

/-- A declared string with one more modifier, which stands at `span`. -/
def addModifier? (decl : StringDecl) (k : Keyword) (span : Span) : Option StringDecl :=
  let widened := { decl with span := decl.span.join span }
  match k with
  | .nocase => some { widened with modifiers := { decl.modifiers with nocase := true } }
  | .wide => some { widened with modifiers := { decl.modifiers with wide := true } }
  | .ascii => some { widened with modifiers := { decl.modifiers with ascii := true } }
  | .fullword => some { widened with modifiers := { decl.modifiers with fullword := true } }
  | _ => none

/-- The declared strings at the front, those read so far in reverse. A modifier belongs to the
string before it. -/
def stringDecls (seen : List StringDecl) : Tokens → Outcome (List StringDecl × Tokens)
  | ⟨.stringName name, nameSpan⟩ :: rest =>
    if name.isEmpty then .error ⟨.unnamedString, nameSpan⟩
    else
      match rest with
      | ⟨.assign, _⟩ :: rest =>
        match rest with
        | t :: rest' =>
          match stringValue? t.value with
          | some value => stringDecls (⟨name, value, {}, nameSpan.join t.span⟩ :: seen) rest'
          | none => expectedHere stop .stringValue (t :: rest')
        | [] => expectedHere stop .stringValue []
      | rest => expectedHere stop (.token .assign) rest
  | ⟨.keyword k, span⟩ :: rest =>
    match seen with
    | decl :: earlier =>
      match addModifier? decl k span with
      | some decl => stringDecls (decl :: earlier) rest
      | none => .ok (seen.reverse, ⟨.keyword k, span⟩ :: rest)
    | [] => .ok ([], ⟨.keyword k, span⟩ :: rest)
  | ts => .ok (seen.reverse, ts)

/-- A section of a rule: its word, a colon and what `body` reads. Without the word, `absent`. -/
def sectionOf {α : Type} (k : Keyword) (absent : α) (body : Tokens → Outcome (α × Tokens)) :
    Tokens → Outcome (α × Tokens)
  | t :: rest =>
    if t.value = .keyword k then do
      let (_, rest) ← expectToken stop .colon rest
      body rest
    else .ok (absent, t :: rest)
  | [] => .ok (absent, [])

/-- The strings section after its colon: at least one string. -/
def stringSection (ts : Tokens) : Outcome (List StringDecl × Tokens) := do
  match ← stringDecls stop [] ts with
  | ([], rest) => expectedHere stop .stringDeclaration rest
  | (decls, rest) => .ok (decls, rest)

/-- The condition section after its colon. -/
def conditionSection (ts : Tokens) : Outcome (Option Expr × Tokens) := do
  let (e, rest) ← condition stop bound ts
  .ok (some e, rest)

/-- The name of a rule and its span. -/
def ruleName : Tokens → Outcome ((String × Span) × Tokens)
  | ⟨.identifier name, span⟩ :: rest => .ok ((name, span), rest)
  | ts => expectedHere stop .ruleName ts

/-- A rule. -/
def rule (ts : Tokens) : Outcome (RuleDecl × Tokens) := do
  let start := spanHere stop ts
  let ((isPrivate, isGlobal), ts) := ruleModifiers false false ts
  let (_, ts) ← expectKeyword stop .rule ts
  let ((name, nameSpan), ts) ← ruleName stop ts
  let (tags, ts) ← tags stop ts
  let (_, ts) ← expectToken stop .leftBrace ts
  let (metaEntries, ts) ← sectionOf stop .meta [] (metaEntries stop []) ts
  let (strings, ts) ← sectionOf stop .strings [] (stringSection stop) ts
  let (condition, ts) ← sectionOf stop .condition none (conditionSection stop bound) ts
  let (stopSpan, ts) ← expectToken stop .rightBrace ts
  .ok ({ name, span := (start.join nameSpan).join stopSpan, isPrivate, isGlobal, tags,
         metaEntries, strings, condition }, ts)

/-- The rules up to the end of input, those read so far in reverse. The first argument bounds
their number. -/
def rulesFrom : Nat → List RuleDecl → Tokens → Outcome (List RuleDecl)
  | _, seen, [] => .ok seen.reverse
  | 0, seen, _ :: _ => .ok seen.reverse
  | fuel + 1, seen, t :: ts => do
    let (decl, rest) ← rule stop bound (t :: ts)
    rulesFrom fuel (decl :: seen) rest

end

/-- The rules of a source. -/
def parse (ts : TokenStream) : Outcome (List RuleDecl) :=
  let count := ts.tokens.length
  rulesFrom ts.stop count count [] ts.tokens

/-- The rules of a source; says in the log what was read or what is wrong. -/
def parseLogged (ts : TokenStream) : Logged (Outcome (List RuleDecl)) := do
  let outcome := parse ts
  match outcome with
  | .ok rules =>
    Log.debug "Rule source parsed"
      [("tokens", toString ts.size), ("rules", toString rules.length)]
  | .error e =>
    Log.errorAt e.fault.code "Rule source failed to parse" e.span
      [("error", e.fault.message)]
  return outcome

end Parser

end PackageScan
