/-!
# Reserved words

The words of the rule language that cannot name a rule, a tag or a meta entry. Their spelling is
exact: `Keyword.ofWord?` reads back what `Keyword.word` writes and nothing else.
-/

namespace PackageScan

/-- A reserved word. -/
inductive Keyword where
  | rule
  | «private»
  | «global»
  | «meta»
  | strings
  | condition
  | nocase
  | wide
  | ascii
  | fullword
  | «true»
  | «false»
  | and
  | or
  | not
  | «of»
  | them
  | any
  | all
  | none
  | filesize
  deriving DecidableEq, Repr, Inhabited

namespace Keyword

/-- All reserved words. -/
def list : List Keyword :=
  [.rule, .private, .global, .meta, .strings, .condition, .nocase, .wide, .ascii, .fullword,
    .true, .false, .and, .or, .not, .of, .them, .any, .all, .none, .filesize]

/-- The spelling of a reserved word. -/
def word : Keyword → String
  | .rule => "rule"
  | .private => "private"
  | .global => "global"
  | .meta => "meta"
  | .strings => "strings"
  | .condition => "condition"
  | .nocase => "nocase"
  | .wide => "wide"
  | .ascii => "ascii"
  | .fullword => "fullword"
  | .true => "true"
  | .false => "false"
  | .and => "and"
  | .or => "or"
  | .not => "not"
  | .of => "of"
  | .them => "them"
  | .any => "any"
  | .all => "all"
  | .none => "none"
  | .filesize => "filesize"

/-- The reserved word with the given spelling. -/
def ofWord? (text : String) : Option Keyword := list.find? fun k => k.word == text

/-- Words that may stand before `rule`. -/
def isRuleModifier : Keyword → Bool
  | .private | .global => Bool.true
  | _ => Bool.false

/-- Words that may stand after the value of a string. -/
def isStringModifier : Keyword → Bool
  | .nocase | .wide | .ascii | .fullword => Bool.true
  | _ => Bool.false

/-- Words that open a section of a rule. -/
def isSection : Keyword → Bool
  | .meta | .strings | .condition => Bool.true
  | _ => Bool.false

end Keyword

end PackageScan
