/-!
# Limits

Hard bounds that hold while untrusted rule sources are read, and the sizes of the event log.
None of them can be changed by settings.
-/

namespace PackageScan

namespace Limits

/-- Largest rule source, in bytes. -/
def sourceSize : Nat := 4 * 1024 * 1024

/-- Longest identifier, in bytes. -/
def identifierLength : Nat := 128

/-- Largest text literal, hex string body or regular expression, in bytes. -/
def literalSize : Nat := 64 * 1024

/-- Most tokens of one source. -/
def tokenCount : Nat := 1000000

/-- How deep parentheses and negations of a condition may nest, the condition itself counted. -/
def conditionDepth : Nat := 64

/-- Most rules of one set. -/
def ruleCount : Nat := 100000

/-- Most strings of one rule. -/
def stringsPerRule : Nat := 10000

/-- Largest bound of a jump inside a hex string. -/
def hexJump : Nat := 4096

/-- How deep alternatives of a hex string may nest. -/
def hexNesting : Nat := 8

/-- Largest size of a compiled pattern program, in bytes. -/
def programSize : Nat := 10 * 1024 * 1024

/-- Events that the in-memory log keeps. -/
def logBuffer : Nat := 10000

/-- Longest message of a log event, in bytes. -/
def logMessage : Nat := 10000

end Limits

end PackageScan
