import PackageScan.Proofs.Outcome
import PackageScan.RuleSet.Compiler

/-!
# Logged work and what it yields

A piece of logged work *yields* a value when it answers with it whatever has been logged before
and whatever is asked to be logged. Work that only logs yields `()`, so the log can be dropped
from a chain of steps one step at a time.
-/

namespace PackageScan

namespace Logged

variable {α β : Type}

/-- The work answers with the value from every journal. -/
def Yields (work : Logged α) (a : α) : Prop := ∀ j : Journal, (work.run j).1 = a

theorem yields_pure (a : α) : Yields (pure a : Logged α) a := fun _ => rfl

/-- From one journal a chain answers with what its rest yields on the answer of its first step. -/
theorem Yields.run_bind {work : Logged α} {f : α → Logged β} {a : α} {b : β} {j : Journal}
    (h : (work.run j).1 = a) (hf : Yields (f a) b) : ((work >>= f).run j).1 = b := by
  have hb : ((f (work.run j).1).run (work.run j).2).1 = b := by
    rw [h]
    exact hf _
  exact hb

/-- A chain yields what its rest yields on what its first step yields. -/
theorem Yields.bind {work : Logged α} {f : α → Logged β} {a : α} {b : β}
    (h : Yields work a) (hf : Yields (f a) b) : Yields (work >>= f) b :=
  fun j => Yields.run_bind (h j) hf

/-- Whatever only logs may come first. -/
theorem Yields.after {b : β} {log : Logged Unit} {work : Unit → Logged β}
    (h : Yields (work ()) b) : Yields (log >>= work) b :=
  Yields.bind (fun _ => rfl) h

end Logged

open Logged

/-! ### The stages of reading a source -/

private theorem Lexer.scanLogged_yields (source : String) :
    Yields (Lexer.scanLogged source) (Lexer.scan source) := by
  rw [Lexer.scanLogged]
  rcases Lexer.scan source with ⟨metrics, outcome⟩
  dsimp only
  split
  · exact .after (yields_pure _)
  · exact .after (yields_pure _)
  · exact yields_pure _

private theorem Parser.parseLogged_yields (ts : TokenStream) :
    Yields (Parser.parseLogged ts) (Parser.parse ts) := by
  rw [Parser.parseLogged]
  dsimp only
  split <;> exact .after (yields_pure _)

private theorem Validation.checkLogged_yields (rules : List RuleDecl) (declared : RuleNames)
    (reject : Bool) : Yields (Validation.checkLogged rules declared reject)
      (Validation.check rules declared reject) := by
  rw [Validation.checkLogged, Validation.check]
  cases Validation.checkCount declared.size rules with
  | error e => exact yields_pure _
  | ok _ =>
    dsimp only
    cases Validation.checkRules reject declared rules with
    | error e => exact .after (yields_pure _)
    | ok _ => exact yields_pure _

namespace Compiler

/-- **The log has no part in it.** What is decided about a source is its outcome. -/
theorem outcomeLogged_yields (c : Compiler) (source : String) :
    Yields (c.outcomeLogged source) (c.outcome source) := by
  rw [outcomeLogged, outcome, Lexer.tokenize]
  refine .bind (Lexer.scanLogged_yields source) ?_
  rcases Lexer.scan source with ⟨metrics, _ | tokens⟩
  · exact yields_pure _
  rw [Outcome.mapError_ok, Outcome.ok_bind]
  refine .after (.bind (Parser.parseLogged_yields tokens) ?_)
  rcases Parser.parse tokens with _ | rules
  · exact yields_pure _
  rw [Outcome.mapError_ok, Outcome.ok_bind]
  refine .bind (Validation.checkLogged_yields rules _ _) ?_
  rcases Validation.check rules c.declared c.preferences.rejectUnreferenced with _ | _
  · exact yields_pure _
  rw [Outcome.mapError_ok, Outcome.ok_bind]
  rcases c.set.pushAll c.preferences.programLimit rules with _ | set
  · exact yields_pure _
  · exact yields_pure _

theorem addSource_yields (c : Compiler) (source : String) :
    Yields (c.addSource source) (c.add source) := by
  rw [addSource, add]
  refine .bind (outcomeLogged_yields c source) ?_
  rcases c.outcome source with e | result
  · exact .after (yields_pure _)
  · exact yields_pure _

theorem build_yields (c : Compiler) : Yields c.build c.set := by
  intro j
  rw [build]
  change ((if j.preferences.compilationSummary = true then _ else _ : Logged RuleSet).run j).1 = _
  split <;> rfl

/-- Adds sources one after another; every stage is logged. -/
def addEach (c : Compiler) : List String → Logged Compiler
  | [] => return c
  | source :: rest => do
    let (_, c) ← c.addSource source
    c.addEach rest

theorem addEach_yields (c : Compiler) (sources : List String) :
    Yields (c.addEach sources) (c.addAll sources) := by
  induction sources generalizing c with
  | nil => exact yields_pure c
  | cons source rest ih => exact .bind (addSource_yields c source) (ih _)

end Compiler

/-- Compiling one source without a log gives what compiling it with a log does. -/
theorem RuleSet.compileLogged_yields (preferences : CompilerPreferences) (source : String) :
    Yields (RuleSet.compileLogged preferences source) (RuleSet.compile preferences source) := by
  rw [RuleSet.compileLogged, RuleSet.compile]
  refine .bind (Compiler.addSource_yields _ source) ?_
  rw [Compiler.add]
  cases ({ preferences : Compiler }).outcome source with
  | error e => exact yields_pure _
  | ok result => exact .bind (Compiler.build_yields _) (yields_pure _)

end PackageScan
