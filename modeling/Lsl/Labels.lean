/- # The labels of a body

A jump may lead to a label further down, so the labels of a body are found
before its statements are resolved. Scopes are numbered from 1 in the order
they are entered, and a label is known by the number of its scope and its place
in it.

Key definitions: `LabelSite`, `Block.labelSites`.
-/
import Lsl.Script.Basic

namespace Lsl

/-- A label statement and where it stands: the number of its scope, and how
many statements of the scope come before it. -/
structure LabelSite where
  name : String
  span : Span
  scopeId : Nat
  index : Nat
deriving DecidableEq, Repr, Inhabited

mutual

/-- The labels in the statements of scope `scope`, from place `index` on.
`last` is the number given out last; the new one is returned. -/
def labelsOfStmts (scope index last : Nat) : List Stmt → Nat × List LabelSite
  | [] => (last, [])
  | s :: rest =>
    let (last, sites) := labelsOfStmt scope index last s
    let (last, more) := labelsOfStmts scope (index + 1) last rest
    (last, sites ++ more)

def labelsOfStmt (scope index last : Nat) : Stmt → Nat × List LabelSite
  | .block (.mk stmts _) _ => labelsOfStmts (last + 1) 0 (last + 1) stmts
  | .plain stmt => labelsOfPlain scope index last stmt

def labelsOfPlain (scope index last : Nat) : PlainStmt → Nat × List LabelSite
  | .label name span => (last, [{ name, span, scopeId := scope, index }])
  | .branch _ thenBranch elseIfs elseBranch _ =>
    let (last, sites) := labelsOfBody last thenBranch
    let (last, more) := labelsOfElseIfs last elseIfs
    let (last, rest) := labelsOfElse last elseBranch
    (last, sites ++ more ++ rest)
  | .whileLoop _ body _ | .doWhile body _ _ | .forLoop _ _ _ body _ => labelsOfBody last body
  | .empty _ | .expr .. | .declare .. | .ret .. | .jump .. | .stateChange .. => (last, [])

/-- A body opens a scope, with or without braces. -/
def labelsOfBody (last : Nat) : Stmt → Nat × List LabelSite
  | .block (.mk stmts _) _ => labelsOfStmts (last + 1) 0 (last + 1) stmts
  | .plain stmt => labelsOfPlain (last + 1) 0 (last + 1) stmt

def labelsOfElseIfs (last : Nat) : List ElseIf → Nat × List LabelSite
  | [] => (last, [])
  | .mk _ body _ :: rest =>
    let (last, sites) := labelsOfBody last body
    let (last, more) := labelsOfElseIfs last rest
    (last, sites ++ more)

def labelsOfElse (last : Nat) : Option Stmt → Nat × List LabelSite
  | none => (last, [])
  | some body => labelsOfBody last body

end

/-- The labels of a body, in the order they are written. -/
def Block.labelSites (body : Block) : List LabelSite :=
  (labelsOfStmts 1 0 1 body.stmts).2

end Lsl
