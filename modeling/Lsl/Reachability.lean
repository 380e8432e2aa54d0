/- # Reachability inside a scope

Statements are appended to a scope one after the other, and each is classified
at that moment: live, or dead for a reason. What is known of the statements
before it is a set of constant jumps, each always taken once reached, and
whether some statement always returns. A dead statement adds no jumps of its
own.

A statement is dead after a jump out of the scope or back to an earlier place,
while a jump leads over it, and after a statement that always returns. The last
ends at a label that a live jump further up leads to.

The statements that are dead for one cause, one behind the other, form a
segment. At most one segment is open at a time; one that is jumped over knows
the place where it ends.

Key definitions: `Tracker`, `Tracker.classify`, `Tracker.segments`,
`Tree.append`.
-/
import Lsl.InternalError
import Lsl.Tree.Basic

namespace Lsl

/-- What a statement does to the flow of control, seen from its scope. -/
structure Facts where
  /-- Every way through the statement returns. -/
  returns : Bool := false
  /-- The jump that the statement always performs. -/
  constantJump : Option ConstantJump := none
deriving DecidableEq, Repr, Inhabited

/-- A segment that the next statement may belong to. -/
structure OpenSegment where
  segment : DeadSegment
  /-- The place that a jump over the segment leads to. -/
  resumesAt : Option Nat := none
deriving DecidableEq, Repr, Inhabited

/-- What is known about a scope after some of its statements. -/
structure Tracker where
  scopeId : Nat
  singleStatement : Bool := false
  statements : List NodeId := []
  /-- The statement that always returns, if one does. -/
  returnPath : Option NodeId := none
  current : Option OpenSegment := none
  closed : List DeadSegment := []
  constantJumps : List ConstantJump := []
deriving DecidableEq, Repr, Inhabited

namespace Tracker

/-- The place of the next statement. -/
def nextIndex (t : Tracker) : Nat := t.statements.length

def hasReturnPath (t : Tracker) : Bool := t.returnPath.isSome

/-- The place where the code that is being jumped over ends. -/
def resumesAt (t : Tracker) : Option Nat := t.current.bind (·.resumesAt)

/-- Ends the open segment. -/
def close (t : Tracker) : Tracker :=
  match t.current with
  | none => t
  | some s => { t with current := none, closed := t.closed ++ [s.segment] }

/-- Whether an earlier return is all that makes the next statement dead. -/
def onlyAfterReturn (t : Tracker) : Bool :=
  t.hasReturnPath && !t.singleStatement
    && match t.current with
      | none => true
      | some s => s.segment.reason == .afterReturn

/-- Forgets the return, which a label that is jumped to takes back. -/
def revive (t : Tracker) : Tracker := { t.close with returnPath := none }

/-- Why a jump makes the statement at `index` dead, and where that ends. -/
def blockedBy (scopeId index : Nat) (j : ConstantJump) : Option (Reach × Option Nat) :=
  if j.targetScope ≠ scopeId then some (.afterJumpOut, none)
  else if j.jumpIndex < index ∧ index < j.targetIndex then some (.jumpedOver, some j.targetIndex)
  else if j.jumpIndex < index ∧ j.targetIndex ≤ j.jumpIndex then some (.afterJumpBack, none)
  else none

/-- Opens a segment that has no statement yet. -/
def openSegment (t : Tracker) (reason : Reach) (resumesAt : Option Nat) (span : Span) : Tracker :=
  { t with current := some { segment := { reason, statements := [], span }, resumesAt } }

/-- Opens a segment if a jump makes the statement at `index` dead and no
segment is open. The first such jump counts. -/
def openAfterJump (t : Tracker) (index : Nat) (span : Span) : Tracker :=
  match t.current with
  | some _ => t
  | none =>
    match t.constantJumps.findSome? (blockedBy t.scopeId index) with
    | some (reason, resumesAt) => t.openSegment reason resumesAt span
    | none => t

/-- Takes up whether the statement returns. Code that is jumped over says
nothing about the scope, so there only the latest statement counts, as in a
scope of one statement. Otherwise the first return counts, and what follows it
is dead. -/
def noteReturn (t : Tracker) (id : NodeId) (returns : Bool) (span : Span) : Tracker :=
  if t.resumesAt.isSome || t.singleStatement then
    { t with returnPath := if returns then some id else none }
  else if t.returnPath.isNone && returns then { t with returnPath := some id }
  else if t.returnPath.isSome && t.current.isNone then t.openSegment .afterReturn none span
  else t

/-- Ends code that is jumped over at the place where the jump leads. -/
def arrive (t : Tracker) (index : Nat) : Tracker :=
  match t.resumesAt with
  | some place => if place ≤ index then t.close else t
  | none => t

/-- How the statement just taken up is classified. -/
def reach (t : Tracker) : Reach :=
  match t.current with
  | some s => s.segment.reason
  | none => .live

/-- Puts a dead statement into the open segment. -/
def extend (t : Tracker) (id : NodeId) (span : Span) : Tracker :=
  { t with current := t.current.map fun s =>
      { s with segment :=
        { s.segment with
          statements := s.segment.statements ++ [id]
          span := s.segment.span.cover span } } }

/-- Appends a statement and classifies it. `reached` tells that it is a label
which a live jump leads to. -/
def classify (t : Tracker) (id : NodeId) (span : Span) (returns reached : Bool) :
    Tracker × Reach :=
  let index := t.nextIndex
  let t := { t with statements := t.statements ++ [id] }
  let t := if t.onlyAfterReturn && reached then t.revive else t
  let t := (((t.openAfterJump index span).noteReturn id returns span).arrive index).extend id span
  (t, t.reach)

/-- Keeps the jump of a live statement. -/
def record (t : Tracker) (jump : Option ConstantJump) : Tracker :=
  { t with constantJumps := t.constantJumps ++ jump.toList }

/-- The segments of dead statements, in the order of the source. -/
def segments (t : Tracker) : List DeadSegment :=
  t.close.closed.mergeSort fun a b => a.span.start ≤ b.span.start

end Tracker

/-- Marks a jump as always taken. -/
def StmtKind.markConstant : StmtKind → StmtKind
  | .jump name target _ => .jump name target true
  | k => k

namespace Tree

/-- Whether a node is live as far as statements go: it is none, or a live one. -/
def isLive (t : Tree) (id : NodeId) : Bool := (t.stmt? id).all (!·.info.dead.isDead)

/-- Whether a label is the target of a jump that is live together with all
statements around it. The jumps known so far all stand above the label. -/
def reachedByLiveJump (t : Tree) (label : NodeId) : Bool :=
  match t.stmt? label with
  | some ⟨.label _ jumps, _⟩ => jumps.any fun j => (j :: t.ancestors j).all t.isLive
  | _ => false

/-- What appending a statement leads to. The tree and the tracker are those
reached when a failure is noticed. -/
structure Appended where
  tree : Tree
  tracker : Tracker
  outcome : Except InternalError Reach

/-- Notes that a statement is no longer the last of its scope. -/
def unsetLast (t : Tree) (id : NodeId) : Tree :=
  t.modifyStmt id fun s => { s with info := { s.info with isLast := false } }

/-- Notes the place and the classification of a statement. -/
def place (t : Tree) (id : NodeId) (info : StmtInfo) (alwaysJumps : Bool) : Tree :=
  t.modifyStmt id fun s => { kind := if alwaysJumps then s.kind.markConstant else s.kind, info }

/-- Appends the statement `id` to the scope, classifies it, and notes on it
what came out. -/
def append (t : Tree) (tracker : Tracker) (id : NodeId) (facts : Facts) : Appended :=
  match tracker.statements.getLast?.filter (fun last => (t.stmt? last).isNone) with
  | some last => ⟨t, tracker, .error (.unexpectedNode last "statement")⟩
  | none =>
    let t := match tracker.statements.getLast? with
      | some last => t.unsetLast last
      | none => t
    let index := tracker.nextIndex
    let (tracker, reach) :=
      tracker.classify id (t.span id) facts.returns (t.reachedByLiveJump id)
    if (t.stmt? id).isNone then ⟨t, tracker, .error (.unexpectedNode id "statement")⟩
    else
      let jump := if reach.isDead then none else facts.constantJump
      let info : StmtInfo :=
        { index, isLast := true, scopeId := tracker.scopeId, dead := reach
          returnPath := if facts.returns then some id else none }
      ⟨t.place id info jump.isSome, tracker.record jump, .ok reach⟩

end Tree

end Lsl
