/- # Errors and warnings

Everything that can be said about a script. Each kind of error and of warning
has a code that never changes and a text.

Key definitions: `Fault`, `Warning`, `Notice`, `Notice.sort`.
-/
import Lsl.Span
import Lsl.Ty
import Lsl.Operator
import Lsl.Tree.Node

namespace Lsl

/-- What makes a script wrong. -/
inductive Fault where
  -- names and declarations
  | undefinedVariable (name : String)
  | variableRedefined (name : String) (previous : Span)
  | parameterRedefined (name : String)
  | functionRedefined (name : String) (previous : Span)
  | libraryFunctionRedefined (name : String)
  | libraryConstantRedefined (name : String)
  | labelRedefined (name : String) (previous : Span)
  | jumpToUndefinedLabel (name : String)
  | undefinedFunction (name : String)
  | stateRedefined (name : String) (previous : Span)
  | defaultStateRedefined
  | missingDefaultState
  | stateChangeToUndefined (name : String)
  | handlerRedefined (name state : String)
  | unknownEvent (name : String)
  | stateWithoutHandlers (state : String)
  | declarationWithoutBraces (name : String)
  -- types
  | invalidBinary (op : BinaryOp) (left right : Ty)
  | invalidPrefixed (op : PrefixOp) (operand : Ty)
  | invalidPostfixed (op : PostfixOp) (operand : Ty)
  | invalidCast (source target : Ty)
  | initializerMismatch (name : String) (expected found : Ty)
  | argumentCount (name : String) (expected found : Nat)
  /-- Arguments are counted from 1. -/
  | argumentType (name : String) (index : Nat) (expected found : Ty)
  | noMatchingOverload (name : String) (args : List Ty)
  | ambiguousOverload (name : String)
  | invalidLiteralComponent (literal : String) (found : Ty)
  | invalidListElement (found : Ty)
  | invalidCondition (found : Ty)
  | incorrectSignature (name expected : String)
  | invalidComponent (component : Component) (ty : Ty)
  | constantModified (name : String)
  | notAssignable
  | invalidEscape (escape : Char)
  -- control flow
  | valueFromHandler
  | valueFromVoidFunction (name : String)
  | returnMismatch (name : String) (expected found : Ty)
  | missingReturnValue (name : String) (expected : Ty)
  | notAllPathsReturn (name : String)
  | deadCodeAfterReturn (name : String)
  -- initializers of globals
  | notStatic (what : String)
deriving DecidableEq, Repr, Inhabited

namespace Fault

def code : Fault → String
  | undefinedVariable _ => "E0200"
  | variableRedefined .. => "E0201"
  | parameterRedefined _ => "E0202"
  | functionRedefined .. => "E0203"
  | libraryFunctionRedefined _ => "E0204"
  | libraryConstantRedefined _ => "E0205"
  | labelRedefined .. => "E0206"
  | jumpToUndefinedLabel _ => "E0207"
  | undefinedFunction _ => "E0208"
  | stateRedefined .. => "E0209"
  | defaultStateRedefined => "E0210"
  | missingDefaultState => "E0211"
  | stateChangeToUndefined _ => "E0212"
  | handlerRedefined .. => "E0213"
  | unknownEvent _ => "E0214"
  | stateWithoutHandlers _ => "E0215"
  | declarationWithoutBraces _ => "E0216"
  | invalidBinary .. => "E0300"
  | invalidPrefixed .. => "E0301"
  | invalidPostfixed .. => "E0302"
  | invalidCast .. => "E0303"
  | initializerMismatch .. => "E0304"
  | argumentCount .. => "E0305"
  | argumentType .. => "E0306"
  | noMatchingOverload .. => "E0307"
  | ambiguousOverload _ => "E0308"
  | invalidLiteralComponent .. => "E0309"
  | invalidListElement _ => "E0310"
  | invalidCondition _ => "E0311"
  | incorrectSignature .. => "E0313"
  | invalidComponent .. => "E0314"
  | constantModified _ => "E0315"
  | notAssignable => "E0316"
  | invalidEscape _ => "E0317"
  | valueFromHandler => "E0400"
  | valueFromVoidFunction _ => "E0401"
  | returnMismatch .. => "E0402"
  | missingReturnValue .. => "E0403"
  | notAllPathsReturn _ => "E0404"
  | deadCodeAfterReturn _ => "E0405"
  | notStatic _ => "E0500"

/-- A name between backticks. -/
def ticked (name : String) : String := "`" ++ name ++ "`"

def message : Fault → String
  | undefinedVariable name => "undefined variable " ++ ticked name
  | variableRedefined name _ => "variable " ++ ticked name ++ " is already defined in this scope"
  | parameterRedefined name => "parameter " ++ ticked name ++ " is declared more than once"
  | functionRedefined name _ => "function " ++ ticked name ++ " is already defined"
  | libraryFunctionRedefined name => "function " ++ ticked name ++ " redefines a library function"
  | libraryConstantRedefined name => ticked name ++ " redefines a library constant"
  | labelRedefined name _ =>
    "label " ++ ticked name ++ " is already defined in this function or event"
  | jumpToUndefinedLabel name => "jump to undefined label " ++ ticked name
  | undefinedFunction name => "call to undefined function " ++ ticked name
  | stateRedefined name _ => "state " ++ ticked name ++ " is already defined"
  | defaultStateRedefined => "the default state cannot be redefined"
  | missingDefaultState => "script has no default state"
  | stateChangeToUndefined name => "state change to undefined state " ++ ticked name
  | handlerRedefined name state =>
    "event handler " ++ ticked name ++ " is already defined in state " ++ ticked state
  | unknownEvent name => ticked name ++ " is not a known event"
  | stateWithoutHandlers state => "state " ++ ticked state ++ " has no event handlers"
  | declarationWithoutBraces name =>
    "variable " ++ ticked name ++ " cannot be declared as the body of a braceless statement"
  | invalidBinary op left right =>
    "operator " ++ ticked op.symbol ++ " cannot be applied to " ++ left.name ++ " and "
      ++ right.name
  | invalidPrefixed op operand =>
    "prefix operator " ++ ticked op.symbol ++ " cannot be applied to " ++ operand.name
  | invalidPostfixed op operand =>
    "postfix operator " ++ ticked op.symbol ++ " cannot be applied to " ++ operand.name
  | invalidCast source target => "cannot cast " ++ source.name ++ " to " ++ target.name
  | initializerMismatch name expected found =>
    "cannot initialize " ++ ticked name ++ " of type " ++ expected.name ++ " with a value of type "
      ++ found.name
  | argumentCount name expected found =>
    ticked name ++ " takes " ++ expected.repr ++ " argument(s) but " ++ found.repr
      ++ " were supplied"
  | argumentType name index expected found =>
    "argument " ++ index.repr ++ " of " ++ ticked name ++ " expects " ++ expected.name
      ++ " but found " ++ found.name
  | noMatchingOverload name args =>
    "no overload of " ++ ticked name ++ " accepts (" ++ ", ".intercalate (args.map (·.name)) ++ ")"
  | ambiguousOverload name => "call to " ++ ticked name ++ " matches more than one overload"
  | invalidLiteralComponent literal found =>
    literal ++ " components must be integer or float, found " ++ found.name
  | invalidListElement found => "list elements cannot be of type " ++ found.name
  | invalidCondition found => "condition of type " ++ found.name ++ " cannot be evaluated"
  | incorrectSignature name expected =>
    "event " ++ ticked name ++ " must be declared as " ++ expected
  | invalidComponent component ty =>
    "component " ++ ticked ("." ++ component.name) ++ " is not available on " ++ ty.name
  | constantModified name => "library constant " ++ ticked name ++ " cannot be modified"
  | notAssignable => "expression cannot be assigned to"
  | invalidEscape escape =>
    "invalid escape sequence " ++ ticked ("\\" ++ String.singleton escape) ++ " in string literal"
  | valueFromHandler => "event handlers cannot return a value"
  | valueFromVoidFunction name =>
    "function " ++ ticked name ++ " returns void and cannot return a value"
  | returnMismatch name expected found =>
    ticked name ++ " must return " ++ expected.name ++ ", found " ++ found.name
  | missingReturnValue name expected =>
    ticked name ++ " must return a value of type " ++ expected.name
  | notAllPathsReturn name => "not all code paths in " ++ ticked name ++ " return a value"
  | deadCodeAfterReturn name => "unreachable code after a return path in " ++ ticked name
  | notStatic what => what ++ " is not allowed in a global variable initializer"

end Fault

/-- What is worth telling about a script that is not wrong for it. -/
inductive Warning where
  | deadCode (reason : Reach)
  | deprecatedFunction (name : String)
  | deprecatedConstant (name : String)
  | deprecatedEvent (name : String)
  | functionNeverUsed (name : String)
  | globalNeverUsed (name : String)
  | localNeverUsed (name : String)
  | parameterNeverUsed (name : String)
  | localHidesParameter (name : String)
  | localHidesGlobal (name : String)
  | parameterHidesGlobal (name : String)
  | constantCondition
  | noEffect
  | uselessSemicolon
  | redundantCast (ty : Ty)
deriving DecidableEq, Repr, Inhabited

namespace Warning

open Fault (ticked)

def code : Warning → String
  | deadCode _ => "W0001"
  | deprecatedFunction _ => "W0002"
  | deprecatedConstant _ => "W0003"
  | deprecatedEvent _ => "W0004"
  | functionNeverUsed _ => "W0005"
  | globalNeverUsed _ => "W0006"
  | localNeverUsed _ => "W0007"
  | parameterNeverUsed _ => "W0008"
  | localHidesParameter _ => "W0009"
  | localHidesGlobal _ => "W0010"
  | parameterHidesGlobal _ => "W0011"
  | constantCondition => "W0012"
  | noEffect => "W0013"
  | uselessSemicolon => "W0014"
  | redundantCast _ => "W0015"

def message : Warning → String
  | deadCode reason => "unreachable " ++ reason.describe
  | deprecatedFunction name => "library function " ++ ticked name ++ " is deprecated"
  | deprecatedConstant name => "library constant " ++ ticked name ++ " is deprecated"
  | deprecatedEvent name => "event " ++ ticked name ++ " is deprecated"
  | functionNeverUsed name => "function " ++ ticked name ++ " is never used"
  | globalNeverUsed name => "global variable " ++ ticked name ++ " is never used"
  | localNeverUsed name => "local variable " ++ ticked name ++ " is never used"
  | parameterNeverUsed name => "parameter " ++ ticked name ++ " is never used"
  | localHidesParameter name => "local variable " ++ ticked name ++ " hides a parameter"
  | localHidesGlobal name => "local variable " ++ ticked name ++ " hides a global variable"
  | parameterHidesGlobal name => "parameter " ++ ticked name ++ " hides a global variable"
  | constantCondition => "condition is always the same"
  | noEffect => "expression statement has no effect"
  | uselessSemicolon => "unnecessary semicolon"
  | redundantCast ty => "redundant cast to " ++ ty.name

end Warning

/-- An error or a warning, and the part of the source it is about. -/
inductive Notice where
  | fault (kind : Fault) (span : Span)
  | warning (kind : Warning) (span : Span)
deriving DecidableEq, Repr, Inhabited

namespace Notice

def span : Notice → Span
  | fault _ s | warning _ s => s

def isFault : Notice → Bool
  | fault .. => true
  | warning .. => false

def code : Notice → String
  | fault k _ => k.code
  | warning k _ => k.code

def message : Notice → String
  | fault k _ => k.message
  | warning k _ => k.message

/-- Errors stand before warnings at the same offset. -/
def rank : Notice → Nat
  | fault .. => 0
  | warning .. => 1

/-- Whether a notice may stand before another in the order of the source. -/
def notAfter (a b : Notice) : Bool :=
  a.span.start < b.span.start || (a.span.start == b.span.start && a.rank ≤ b.rank)

/-- Notices in the order of the source; those at one offset keep their order,
errors before warnings. -/
def sort (notices : List Notice) : List Notice := notices.mergeSort notAfter

end Notice

end Lsl
