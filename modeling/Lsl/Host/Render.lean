/- # The text of host code

How expressions, statements and methods of the host are written. A statement
is a list of lines with their depth; a body stands between braces on lines of
their own, one level deeper.

Key definitions: `Ty.hostName`, `HostExpr.render`, `HostStmt.layout`,
`HostMethod.layout`.
-/
import Lsl.Host.Code

namespace Lsl

namespace Ty

/-- The boxed type of the host for values of a type. -/
def hostName : Ty → String
  | integer => "LSL_Types.LSLInteger"
  | float => "LSL_Types.LSLFloat"
  | string | key => "LSL_Types.LSLString"
  | vector => "LSL_Types.Vector3"
  | rotation => "LSL_Types.Quaternion"
  | list => "LSL_Types.list"
  | void => "void"

/-- The member of the utility class that stands for a variable which is never
declared. There is none for `void`. -/
def absentName : Ty → String
  | integer => "UTILITIES.DefaultInteger"
  | float => "UTILITIES.DefaultFloat"
  | string | key => "UTILITIES.DefaultString"
  | vector => "UTILITIES.DefaultVector"
  | rotation => "UTILITIES.DefaultRotation"
  | list => "UTILITIES.DefaultList"
  | void => ""

/-- The generic entry point for module functions with a result of this type. -/
def moduleCall : Ty → String
  | void => "modInvokeN"
  | string => "modInvokeS"
  | integer => "modInvokeI"
  | float => "modInvokeF"
  | key => "modInvokeK"
  | list => "modInvokeL"
  | vector => "modInvokeV"
  | rotation => "modInvokeR"

end Ty

/-! ### Names -/

namespace HostName

def field (name : String) : String := "GV_" ++ name

def function (name : String) : String := "FN_" ++ name

def param (name : String) : String := "PM_" ++ name

/-- A local variable, with the number of its scope, which keeps apart the
variables of one name. -/
def inner (scopeId : Nat) (name : String) : String := "LV" ++ scopeId.repr ++ "_" ++ name

def label (name : String) : String := "LSLLabel_" ++ name

def handler (state event : String) : String := state ++ "_event_" ++ event

end HostName

/-! ### Expressions -/

namespace HostExpr

mutual

def render : HostExpr → String
  | text code => code
  | make ty args => "new " ++ ty.hostName ++ "(" ++ ", ".intercalate (renderAll args) ++ ")"
  | global inContainer name =>
    (if inContainer then "this." else "this.Globals.") ++ HostName.field name
  | inner scopeId name => HostName.inner scopeId name
  | param name => HostName.param name
  | absent ty => ty.absentName
  | component object c => object.render ++ "." ++ c.name
  | callFunction name args =>
    HostName.function name ++ "(" ++ ", ".intercalate (renderAll args) ++ ")"
  | callLibrary name args => "this." ++ name ++ "(" ++ ", ".intercalate (renderAll args) ++ ")"
  | callModule result name args =>
    "this." ++ result.moduleCall ++ "("
      ++ ", ".intercalate (("\"" ++ name ++ "\"") :: renderAll args) ++ ")"
  | copyList value => "UTILITIES.CopyList(" ++ value.render ++ ")"
  | operate op right left | unstored op right left =>
    op.name ++ "(" ++ right.render ++ ", " ++ left.render ++ ")"
  | logical conjunction right left =>
    "(((bool)(" ++ right.render ++ "))" ++ (if conjunction then "&" else "|") ++ "((bool)("
      ++ left.render ++ ")))"
  | assign op target value => target.render ++ op.symbol ++ value.render
  | assignRounded target value =>
    target.render ++ "=new LSL_Types.LSLInteger(System.Math.Round((double)" ++ target.render
      ++ " * " ++ value.render ++ "))"
  | stepBefore op target => op.symbol ++ target.render
  | stepAfter op target => target.render ++ op.symbol
  | neighbour value up => value.render ++ (if up then "+1" else "-1")
  | negate value => "UTILITIES.Negate(" ++ value.render ++ ")"
  | unary op value => "(" ++ op.symbol ++ "(" ++ value.render ++ "))"
  | cast ty value => "(" ++ ty.hostName ++ ")(" ++ value.render ++ ")"
  | paren value => "(" ++ value.render ++ ")"
  | force value => "UTILITIES.ForceStatement(" ++ value.render ++ ")"
  | toBool value => "UTILITIES.ToBool(" ++ value.render ++ ")"
  | keyToBool value => "UTILITIES.ToBool(new LSL_Types.key(" ++ value.render ++ "))"

def renderAll : List HostExpr → List String
  | [] => []
  | e :: rest => e.render :: renderAll rest

end

end HostExpr

/-! ### Lines -/

/-- A line of the output, or a place where one blank line is wanted. -/
inductive OutputLine where
  | code (depth : Nat) (text : String)
  | gap
deriving DecidableEq, Repr, Inhabited

/-- Lines between braces, which are themselves at `depth`. -/
def braced (depth : Nat) (body : List OutputLine) : List OutputLine :=
  .code depth "\x7b" :: body ++ [.code depth "\x7d"]

mutual

/-- The lines of a statement at a depth; `checkpoint` is the call that lets the
runtime end the script. -/
def HostStmt.layout (checkpoint : String) (depth : Nat) : HostStmt → List OutputLine
  | .checkpoint => [.code depth (checkpoint ++ ";")]
  | .eval value => [.code depth (value.render ++ ";")]
  | .declare ty scopeId name value =>
    [.code depth
      (ty.hostName ++ " " ++ HostName.inner scopeId name ++ " = " ++ value.render ++ ";")]
  | .ret none => [.code depth "return;"]
  | .ret (some value) => [.code depth ("return " ++ value.render ++ ";")]
  | .goto name => [.code depth ("goto " ++ HostName.label name ++ ";")]
  | .label name true => [.code depth (HostName.label name ++ ": " ++ checkpoint ++ ";")]
  | .label name false => [.code depth (HostName.label name ++ ":;")]
  | .changeState target => [.code depth ("this.state(\"" ++ target ++ "\");")]
  | .branch cond body arms otherwise =>
    .code depth ("if(" ++ cond.render ++ ")")
      :: braced depth (HostStmt.layoutAll checkpoint (depth + 1) body)
      ++ HostArm.layoutAll checkpoint depth arms ++ HostStmt.layoutElse checkpoint depth otherwise
  | .whileLoop cond body =>
    .code depth ("while(" ++ cond.render ++ ")")
      :: braced depth (HostStmt.layoutAll checkpoint (depth + 1) body)
  | .doWhile body cond =>
    .code depth "do" :: braced depth (HostStmt.layoutAll checkpoint (depth + 1) body)
      ++ [.code depth ("while(" ++ cond.render ++ ");")]
  | .forLoop init cond step body =>
    .code depth ("for(" ++ ",".intercalate (HostExpr.renderAll init) ++ ";"
        ++ (match cond with | none => "" | some c => c.render) ++ ";"
        ++ ",".intercalate (HostExpr.renderAll step) ++ ")")
      :: braced depth (HostStmt.layoutAll checkpoint (depth + 1) body)
  | .block body => braced depth (HostStmt.layoutAll checkpoint (depth + 1) body)

def HostStmt.layoutAll (checkpoint : String) (depth : Nat) : List HostStmt → List OutputLine
  | [] => []
  | s :: rest => s.layout checkpoint depth ++ HostStmt.layoutAll checkpoint depth rest

def HostArm.layoutAll (checkpoint : String) (depth : Nat) : List HostArm → List OutputLine
  | [] => []
  | .mk cond body :: rest =>
    .code depth ("else if(" ++ cond.render ++ ")")
      :: braced depth (HostStmt.layoutAll checkpoint (depth + 1) body)
      ++ HostArm.layoutAll checkpoint depth rest

def HostStmt.layoutElse (checkpoint : String) (depth : Nat) :
    Option (List HostStmt) → List OutputLine
  | none => []
  | some body =>
    .code depth "else" :: braced depth (HostStmt.layoutAll checkpoint (depth + 1) body)

end

/-- The heading of a method. -/
def HostMethod.heading (m : HostMethod) : String :=
  "public " ++ m.result.hostName ++ " " ++ m.name ++ "("
    ++ ", ".intercalate (m.params.map fun (ty, name) => ty.hostName ++ " " ++ HostName.param name)
    ++ ")"

def HostMethod.layout (checkpoint : String) (depth : Nat) (m : HostMethod) : List OutputLine :=
  .code depth m.heading :: braced depth (HostStmt.layoutAll checkpoint (depth + 1) m.body)

/-- The definition of the method that performs an operation. -/
def Operation.layout (depth : Nat) (o : Operation) : List OutputLine :=
  .code depth ("private " ++ o.result.hostName ++ " " ++ o.name ++ "(" ++ o.right.hostName
      ++ " right, " ++ o.left.hostName ++ " left)")
    :: braced depth [.code (depth + 1) ("return left " ++ o.op.symbol ++ " right;")]

end Lsl
