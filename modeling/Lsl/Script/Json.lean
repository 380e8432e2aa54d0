/- # Scripts as JSON

The serialized form of a script. Writing puts every field down; reading lets a
span, an empty list, an absent value and the type `void` of a function be left
out. A kind of expression or statement is a tag with a payload, and the empty
statement is a tag alone.

Reading follows the nesting of the JSON value, so the height of the value
bounds the recursion.

Key definitions: `Script.toJson`, `Script.ofJson`, `Expr.toJson`, `Expr.ofJson`,
`Script.ofText`.
-/
import Lsl.Json.Decode
import Lsl.Json.Reader
import Lsl.Script.Basic

namespace Lsl

open Json (required defaulted optional asString asTag asList nullable asOffset)

/-! ### Writing -/

namespace Span

def toJson (s : Span) : Json :=
  .obj [("start", .nat s.start), ("end", .nat s.stop)]

def ofJson (v : Json) : Except DecodeError Span := do
  let start ← v.required "start" asOffset
  let stop ← v.required "end" asOffset
  return { start, stop }

end Span

/-- A value with one tag and its payload. -/
def tagged (tag : String) (payload : Json) : Json := .obj [(tag, payload)]

/-- A kind and the span it was read from. -/
def spanned (kind : Json) (span : Span) : Json :=
  .obj [("kind", kind), ("span", span.toJson)]

namespace Expr

mutual

def toJson : Expr → Json
  | integer text s => spanned (tagged "integer" (.str text)) s
  | hex text s => spanned (tagged "hex" (.str text)) s
  | float text s => spanned (tagged "float" (.str text)) s
  | string text s => spanned (tagged "string" (.str text)) s
  | vector x y z s =>
    spanned (tagged "vector" (.obj [("x", toJson x), ("y", toJson y), ("z", toJson z)])) s
  | rotation x y z w s =>
    spanned (tagged "rotation"
      (.obj [("x", toJson x), ("y", toJson y), ("z", toJson z), ("s", toJson w)])) s
  | list items s => spanned (tagged "list" (.arr (listToJson items))) s
  | ident name s => spanned (tagged "ident" (.str name)) s
  | component object c s =>
    spanned (tagged "component" (.obj [("object", toJson object), ("component", .str c.name)])) s
  | call name args s =>
    spanned (tagged "call" (.obj [("name", .str name), ("args", .arr (listToJson args))])) s
  | binary op left right s =>
    spanned (tagged "binary"
      (.obj [("op", .str op.tag), ("left", toJson left), ("right", toJson right)])) s
  | prefixed op operand s =>
    spanned (tagged "prefix" (.obj [("op", .str op.tag), ("operand", toJson operand)])) s
  | postfixed op operand s =>
    spanned (tagged "postfix" (.obj [("op", .str op.tag), ("operand", toJson operand)])) s
  | cast ty operand s =>
    spanned (tagged "cast" (.obj [("ty", .str ty.name), ("operand", toJson operand)])) s
  | paren inner s => spanned (tagged "paren" (toJson inner)) s

def listToJson : List Expr → List Json
  | [] => []
  | e :: rest => toJson e :: listToJson rest

end

def optionToJson : Option Expr → Json
  | none => .null
  | some e => e.toJson

end Expr

def VarDecl.toJson (d : VarDecl) : Json :=
  .obj [("name", .str d.name), ("ty", .str d.ty.name), ("init", Expr.optionToJson d.init),
    ("span", d.span.toJson)]

def Param.toJson (p : Param) : Json :=
  .obj [("name", .str p.name), ("ty", .str p.ty.name), ("span", p.span.toJson)]

mutual

def Stmt.toJson : Stmt → Json
  | .block body s => spanned (tagged "block" body.toJson) s
  | .plain stmt => stmt.toJson

def PlainStmt.toJson : PlainStmt → Json
  | .empty s => spanned (.str "empty") s
  | .expr e s => spanned (tagged "expr" e.toJson) s
  | .declare d s => spanned (tagged "local" d.toJson) s
  | .ret value s => spanned (tagged "return" (Expr.optionToJson value)) s
  | .jump name s => spanned (tagged "jump" (.obj [("label", .str name)])) s
  | .label name s => spanned (tagged "label" (.obj [("name", .str name)])) s
  | .stateChange target s => spanned (tagged "state_change" (.obj [("target", .str target)])) s
  | .branch cond t es e s =>
    spanned (tagged "if"
      (.obj [("cond", cond.toJson), ("then_branch", t.toJson),
        ("else_ifs", .arr (ElseIf.listToJson es)), ("else_branch", Stmt.optionToJson e)])) s
  | .whileLoop cond body s =>
    spanned (tagged "while" (.obj [("cond", cond.toJson), ("body", body.toJson)])) s
  | .doWhile body cond s =>
    spanned (tagged "do_while" (.obj [("body", body.toJson), ("cond", cond.toJson)])) s
  | .forLoop init cond step body s =>
    spanned (tagged "for"
      (.obj [("init", .arr (Expr.listToJson init)), ("cond", Expr.optionToJson cond),
        ("step", .arr (Expr.listToJson step)), ("body", body.toJson)])) s

def ElseIf.toJson : ElseIf → Json
  | .mk cond body s =>
    .obj [("cond", cond.toJson), ("body", body.toJson), ("span", s.toJson)]

def Block.toJson : Block → Json
  | .mk stmts s => .obj [("stmts", .arr (Stmt.listToJson stmts)), ("span", s.toJson)]

def Stmt.optionToJson : Option Stmt → Json
  | none => .null
  | some s => s.toJson

def ElseIf.listToJson : List ElseIf → List Json
  | [] => []
  | e :: rest => e.toJson :: ElseIf.listToJson rest

def Stmt.listToJson : List Stmt → List Json
  | [] => []
  | s :: rest => s.toJson :: Stmt.listToJson rest

end

def FunctionDecl.toJson (d : FunctionDecl) : Json :=
  .obj [("name", .str d.name), ("return_type", .str d.returnType.name),
    ("params", .list Param.toJson d.params), ("body", d.body.toJson), ("span", d.span.toJson)]

def HandlerDecl.toJson (d : HandlerDecl) : Json :=
  .obj [("name", .str d.name), ("params", .list Param.toJson d.params), ("body", d.body.toJson),
    ("span", d.span.toJson)]

def StateDecl.toJson (d : StateDecl) : Json :=
  .obj [("name", .str d.name), ("handlers", .list HandlerDecl.toJson d.handlers),
    ("span", d.span.toJson)]

def Script.toJson (s : Script) : Json :=
  .obj [("globals", .list VarDecl.toJson s.globals),
    ("functions", .list FunctionDecl.toJson s.functions),
    ("default_state", .orNull StateDecl.toJson s.defaultState),
    ("states", .list StateDecl.toJson s.states), ("span", s.span.toJson)]

/-! ### Reading -/

/-- A span that may be left out. -/
def readSpan (v : Json) : Except DecodeError Span :=
  v.defaulted "span" {} Span.ofJson

def readTy (v : Json) (name : String) : Except DecodeError Ty :=
  v.required name (asTag Ty.ofTag?)

namespace Expr

/-- The kind of an expression, given the tag and the payload it is written
with and a reader for the expressions inside. -/
def ofVariant (decode : Json.Decoder Expr) (span : Span) (tag : String) (p : Json) :
    Except DecodeError Expr :=
  match tag with
  | "integer" => do return integer (← asString p) span
  | "hex" => do return hex (← asString p) span
  | "float" => do return float (← asString p) span
  | "string" => do return string (← asString p) span
  | "vector" => do
    return vector (← p.required "x" decode) (← p.required "y" decode) (← p.required "z" decode)
      span
  | "rotation" => do
    return rotation (← p.required "x" decode) (← p.required "y" decode) (← p.required "z" decode)
      (← p.required "s" decode) span
  | "list" => do return list (← asList decode p) span
  | "ident" => do return ident (← asString p) span
  | "component" => do
    return component (← p.required "object" decode)
      (← p.required "component" (asTag Component.ofTag?)) span
  | "call" => do
    return call (← p.required "name" asString) (← p.required "args" (asList decode)) span
  | "binary" => do
    return binary (← p.required "op" (asTag BinaryOp.ofTag?)) (← p.required "left" decode)
      (← p.required "right" decode) span
  | "prefix" => do
    return prefixed (← p.required "op" (asTag PrefixOp.ofTag?)) (← p.required "operand" decode) span
  | "postfix" => do
    return postfixed (← p.required "op" (asTag PostfixOp.ofTag?)) (← p.required "operand" decode)
      span
  | "cast" => do return cast (← readTy p "ty") (← p.required "operand" decode) span
  | "paren" => do return paren (← decode p) span
  | _ => .error (.unknownTag tag)

/-- Reads an expression nested at most `levels` deep. -/
def decode : Nat → Json.Decoder Expr
  | 0, _ => .error (.expected "a shallower expression")
  | levels + 1, v => do
    let (tag, payload) ← v.required "kind" Json.variant
    let span ← readSpan v
    match payload with
    | some p => ofVariant (decode levels) span tag p
    | none => .error (.expected "an expression with a payload")

def ofJson (v : Json) : Except DecodeError Expr := decode v.height v

end Expr

def VarDecl.ofJson (v : Json) : Except DecodeError VarDecl := do
  return {
    name := ← v.required "name" asString
    ty := ← readTy v "ty"
    init := ← v.optional "init" Expr.ofJson
    span := ← readSpan v }

def Param.ofJson (v : Json) : Except DecodeError Param := do
  return { name := ← v.required "name" asString, ty := ← readTy v "ty", span := ← readSpan v }

/-- A block, given a reader for its statements. -/
def Block.ofFields (decode : Json.Decoder Stmt) (v : Json) : Except DecodeError Block := do
  return .mk (← v.required "stmts" (asList decode)) (← readSpan v)

/-- A further condition of a branch, given a reader for its body. -/
def ElseIf.ofFields (decode : Json.Decoder Stmt) (v : Json) : Except DecodeError ElseIf := do
  return .mk (← v.required "cond" Expr.ofJson) (← v.required "body" decode) (← readSpan v)

namespace Stmt

/-- The kind of a statement, given the tag and the payload it is written with
and a reader for the statements inside. -/
def ofVariant (decode : Json.Decoder Stmt) (span : Span) (tag : String) (p : Json) :
    Except DecodeError Stmt :=
  match tag with
  | "empty" =>
    match p with
    | .null => .ok (.plain (.empty span))
    | _ => .error (.expected "a tag without payload")
  | "expr" => do return .plain (.expr (← Expr.ofJson p) span)
  | "local" => do return .plain (.declare (← VarDecl.ofJson p) span)
  | "return" => do return .plain (.ret (← nullable Expr.ofJson p) span)
  | "jump" => do return .plain (.jump (← p.required "label" asString) span)
  | "label" => do return .plain (.label (← p.required "name" asString) span)
  | "state_change" => do return .plain (.stateChange (← p.required "target" asString) span)
  | "if" => do
    return .plain (.branch (← p.required "cond" Expr.ofJson) (← p.required "then_branch" decode)
      (← p.defaulted "else_ifs" [] (asList (ElseIf.ofFields decode)))
      (← p.optional "else_branch" decode) span)
  | "while" => do
    return .plain (.whileLoop (← p.required "cond" Expr.ofJson) (← p.required "body" decode) span)
  | "do_while" => do
    return .plain (.doWhile (← p.required "body" decode) (← p.required "cond" Expr.ofJson) span)
  | "for" => do
    return .plain (.forLoop (← p.defaulted "init" [] (asList Expr.ofJson))
      (← p.optional "cond" Expr.ofJson) (← p.defaulted "step" [] (asList Expr.ofJson))
      (← p.required "body" decode) span)
  | "block" => do return .block (← Block.ofFields decode p) span
  | _ => .error (.unknownTag tag)

/-- Reads a statement nested at most `levels` deep. -/
def decode : Nat → Json.Decoder Stmt
  | 0, _ => .error (.expected "a shallower statement")
  | levels + 1, v => do
    let (tag, payload) ← v.required "kind" Json.variant
    let span ← readSpan v
    match payload, tag with
    | some p, _ => ofVariant (decode levels) span tag p
    | none, "empty" => return .plain (.empty span)
    | none, _ => .error (.expected "a statement with a payload")

def ofJson (v : Json) : Except DecodeError Stmt := decode v.height v

end Stmt

def Block.ofJson (v : Json) : Except DecodeError Block := Block.ofFields Stmt.ofJson v

def FunctionDecl.ofJson (v : Json) : Except DecodeError FunctionDecl := do
  return {
    name := ← v.required "name" asString
    returnType := ← v.defaulted "return_type" .void (asTag Ty.ofTag?)
    params := ← v.defaulted "params" [] (asList Param.ofJson)
    body := ← v.required "body" Block.ofJson
    span := ← readSpan v }

def HandlerDecl.ofJson (v : Json) : Except DecodeError HandlerDecl := do
  return {
    name := ← v.required "name" asString
    params := ← v.defaulted "params" [] (asList Param.ofJson)
    body := ← v.required "body" Block.ofJson
    span := ← readSpan v }

def StateDecl.ofJson (v : Json) : Except DecodeError StateDecl := do
  return {
    name := ← v.required "name" asString
    handlers := ← v.defaulted "handlers" [] (asList HandlerDecl.ofJson)
    span := ← readSpan v }

def Script.ofJson (v : Json) : Except DecodeError Script := do
  return {
    globals := ← v.defaulted "globals" [] (asList VarDecl.ofJson)
    functions := ← v.defaulted "functions" [] (asList FunctionDecl.ofJson)
    defaultState := ← v.optional "default_state" StateDecl.ofJson
    states := ← v.defaulted "states" [] (asList StateDecl.ofJson)
    span := ← readSpan v }

/-- The script that a text holds, or what is wrong with the text. -/
def Script.ofText (text : String) : Except String Script :=
  match Json.read Json.nestingLimit text with
  | .error e => .error e.message
  | .ok v =>
    match Script.ofJson v with
    | .error e => .error e.message
    | .ok script => .ok script

end Lsl
