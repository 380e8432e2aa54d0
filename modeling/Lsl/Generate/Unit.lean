/- # The generated unit

The members of a script in their order, each group under a banner: the utility
class that every script carries, the container of the globals, the functions,
the handlers of the named states and of the default state, and the methods of
the operations that are called. Settings may put a class, a namespace and
further text around them.

Where a gap is wanted, one blank line is written, unless the text so far is
empty or ends in a blank line.

Key definitions: `HostUnit.layout`, `OutputLine.renderAll`, `HostUnit.render`.
-/
import Lsl.Generate.Settings
import Lsl.Host.Render
import Lsl.Text.Blank

namespace Lsl

/-- The lines of the class with the helpers that generated code calls. -/
def utilityClass : List String := [
  "private static class UTILITIES",
  "\x7b",
  "\tpublic static void ForceStatement<T>(T val) \x7b\x7d",
  "\tpublic static bool ToBool(LSL_Types.LSLString str)",
  "\t\x7b",
  "\t\treturn str.Length != 0;",
  "\t\x7d",
  "\tpublic static bool ToBool(LSL_Types.key k)",
  "\t\x7b",
  "\t\treturn (bool)k;",
  "\t\x7d",
  "\tpublic static bool ToBool(LSL_Types.Vector3 vec)",
  "\t\x7b",
  "\t\treturn vec.x != 0 || vec.y != 0 || vec.z != 0;",
  "\t\x7d",
  "\tpublic static bool ToBool(LSL_Types.Quaternion rot)",
  "\t\x7b",
  "\t\treturn rot.x != 0 || rot.y != 0 || rot.z != 0 || rot.s != 1;",
  "\t\x7d",
  "\tpublic static bool ToBool(LSL_Types.list lst)",
  "\t\x7b",
  "\t\treturn lst.Length != 0;",
  "\t\x7d",
  "\tpublic static LSL_Types.Quaternion Negate(LSL_Types.Quaternion rot)",
  "\t\x7b",
  "\t\trot.x=(-rot.x);",
  "\t\trot.y=(-rot.y);",
  "\t\trot.z=(-rot.z);",
  "\t\trot.s=(-rot.s);",
  "\t\treturn rot;",
  "\t\x7d",
  "\tpublic static LSL_Types.Vector3 Negate(LSL_Types.Vector3 vec)",
  "\t\x7b",
  "\t\tvec.x=(-vec.x);",
  "\t\tvec.y=(-vec.y);",
  "\t\tvec.z=(-vec.z);",
  "\t\treturn vec;",
  "\t\x7d",
  "\tpublic static LSL_Types.list CopyList(LSL_Types.list lst)",
  "\t\x7b",
  "\t\treturn new LSL_Types.list(lst.Data);",
  "\t\x7d",
  "\tpublic static LSL_Types.LSLInteger DefaultInteger"
    ++ " \x7b get \x7b return new LSL_Types.LSLInteger(0); \x7d set \x7b \x7d \x7d",
  "\tpublic static LSL_Types.LSLFloat DefaultFloat"
    ++ " \x7b get \x7b return new LSL_Types.LSLFloat(0.0); \x7d set \x7b \x7d \x7d",
  "\tpublic static LSL_Types.LSLString DefaultString"
    ++ " \x7b get \x7b return new LSL_Types.LSLString(\"\"); \x7d set \x7b \x7d \x7d",
  "\tpublic static LSL_Types.Vector3 DefaultVector"
    ++ " \x7b get \x7b return new LSL_Types.Vector3(0,0,0); \x7d set \x7b \x7d \x7d",
  "\tpublic static LSL_Types.Quaternion DefaultRotation"
    ++ " \x7b get \x7b return new LSL_Types.Quaternion(0,0,0,1); \x7d set \x7b \x7d \x7d",
  "\tpublic static LSL_Types.list DefaultList"
    ++ " \x7b get \x7b return new LSL_Types.list(); \x7d set \x7b \x7d \x7d",
  "\x7d"]

/-- A text as lines at a depth. -/
def textLines (depth : Nat) (text : String) : List OutputLine :=
  (Text.lines text).map (.code depth)

/-- A title between two rules of the same length. -/
def banner (depth : Nat) (title : String) : List OutputLine :=
  let middle := "//== " ++ title ++ " =="
  let rule := "//" ++ String.ofList (List.replicate (middle.utf8ByteSize - 2) '=')
  [.code depth rule, .code depth middle, .code depth rule, .gap]

/-- Groups of lines with a gap between each two. -/
def withGaps : List (List OutputLine) → List OutputLine
  | [] => []
  | [group] => group
  | group :: rest => group ++ .gap :: withGaps rest

/-- The container of the globals: a field for each, and a constructor that sets them. -/
def layoutGlobals (depth : Nat) (globals : List HostField) : List OutputLine :=
  if globals.isEmpty then []
  else
    let fields := globals.map fun g =>
      OutputLine.code (depth + 1)
        ("public " ++ g.ty.hostName ++ " " ++ HostName.field g.name ++ ";")
    let values := globals.map fun g =>
      OutputLine.code (depth + 2)
        ("this." ++ HostName.field g.name ++ " = " ++ g.value.render ++ ";")
    banner depth "Global Variable Container" ++ .code depth "private class GLOBALS"
      :: braced depth (fields ++ .code (depth + 1) "public GLOBALS()" :: braced (depth + 1) values)
      ++ [.gap, .code depth "private GLOBALS Globals = new GLOBALS();", .gap]

def layoutFunctions (checkpoint : String) (depth : Nat) (functions : List HostMethod) :
    List OutputLine :=
  if functions.isEmpty then []
  else
    banner depth "User Defined Functions"
      ++ functions.flatMap fun m => m.layout checkpoint depth ++ [.gap]

/-- The handlers of a state, with a gap behind them. -/
def layoutState (checkpoint : String) (depth : Nat) (handlers : List HostMethod) :
    List OutputLine :=
  withGaps (handlers.map (·.layout checkpoint depth)) ++ [.gap]

def layoutStates (checkpoint : String) (depth : Nat) (states : List (List HostMethod)) :
    List OutputLine :=
  if states.isEmpty then []
  else
    banner depth "User Defined State Event Handlers"
      ++ states.flatMap (layoutState checkpoint depth)

def layoutOperations (depth : Nat) (operations : List Operation) : List OutputLine :=
  if operations.isEmpty then []
  else banner depth "Binary Operator Stubs" ++ withGaps (operations.map (·.layout depth))

def layoutConstructor (settings : Settings) (depth : Nat) : List OutputLine :=
  .code depth ("public " ++ settings.className ++ settings.constructorSignature)
    :: braced depth ((settings.constructorBody.map (textLines (depth + 1))).getD []) ++ [.gap]

/-- The members of a unit. -/
def HostUnit.layoutMembers (u : HostUnit) (settings : Settings) (depth : Nat) : List OutputLine :=
  utilityClass.map (.code depth) ++ .gap
    :: (if settings.generateClass then layoutConstructor settings depth else [])
    ++ layoutGlobals depth u.globals ++ layoutFunctions settings.coopCall depth u.functions
    ++ layoutStates settings.coopCall depth u.states
    ++ banner depth "Default State Event Handlers"
    ++ layoutState settings.coopCall depth u.defaultState
    ++ layoutOperations depth u.operations

/-- The class declaration at a depth, with the members inside. -/
def layoutClass (settings : Settings) (depth : Nat) (members : Nat → List OutputLine) :
    List OutputLine :=
  let base := match settings.baseType with
    | some base => " : " ++ base
    | none => ""
  .code depth ("public class " ++ settings.className ++ base) :: braced depth (members (depth + 1))

/-- A header that holds more than white space. -/
def layoutHeader (settings : Settings) : List OutputLine :=
  match settings.header with
  | some text => if text.toList.all Text.isBlank then [] else textLines 0 text ++ [.gap]
  | none => []

/-- The lines of a unit with all that the settings put around it. -/
def HostUnit.layout (u : HostUnit) (settings : Settings) : List OutputLine :=
  let members := u.layoutMembers settings
  layoutHeader settings
    ++ if settings.generateClass then
      settings.imports.map (fun name => .code 0 ("using " ++ name ++ ";")) ++ .gap
        :: match settings.nameSpace with
          | some name => .code 0 ("namespace " ++ name) :: braced 0 (layoutClass settings 1 members)
          | none => layoutClass settings 0 members
    else members 0

namespace OutputLine

/-- The text with one more line, or with a blank line if it lacks one. -/
def addTo (out : String) : OutputLine → String
  | code depth text => out ++ String.ofList (List.replicate depth '\t') ++ text ++ "\n"
  | gap => if out.isEmpty || out.endsWith "\n\n" then out else out ++ "\n"

/-- The text of lines. -/
def renderAll (lines : List OutputLine) : String := lines.foldl addTo ""

end OutputLine

/-- The text of a unit. -/
def HostUnit.render (u : HostUnit) (settings : Settings) : String :=
  OutputLine.renderAll (u.layout settings)

end Lsl
