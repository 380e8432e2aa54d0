/- # Output settings

What stands around the generated members. By default there is nothing around
them, which is the form that the runtime takes scripts in from its clients; the
server preset gives a complete compilation unit.

Key definitions: `Settings`, `Settings.server`.
-/

namespace Lsl

structure Settings where
  /-- Put the members into a class. -/
  generateClass : Bool := false
  className : String := "LSLScript"
  nameSpace : Option String := none
  /-- The base class and interfaces, without the colon. -/
  baseType : Option String := none
  /-- What follows the class name in the declaration of the constructor. -/
  constructorSignature : String := "()"
  constructorBody : Option String := none
  imports : List String := []
  /-- Let the runtime end the script inside loops and bodies. -/
  coopTermination : Bool := false
  coopCall : String := "opensim_reserved_CheckForCoopTermination()"
  /-- Text in front of everything else. -/
  header : Option String := none
deriving DecidableEq, Repr, Inhabited

namespace Settings

/-- A class for the script engine of a server. -/
def server : Settings where
  generateClass := true
  className := "XEngineScript"
  nameSpace := some "SecondLife"
  baseType := some "OpenSim.Region.ScriptEngine.XEngine.ScriptBase.XEngineScriptBase"
  constructorSignature := "(System.Threading.WaitHandle coopSleepHandle) : base(coopSleepHandle)"
  imports := ["OpenSim.Region.ScriptEngine.Shared", "System.Collections.Generic"]

def withClass (s : Settings) (name : String) : Settings :=
  { s with generateClass := true, className := name }

def withNamespace (s : Settings) (name : String) : Settings := { s with nameSpace := some name }

def withCoopTermination (s : Settings) : Settings := { s with coopTermination := true }

end Settings

end Lsl
