/- # The standard catalog

The core of the standard library. A runtime that offers more brings a catalog
file of its own. Constants that the host does not define as named members are
marked to be expanded: those of type string, key, vector and rotation.

Key definitions: `Catalog.standard`.
-/
import Lsl.Library.Catalog

namespace Lsl

namespace Standard

/-- The functions in use, with their results and parameters. -/
def functions : List (String × Ty × List (String × Ty)) := [
  -- Chat and communication
  ("llSay", .void, [("channel", .integer), ("msg", .string)]),
  ("llShout", .void, [("channel", .integer), ("msg", .string)]),
  ("llWhisper", .void, [("channel", .integer), ("msg", .string)]),
  ("llOwnerSay", .void, [("msg", .string)]),
  ("llRegionSay", .void, [("channel", .integer), ("msg", .string)]),
  ("llInstantMessage", .void, [("user", .key), ("message", .string)]),
  ("llListen", .integer, [("channel", .integer), ("name", .string), ("id", .key),
    ("msg", .string)]),
  ("llListenRemove", .void, [("handle", .integer)]),
  ("llMessageLinked", .void, [("link", .integer), ("num", .integer), ("str", .string),
    ("id", .key)]),
  -- Math
  ("llAbs", .integer, [("val", .integer)]),
  ("llFabs", .float, [("val", .float)]),
  ("llFrand", .float, [("mag", .float)]),
  ("llFloor", .integer, [("val", .float)]),
  ("llCeil", .integer, [("val", .float)]),
  ("llRound", .integer, [("val", .float)]),
  ("llSqrt", .float, [("val", .float)]),
  ("llPow", .float, [("base", .float), ("exponent", .float)]),
  ("llSin", .float, [("theta", .float)]),
  ("llCos", .float, [("theta", .float)]),
  ("llVecMag", .float, [("v", .vector)]),
  ("llVecNorm", .vector, [("v", .vector)]),
  ("llVecDist", .float, [("v1", .vector), ("v2", .vector)]),
  ("llEuler2Rot", .rotation, [("v", .vector)]),
  ("llRot2Euler", .vector, [("q", .rotation)]),
  -- Strings
  ("llStringLength", .integer, [("str", .string)]),
  ("llGetSubString", .string, [("src", .string), ("start", .integer), ("end", .integer)]),
  ("llSubStringIndex", .integer, [("source", .string), ("pattern", .string)]),
  ("llToUpper", .string, [("src", .string)]),
  ("llToLower", .string, [("src", .string)]),
  ("llStringTrim", .string, [("src", .string), ("type", .integer)]),
  -- Lists
  ("llGetListLength", .integer, [("src", .list)]),
  ("llList2String", .string, [("src", .list), ("index", .integer)]),
  ("llList2Integer", .integer, [("src", .list), ("index", .integer)]),
  ("llList2Float", .float, [("src", .list), ("index", .integer)]),
  ("llList2Key", .key, [("src", .list), ("index", .integer)]),
  ("llList2Vector", .vector, [("src", .list), ("index", .integer)]),
  ("llList2List", .list, [("src", .list), ("start", .integer), ("end", .integer)]),
  ("llListSort", .list, [("src", .list), ("stride", .integer), ("ascending", .integer)]),
  ("llDumpList2String", .string, [("src", .list), ("separator", .string)]),
  ("llParseString2List", .list, [("src", .string), ("separators", .list), ("spacers", .list)]),
  ("llListFindList", .integer, [("src", .list), ("test", .list)]),
  -- Object and world
  ("llGetPos", .vector, []),
  ("llSetPos", .void, [("pos", .vector)]),
  ("llGetRot", .rotation, []),
  ("llSetRot", .void, [("rot", .rotation)]),
  ("llGetKey", .key, []),
  ("llGetOwner", .key, []),
  ("llGetObjectName", .string, []),
  ("llSetText", .void, [("text", .string), ("color", .vector), ("alpha", .float)]),
  ("llSetColor", .void, [("color", .vector), ("face", .integer)]),
  ("llDetectedKey", .key, [("number", .integer)]),
  ("llDetectedName", .string, [("number", .integer)]),
  ("llKey2Name", .string, [("id", .key)]),
  -- Timing and script control
  ("llGetTime", .float, []),
  ("llResetTime", .void, []),
  ("llGetUnixTime", .integer, []),
  ("llSetTimerEvent", .void, [("sec", .float)]),
  ("llSleep", .void, [("sec", .float)]),
  ("llResetScript", .void, []),
  ("llDie", .void, [])]

/-- Functions that scripts should no longer call. -/
def deprecatedFunctions : List (String × Ty × List (String × Ty)) := [
  ("llSound", .void, [("sound", .string), ("volume", .float), ("queue", .integer),
    ("loop", .integer)]),
  ("llMakeExplosion", .void, [("particles", .integer), ("scale", .float), ("vel", .float),
    ("lifetime", .float), ("arc", .float), ("texture", .string), ("offset", .vector)]),
  ("llRemoteLoadScript", .void, [("target", .key), ("name", .string), ("running", .integer),
    ("start_param", .integer)])]

/-- The constants in use, with their types and values. -/
def constants : List (String × Ty × String) := [
  ("TRUE", .integer, "1"),
  ("FALSE", .integer, "0"),
  ("PI", .float, "3.14159265"),
  ("TWO_PI", .float, "6.28318530"),
  ("PI_BY_TWO", .float, "1.57079633"),
  ("DEG_TO_RAD", .float, "0.01745329"),
  ("RAD_TO_DEG", .float, "57.29578"),
  ("SQRT2", .float, "1.41421356"),
  ("ZERO_VECTOR", .vector, "<0.0, 0.0, 0.0>"),
  ("ZERO_ROTATION", .rotation, "<0.0, 0.0, 0.0, 1.0>"),
  ("NULL_KEY", .key, "\"00000000-0000-0000-0000-000000000000\""),
  ("EOF", .string, "\"\\n\\n\\n\""),
  ("PUBLIC_CHANNEL", .integer, "0"),
  ("DEBUG_CHANNEL", .integer, "2147483647"),
  ("ALL_SIDES", .integer, "-1"),
  ("LINK_SET", .integer, "-1"),
  ("LINK_ROOT", .integer, "1"),
  ("LINK_ALL_OTHERS", .integer, "-2"),
  ("LINK_ALL_CHILDREN", .integer, "-3"),
  ("LINK_THIS", .integer, "-4"),
  ("AGENT", .integer, "1"),
  ("ACTIVE", .integer, "2"),
  ("PASSIVE", .integer, "4"),
  ("SCRIPTED", .integer, "8"),
  ("CHANGED_INVENTORY", .integer, "1"),
  ("CHANGED_OWNER", .integer, "128"),
  ("STRING_TRIM", .integer, "3")]

/-- Constants that scripts should no longer use. -/
def deprecatedConstants : List (String × Ty × String) := [
  ("PRIM_CAST_SHADOWS", .integer, "24"),
  ("LAND_LARGE_BRUSH", .integer, "3")]

/-- The events, each with the parameters its handlers have. -/
def events : List (String × List (String × Ty)) := [
  ("state_entry", []),
  ("state_exit", []),
  ("on_rez", [("start_param", .integer)]),
  ("touch_start", [("num_detected", .integer)]),
  ("touch", [("num_detected", .integer)]),
  ("touch_end", [("num_detected", .integer)]),
  ("collision_start", [("num_detected", .integer)]),
  ("timer", []),
  ("listen", [("channel", .integer), ("name", .string), ("id", .key), ("message", .string)]),
  ("link_message", [("sender_num", .integer), ("num", .integer), ("str", .string), ("id", .key)]),
  ("changed", [("change", .integer)]),
  ("attach", [("id", .key)]),
  ("sensor", [("num_detected", .integer)]),
  ("no_sensor", []),
  ("dataserver", [("queryid", .key), ("data", .string)]),
  ("http_response", [("request_id", .key), ("status", .integer), ("metadata", .list),
    ("body", .string)])]

def param (entry : String × Ty) : LibraryParam := { name := entry.1, ty := entry.2 }

def function (deprecated : Bool) (entry : String × Ty × List (String × Ty)) : LibraryFunction :=
  let (name, returnType, params) := entry
  { name, returnType, params := params.map param, deprecated }

/-- Types whose constants are shown by value in generated code. -/
def expands : Ty → Bool
  | .string | .key | .vector | .rotation => true
  | _ => false

def constant (deprecated : Bool) (entry : String × Ty × String) : LibraryConstant :=
  let (name, ty, value) := entry
  { name, ty, value, expand := expands ty, deprecated }

def event (entry : String × List (String × Ty)) : LibraryEvent :=
  { name := entry.1, params := entry.2.map param }

end Standard

namespace Catalog

/-- The core of the standard library. -/
def standard : Catalog where
  functions :=
    (Standard.functions.map (Standard.function false) ++
      Standard.deprecatedFunctions.map (Standard.function true)).foldl
      (fun fs f => pushOverload f fs) []
  constants :=
    Standard.constants.map (Standard.constant false) ++
      Standard.deprecatedConstants.map (Standard.constant true)
  events := Standard.events.map Standard.event

end Catalog

end Lsl
