/- # Catalogs as JSON

The file form of a catalog: three lists, each of which may be left out.
Writing puts every field down, in the order of the entries.

Key definitions: `Catalog.toJson`, `Catalog.ofJson`, `Catalog.ofText`.
-/
import Lsl.Json.Decode
import Lsl.Json.Printer
import Lsl.Json.Reader
import Lsl.Library.Catalog

namespace Lsl

open Json (asString asBool asTag asList)

namespace LibraryParam

def toJson (p : LibraryParam) : Json :=
  .obj [("name", .str p.name), ("ty", .str p.ty.name), ("variadic", .bool p.variadic)]

def ofJson (v : Json) : Except DecodeError LibraryParam := do
  return {
    name := ← v.required "name" asString
    ty := ← v.required "ty" (asTag Ty.ofTag?)
    variadic := ← v.defaulted "variadic" false asBool }

end LibraryParam

namespace LibraryFunction

def toJson (f : LibraryFunction) : Json :=
  .obj [("name", .str f.name), ("return_type", .str f.returnType.name),
    ("params", .list LibraryParam.toJson f.params), ("mod_invoke", .bool f.modInvoke),
    ("deprecated", .bool f.deprecated)]

def ofJson (v : Json) : Except DecodeError LibraryFunction := do
  return {
    name := ← v.required "name" asString
    returnType := ← v.defaulted "return_type" .void (asTag Ty.ofTag?)
    params := ← v.defaulted "params" [] (asList LibraryParam.ofJson)
    modInvoke := ← v.defaulted "mod_invoke" false asBool
    deprecated := ← v.defaulted "deprecated" false asBool }

end LibraryFunction

namespace LibraryConstant

def toJson (k : LibraryConstant) : Json :=
  .obj [("name", .str k.name), ("ty", .str k.ty.name), ("value", .str k.value),
    ("expand", .bool k.expand), ("deprecated", .bool k.deprecated)]

def ofJson (v : Json) : Except DecodeError LibraryConstant := do
  return {
    name := ← v.required "name" asString
    ty := ← v.required "ty" (asTag Ty.ofTag?)
    value := ← v.required "value" asString
    expand := ← v.defaulted "expand" false asBool
    deprecated := ← v.defaulted "deprecated" false asBool }

end LibraryConstant

namespace LibraryEvent

def toJson (e : LibraryEvent) : Json :=
  .obj [("name", .str e.name), ("params", .list LibraryParam.toJson e.params),
    ("deprecated", .bool e.deprecated)]

def ofJson (v : Json) : Except DecodeError LibraryEvent := do
  return {
    name := ← v.required "name" asString
    params := ← v.defaulted "params" [] (asList LibraryParam.ofJson)
    deprecated := ← v.defaulted "deprecated" false asBool }

end LibraryEvent

namespace Catalog

def toJson (c : Catalog) : Json :=
  .obj [("functions", .list LibraryFunction.toJson c.allFunctions),
    ("constants", .list LibraryConstant.toJson c.constants),
    ("events", .list LibraryEvent.toJson c.events)]

/-- The three lists of a catalog file. -/
def entriesOfJson (v : Json) :
    Except DecodeError (List LibraryFunction × List LibraryConstant × List LibraryEvent) := do
  let functions ← v.defaulted "functions" [] (asList LibraryFunction.ofJson)
  let constants ← v.defaulted "constants" [] (asList LibraryConstant.ofJson)
  let events ← v.defaulted "events" [] (asList LibraryEvent.ofJson)
  return (functions, constants, events)

def ofJson (v : Json) : Except CatalogError Catalog :=
  match entriesOfJson v with
  | .ok (functions, constants, events) => ofEntries functions constants events
  | .error e => .error (.malformed e.message)

/-- The catalog that a file holds. -/
def ofText (text : String) : Except CatalogError Catalog :=
  match Json.read Json.nestingLimit text with
  | .ok v => ofJson v
  | .error e => .error (.malformed e.message)

/-- The file that holds the catalog. -/
def toText (c : Catalog) : String := c.toJson.pretty

end Catalog

end Lsl
