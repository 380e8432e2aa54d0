/- # Catalogs

A catalog holds the functions, constants and events of a runtime in the order
they were added. Overloads of a function stay together under its name. Adding
an entry that is already there, a constant of type `void` or a function with a
variadic parameter before its last one is refused; merging keeps what is there
and takes what is new.

Key definitions: `Catalog`, `Catalog.addFunction`, `Catalog.merge`,
`Catalog.overloads`.
-/
import Lsl.Library.Signature

namespace Lsl

/-- Why an entry is not taken into a catalog. -/
inductive CatalogError where
  | malformed (detail : String)
  | duplicateOverload (name : String)
  | duplicateConstant (name : String)
  | duplicateEvent (name : String)
  | voidConstant (name : String)
  | misplacedVariadic (name : String)
deriving DecidableEq, Repr, Inhabited

namespace CatalogError

def message : CatalogError → String
  | malformed detail => "invalid library data: " ++ detail
  | duplicateOverload name => "duplicate overload of library function `" ++ name ++ "`"
  | duplicateConstant name => "library constant `" ++ name ++ "` is defined twice"
  | duplicateEvent name => "library event `" ++ name ++ "` is defined twice"
  | voidConstant name => "library constant `" ++ name ++ "` cannot have type void"
  | misplacedVariadic name => "only the last parameter of `" ++ name ++ "` may be variadic"

end CatalogError

/-- The functions, constants and events of a runtime. -/
structure Catalog where
  /-- The overloads of each name, names and overloads in the order of their arrival. -/
  functions : List (String × List LibraryFunction) := []
  constants : List LibraryConstant := []
  events : List LibraryEvent := []
deriving DecidableEq, Repr, Inhabited

namespace Catalog

def empty : Catalog := {}

/-! ### Lookup -/

/-- The overloads of a name, in the order of their arrival. -/
def overloads (c : Catalog) (name : String) : List LibraryFunction :=
  (c.functions.lookup name).getD []

def constant? (c : Catalog) (name : String) : Option LibraryConstant :=
  c.constants.find? (·.name == name)

def event? (c : Catalog) (name : String) : Option LibraryEvent :=
  c.events.find? (·.name == name)

def hasFunction (c : Catalog) (name : String) : Bool := !(c.overloads name).isEmpty

def hasConstant (c : Catalog) (name : String) : Bool := (c.constant? name).isSome

/-- Every overload, those of a name together. -/
def allFunctions (c : Catalog) : List LibraryFunction :=
  c.functions.flatMap (·.2)

/-! ### Adding entries -/

/-- Puts an overload behind the others of its name, or opens the name at the end. -/
def pushOverload (f : LibraryFunction) :
    List (String × List LibraryFunction) → List (String × List LibraryFunction)
  | [] => [(f.name, [f])]
  | (name, fs) :: rest =>
    if name == f.name then (name, fs ++ [f]) :: rest else (name, fs) :: pushOverload f rest

def pushFunction (c : Catalog) (f : LibraryFunction) : Catalog :=
  { c with functions := pushOverload f c.functions }

def addFunction (c : Catalog) (f : LibraryFunction) : Except CatalogError Catalog :=
  if !f.wellPlaced then .error (.misplacedVariadic f.name)
  else if (c.overloads f.name).any (·.shape == f.shape) then .error (.duplicateOverload f.name)
  else .ok (c.pushFunction f)

def addConstant (c : Catalog) (k : LibraryConstant) : Except CatalogError Catalog :=
  if k.ty.isVoid then .error (.voidConstant k.name)
  else if c.hasConstant k.name then .error (.duplicateConstant k.name)
  else .ok { c with constants := c.constants ++ [k] }

def addEvent (c : Catalog) (e : LibraryEvent) : Except CatalogError Catalog :=
  if (c.event? e.name).isSome then .error (.duplicateEvent e.name)
  else .ok { c with events := c.events ++ [e] }

/-- The catalog with the entry, or as it was if the entry is refused. -/
def orKeep (c : Catalog) : Except CatalogError Catalog → Catalog
  | .ok c' => c'
  | .error _ => c

def withFunction (c : Catalog) (f : LibraryFunction) : Catalog := c.orKeep (c.addFunction f)

def withConstant (c : Catalog) (k : LibraryConstant) : Catalog := c.orKeep (c.addConstant k)

def withEvent (c : Catalog) (e : LibraryEvent) : Catalog := c.orKeep (c.addEvent e)

/-- A catalog of the given entries; the first refused entry is the error. -/
def ofEntries (functions : List LibraryFunction) (constants : List LibraryConstant)
    (events : List LibraryEvent) : Except CatalogError Catalog := do
  let c ← functions.foldlM addFunction empty
  let c ← constants.foldlM addConstant c
  events.foldlM addEvent c

/-! ### Merging -/

/-- A constant joins the catalog unless its name is taken. -/
def offerConstant (c : Catalog) (k : LibraryConstant) : Catalog :=
  if c.hasConstant k.name then c else { c with constants := c.constants ++ [k] }

/-- Adds what `other` has and this catalog lacks, behind its own entries. -/
def merge (c other : Catalog) : Catalog :=
  let c := other.allFunctions.foldl withFunction c
  let c := other.constants.foldl offerConstant c
  other.events.foldl withEvent c

end Catalog

end Lsl
