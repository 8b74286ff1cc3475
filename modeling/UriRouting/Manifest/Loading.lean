import UriRouting.Json.Reader
import UriRouting.Json.Schema
import UriRouting.Route.Table
import UriRouting.Text.Utf8

/-!
# Route tables from manifests

`ofValue` builds the table that a manifest describes, and `ofFile` reads the manifest from the bytes
of a file first. The shape of a manifest is a `schema`, and the validator that compares a document
with it is a parameter. A document of the wrong shape is refused before its version is looked at, and
an unsupported version before any template is read; of the templates, the first that is refused
decides.
-/

namespace UriRouting

namespace Manifest

open Json

/-- The version of the manifests that are understood. -/
def supportedVersion : Nat := 1

/-- What a route of a manifest looks like. -/
def routeSchema : Schema :=
  .properties [("template", .type .string), ("handler", .type .string)] [("name", .type .string)]

/-- What a manifest looks like. -/
def schema : Schema :=
  .properties [("version", .type .uint8), ("routes", .elements routeSchema)] []

/-- How far the validation of a manifest goes. -/
def limits : Limits where
  maxDepth := 32
  maxErrors := 10

/-- What a route of a manifest leads to. -/
structure Target where
  handler : Text
  name : Option Text
  deriving DecidableEq

/-- Why a manifest is refused. -/
inductive Error where
  /-- The document has not the shape of a manifest. -/
  | invalid (violations : List Violation)
  | unsupportedVersion (version : Nat)
  /-- There is no file, or what it holds is no JSON. -/
  | unreadable
  | template (e : Template.Error)

/-- The place of a violation in words. -/
def describe (v : Violation) : Text :=
  let place : Text := if v.instancePath = [] then "(root)" else Text.joinWith "/" v.instancePath
  place ++ " (schema: " ++ Text.joinWith "/" v.schemaPath ++ ")"

/-- The report of an error. -/
def Error.message : Error → Text
  | invalid violations =>
    "Invalid route manifest: " ++ Text.joinWith "; " (violations.map describe)
  | unsupportedVersion version =>
    "Unsupported route manifest version " ++ Text.ofNat version ++ " (expected " ++
      Text.ofNat supportedVersion ++ ")"
  | unreadable => "Cannot read route manifest <file>: <reason>"
  | template e => e.message

/-- The natural number in a field, or zero. -/
def natField (value : Value) (name : Text) : Nat :=
  match value.field? name with
  | some (.number n) => n.toNat?.getD 0
  | _ => 0

/-- The text in a field. -/
def textField? (value : Value) (name : Text) : Option Text :=
  (value.field? name).bind Value.text?

/-- The template and the target of a route. -/
def entryOf (route : Value) : Text × Target :=
  ((textField? route "template").getD [],
    ⟨(textField? route "handler").getD [], textField? route "name"⟩)

/-- The routes of a document. -/
def entries (document : Value) : List (Text × Target) :=
  match document.field? "routes" with
  | some (.array items) => items.map entryOf
  | _ => []

/-- Register routes in order. -/
def register (entries : List (Text × Target)) :
    Except Template.Error (Route.Builder Target) :=
  entries.foldlM (fun b entry => b.addText entry.1 entry.2) Route.Builder.empty

/-- The table of a manifest, and the registrations that were dropped. -/
def ofValue (validate : Validator) (document : Value) :
    Except Error (Route.Table Target × List Route.Shadowing) :=
  let violations := validate schema document limits
  let version := natField document "version"
  if violations ≠ [] then .error (.invalid violations)
  else if version ≠ supportedVersion then .error (.unsupportedVersion version)
  else
    match register (entries document) with
    | .error e => .error (.template e)
    | .ok builder => .ok builder.build

/-- The table of a manifest file, given its bytes if there are any. -/
def ofFile (validate : Validator) (bytes : Option (List UInt8)) :
    Except Error (Route.Table Target × List Route.Shadowing) :=
  match bytes.bind fun bytes => Value.ofText? (Text.ofChars (Utf8.decode bytes)) with
  | none => .error .unreadable
  | some document => ofValue validate document

end Manifest

end UriRouting
