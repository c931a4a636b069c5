import Graft.Json.Basic
import Graft.Payload.Format

/-!
# The published format

The format of fragment files as a document for other tools: a JSON schema that says what
`Payload.violations` checks.
-/

namespace Graft

namespace Payload

namespace Published

/-- A string. -/
def text (s : String) : Json := .str s.toText

/-- An array of strings. -/
def texts (ss : List String) : Json := .arr (ss.map text)

/-- An object. -/
def object (fields : List (String × Json)) : Json :=
  .obj (fields.map fun (key, value) => (key.toText, value))

/-- A reference to a shared definition. -/
def shared (name : String) : Json := object [("$ref", text ("#/$defs/" ++ name))]

/-- A string that is not empty. -/
def filledText : Json := object [("type", text "string"), ("minLength", .int 1)]

/-- An array of strings that are not empty. -/
def filledTexts : Json := object [("type", text "array"), ("items", filledText)]

/-- Version values. -/
def versions : Json := object [
  ("type", text "object"),
  ("minProperties", .int 1),
  ("propertyNames", object [("pattern", .str identifierPattern)]),
  ("additionalProperties", filledText)]

/-- An anchor. -/
def anchor : Json := object [
  ("type", text "object"),
  ("required", texts ["kind"]),
  ("additionalProperties", .bool false),
  ("properties", object [
    ("kind", object [("enum", texts ["block", "eof"])]),
    ("block", filledText)]),
  ("if", object [("properties", object [("kind", object [("const", text "block")])])]),
  ("then", object [("required", texts ["block"])])]

/-- A fragment. -/
def fragment : Json := object [
  ("type", text "object"),
  ("required", texts ["marker", "template", "anchor"]),
  ("additionalProperties", .bool false),
  ("properties", object [
    ("marker", object [
      ("type", text "string"), ("minLength", .int 1), ("pattern", .str oneLinePattern)]),
    ("template", filledText),
    ("anchor", shared "anchor"),
    ("required", filledTexts),
    ("block", object [("type", texts ["string", "null"]), ("minLength", .int 1)]),
    ("after", filledTexts),
    ("description", object [("type", text "string")])])]

/-- The schema document. -/
def schema : Json := object [
  ("$schema", text "https://json-schema.org/draft/2020-12/schema"),
  ("title", .str contract),
  ("type", text "object"),
  ("required", texts ["contract", "fragments"]),
  ("additionalProperties", .bool false),
  ("properties", object [
    ("contract", object [("const", .str contract)]),
    ("fragments", object [
      ("type", text "array"), ("minItems", .int 1), ("items", shared "fragment")]),
    ("version_sets", object [
      ("type", text "object"), ("additionalProperties", shared "versions")])]),
  ("$defs", object [("versions", versions), ("anchor", anchor), ("fragment", fragment)])]

end Published

end Payload

end Graft
