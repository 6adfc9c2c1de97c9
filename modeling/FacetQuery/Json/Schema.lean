import FacetQuery.Json.Value

/-!
# Json — Schemas

Documents that describe JSON values: lists of keywords, in the order in which they are written.
-/

namespace FacetQuery.Json

/-- A keyword of a schema document. -/
inductive Keyword where
  | dialect (uri : String)
  | title (text : String)
  | description (text : String)
  | default (v : Value)
  /-- The definition of that name describes the value. -/
  | ref (name : String)
  | type (names : List String)
  | format (name : String)
  | enum (values : List String)
  | allOf (schemas : List (List Keyword))
  /-- The least value of a number. -/
  | minimum (bound : Number)
  | items (schema : List Keyword)
  | uniqueItems
  | required (names : List String)
  | properties (members : List (String × List Keyword))
  /-- Members that are not among the properties may be there. -/
  | openMembers
  | definitions (members : List (String × List Keyword))

/-- A description of JSON values. -/
abbrev Document := List Keyword

namespace Keyword

/-- `ofTypes names` writes a single type by itself. -/
def ofTypes : List String → Value
  | [name] => .string name
  | names => .array (names.map .string)

mutual

/-- `toMember k` is the member of a document that says `k`. -/
def toMember : Keyword → String × Value
  | .dialect uri => ("$schema", .string uri)
  | .title text => ("title", .string text)
  | .description text => ("description", .string text)
  | .default v => ("default", v)
  | .ref name => ("$ref", .string ("#/definitions/" ++ name))
  | .type names => ("type", ofTypes names)
  | .format name => ("format", .string name)
  | .enum values => ("enum", .array (values.map .string))
  | .allOf schemas => ("allOf", .array (toValues schemas))
  | .minimum bound => ("minimum", .number bound)
  | .items schema => ("items", .object (toMembers schema))
  | .uniqueItems => ("uniqueItems", .bool true)
  | .required names => ("required", .array (names.map .string))
  | .properties members => ("properties", .object (toProperties members))
  | .openMembers => ("additionalProperties", .bool true)
  | .definitions members => ("definitions", .object (toProperties members))

/-- `toMembers ks` are the members of a document. -/
def toMembers : List Keyword → List (String × Value)
  | [] => []
  | k :: ks => toMember k :: toMembers ks

/-- `toValues docs` are documents one after another. -/
def toValues : List (List Keyword) → List Value
  | [] => []
  | doc :: docs => .object (toMembers doc) :: toValues docs

/-- `toProperties members` are documents under names. -/
def toProperties : List (String × List Keyword) → List (String × Value)
  | [] => []
  | (name, doc) :: rest => (name, .object (toMembers doc)) :: toProperties rest

end

end Keyword

namespace Document

/-- `toValue d` is the document as JSON. -/
def toValue (d : Document) : Value :=
  .object (Keyword.toMembers d)

end Document

end FacetQuery.Json
