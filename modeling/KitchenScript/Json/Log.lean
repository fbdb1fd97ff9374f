import KitchenScript.Json.Diagnostic
import KitchenScript.Run.Log

/-!
# Places and log entries in JSON

A place is tagged by its type, with its name beside the tag.  An action is tagged by its kind, with
its fields beside the tag.  Both may be written as an array that starts with the tag.
-/

namespace KitchenScript

namespace Food

def toJson (f : Food) : Json :=
  .text f.name

def ofJson? (j : Json) : Option Food :=
  j.asText?.map Food.mk

end Food

namespace Location

def toJson : Location → Json
  | pantry => .object [("type", .text "pantry")]
  | window => .object [("type", .text "window")]
  | station name => .object [("type", .text "station"), ("name", .text name)]

/-- How the type of a place goes on to the place itself, given what is beside the tag. -/
def types : List (String × (Option Json → Option Location)) :=
  [("pantry", fun content => if content.all (Json.isNothing false) then some pantry else none),
    ("window", fun content => if content.all (Json.isNothing false) then some window else none),
    ("station", fun content => (content.bind Json.asText?).map station)]

/-- The type that an array starts with.  Where the value was held back until its type was known, the
position of the type among all types stands for it as well. -/
def leadingType? (held : Bool) : Json → Option (Option Json → Option Location)
  | .text name => types.lookup name
  | .int position => if held ∧ 0 ≤ position then (types[position.toNat]?).map Prod.snd else none
  | _ => none

/-- A place is an object with its type and what is beside it, or an array of both. -/
def ofJson? (held : Bool) : Json → Option Location
  | .object fields => do
    let type ← Json.field? fields "type"
    let place ← type.bind (Json.asName? held types)
    let content ← Json.field? fields "name"
    place content
  | .array [type, content] => do
    let place ← leadingType? held type
    place (some content)
  | _ => none

end Location

namespace Action

def toJson : Action → Json
  | move place => .object [("kind", .text "move"), ("to", place.toJson)]
  | pickUp item => .object [("kind", .text "pick-up"), ("item", item.toJson)]
  | putDown item => .object [("kind", .text "put-down"), ("item", item.toJson)]
  | use module => .object [("kind", .text "use"), ("module", .text module)]
  | success => .object [("kind", .text "success")]
  | failure => .object [("kind", .text "failure")]
  | noOp => .object [("kind", .text "no-op")]

/-- An action with one field. -/
def withField (name : String) (read : Json → Option α) (make : α → Action) (j : Json) :
    Option Action := do
  match ← j.record? [name] with
  | [field] =>
    let a ← Json.required? read field
    some (make a)
  | _ => none

/-- An action without fields: whatever else an object holds is passed over. -/
def withoutField (action : Action) : Json → Option Action
  | .object _ => some action
  | .array [] => some action
  | _ => none

/-- How the kind of an action goes on to the action itself, given what is beside the tag. -/
def kinds : List (String × (Json → Option Action)) :=
  [("move", withField "to" (Location.ofJson? true) move),
    ("pick-up", withField "item" Food.ofJson? pickUp),
    ("put-down", withField "item" Food.ofJson? putDown),
    ("use", withField "module" Json.asText? use),
    ("success", withoutField success),
    ("failure", withoutField failure),
    ("no-op", withoutField noOp)]

/-- The tag and the rest of the record without it. -/
def parts? : Json → Option (Json × Json)
  | .object fields => do
    let tag ← Json.field? fields "kind"
    tag.map (·, .object (fields.filter fun f => f.1 != "kind"))
  | .array (tag :: rest) => some (tag, .array rest)
  | _ => none

/-- The action of a value that stands inside `around` containers.  All of it is read, also what is
passed over. -/
def ofJson? (around : Nat) (j : Json) : Option Action := do
  let (tag, rest) ← parts? j
  let kind ← tag.asText?
  let action ← kinds.lookup kind
  if rest.fits (Json.maxDepth - around) then action rest else none

end Action

namespace Entry

def toJson (e : Entry) : Json :=
  .object [("action", e.action.toJson), ("message", .text e.message)]

def ofJson? (j : Json) : Option Entry := do
  match ← j.record? ["action", "message"] with
  | [action, message] =>
    let action ← Json.required? (Action.ofJson? 1) action
    let message ← Json.required? Json.asText? message
    some ⟨action, message⟩
  | _ => none

end Entry

end KitchenScript
