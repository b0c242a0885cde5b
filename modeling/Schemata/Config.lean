import Schemata.Json.Basic
import Schemata.Fault

/-!
# Settings

Six settings steer the inference. They are read from an object, entry by entry, whose other entries
are passed over; what a setting holds is not checked here, but refused where it is used and does not
fit.

Four more names are taken. `__dict__` gives all settings at once, in place of what was given before:
those that it leaves out have their defaults, but for the overrides, which are then missing for
good. `to_dict` stands in the way of the JSON form. `__class__` and `__weakref__` cannot be given.

## Main definitions

* `Config`: the settings, and their defaults.
* `Config.ofJson`: the settings that an object gives.
* `Config.toJson`: their JSON form.
-/

namespace Schemata

def defaultRefPrefix : Json := .str "#/components/schemas/"

structure Config where
  /-- Nesting below which an expression is cut off. -/
  maxDepth : Json := .int 10
  /-- Schemas of expressions, looked up before anything else. -/
  typeOverrides : Option Json := some (.obj [])
  /-- What references to named schemas start with. -/
  refPrefix : Json := defaultRefPrefix
  /-- The least and the greatest number of distinct values that make a closed set. -/
  enumMinValues : Json := .int 2
  enumMaxValues : Json := .int 10
  /-- Whether samples that are not merged with others get examples. -/
  includeExamples : Json := .bool true
  /-- The settings have a JSON form. -/
  writable : Bool := true

namespace Config

/-- The settings of a table that gives all of them at once. -/
def ofTable (fields : Fields Json) : Config :=
  let defaults : Config := {}
  let setting (name : String) (default : Json) : Json := (fields.lookup name).getD default
  { maxDepth := setting "max_depth" defaults.maxDepth
    typeOverrides := fields.lookup "type_overrides"
    refPrefix := setting "ref_prefix" defaults.refPrefix
    enumMinValues := setting "enum_min_values" defaults.enumMinValues
    enumMaxValues := setting "enum_max_values" defaults.enumMaxValues
    includeExamples := setting "include_examples" defaults.includeExamples
    writable := !Fields.has fields "to_dict" }

/-- The settings after one more entry. -/
def give (config : Config) (name : String) (v : Json) : Except Fault Config :=
  match name with
  | "max_depth" => .ok { config with maxDepth := v }
  | "type_overrides" => .ok { config with typeOverrides := config.typeOverrides.map fun _ => v }
  | "ref_prefix" => .ok { config with refPrefix := v }
  | "enum_min_values" => .ok { config with enumMinValues := v }
  | "enum_max_values" => .ok { config with enumMaxValues := v }
  | "include_examples" => .ok { config with includeExamples := v }
  | "to_dict" => .ok { config with writable := false }
  | "__dict__" => match v with
    | .obj fields => .ok (ofTable fields)
    | _ => .error .illTyped
  | "__class__" => .error .illTyped
  | "__weakref__" => .error (.fixedSetting name)
  | _ => .ok config

def giveAll (config : Config) : List (String × Json) → Except Fault Config
  | [] => .ok config
  | (name, v) :: rest => do
    let config ← config.give name v
    giveAll config rest

def ofJson : Json → Except Fault Config
  | .obj fields => giveAll {} fields
  | _ => .error .notAnObject

def overrides (config : Config) : Except Fault Json :=
  match config.typeOverrides with
  | some v => .ok v
  | none => .error .noOverrides

def toJson (config : Config) : Except Fault Json := do
  if config.writable then
    return .obj
      [ ("max_depth", config.maxDepth),
        ("type_overrides", ← config.overrides),
        ("ref_prefix", config.refPrefix),
        ("enum_min_values", config.enumMinValues),
        ("enum_max_values", config.enumMaxValues),
        ("include_examples", config.includeExamples) ]
  else throw .illTyped

end Config

end Schemata
