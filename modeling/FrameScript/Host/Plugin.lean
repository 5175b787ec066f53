import FrameScript.Json.Basic
import FrameScript.Native.Basic

/-!
# Plugins and events

A plugin brings natives, which are registered when the host is initialized, and
looks at every input event.
-/

namespace FrameScript

inductive HostEvent where
  | key (code : Nat) (pressed : Bool)
  | pointer (x y : Number) (button : Nat) (pressed : Bool)
  | gui (element kind : String)
  deriving DecidableEq

namespace HostEvent

/-- The event of a type whose values are given by their keys or places. -/
def ofFields? (kind : String) (field : Nat → String → Option Json) : Option HostEvent := do
  if kind = "key" then
    let code ← (← field 0 "code").toNatBelow? (Nat.pow 2 32)
    let pressed ← (← field 1 "pressed").toBool?
    some (.key code pressed)
  else if kind = "pointer" then
    let x ← (← field 0 "x").toNumber?
    let y ← (← field 1 "y").toNumber?
    let button ← (← field 2 "button").toNatBelow? (Nat.pow 2 8)
    let pressed ← (← field 3 "pressed").toBool?
    some (.pointer x y button pressed)
  else if kind = "gui" then
    let element ← (← field 0 "element").toText?
    let kind ← (← field 1 "kind").toText?
    some (.gui element kind)
  else none

def fieldCount (kind : String) : Nat := if kind = "pointer" then 4 else 2

/-- The event that JSON describes: an object, in which further fields are ignored, or a
list of the type and the values in order. -/
def ofJson? : Json → Option HostEvent
  | .object fields => do
    let kind ← (← Table.lookup "type" fields).toText?
    ofFields? kind fun _ key => Table.lookup key fields
  | .array (.string kind :: values) =>
    if values.length = fieldCount kind then ofFields? kind fun place _ => values[place]?
    else none
  | _ => none

def toJson : HostEvent → Json
  | key code pressed => .object
      [("type", .string "key"), ("code", .ofNat code), ("pressed", .bool pressed)]
  | pointer x y button pressed => .object
      [("type", .string "pointer"), ("x", .float x), ("y", .float y), ("button", .ofNat button),
        ("pressed", .bool pressed)]
  | gui element kind => .object
      [("type", .string "gui"), ("element", .string element), ("kind", .string kind)]

end HostEvent

structure Plugin where
  name : String
  /-- Natives under their full names, in the order of registration. -/
  natives : List (String × Native)
  /-- Whether the plugin consumes an event. -/
  consumes : HostEvent → Bool

/-- Register a plugin's natives; they replace earlier ones of the same name. -/
def Plugin.register (natives : Natives) (p : Plugin) : Natives :=
  p.natives.foldl (fun natives n => natives.insert n.1 n.2) natives

end FrameScript
