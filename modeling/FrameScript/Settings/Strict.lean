import FrameScript.Json.Basic
import FrameScript.Settings.Reading

/-!
# Settings from JSON

JSON is read strictly: every value has the type of its key and fits its range. A
section may also be a list of its values in order, of which the last may be left out.
-/

namespace FrameScript
namespace Settings

/-- What fails says no more than that. -/
def required {α : Type} : Option α → Except Unit α
  | some v => .ok v
  | none => .error ()

def jsonMembers? (places : Nat) : Json → Option (Members Json)
  | .object fields => some fun _ key => (Table.lookup key fields).map (.name key, ·)
  | .array items =>
    if items.length ≤ places then some fun place _ => items[place]?.map (.place place, ·)
    else none
  | _ => none

/-- A policy by its name, or as an object with the name as its only key. -/
def jsonPolicy? : Json → Option DrainPolicy
  | .string name => DrainPolicy.ofName? name
  | .object [(name, .null)] => DrainPolicy.ofName? name
  | _ => none

def strictReader : SettingsReader Unit Json where
  members := fun _ places json => required (jsonMembers? places json)
  halfWord := fun json => required (json.toNatBelow? (Nat.pow 2 32))
  word := fun json => required json.toNat?
  number := fun json => required json.toNumber?
  bool := fun json => required json.toBool?
  text := fun json => required json.toText?
  texts := fun json => required (json.toList?.bind fun items => items.mapM Json.toText?)
  policy := fun json => required (jsonPolicy? json)
  isNull := fun json => match json with
    | .null => true
    | _ => false
  under := fun _ e => e

def ofJson? (json : Json) : Option Settings := (strictReader.settings json).toOption

end Settings
end FrameScript
