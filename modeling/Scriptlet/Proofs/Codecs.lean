import Scriptlet.Json.Basic

/-!
# Codecs that keep values

What is relied on where a value is written and read again, said of any codec: that it keeps a given
floating point number (`Codec.KeepsFloat`), and that it keeps everything else as JSON does
(`Codec.Standard`).  The two are apart, since a reader that rounds more than once can keep all
values but some floating point numbers.
-/

namespace Scriptlet.Json

/-! ## What can be written -/

/-- A whole number can be written if it fits.  Of a floating point number that is finite a given
condition is asked. -/
def Number.Writable (keeps : Float → Prop) : Number → Prop
  | .whole n => Fits n
  | .float x => x.isFinite = true → keeps x

mutual

/-- A value can be written: every string and every name in it has a text, and every number has a
value that can be written. -/
def Writable (keeps : Float → Prop) : Json → Prop
  | null => True
  | bool _ => True
  | number value => ∃ v, value = some v ∧ v.Writable keeps
  | string text => text.isSome = true
  | array items => WritableItems keeps items
  | object members => WritableMembers keeps members

/-- All items of an array can be written. -/
def WritableItems (keeps : Float → Prop) : List Json → Prop
  | [] => True
  | item :: rest => item.Writable keeps ∧ WritableItems keeps rest

/-- All members of an object can be written, and their names have a text. -/
def WritableMembers (keeps : Float → Prop) : List (Option String × Json) → Prop
  | [] => True
  | (key, value) :: rest => key.isSome = true ∧ value.Writable keeps ∧ WritableMembers keeps rest

end

/-! ## What is left in a text -/

/-- A number as a text holds it: JSON has none that is infinite or undefined, and `null` stands for
such a number. -/
def Number.portable : Number → Json
  | .whole n => number (some (.whole n))
  | .float x => if x.isFinite = true then number (some (.float x)) else null

mutual

/-- A value as its text holds it. -/
def portable : Json → Json
  | null => null
  | bool b => bool b
  | number none => number none
  | number (some v) => v.portable
  | string text => string text
  | array items => array (portableItems items)
  | object members => object (portableMembers members)

/-- The items of an array as its text holds them. -/
def portableItems : List Json → List Json
  | [] => []
  | item :: rest => item.portable :: portableItems rest

/-- The members of an object as its text holds them. -/
def portableMembers : List (Option String × Json) → List (Option String × Json)
  | [] => []
  | (key, value) :: rest => (key, value.portable) :: portableMembers rest

end

/-! ## Keeping values -/

namespace Codec

/-- The text of a floating point number is read as the same number, and so never as a whole one. -/
def KeepsFloat (codec : Codec) (x : Float) : Prop :=
  codec.read? (codec.write (.number (some (.float x)))) = some (.number (some (.float x)))

/-- The text of a value is read as what it holds of the value, if the finite floating point numbers
in it are kept. -/
def Standard (codec : Codec) : Prop :=
  ∀ j : Json, j.Writable codec.KeepsFloat → codec.read? (codec.write j) = some j.portable

end Codec

/-! ## Lists of values -/

/-- The items of an array can be written if each of them can. -/
theorem writableItems_iff {keeps : Float → Prop} {items : List Json} :
    WritableItems keeps items ↔ ∀ item ∈ items, item.Writable keeps := by
  induction items with
  | nil => exact iff_of_true trivial nofun
  | cons item items ih => rw [WritableItems, ih, List.forall_mem_cons]

/-- A text holds the items of an array one by one. -/
theorem portableItems_eq (items : List Json) : portableItems items = items.map portable := by
  induction items with
  | nil => rfl
  | cons item items ih => rw [portableItems, ih, List.map_cons]

/-- A text holds the members of an object one by one. -/
theorem portableMembers_eq (members : List (Option String × Json)) :
    portableMembers members = members.map fun m => (m.1, m.2.portable) := by
  induction members with
  | nil => rfl
  | cons m members ih => rw [portableMembers, ih, List.map_cons]

end Scriptlet.Json
