import SqlEdit.Text.Basic

namespace SqlEdit

/-- A JSON value. A string without a text is one in which half of a surrogate pair stands alone.
A number is known by its literal only. -/
inductive Json where
  | null
  | bool (b : Bool)
  | number (literal : Text)
  | string (s : Option Text)
  | array (items : List Json)
  | object (members : List (Option Text × Json))

namespace Json

def ofText (t : Text) : Json :=
  string (some t)

def ofOption {α : Type} (encode : α → Json) : Option α → Json
  | some a => encode a
  | none => null

def ofList {α : Type} (encode : α → Json) (as : List α) : Json :=
  array (as.map encode)

def record (members : List (String × Json)) : Json :=
  object (members.map fun (key, j) => (some key.toList, j))

def tagged (tag : String) (content : Json) : Json :=
  record [(tag, content)]

def text? : Json → Option Text
  | string s => s
  | _ => none

def bool? : Json → Option Bool
  | bool b => some b
  | _ => none

def nullable? {α : Type} (decode : Json → Option α) : Json → Option (Option α)
  | null => some none
  | j => (decode j).map some

def list? {α : Type} (decode : Json → Option α) : Json → Option (List α)
  | array items => items.mapM decode
  | _ => none

def members? {α : Type} (decode : Json → Option α) : Json → Option (List (Text × α))
  | object members =>
    members.mapM fun (key, j) => do
      let key ← key
      let a ← decode j
      some (key, a)
  | _ => none

/-- The values of a record by the names of its fields, `none` for one that is missing. An object
may have other members too, but none of these twice; an array has the values in order, all of
them and no others. -/
def fields? (names : List String) : Json → Option (List (Option Json))
  | object members =>
    let given (name : String) := members.filter (·.1 == some name.toList)
    if members.all (·.1.isSome) && names.all fun name => (given name).length ≤ 1 then
      some (names.map fun name => (given name).head?.map (·.2))
    else none
  | array items => if items.length = names.length then some (items.map some) else none
  | _ => none

def required? {α : Type} (decode : Json → Option α) (j : Option Json) : Option α :=
  j.bind decode

def optional? {α : Type} (decode : Json → Option α) : Option Json → Option (Option α)
  | some j => nullable? decode j
  | none => some none

def alternative? : Json → Option (Text × Option Json)
  | string s => s.map (·, none)
  | object [(key, content)] => key.map (·, some content)
  | _ => none

def isBare : Option Json → Bool
  | none | some null => true
  | _ => false

end Json

end SqlEdit
