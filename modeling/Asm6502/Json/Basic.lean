/-!
# JSON values

Values as they are written: a number keeps its literal, and an object keeps all its members in
order, also those whose names repeat.

## Main definitions

- `Json`: a value.
- `Json.int`, `Json.strings`: values that are written often.
- `Json.member?`: the value of a member.
- `Json.normalize`: a value with the members of its objects in order.
- `Json.render`: a value as text.
-/

namespace Asm6502

inductive Json where
  | null
  | bool (value : Bool)
  | number (literal : String)
  | string (value : String)
  | array (items : List Json)
  | object (members : List (String × Json))
  deriving Inhabited, Repr

namespace Json

def int (n : Int) : Json :=
  number (toString n)

def nat (n : Nat) : Json :=
  number (toString n)

def strings (items : List String) : Json :=
  array (items.map string)

/-- The value of the last member called `name`. -/
def member? (name : String) : Json → Option Json
  | object members => members.reverse.lookup name
  | _ => none

/-! ## Normal form -/

/-- Puts a member at its place among members in the order of their names. -/
def insertMember (name : String) (value : Json) : List (String × Json) → List (String × Json)
  | [] => [(name, value)]
  | (first, old) :: members =>
    if name < first then (name, value) :: (first, old) :: members
    else (first, old) :: insertMember name value members

mutual

/-- The value with the members of each object in the order of their names. Of members with the same
name only the last one is left. -/
def normalize : Json → Json
  | array items => array (normalizeItems items)
  | object members => object (normalizeMembers members)
  | null => null
  | bool b => bool b
  | number literal => number literal
  | string s => string s

def normalizeItems : List Json → List Json
  | [] => []
  | item :: items => item.normalize :: normalizeItems items

def normalizeMembers : List (String × Json) → List (String × Json)
  | [] => []
  | (name, value) :: members =>
    let members := normalizeMembers members
    if members.any (·.1 == name) then members else insertMember name value.normalize members

end

/-! ## Writing -/

def controlEscape (c : Char) : String :=
  "\\u00" ++ String.ofList [Nat.digitChar (c.toNat / 16), Nat.digitChar (c.toNat % 16)]

def escape (c : Char) : String :=
  if c == '"' then "\\\""
  else if c == '\\' then "\\\\"
  else if c == '\n' then "\\n"
  else if c == '\r' then "\\r"
  else if c == '\t' then "\\t"
  else if c.toNat < 0x20 then controlEscape c
  else c.toString

def quote (s : String) : String :=
  "\"" ++ s.toList.foldl (fun out c => out ++ escape c) "" ++ "\""

mutual

/-- The value as text, without blanks. -/
def render : Json → String
  | null => "null"
  | bool true => "true"
  | bool false => "false"
  | number literal => literal
  | string s => quote s
  | array items => "[" ++ ",".intercalate (renderItems items) ++ "]"
  | object members => "\x7b" ++ ",".intercalate (renderMembers members) ++ "\x7d"

def renderItems : List Json → List String
  | [] => []
  | item :: items => item.render :: renderItems items

def renderMembers : List (String × Json) → List String
  | [] => []
  | (name, value) :: members => (quote name ++ ":" ++ value.render) :: renderMembers members

end

end Json

end Asm6502
