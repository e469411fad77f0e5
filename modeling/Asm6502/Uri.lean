import Asm6502.Path
import Asm6502.Uri.Address

/-!
# URIs

A URI is taken apart into its components, each with its percent escapes undone, and put together
again. Where a component had an unusual but correct spelling, it is kept.

## Main definitions

- `Uri.Component`, `Uri.Component.encode`, `Uri.Component.decode?`: percent escapes, whose rules
  differ between components.
- `Uri`, `Uri.parse?`, `Uri.render`: the parts of a URI.
- `Uri.resolve?`: the URI of a file that is named relative to another.
-/

namespace Asm6502

open Text (cut cutLast? cutBefore)

namespace Uri

/-- The components that have rules of their own for percent escapes. -/
inductive Component where
  | userInfo
  | host
  /-- The zone of an address in brackets. -/
  | zone
  | path
  | fragment
  deriving DecidableEq, Repr

namespace Component

/-- Punctuation that stands for itself in a component. -/
def punctuation : Component → String
  | userInfo => "-_.~$&+,;="
  | host => "-_.~!$&'()*+,;=:[]<>\""
  | zone => "-_.~!$&'()*+,;=:[]<>\""
  | path => "-_.~$&+,/:;=@"
  | fragment => "-_.~$&+,/:;=?@!()*"

/-- Whether a byte stands for itself. All others are escaped. -/
def keeps (part : Component) (b : UInt8) : Bool :=
  let c := Char.ofNat b.toNat
  c.isAlphanum || part.punctuation.toList.contains c

/-- Whether a byte may be written as it is. A host has no other ASCII characters than those it
keeps. -/
def allows (part : Component) (b : UInt8) : Bool :=
  match part with
  | host | zone => 0x80 ≤ b || part.keeps b
  | _ => true

/-- Whether a byte may be written as an escape. In a host only the percent sign and bytes beyond
ASCII may. -/
def allowsEscape (part : Component) (b : UInt8) : Bool :=
  match part with
  | host => 0x80 ≤ b || b == 0x25
  | zone => b == 0x25 || b == 0x20 || host.keeps b
  | _ => true

def digit (n : Nat) : UInt8 :=
  UInt8.ofNat (if n < 10 then n + 0x30 else n + 0x37)

def digitValue? (b : UInt8) : Option Nat :=
  if 0x30 ≤ b ∧ b ≤ 0x39 then some (b.toNat - 0x30)
  else if 0x41 ≤ b ∧ b ≤ 0x46 then some (b.toNat - 0x37)
  else if 0x61 ≤ b ∧ b ≤ 0x66 then some (b.toNat - 0x57)
  else none

def encodeByte (part : Component) (b : UInt8) : Bytes :=
  if part.keeps b then [b] else [0x25, digit (b.toNat / 16), digit (b.toNat % 16)]

def encodeBytes (part : Component) (bytes : Bytes) : Bytes :=
  bytes.flatMap part.encodeByte

/-- The bytes that a component spells, unless an escape is incomplete or out of place. -/
def decodeBytes? (part : Component) : Bytes → Option Bytes
  | [] => some []
  | b :: rest =>
    if b = 0x25 then
      match rest with
      | high :: low :: rest => do
        let high ← digitValue? high
        let low ← digitValue? low
        let value := UInt8.ofNat (high * 16 + low)
        if part.allowsEscape value then (value :: ·) <$> part.decodeBytes? rest else none
      | _ => none
    else if part.allows b then (b :: ·) <$> part.decodeBytes? rest
    else none

def encode (part : Component) (t : Text) : Text :=
  Text.decode (part.encodeBytes t.bytes)

def decode? (part : Component) (t : Text) : Option Text :=
  (part.decodeBytes? t.bytes).map Text.decode

/-- Whether a spelling holds only characters that may stand unescaped, and escapes. -/
def isSpelling (part : Component) (t : Text) : Bool :=
  t.bytes.all fun b =>
    "!$&'()*+,;=:@[]%".toList.contains (Char.ofNat b.toNat) || part.keeps b

/-- The spelling `raw` if it is a correct one of `value`, and the usual one otherwise. -/
def spell (part : Component) (raw value : Text) : Text :=
  if !raw.isEmpty && part.isSpelling raw && part.decode? raw == some value then raw
  else part.encode value

end Component

/-! ## Authorities -/

/-- A user name, and a password if there is one. -/
structure User where
  name : Text
  password? : Option Text
  deriving DecidableEq, Repr

def User.render (u : User) : Text :=
  Component.userInfo.encode u.name ++
    (u.password?.map fun p => .char ':' :: Component.userInfo.encode p).getD []

def User.parse? (t : Text) : Option User := do
  let allowed (c : Char) : Bool := c.isAlphanum || "-._:~!$&'()*+,;=%@".toList.contains c
  if !t.all (·.satisfies allowed) then failure
  let (name, password?) := cut ':' t
  let name ← Component.userInfo.decode? name
  match password? with
  | none => pure ⟨name, none⟩
  | some password => pure ⟨name, some (← Component.userInfo.decode? password)⟩

def isColonNumber (t : Text) : Bool :=
  match t with
  | [] => true
  | g :: digits => g.is ':' && digits.all (·.satisfies Char.isDigit)

/-- An address in brackets, and the number behind it. The zone of the address has its own rules. -/
def bracketedHost? (t : Text) : Option Text := do
  let (inner, number) ← cutLast? ']' t
  if !isColonNumber number then failure
  -- the percent sign in front of a zone is written as an escape
  let (address, zone) := cutBefore (Text.ofString "%25") (inner.drop 1)
  let address ← Component.host.decode? address
  let zone ← Component.zone.decode? zone
  let number ← Component.host.decode? number
  if !Address.isAddress (address ++ zone) then failure
  pure (.char '[' :: (address ++ zone) ++ .char ']' :: number)

/-- A host. A bracket opens nothing but a whole host. -/
def host? (t : Text) : Option Text :=
  match cutLast? '[' t with
  | some ([], _) => bracketedHost? t
  | some _ => none
  | none =>
    -- of several colons the last one announces the port
    match cutLast? ':' t with
    | some (_, digits) =>
      if isColonNumber (.char ':' :: digits) then Component.host.decode? t else none
    | none => Component.host.decode? t

/-- The user, if any, and the host of an authority. -/
def authority? (t : Text) : Option (Option User × Text) :=
  match cutLast? '@' t with
  | none => (host? t).map (none, ·)
  | some (user, host) => do
    let host ← host? host
    pure (some (← User.parse? user), host)

end Uri

/-! ## URIs -/

/-- The parts of a URI, with escapes undone. -/
structure Uri where
  scheme : Text := []
  /-- What follows the scheme of a URI whose path is not rooted. -/
  rootless : Text := []
  user? : Option Uri.User := none
  host : Text := []
  /-- Whether the URI has a scheme and a rooted path but no authority. -/
  omitsHost : Bool := false
  path : Text := []
  /-- The path as it was written, if that is not the usual spelling. -/
  rawPath : Text := []
  /-- The query as it was written, if a question mark announces one. -/
  query? : Option Text := none
  fragment : Text := []
  /-- The fragment as it was written, if that is not the usual spelling. -/
  rawFragment : Text := []
  deriving DecidableEq, Repr

namespace Uri

/-- The scheme and what follows it, or no scheme and everything. A colon needs a scheme in front
of it. -/
def scheme? (t : Text) : Option (Text × Text) :=
  let isPart (c : Char) : Bool := c.isAlphanum || c == '+' || c == '-' || c == '.'
  let front := t.takeWhile (·.satisfies isPart)
  let rest := t.drop front.length
  let colon := rest.head?.any (·.is ':')
  match front with
  | [] => if colon then none else some ([], t)
  | g :: _ => if colon && g.satisfies Char.isAlpha then some (front, rest.drop 1) else some ([], t)

/-- A component and its spelling where it is not the usual one. -/
def component? (part : Component) (raw : Text) : Option (Text × Text) := do
  let value ← part.decode? raw
  pure (value, if part.encode value == raw then [] else raw)

def startsWithColon (path : Text) : Bool :=
  (cut '/' path).1.any (·.is ':')

/-- The URI with the path, and the authority in front of it, that `rest` spells. -/
def hierarchy? (u : Uri) (rest : Text) : Option Uri := do
  let slashes (n : Nat) : Bool := (List.replicate n (Glyph.char '/')).isPrefixOf rest
  if slashes 2 && (!u.scheme.isEmpty || !slashes 3) then
    let (authority, _) := cut '/' (rest.drop 2)
    let (user?, host) ← authority? authority
    let (path, rawPath) ← component? .path (rest.drop (authority.length + 2))
    pure { u with user?, host, path, rawPath }
  else
    let (path, rawPath) ← component? .path rest
    pure { u with omitsHost := !u.scheme.isEmpty && slashes 1, path, rawPath }

/-- The URI that a text without fragment spells. -/
def parseAbsolute? (t : Text) : Option Uri := do
  if t.any (·.satisfies fun c => c.toNat < 0x20 || c.toNat == 0x7F) then failure
  let (scheme, rest) ← scheme? t
  let (rest, query?) := cut '?' rest
  let u : Uri := { scheme := scheme.map fun g => g.char?.elim g (.char ·.toLower), query? }
  if Path.isAbsolute rest then u.hierarchy? rest
  else if !scheme.isEmpty then pure { u with rootless := rest }
  else if startsWithColon rest then failure
  else u.hierarchy? rest

def parse? (t : Text) : Option Uri := do
  let (front, fragment?) := cut '#' t
  let u ← parseAbsolute? front
  let (fragment, rawFragment) ← component? .fragment (fragment?.getD [])
  pure { u with fragment, rawFragment }

/-! ## Writing -/

/-- The authority with the slashes in front of it. It is left out where there is nothing to tell. -/
def renderAuthority (u : Uri) : Text :=
  let bare := u.host.isEmpty && u.user?.isNone
  if bare && (u.scheme.isEmpty || u.omitsHost || u.path.isEmpty) then []
  else
    [.char '/', .char '/'] ++ (u.user?.map fun user => user.render ++ [.char '@']).getD [] ++
      Component.host.encode u.host

/-- The path as it is written. An asterisk alone is usually not escaped. -/
def renderPath (u : Uri) : Text :=
  let spelled := Component.path.spell u.rawPath u.path
  if u.path == [.char '*'] && spelled == Component.path.encode u.path then u.path else spelled

/-- Everything in front of the query. A path behind a host starts with a slash, and a colon in the
first segment of a path that stands alone is kept from being read as the end of a scheme. -/
def renderHierarchy (u : Uri) : Text :=
  let front := (if u.scheme.isEmpty then [] else u.scheme ++ [.char ':']) ++ u.renderAuthority
  let path := u.renderPath
  let joint : Text :=
    if !path.isEmpty && !Path.isAbsolute path && !u.host.isEmpty then [.char '/']
    else if front.isEmpty && startsWithColon path then [.char '.', .char '/']
    else []
  front ++ joint ++ path

def render (u : Uri) : Text :=
  (if u.rootless.isEmpty then u.renderHierarchy else u.scheme ++ .char ':' :: u.rootless) ++
    (u.query?.map (.char '?' :: ·)).getD [] ++
    (if u.fragment.isEmpty then []
      else .char '#' :: Component.fragment.spell u.rawFragment u.fragment)

/-- The URI of the file that is called `name` in the file at `base`. -/
def resolve? (base : String) (name : Text) : Option String := do
  let u ← parse? (Text.ofString base)
  if name.isEmpty then failure
  let path := if Path.isAbsolute name then name else Path.join (Path.dir u.path) name
  pure { u with path }.render.shown

end Uri

end Asm6502
