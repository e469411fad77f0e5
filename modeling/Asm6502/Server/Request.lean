import Asm6502.Json.Decoder
import Asm6502.Text.Position

/-!
# Requests

A request to the server names a method and has parameters. One with an identifier asks for a
response.

## Main definitions

- `Request`, `Request.ofJson?`: a request.
- `Message`, `Message.ofJson`: what comes in over a connection.
- `RequestError`: why a request is refused.
- `Method`: the methods that the server knows.
- `DocumentParams`, `PositionParams`, `ReferenceParams`, `OpenParams`, `ChangeParams`,
  `ConnectParams`: the parameters of methods, each with its decoder.
- `Request.decode`: the parameters of a request.
-/

namespace Asm6502

inductive RequestId where
  | number (n : Nat)
  | string (s : String)
  deriving DecidableEq, Repr

structure Request where
  /-- A request without identifier is a notification. -/
  id? : Option RequestId := none
  method : String := ""
  params? : Option Json := none

namespace Request

/-- An identifier is a string or an integer of 64 bits, whose bits are taken without a sign. None is
given by `null` or by leaving it out. -/
def readId? : Json → Option (Option RequestId)
  | .null => some none
  | .string s => some (some (.string s))
  | .number literal => do
    let n ← Json.Decoder.int 0 (.number literal)
    pure (some (.number (n % 0x10000000000000000).toNat))
  | _ => none

/-- The request that an object spells. Its parameters are brought into normal form, and `null` stays
apart from none at all. -/
def ofJson? (message : Json) : Option Request := do
  let .string method ← message.member? "method" | none
  let id? ← readId? ((message.member? "id").getD .null)
  pure { id?, method, params? := (message.member? "params").map Json.normalize }

end Request

/-! ## Messages -/

inductive Message where
  | request (r : Request)
  /-- An answer. The server asks nothing, so there is nothing to do with it. -/
  | response
  | malformed

namespace Message

/-- What tells requests from responses: a method, or a result or an error. -/
structure Kind where
  method? : Option String := none
  /-- Whether there is a result, which may be `null`. -/
  hasResult : Bool := false
  /-- Whether there is an error that is not `null`. -/
  hasError : Bool := false

def Kind.decoder : Json.Decoder Kind :=
  .record
    [("method", .part (·.method?) ({ · with method? := · }) (.optional "" .string)),
     ("result", fun kind _ => some { kind with hasResult := true }),
     ("error", fun kind j => some { kind with hasError := !(j matches .null) })]

/-- The identifier in a response: a string, or a number of 64 bits without a sign. -/
def responseIdDecoder : Json.Decoder Unit
  | _, .null => some ()
  | _, .string _ => some ()
  | _, .number literal => do
    let n ← Json.Decoder.integer? literal
    if 0 ≤ n ∧ n < 0x10000000000000000 then some () else none
  | _, _ => none

/-- The error in a response: a number and a message. -/
def responseErrorDecoder : Json.Decoder Unit :=
  .record
    [("code", fun _ j => (Json.Decoder.int 0 j).map fun _ => ()),
     ("message", fun _ j => (Json.Decoder.string "" j).map fun _ => ())]

def responseDecoder : Json.Decoder Unit :=
  .record [("id", responseIdDecoder), ("error", responseErrorDecoder)]

def ofJson (message : Json) : Message :=
  match Kind.decoder {} message with
  | none => malformed
  | some kind =>
    -- a message that looks like both, or like neither, cannot be told apart
    match kind.method?.isSome, kind.hasResult || kind.hasError with
    | true, false => (Request.ofJson? message).elim malformed request
    | false, true => (responseDecoder () message).elim malformed fun _ => response
    | _, _ => malformed

end Message

/-! ## Refusals -/

inductive RequestError where
  | unsupportedMethod (method : String)
  | missingParams
  | malformedParams
  deriving DecidableEq, Repr

namespace RequestError

def code : RequestError → Int
  | unsupportedMethod _ => -32601
  | missingParams => -32602
  | malformedParams => -32602

def message : RequestError → String
  | unsupportedMethod method => s!"method not supported: {method}"
  | missingParams => "invalid parameters"
  | malformedParams => "invalid parameters"

def detail? : RequestError → Option String
  | unsupportedMethod _ => none
  | missingParams => some "missing parameters"
  | malformedParams => some "json"

end RequestError

/-! ## Methods -/

inductive Method where
  | connect
  | connected
  | didOpen
  | didChange
  | didClose
  | diagnostic
  | hover
  | definition
  | references
  | documentSymbol
  | completion
  | semanticTokens
  | shutdown
  | exit
  deriving DecidableEq, Repr

namespace Method

def name : Method → String
  | connect => "initialize"
  | connected => "initialized"
  | didOpen => "textDocument/didOpen"
  | didChange => "textDocument/didChange"
  | didClose => "textDocument/didClose"
  | diagnostic => "textDocument/diagnostic"
  | hover => "textDocument/hover"
  | definition => "textDocument/definition"
  | references => "textDocument/references"
  | documentSymbol => "textDocument/documentSymbol"
  | completion => "textDocument/completion"
  | semanticTokens => "textDocument/semanticTokens/full"
  | shutdown => "shutdown"
  | exit => "exit"

def all : List Method :=
  [connect, connected, didOpen, didChange, didClose, diagnostic, hover, definition, references,
   documentSymbol, completion, semanticTokens, shutdown, exit]

def ofName? (name : String) : Option Method :=
  all.find? (·.name == name)

end Method

/-! ## Parameters -/

structure DocumentParams where
  uri : String := ""

def DocumentParams.decoder : Json.Decoder DocumentParams :=
  .record
    [("textDocument", .record [("uri", .part (·.uri) ({ · with uri := · }) .string)])]

def positionDecoder : Json.Decoder Position :=
  .record
    [("line", .part (·.line) ({ · with line := · }) .int),
     ("character", .part (·.char) ({ · with char := · }) .int)]

structure PositionParams where
  uri : String := ""
  position : Position := .origin

def PositionParams.decoder : Json.Decoder PositionParams :=
  .record
    [("textDocument", .record [("uri", .part (·.uri) ({ · with uri := · }) .string)]),
     ("position", .part (·.position) ({ · with position := · }) positionDecoder)]

structure ReferenceParams where
  uri : String := ""
  position : Position := .origin
  withDeclarations : Bool := false

def ReferenceParams.decoder : Json.Decoder ReferenceParams :=
  .record
    [("textDocument", .record [("uri", .part (·.uri) ({ · with uri := · }) .string)]),
     ("position", .part (·.position) ({ · with position := · }) positionDecoder),
     ("context", .record
       [("includeDeclaration",
         .part (·.withDeclarations) ({ · with withDeclarations := · }) .bool)])]

structure OpenParams where
  uri : String := ""
  languageId : String := ""
  version : Int := 0
  text : String := ""

def OpenParams.decoder : Json.Decoder OpenParams :=
  .record
    [("textDocument", .record
       [("uri", .part (·.uri) ({ · with uri := · }) .string),
        ("languageId", .part (·.languageId) ({ · with languageId := · }) .string),
        ("version", .part (·.version) ({ · with version := · }) .int),
        ("text", .part (·.text) ({ · with text := · }) .string)])]

/-- The parameters of the message that a document is changed. Each change is a whole text. -/
structure ChangeParams where
  uri : String := ""
  version : Int := 0
  changes : Json.Decoder.Slots String := {}

def changeDecoder : Json.Decoder String :=
  .record [("text", .string)]

def ChangeParams.decoder : Json.Decoder ChangeParams :=
  .record
    [("textDocument", .record
       [("uri", .part (·.uri) ({ · with uri := · }) .string),
        ("version", .part (·.version) ({ · with version := · }) .int)]),
     ("contentChanges",
       .part (·.changes) ({ · with changes := · }) (.list "" changeDecoder))]

structure ConnectParams where
  processId : Int := 0
  /-- The dialect that the options ask for, if there are options. -/
  dialect? : Option String := none

def ConnectParams.decoder : Json.Decoder ConnectParams :=
  .record
    [("processId", .part (·.processId) ({ · with processId := · }) .int),
     ("initializationOptions",
       .part (·.dialect?) ({ · with dialect? := · })
         (.optional "" (.record [("dialect", .string)])))]

def Request.decode {α : Type} (r : Request) (decoder : Json.Decoder α) (zero : α) :
    Except RequestError α :=
  match r.params? with
  | none => .error .missingParams
  | some params =>
    match decoder zero params with
    | some value => .ok value
    | none => .error .malformedParams

end Asm6502
