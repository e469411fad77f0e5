import Asm6502.Server.Answer
import Asm6502.Server.Workspace
import Asm6502.Text.Quoted

/-!
# The language server

Messages are handled one after the other. An index that a message calls for is made before the next
message is looked at.

## Main definitions

- `Reaction`: what a message brings about.
- `Server.handle`: the reaction to a request.
- `Server.receive`: the reaction to a message.
- `Server.run`: the reactions to the messages of a connection.
-/

namespace Asm6502

structure Reaction where
  workspace : Workspace
  sent : List Outgoing := []
  logs : List String := []
  closes : Bool := false

namespace Reaction

def logged (line : String) (reaction : Reaction) : Reaction :=
  { reaction with logs := s!"{serverName}: {line}" :: reaction.logs }

end Reaction

namespace Server

/-- Answers a request. A notification is answered as if its identifier were zero. -/
def reply (w : Workspace) (r : Request) (answer : Answer) : Reaction :=
  { workspace := w, sent := [.result (r.id?.getD (.number 0)) answer] }

/-- Refuses a request. Nothing is sent about a notification. -/
def refuse (w : Workspace) (r : Request) (e : RequestError) : Reaction :=
  { workspace := w, sent := (r.id?.map (.failure · e)).toList }

/-- Goes on with the parameters of a request, or refuses it. -/
def withParams {α : Type} (w : Workspace) (r : Request) (decoder : Json.Decoder α) (zero : α)
    (next : α → Checked Reaction) : Checked Reaction :=
  match r.decode decoder zero with
  | .ok params => next params
  | .error e =>
    let detail := e.detail?.getD ""
    pure ((refuse w r e).logged s!"invalid parameters for {r.method}: {detail}")

/-- Answers a request from the index of a document, and with `absent` if it is not open. -/
def query (w : Workspace) (r : Request) (uri : String) (absent : Answer)
    (answer : SymbolIndex → Checked Answer) : Checked Reaction :=
  match w.currentIndex uri with
  | (w, none) => pure (reply w r absent)
  | (w, some ix) => do return reply w r (← answer ix)

/-- Makes the index of a document whose text is new, and publishes the remarks on it. -/
def reparse (w : Workspace) (uri : String) : Reaction :=
  match w.task? uri with
  | none => { workspace := w }
  | some task =>
    -- no message comes in between, so the task is always of the current text here
    match w.finish task with
    | (w, none) => { workspace := w }
    | (w, some ix) =>
      let reaction : Reaction :=
        { workspace := w
          sent := [.publication
            { uri, version := task.version, diagnostics := ix.diagnostics }] }
      reaction.logged
        s!"parsed {uri}: {ix.tokens.size} tokens, {ix.statements.size} statements"

/-- Tells an editor that connects what the server can do. The editor may ask for a dialect. -/
def connect (w : Workspace) (r : Request) (params : ConnectParams) : Reaction :=
  match params.dialect? with
  | none => reply w r .capabilities
  | some name =>
    if name = "" then reply w r .capabilities
    else
      match Dialect.ofName? (Text.ofString name) with
      | some d => reply { w with override? := some d } r .capabilities
      | none =>
        (reply w r .capabilities).logged
          s!"ignoring unknown dialect {Text.quoted (Text.ofString name)}"

/-- Takes a change of a document. Of several texts the last one counts. -/
def change (w : Workspace) (params : ChangeParams) : Reaction :=
  match params.changes.items.getLast? with
  | none => { workspace := w }
  | some text =>
    reparse (w.changeDocument params.uri params.version (Text.ofString text).bytes) params.uri

def dispatch (w : Workspace) (r : Request) (m : Method) : Checked Reaction :=
  match m with
  | .connect => withParams w r ConnectParams.decoder {} fun p => pure (connect w r p)
  | .connected => pure { workspace := w }
  | .didOpen => withParams w r OpenParams.decoder {} fun p =>
    pure (reparse (w.openDocument p.uri p.version (Text.ofString p.text).bytes) p.uri)
  | .didChange => withParams w r ChangeParams.decoder {} fun p => pure (change w p)
  | .didClose => withParams w r DocumentParams.decoder {} fun p =>
    pure { workspace := w.closeDocument p.uri }
  | .diagnostic => withParams w r DocumentParams.decoder {} fun p =>
    query w r p.uri (.diagnostics []) fun ix => pure (.diagnostics ix.diagnostics)
  | .hover => withParams w r PositionParams.decoder {} fun p =>
    query w r p.uri .nothing fun ix => do
      return (← ix.hoverAt p.position).elim .nothing .hover
  | .definition => withParams w r PositionParams.decoder {} fun p =>
    query w r p.uri .nothing fun ix => do
      return (← ix.definitionAt p.uri p.position).elim .nothing .location
  | .references => withParams w r ReferenceParams.decoder {} fun p =>
    query w r p.uri (.locations []) fun ix => do
      return .locations (← ix.referencesAt p.uri p.position p.withDeclarations)
  | .documentSymbol => withParams w r DocumentParams.decoder {} fun p =>
    query w r p.uri (.outline []) fun ix => do return .outline (← ix.outline)
  | .completion => withParams w r PositionParams.decoder {} fun p =>
    query w r p.uri (.completion {}) fun ix => do return .completion (← ix.completeAt p.position)
  | .semanticTokens => withParams w r DocumentParams.decoder {} fun p =>
    query w r p.uri (.highlights []) fun ix => do return .highlights (← ix.highlights)
  | .shutdown => pure (reply w r .nothing)
  | .exit => pure { workspace := w, closes := true }

def handle (w : Workspace) (r : Request) : Checked Reaction := do
  let reaction ← match Method.ofName? r.method with
    | some m => dispatch w r m
    | none => pure (refuse w r (.unsupportedMethod r.method))
  return reaction.logged s!"received request: {r.method}"

/-- The reaction to what comes in. A message that is malformed closes the connection. -/
def receive (w : Workspace) : Message → Checked Reaction
  | .request r => handle w r
  | .response => pure { workspace := w }
  | .malformed => pure { workspace := w, closes := true }

/-- The reactions to the messages of a connection, up to the one that closes it. -/
def run (w : Workspace) : List Message → Checked (List Reaction)
  | [] => pure []
  | m :: ms => do
    let reaction ← receive w m
    if reaction.closes then return [reaction]
    return reaction :: (← run reaction.workspace ms)

end Server

end Asm6502
