import Asm6502.Json.Basic
import Asm6502.Query.Completion
import Asm6502.Query.Highlight
import Asm6502.Query.Hover
import Asm6502.Query.Outline
import Asm6502.Server.Request

/-!
# Answers

What the server sends, and its form in JSON.

## Main definitions

- `Answer`: the result of a request.
- `Outgoing`: a message from the server.
- `Outgoing.toJson`: a message in JSON.
-/

namespace Asm6502

def serverName : String := "asmlens"

inductive Answer where
  | nothing
  | hover (h : Hover)
  | location (l : Location)
  | locations (ls : List Location)
  | outline (items : List OutlineItem)
  | completion (list : CompletionList)
  | highlights (hs : List Highlight)
  | diagnostics (ds : List Diagnostic)
  | capabilities
  deriving DecidableEq, Repr

structure Publication where
  uri : String
  version : Int
  diagnostics : List Diagnostic
  deriving DecidableEq, Repr

inductive Outgoing where
  | result (id : RequestId) (answer : Answer)
  | failure (id : RequestId) (error : RequestError)
  | publication (p : Publication)
  deriving DecidableEq, Repr

/-! ## JSON -/

def Position.toJson (p : Position) : Json :=
  .object [("line", .int p.line), ("character", .int p.char)]

def Span.toJson (s : Span) : Json :=
  .object [("start", s.start.toJson), ("end", s.stop.toJson)]

/-- A text as a string. A byte that is no part of a character is shown as such. -/
def Text.toJson (t : Text) : Json :=
  .string t.shown

def Location.toJson (l : Location) : Json :=
  .object [("uri", .string l.uri), ("range", l.span.toJson)]

def Hover.toJson (h : Hover) : Json :=
  .object
    [("contents", .object [("kind", .string "markdown"), ("value", Text.toJson h.text)]),
     ("range", h.span.toJson)]

def OutlineItem.toJson (item : OutlineItem) : Json :=
  .object
    [("name", Text.toJson item.name), ("detail", .string item.kind.name),
     ("kind", .nat item.kind.symbolCode), ("range", item.span.toJson),
     ("selectionRange", item.selection.toJson)]

def Suggestion.toJson (replaced : Span) (s : Suggestion) : Json :=
  .object
    [("label", Text.toJson s.label), ("kind", .nat s.kind.code), ("detail", .string s.kind.detail),
     ("textEdit", .object [("range", replaced.toJson), ("newText", Text.toJson s.label)])]

def CompletionList.toJson (list : CompletionList) : Json :=
  .object
    [("isIncomplete", .bool false),
     ("items", .array (list.suggestions.map (·.toJson list.replaced)))]

def Diagnostic.toJson (d : Diagnostic) : Json :=
  .object
    [("range", d.span.toJson), ("message", Text.toJson d.message),
     ("source", .string Diagnostic.source), ("severity", .nat d.severity.code)]

/-- What the server can do, as it is told to the editor. -/
def capabilitiesJson : Json :=
  .object
    [("textDocumentSync", .nat 1),
     ("diagnosticProvider", .object
       [("workDoneProgress", .bool false), ("interFileDependencies", .bool false),
        ("workspaceDiagnostics", .bool false)]),
     ("hoverProvider", .bool true),
     ("definitionProvider", .bool true),
     ("referencesProvider", .bool true),
     ("documentSymbolProvider", .bool true),
     ("completionProvider", .object [("triggerCharacters", .strings ["!", ".", "#"])]),
     ("semanticTokensProvider", .object
       [("legend", .object
          [("tokenTypes", .strings (HighlightKind.all.map HighlightKind.name)),
           ("tokenModifiers", .strings Highlight.modifierNames)]),
        ("full", .bool true)])]

def Answer.toJson : Answer → Json
  | nothing => .null
  | hover h => h.toJson
  | location l => l.toJson
  | locations ls => .array (ls.map Location.toJson)
  | outline items => .array (items.map OutlineItem.toJson)
  | completion list => list.toJson
  | highlights hs =>
    .object [("data", .array ((Highlight.encode hs).map fun n => .nat n.toNat))]
  | diagnostics ds =>
    .object [("kind", .string "full"), ("items", .array (ds.map Diagnostic.toJson))]
  | capabilities =>
    .object
      [("capabilities", capabilitiesJson),
       ("serverInfo", .object [("name", .string serverName)])]

def RequestId.toJson : RequestId → Json
  | number n => .nat n
  | string s => .string s

def RequestError.toJson (e : RequestError) : Json :=
  .object
    ([("code", .int e.code), ("message", .string e.message)] ++
      (e.detail?.map fun detail => ("data", .string detail)).toList)

def Publication.toJson (p : Publication) : Json :=
  .object
    [("uri", .string p.uri), ("version", .int p.version),
     ("diagnostics", .array (p.diagnostics.map Diagnostic.toJson))]

def Outgoing.toJson : Outgoing → Json
  | result id answer => .object [("id", id.toJson), ("result", answer.toJson)]
  | failure id error => .object [("id", id.toJson), ("error", error.toJson)]
  | publication p =>
    .object [("method", .string "textDocument/publishDiagnostics"), ("params", p.toJson)]

end Asm6502
