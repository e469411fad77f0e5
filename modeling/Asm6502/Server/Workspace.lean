import Asm6502.Index.Basic
import Asm6502.Settings

/-!
# Open documents

The server keeps the text of every open document and an index of it. An index is made by a task that
may end after the text has changed again, so a document counts its changes, and an index is kept
only if it is of the text that the document still has.

## Main definitions

- `Document`: an open document.
- `Workspace`: the open documents and what decides their dialects.
- `Workspace.openDocument`, `Workspace.changeDocument`, `Workspace.closeDocument`: what happens to a
  document.
- `ParseTask`, `Workspace.task?`, `Workspace.finish`: making an index in the background.
- `Workspace.currentIndex`: the index of the current text.
-/

namespace Asm6502

structure Document where
  source : Bytes
  version : Int
  dialect : Dialect
  /-- The number of changes since the document was opened. -/
  generation : Nat := 0
  /-- The last index that was kept. -/
  index? : Option SymbolIndex := none
  /-- The generation of the text that the index is of. -/
  indexGeneration : Nat := 0

namespace Document

/-- The index, if it is of the current text. -/
def freshIndex? (doc : Document) : Option SymbolIndex :=
  if doc.indexGeneration = doc.generation then doc.index? else none

def change (doc : Document) (version : Int) (source : Bytes) : Document :=
  { doc with source, version, generation := doc.generation + 1 }

def keep (doc : Document) (ix : SymbolIndex) : Document :=
  { doc with index? := some ix, indexGeneration := doc.generation }

end Document

/-- The open documents by URI, and what decides their dialects. -/
structure Workspace where
  settings : Settings
  /-- The dialect that the editor asked for. -/
  override? : Option Dialect := none
  documents : Table String Document := []

/-- An index to be made: that of the text a document had when the task was given. -/
structure ParseTask where
  uri : String
  source : Bytes
  dialect : Dialect
  generation : Nat
  version : Int

def ParseTask.index (task : ParseTask) : SymbolIndex :=
  .parse task.dialect task.source

namespace Workspace

def dialectFor (w : Workspace) (uri : String) : Dialect :=
  w.override?.getD (w.settings.dialectFor uri)

def document? (w : Workspace) (uri : String) : Option Document :=
  w.documents.find? uri

def setDocument (w : Workspace) (uri : String) (doc : Document) : Workspace :=
  { w with documents := w.documents.insert uri doc }

/-! ## Notifications -/

/-- Opens a document, in place of one that is open under the same URI. -/
def openDocument (w : Workspace) (uri : String) (version : Int) (source : Bytes) : Workspace :=
  w.setDocument uri { source, version, dialect := w.dialectFor uri }

/-- Gives a document another text, if it is open. -/
def changeDocument (w : Workspace) (uri : String) (version : Int) (source : Bytes) : Workspace :=
  match w.document? uri with
  | some doc => w.setDocument uri (doc.change version source)
  | none => w

def closeDocument (w : Workspace) (uri : String) : Workspace :=
  { w with documents := w.documents.erase uri }

/-! ## Indices -/

/-- The task of making an index of the current text of a document. -/
def task? (w : Workspace) (uri : String) : Option ParseTask :=
  (w.document? uri).map fun doc =>
    { uri, source := doc.source, dialect := doc.dialect, generation := doc.generation
      version := doc.version }

/-- Keeps an index if the document is open and still at the given generation. -/
def store? (w : Workspace) (uri : String) (generation : Nat) (ix : SymbolIndex) :
    Option Workspace :=
  match w.document? uri with
  | some doc => if doc.generation = generation then some (w.setDocument uri (doc.keep ix)) else none
  | none => none

/-- Ends a task. The index is kept, and given back, only if it is of the current text. -/
def finish (w : Workspace) (task : ParseTask) : Workspace × Option SymbolIndex :=
  match w.store? task.uri task.generation task.index with
  | some w => (w, some task.index)
  | none => (w, none)

/-- The index of the current text of a document. It is made now if there is none yet. -/
def currentIndex (w : Workspace) (uri : String) : Workspace × Option SymbolIndex :=
  match w.document? uri with
  | none => (w, none)
  | some doc =>
    match doc.freshIndex? with
    | some ix => (w, some ix)
    | none =>
      let ix := SymbolIndex.parse doc.dialect doc.source
      (w.setDocument uri (doc.keep ix), some ix)

end Workspace

end Asm6502
