import Asm6502.Path
import Asm6502.Table

/-!
# File stores

The files a program can read, by their paths. Directories exist where files lie in them.

## Main definitions

- `FileStore`: the files.
- `FileError`: why a file cannot be read.
- `FileStore.read`: the contents of a file.
-/

namespace Asm6502

/-- The contents of files by clean path. -/
abbrev FileStore := Table Text Bytes

inductive FileError where
  | missing
  | directory
  /-- Something on the way to the file is not a directory. -/
  | notDirectory
  deriving DecidableEq, Repr

def FileError.message (path : Text) : FileError → Text
  | missing => Text.ofString "open " ++ path ++ Text.ofString ": no such file or directory"
  | directory => Text.ofString "read " ++ path ++ Text.ofString ": is a directory"
  | notDirectory => Text.ofString "open " ++ path ++ Text.ofString ": not a directory"

namespace FileStore

def ofFiles (files : List (Text × Bytes)) : FileStore :=
  files.foldl (fun store (path, contents) => Table.insert store (Path.clean path) contents) []

/-- Whether the clean path `path` names a directory: the working directory, one above it, or one
that a file lies in. -/
def isDirectory (store : FileStore) (path : Text) : Bool :=
  (Path.segments path).all (fun s => s == [.char '.'] || s == [.char '.', .char '.']) ||
    path == [.char '/'] ||
    store.any fun (file, _) => (path ++ [Glyph.char '/']).isPrefixOf file

/-- Whether a proper part of `path` names a file. -/
def leadsThroughFile (store : FileStore) (path : Text) : Bool :=
  store.any fun (file, _) => (file ++ [Glyph.char '/']).isPrefixOf path

def read (store : FileStore) (path : Text) : Except FileError Bytes :=
  if path.isEmpty then .error .missing
  else
    let place := Path.clean path
    let asDirectory := path.getLast?.any (·.is '/')
    match Table.find? store place with
    | some contents => if asDirectory then .error .notDirectory else .ok contents
    | none =>
      if isDirectory store place then .error .directory
      else if leadsThroughFile store place then .error .notDirectory
      else .error .missing

end FileStore

end Asm6502
