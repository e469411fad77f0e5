import Asm6502.Text.Glyph

/-!
# Slash-separated paths

## Main definitions

- `Path.extension`: the ending of the last segment, from its last dot on.
- `Path.clean`: the shortest path to the same place.
- `Path.dir`, `Path.join`, `Path.isAbsolute`: the parent, concatenation, and rooted paths.
-/

namespace Asm6502.Path

def segments (path : Text) : List Text :=
  path.splitOn (.char '/')

/-- The part of the last segment from its last dot on, empty if it has none. -/
def extension (path : Text) : Text :=
  let last := (path.reverse.takeWhile (!·.is '/'))
  let ending := last.takeWhile (!·.is '.')
  if ending.length < last.length then .char '.' :: ending.reverse else []

def isAbsolute (path : Text) : Bool :=
  path.head?.any (·.is '/')

/-- Goes one segment further from the place that `places`, the deepest first, lead to. A pair of
dots leaves the deepest place; above the start it stays, unless the path is rooted. -/
def enter (rooted : Bool) (places : List Text) (segment : Text) : List Text :=
  let up : Text := [.char '.', .char '.']
  if segment == [] || segment == [.char '.'] then places
  else if segment == up then
    match places with
    | [] => if rooted then [] else [up]
    | deepest :: outer => if deepest == up then up :: places else outer
  else segment :: places

/-- The shortest path to the same place. The empty path leads to where it starts. -/
def clean (path : Text) : Text :=
  let rooted := isAbsolute path
  let places := ((segments path).foldl (enter rooted) []).reverse
  let joined := List.intercalate [.char '/'] places
  if rooted then .char '/' :: joined
  else if joined.isEmpty then [.char '.'] else joined

def dir (path : Text) : Text :=
  clean (path.reverse.dropWhile (!·.is '/')).reverse

def join (a b : Text) : Text :=
  if a.isEmpty && b.isEmpty then []
  else if a.isEmpty then clean b
  else if b.isEmpty then clean a
  else clean (a ++ .char '/' :: b)

end Asm6502.Path
