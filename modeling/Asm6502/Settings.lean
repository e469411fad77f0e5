import Asm6502.Dialect
import Asm6502.Json.Decoder
import Asm6502.Json.Reader
import Asm6502.Path
import Asm6502.Table

/-!
# Settings

The dialect of a text follows from the extension of its name. Settings are the built-in ones with
JSON documents merged over them.

## Main definitions

- `Settings`, `Settings.builtin`: the settings, and those in force without any document.
- `Settings.merge`: settings overlaid with a document.
- `Settings.dialectFor`: the dialect of a text with a given name.
-/

namespace Asm6502

structure Settings where
  /-- The name of the dialect for texts without a known extension. -/
  defaultDialect : String := ""
  /-- The names of dialects by extension, each with its dot. -/
  extensions : Table String String := []
  /-- The address on which log messages are offered. -/
  logAddress : String := ""
  deriving Repr

namespace Settings

def builtin : Settings where
  defaultDialect := "acme"
  extensions :=
    [(".a", "acme"), (".acme", "acme"),
     (".kick", "kick"), (".ka", "kick"), (".asm", "kick"),
     (".tmpx", "tmpx"), (".tas", "tmpx"),
     (".s", "llvm")]
  logAddress := ":8006"

def fileName : String := "asmlens.json"

def decoder : Json.Decoder Settings :=
  .record
    [("defaultDialect", .part (·.defaultDialect) ({ · with defaultDialect := · }) .string),
     ("extensions",
       .part (·.extensions) ({ · with extensions := · }) (.map "" .string Table.insert)),
     ("logAddress", .part (·.logAddress) ({ · with logAddress := · }) .string)]

/-- The settings that a JSON document spells out; those it does not mention are empty. -/
def ofDocument? (document : Bytes) : Option Settings := do
  decoder {} (← Json.parse (Text.decode document))

/-- Extensions entered one after the other, in lower case. -/
def addExtensions (extensions : Table String String) (entries : List (String × String)) :
    Table String String :=
  entries.foldl (fun t (extension, dialect) => t.insert (Text.lowercase extension) dialect)
    extensions

/-- Settings `s` overlaid with `top`. What `top` leaves empty stays, and extensions are added. -/
def overlay (s top : Settings) : Settings where
  defaultDialect := if top.defaultDialect = "" then s.defaultDialect else top.defaultDialect
  logAddress := if top.logAddress = "" then s.logAddress else top.logAddress
  extensions := addExtensions s.extensions top.extensions

/-- Settings overlaid with a JSON document, unless it does not decode. -/
def merge (s : Settings) (document : Bytes) : Option Settings :=
  (ofDocument? document).map s.overlay

def fallback (s : Settings) : Dialect :=
  (Dialect.ofName? (Text.ofString s.defaultDialect)).getD .acme

def extensionOf (uri : String) : String :=
  Text.lowercase (Path.extension (Text.ofString uri)).shown

def dialectFor (s : Settings) (uri : String) : Dialect :=
  let named := (s.extensions.find? (extensionOf uri)).bind fun name =>
    Dialect.ofName? (Text.ofString name)
  named.getD s.fallback

end Settings

end Asm6502
