import Concordance.Exchange.Document
import Concordance.Store.Config

/-!
# Exchange forms of stores

A configuration with its text, and whether that text is read back as the same configuration.
-/

namespace Concordance.Exchange

/-- Changes one setting of a configuration. -/
def configChange (c : Config) : Json → Except Error Config
  | .array [.text "path", .text path] => .ok { c with path }
  | .array [.text "cache_size", v] =>
    return { c with cacheSize := ← required "size" (word64 v) }
  | .array [.text "acl", .bool accessControl] => .ok { c with accessControl }
  | .array [.text "metadata", .text s] => return { c with schema := ← Schema.parse s }
  | .array [.text "statsproc", .text s] => return { c with encoding := ← Statistics.Encoding.parse s }
  | .array [.text "history", v] =>
    return { c with historyLimit := ← required "limit" (word64 v) }
  | _ => .error (.json "malformed setting")

/-- Whether the text of a configuration is read back as it. -/
def readsBack (c : Config) : Bool :=
  match Config.parse c.display with
  | .ok again => again = c
  | .error _ => false

def ofConfig (c : Config) : Json :=
  .object [
    ("path", ofOption .text c.path),
    ("cache_size", .ofNat c.cacheSize),
    ("acl", .bool c.accessControl),
    ("metadata", ofSchema c.schema),
    ("statsproc", .text c.encoding.name),
    ("history", .ofNat c.historyLimit),
    ("display", .text c.display),
    ("reparsed", .bool (readsBack c)),
    ("json", c.toJson)]

end Concordance.Exchange
