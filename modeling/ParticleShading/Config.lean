/-!
# Configuration sources

Where a configuration text comes from and what can go wrong with it: a file may
be missing or not be text, a text may not fit its form, and a well-formed
configuration may hold unusable values.
-/

namespace ParticleShading

inductive ConfigError where
  | unreadable
  | malformed
  | invalid (reason : String)
  deriving DecidableEq

def ConfigError.message : ConfigError → String
  | .unreadable => "failed to read config"
  | .malformed => "failed to parse config"
  | .invalid reason => "invalid configuration: " ++ reason

def ConfigError.kind : ConfigError → String
  | .unreadable => "Config.Io"
  | .malformed => "Config.Parse"
  | .invalid _ => "Config.Invalid"

/-- A text at hand, or a file with its bytes if it exists. -/
inductive ConfigSource where
  | text (content : String)
  | file (content : Option ByteArray)

/-- The text of a source. A file has to exist and to be UTF-8. -/
def ConfigSource.read : ConfigSource → Except ConfigError String
  | .text content => .ok content
  | .file none => .error .unreadable
  | .file (some bytes) =>
    match String.fromUTF8? bytes with
    | some content => .ok content
    | none => .error .unreadable

end ParticleShading
