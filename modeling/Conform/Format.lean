import Conform.Regex.Parser
import Conform.Format.Calendar
import Conform.Format.Address

/-! # Formats — named kinds of strings

    Thirteen kinds of strings have a name of their own.  Most are the texts
    that a fixed pattern accepts; dates, times and addresses have readers. -/

namespace Conform

/-- A named kind of strings. -/
inductive Format where
  | email
  | url
  | uuid
  | date
  | dateTime
  | time
  | ipv4
  | ipv6
  | hostname
  | slug
  | alphanum
  | hexColor
  | objectId
deriving DecidableEq

namespace Format

/-- The name under which messages speak of a format. -/
def name : Format → String
  | .email => "email"
  | .url => "url"
  | .uuid => "uuid"
  | .date => "date"
  | .dateTime => "datetime"
  | .time => "time"
  | .ipv4 => "ipv4"
  | .ipv6 => "ipv6"
  | .hostname => "hostname"
  | .slug => "slug"
  | .alphanum => "alphanum"
  | .hexColor => "hexColor"
  | .objectId => "objectId"

/-- The value of the keyword `format` in an exported schema, where there is one. -/
def exportedFormat? : Format → Option String
  | .email => some "email"
  | .url => some "uri"
  | .uuid => some "uuid"
  | .date => some "date"
  | .dateTime => some "date-time"
  | .time => some "time"
  | .ipv4 => some "ipv4"
  | .ipv6 => some "ipv6"
  | .hostname => some "hostname"
  | _ => none

/-- A name, an at sign and at least two labels. -/
def emailText : String :=
  "^[A-Za-z0-9._%+\\-]+@[A-Za-z0-9](?:[A-Za-z0-9\\-]*[A-Za-z0-9])?"
    ++ "(?:\\.[A-Za-z0-9](?:[A-Za-z0-9\\-]*[A-Za-z0-9])?)+$"

/-- A scheme in any case, an authority and no blanks. -/
def urlText : String := "^(?i:https?|ftp)://[^\\s/?#]+(?:[/?#][^\\s]*)?$"

/-- Groups of eight, four, four, four and twelve hexadecimal digits. -/
def uuidText : String :=
  "^[0-9a-fA-F]\x7b8\x7d-[0-9a-fA-F]\x7b4\x7d-[0-9a-fA-F]\x7b4\x7d-[0-9a-fA-F]\x7b4\x7d"
    ++ "-[0-9a-fA-F]\x7b12\x7d$"

/-- Labels of at most 63 characters that begin and end with a letter or digit. -/
def hostnameText : String :=
  "^(?:[A-Za-z0-9](?:[A-Za-z0-9\\-]\x7b0,61\x7d[A-Za-z0-9])?)"
    ++ "(?:\\.[A-Za-z0-9](?:[A-Za-z0-9\\-]\x7b0,61\x7d[A-Za-z0-9])?)*$"

/-- Lower-case words with single dashes between them. -/
def slugText : String := "^[a-z0-9]+(?:-[a-z0-9]+)*$"

/-- ASCII letters and digits. -/
def alphanumText : String := "^[A-Za-z0-9]+$"

/-- A number sign and three or six hexadecimal digits. -/
def hexColorText : String := "^#(?:[0-9a-fA-F]\x7b3\x7d|[0-9a-fA-F]\x7b6\x7d)$"

/-- Twenty-four hexadecimal digits. -/
def objectIdText : String := "^[0-9a-fA-F]\x7b24\x7d$"

/-- The text of the pattern that defines a format, where one does. -/
def patternText? : Format → Option String
  | .email => some emailText
  | .url => some urlText
  | .uuid => some uuidText
  | .hostname => some hostnameText
  | .slug => some slugText
  | .alphanum => some alphanumText
  | .hexColor => some hexColorText
  | .objectId => some objectIdText
  | _ => none

/-- The value of the keyword `pattern` in an exported schema: the pattern of
    those formats that have no name there. -/
def exportedPattern? (format : Format) : Option String :=
  if format.exportedFormat?.isSome then none else format.patternText?

/-- The pattern that defines a format, read. -/
def pattern? : Format → Option Regex
  | .email => Regex.ofText? emailText
  | .url => Regex.ofText? urlText
  | .uuid => Regex.ofText? uuidText
  | .hostname => Regex.ofText? hostnameText
  | .slug => Regex.ofText? slugText
  | .alphanum => Regex.ofText? alphanumText
  | .hexColor => Regex.ofText? hexColorText
  | .objectId => Regex.ofText? objectIdText
  | _ => none

/-- Whether the pattern of the format accepts the text. -/
def matchesPattern (format : Format) (text : String) : Bool :=
  match format.pattern? with
  | some regex => regex.accepts text
  | none => false

/-- Whether a string is of this kind.  A host name has at most 253 bytes. -/
def accepts (format : Format) (text : String) : Bool :=
  match format with
  | .date => isDate text.toList
  | .dateTime => isTimestamp text.toList
  | .time => isTime text.toList
  | .ipv4 => isIpv4 text.toList
  | .ipv6 => isIpv6 text.toList
  | .hostname => Nat.ble text.utf8ByteSize 253 && matchesPattern .hostname text
  | other => matchesPattern other text

end Format

end Conform
