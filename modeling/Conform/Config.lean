import Conform.Members

/-! # Configurations

    A configuration says in which locale messages are written, whether the first
    error ends a validation, whether members that a schema does not name are let
    pass, and which message templates replace the built-in ones. -/

namespace Conform

/-- The locale whose messages stand in where another has none. -/
def defaultLocale : String := "en-US"

/-- A configuration.  `messages` holds a table of templates for each locale. -/
structure Config where
  locale : String := defaultLocale
  abortEarly : Bool := false
  allowUnknownFields : Bool := true
  messages : Members (Members String) := []
deriving DecidableEq

namespace Config

/-- Sets the template of a message in a locale. -/
def withMessage (config : Config) (locale key template : String) : Config :=
  let table := (Members.valueOf? config.messages locale).getD []
  { config with messages := Members.put config.messages locale (Members.put table key template) }

/-- Whether this is the default configuration. -/
def isDefault (config : Config) : Bool := decide (config = {})

end Config

end Conform
