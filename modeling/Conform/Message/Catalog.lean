import Conform.Config
import Conform.Message.Template

/-! # The catalog — message keys and their templates

    Two locales are built in, and a configuration may replace their templates
    and add others.  A key that the locale lacks is looked up in the default
    locale; one that is nowhere is its own template.

    Where messages come from is a parameter of validation: the catalog is one
    message service among others. -/

namespace Conform

open Template (say hole)

/-- Templates by key. -/
abbrev MessageTable := Members Template

/-- The built-in messages in English. -/
def englishMessages : MessageTable :=
  [("required", hole "label" ++ say " is required"),
   ("type", hole "label" ++ say " must be of type " ++ hole "type"),
   ("union", hole "label" ++ say " must match one of the types [" ++ hole "types" ++ say "]"),
   ("enum", hole "label" ++ say " must be one of [" ++ hole "allowed" ++ say "]"),
   ("pattern", hole "label" ++ say " does not match the required pattern"),
   ("format", hole "label" ++ say " must be a valid " ++ hole "format"),
   ("unknown", hole "label" ++ say " is not allowed"),
   ("custom", hole "label" ++ say " failed custom validation"),
   ("conditional", hole "label" ++ say " failed a conditional check"),
   ("string.min", hole "label" ++ say " length must be at least " ++ hole "limit"),
   ("string.max", hole "label" ++ say " length must be at most " ++ hole "limit"),
   ("string.gt", hole "label" ++ say " length must be greater than " ++ hole "limit"),
   ("string.lt", hole "label" ++ say " length must be less than " ++ hole "limit"),
   ("string.length", hole "label" ++ say " length must be exactly " ++ hole "limit"),
   ("number.min", hole "label" ++ say " must be greater than or equal to " ++ hole "limit"),
   ("number.max", hole "label" ++ say " must be less than or equal to " ++ hole "limit"),
   ("number.gt", hole "label" ++ say " must be greater than " ++ hole "limit"),
   ("number.lt", hole "label" ++ say " must be less than " ++ hole "limit"),
   ("number.equal", hole "label" ++ say " must be equal to " ++ hole "limit"),
   ("array.min", hole "label" ++ say " must contain at least " ++ hole "limit" ++ say " items"),
   ("array.max", hole "label" ++ say " must contain at most " ++ hole "limit" ++ say " items"),
   ("array.gt", hole "label" ++ say " must contain more than " ++ hole "limit" ++ say " items"),
   ("array.lt", hole "label" ++ say " must contain fewer than " ++ hole "limit" ++ say " items"),
   ("array.length", hole "label" ++ say " must contain exactly " ++ hole "limit" ++ say " items"),
   ("object.min", hole "label" ++ say " must have at least " ++ hole "limit" ++ say " properties"),
   ("object.max", hole "label" ++ say " must have at most " ++ hole "limit" ++ say " properties"),
   ("object.gt", hole "label" ++ say " must have more than " ++ hole "limit" ++ say " properties"),
   ("object.lt", hole "label" ++ say " must have fewer than " ++ hole "limit" ++ say " properties"),
   ("object.length", hole "label" ++ say " must have exactly " ++ hole "limit" ++ say " properties")]

/-- The built-in messages in Chinese. -/
def chineseMessages : MessageTable :=
  [("required", hole "label" ++ say "不能为空"),
   ("type", hole "label" ++ say "必须是" ++ hole "type" ++ say "类型"),
   ("union", hole "label" ++ say "必须匹配以下类型之一 [" ++ hole "types" ++ say "]"),
   ("enum", hole "label" ++ say "必须是以下值之一 [" ++ hole "allowed" ++ say "]"),
   ("pattern", hole "label" ++ say "格式不正确"),
   ("format", hole "label" ++ say "必须是有效的" ++ hole "format"),
   ("unknown", hole "label" ++ say "是不允许的字段"),
   ("custom", hole "label" ++ say "未通过自定义校验"),
   ("conditional", hole "label" ++ say "未通过条件校验"),
   ("string.min", hole "label" ++ say "长度不能少于" ++ hole "limit" ++ say "个字符"),
   ("string.max", hole "label" ++ say "长度不能超过" ++ hole "limit" ++ say "个字符"),
   ("string.gt", hole "label" ++ say "长度必须大于" ++ hole "limit"),
   ("string.lt", hole "label" ++ say "长度必须小于" ++ hole "limit"),
   ("string.length", hole "label" ++ say "长度必须是" ++ hole "limit" ++ say "个字符"),
   ("number.min", hole "label" ++ say "不能小于" ++ hole "limit"),
   ("number.max", hole "label" ++ say "不能大于" ++ hole "limit"),
   ("number.gt", hole "label" ++ say "必须大于" ++ hole "limit"),
   ("number.lt", hole "label" ++ say "必须小于" ++ hole "limit"),
   ("number.equal", hole "label" ++ say "必须等于" ++ hole "limit"),
   ("array.min", hole "label" ++ say "至少需要" ++ hole "limit" ++ say "项"),
   ("array.max", hole "label" ++ say "最多允许" ++ hole "limit" ++ say "项"),
   ("array.gt", hole "label" ++ say "必须多于" ++ hole "limit" ++ say "项"),
   ("array.lt", hole "label" ++ say "必须少于" ++ hole "limit" ++ say "项"),
   ("array.length", hole "label" ++ say "必须正好" ++ hole "limit" ++ say "项"),
   ("object.min", hole "label" ++ say "至少需要" ++ hole "limit" ++ say "个属性"),
   ("object.max", hole "label" ++ say "最多允许" ++ hole "limit" ++ say "个属性"),
   ("object.gt", hole "label" ++ say "必须多于" ++ hole "limit" ++ say "个属性"),
   ("object.lt", hole "label" ++ say "必须少于" ++ hole "limit" ++ say "个属性"),
   ("object.length", hole "label" ++ say "必须正好" ++ hole "limit" ++ say "个属性")]

/-- Tables of templates by locale. -/
structure Catalog where
  tables : Members MessageTable

/-- A source of messages: the message for a key with parameters in a locale. -/
structure MessageService where
  message : (key : String) → (params : Members Json) → (locale : String) → String

namespace Catalog

/-- The built-in tables. -/
def builtin : Catalog := ⟨[(defaultLocale, englishMessages), ("zh-CN", chineseMessages)]⟩

/-- Sets a template of a locale. -/
def withTemplate (catalog : Catalog) (locale key : String) (template : Template) : Catalog :=
  let table := (Members.valueOf? catalog.tables locale).getD []
  ⟨Members.put catalog.tables locale (Members.put table key template)⟩

/-- Sets the templates of a table, in order. -/
def withTable (catalog : Catalog) (locale : String) (table : Members String) : Catalog :=
  table.foldl (fun done entry => done.withTemplate locale entry.1 (.ofText entry.2.toList)) catalog

/-- The built-in catalog with the templates of the configuration on top. -/
def ofConfig (config : Config) : Catalog :=
  config.messages.foldl (fun done entry => done.withTable entry.1 entry.2) builtin

/-- The template under a key in a locale, else in the default locale. -/
def template? (catalog : Catalog) (key locale : String) : Option Template :=
  match (Members.valueOf? catalog.tables locale).bind fun table => Members.valueOf? table key with
  | some template => some template
  | none =>
      (Members.valueOf? catalog.tables defaultLocale).bind fun table => Members.valueOf? table key

/-- The message for a key; an unknown key is its own template. -/
def message (catalog : Catalog) (key : String) (params : Members Json) (locale : String) : String :=
  ((catalog.template? key locale).getD (.ofText key.toList)).fill params

/-- The catalog as a message service. -/
def service (catalog : Catalog) : MessageService := ⟨catalog.message⟩

end Catalog

end Conform
