import Conform.Json.Syntax

/-! # Reading JSON documents

    `ofText` reads one complete document: a value with blanks around it.  Of
    two members with one name the later value counts, at the earlier place.

    Lists and objects may be nested to any depth: the limit that a reader with a stack
    of its own needs is left out. -/

namespace Conform.Json

open Conform.Text (Chars isDigit)

/-- What follows the first item of a list or object: the text after a comma,
    or the end. -/
inductive Continuation where
  | next (rest : Chars)
  | done (rest : Chars)

/-- Reads the separator after an item of a list. -/
def listSeparator (text : Chars) : Except SyntaxFault Continuation :=
  match skipSpace text with
  | [] => .error .endInList
  | ']' :: rest => .ok (.done rest)
  | ',' :: rest =>
      match skipSpace rest with
      | [] => .error .endInValue
      | ']' :: _ => .error .trailingComma
      | more => .ok (.next more)
  | _ => .error .expectedListEnd

/-- Reads the separator after a member of an object. -/
def objectSeparator (text : Chars) : Except SyntaxFault Continuation :=
  match skipSpace text with
  | [] => .error .endInObject
  | '}' :: rest => .ok (.done rest)
  | ',' :: rest =>
      match skipSpace rest with
      | [] => .error .endInValue
      | '}' :: _ => .error .trailingComma
      | '"' :: more => .ok (.next more)
      | _ => .error .keyNotString
  | _ => .error .expectedObjectEnd

/-- Reads the colon after a key. -/
def readColon (text : Chars) : Reading Unit :=
  match skipSpace text with
  | [] => .error .endInObject
  | ':' :: rest => .ok ((), rest)
  | _ => .error .expectedColon

mutual

/-- Reads a value, with a budget of nested steps. -/
def readValue : Nat → Chars → Reading Json
  | 0, _ => .error .endInValue
  | budget + 1, text =>
      match skipSpace text with
      | [] => .error .endInValue
      | 'n' :: rest => (readWord ['u', 'l', 'l'] rest).map fun r => (.null, r.2)
      | 't' :: rest => (readWord ['r', 'u', 'e'] rest).map fun r => (.bool true, r.2)
      | 'f' :: rest => (readWord ['a', 'l', 's', 'e'] rest).map fun r => (.bool false, r.2)
      | '"' :: rest => (readString rest).map fun r => (.string r.1, r.2)
      | '-' :: rest => readNumber true rest
      | '[' :: rest =>
          match skipSpace rest with
          | [] => .error .endInList
          | ']' :: more => .ok (.array [], more)
          | more => (readItems budget more).map fun r => (.array r.1, r.2)
      | '{' :: rest =>
          match skipSpace rest with
          | [] => .error .endInObject
          | '}' :: more => .ok (.object [], more)
          | '"' :: more => (readMembers budget more []).map fun r => (.object r.1, r.2)
          | _ => .error .keyNotString
      | c :: rest => if isDigit c then readNumber false (c :: rest) else .error .expectedValue

/-- Reads the items of a list from the first one on. -/
def readItems : Nat → Chars → Reading (List Json)
  | 0, _ => .error .endInList
  | budget + 1, text =>
      match readValue budget text with
      | .error fault => .error fault
      | .ok (item, rest) =>
          match listSeparator rest with
          | .error fault => .error fault
          | .ok (.done rest) => .ok ([item], rest)
          | .ok (.next rest) => (readItems budget rest).map fun r => (item :: r.1, r.2)

/-- Reads the members of an object from inside the first key on. -/
def readMembers : Nat → Chars → Members Json → Reading (Members Json)
  | 0, _, _ => .error .endInObject
  | budget + 1, text, done =>
      match readString text with
      | .error fault => .error fault
      | .ok (key, rest) =>
          match readColon rest with
          | .error fault => .error fault
          | .ok (_, rest) =>
              match readValue budget rest with
              | .error fault => .error fault
              | .ok (value, rest) =>
                  match objectSeparator rest with
                  | .error fault => .error fault
                  | .ok (.done rest) => .ok (Members.put done key value, rest)
                  | .ok (.next rest) => readMembers budget rest (Members.put done key value)

end

/-- Reads one complete document. -/
def ofText (text : String) : Except SyntaxFault Json :=
  match readValue (2 * text.length + 2) text.toList with
  | .error fault => .error fault
  | .ok (value, rest) =>
      match skipSpace rest with
      | [] => .ok value
      | _ => .error .trailingCharacters

end Conform.Json
