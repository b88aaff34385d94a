import Conform.Json.Printer
import Conform.Text.Word

/-! # Templates — messages with holes

    A template is plain text with named holes, each written as its name between
    `{{#` and `}}`; a name is a run of word characters.  Reading goes from left
    to right and takes a hole wherever one begins.  Filling puts the text of a
    parameter into each hole that has one and writes the others as they were.

    Filling works hole by hole, so what fills a hole is never read again.

    Main fact: the text of what was read is the text read (`text_ofText`). -/

namespace Conform

open Conform.Text (Chars isWord length_dropWhile_le)

/-- A character of plain text, or a hole. -/
inductive Piece where
  | plain (c : Char)
  | hole (name : String)
deriving DecidableEq

/-- A message with holes. -/
abbrev Template := List Piece

namespace Template

/-- A template without holes. -/
def say (text : String) : Template := text.toList.map .plain

/-- A template that is one hole. -/
def hole (name : String) : Template := [.hole name]

/-- The names of the holes. -/
def holes : Template → List String
  | [] => []
  | .plain _ :: rest => holes rest
  | .hole name :: rest => name :: holes rest

/-- How a hole is written. -/
def holeText (name : Chars) : Chars := '{' :: '{' :: '#' :: name ++ ['}', '}']

/-- How a piece is written. -/
def pieceText : Piece → Chars
  | .plain c => [c]
  | .hole name => holeText name.toList

/-- How the template is written. -/
def text (template : Template) : Chars := template.flatMap pieceText

/-- The name of the hole that a text begins with, if it does, and the text
    after the hole. -/
def leadingHole? : Chars → Option (Chars × Chars)
  | '{' :: '{' :: '#' :: rest =>
      if (rest.takeWhile isWord).isEmpty then none
      else
        match rest.dropWhile isWord with
        | '}' :: '}' :: more => some (rest.takeWhile isWord, more)
        | _ => none
  | _ => none

/-- A hole is written as it was read. -/
theorem text_of_leadingHole? {source name more : Chars}
    (h : leadingHole? source = some (name, more)) : holeText name ++ more = source := by
  unfold leadingHole? at h
  split at h
  · rename_i rest
    split at h
    · exact nomatch h
    · split at h
      · rename_i after hafter
        simp only [Option.some.injEq, Prod.mk.injEq] at h
        obtain ⟨rfl, rfl⟩ := h
        have happ := List.takeWhile_append_dropWhile (p := isWord) (l := rest)
        rw [hafter] at happ
        simp only [holeText, List.cons_append, List.append_assoc, List.nil_append, happ]
      · exact nomatch h
  · exact nomatch h

theorem length_of_leadingHole? {source name more : Chars}
    (h : leadingHole? source = some (name, more)) : more.length < source.length := by
  have := congrArg List.length (text_of_leadingHole? h)
  simp only [holeText, List.length_append, List.length_cons] at this
  omega

/-- The template that a text writes. -/
def ofText (source : Chars) : Template :=
  match h : leadingHole? source with
  | some (name, more) =>
      have _shorter := length_of_leadingHole? h
      .hole (String.ofList name) :: ofText more
  | none =>
      match source with
      | [] => []
      | c :: rest => .plain c :: ofText rest
termination_by source.length

/-- **READING LOSES NOTHING**: a template is written as it was read. -/
theorem text_ofText (source : Chars) : text (ofText source) = source := by
  fun_induction ofText source with
  | case1 source name more h _ ih =>
      show holeText (String.ofList name).toList ++ text (ofText more) = source
      rw [ih, String.toList_ofList]
      exact text_of_leadingHole? h
  | case2 => rfl
  | case3 c rest h ih =>
      show c :: text (ofText rest) = c :: rest
      rw [ih]

/-- The text of a parameter: a string as it is, any other value as JSON. -/
def paramText : Json → String
  | .string text => text
  | value => value.render

/-- What a piece becomes. -/
def fillPiece (params : Members Json) : Piece → Chars
  | .plain c => [c]
  | .hole name =>
      match Members.valueOf? params name with
      | some value => (paramText value).toList
      | none => holeText name.toList

/-- The message that the parameters make of the template. -/
def fill (params : Members Json) (template : Template) : String :=
  String.ofList (template.flatMap (fillPiece params))

/-- Replaces the holes of a text that have a parameter. -/
def interpolate (source : String) (params : Members Json) : String :=
  fill params (ofText source.toList)

end Template

end Conform
