import Conform.Text.Word
import Conform.Text.Fold

/-! # Regex — patterns over characters

    The language of patterns and what they match.  A pattern moves a set of
    positions in a text forward: `ends` maps the positions where a match may
    start to those where one may end.  A text is accepted when a match starting
    anywhere ends somewhere, so only the existence of a match is observed and
    neither greed nor the order of alternatives plays a part.

    Sets of positions are ascending lists; the loop of a repetition follows
    only positions it has not seen, so it ends after at most one round per
    position of the text. -/

namespace Conform

/-- A set of characters. -/
inductive CharSet where
  | ranges (ranges : Text.Ranges)
  | digit
  | word
  | blank
  | anyCase (set : CharSet)
  | complement (set : CharSet)
  | union (left right : CharSet)
  | inter (left right : CharSet)
  | diff (left right : CharSet)
  | symmDiff (left right : CharSet)

namespace CharSet

/-- The set of one character. -/
def single (c : Char) : CharSet := .ranges [(c.toNat, c.toNat)]

/-- Membership.  `anyCase` holds a character when the set holds one of its
    case variants. -/
def holds : CharSet → Char → Bool
  | .ranges listed, c => listed.holds c
  | .digit, c => Text.isDecimalDigit c
  | .word, c => Text.isWord c
  | .blank, c => Text.isBlank c
  | .anyCase set, c => (Text.caseVariants c).any fun code => set.holds (Char.ofNat code)
  | .complement set, c => !set.holds c
  | .union left right, c => left.holds c || right.holds c
  | .inter left right, c => left.holds c && right.holds c
  | .diff left right, c => left.holds c && !right.holds c
  | .symmDiff left right, c => left.holds c != right.holds c

end CharSet

/-- A condition on a position that consumes nothing. -/
inductive Anchor where
  | textStart
  | textEnd
  | lineStart
  | lineEnd
  | wordEdge
  | notWordEdge
  | wordStart
  | wordEnd
  | wordStartHalf
  | wordEndHalf
deriving DecidableEq

/-- A pattern. -/
inductive Regex where
  | empty
  | chars (set : CharSet)
  | anchor (anchor : Anchor)
  | seq (first second : Regex)
  | alt (left right : Regex)
  | repeated (body : Regex) (least : Nat) (most : Option Nat)

namespace Anchor

/-- Whether a word character stands right before the position. -/
def wordBefore (text : Array Char) (i : Nat) : Bool :=
  match i with
  | 0 => false
  | j + 1 => (text[j]?.map Text.isWord).getD false

/-- Whether a word character stands right after the position. -/
def wordAfter (text : Array Char) (i : Nat) : Bool :=
  (text[i]?.map Text.isWord).getD false

/-- Whether the condition holds at position `i`. -/
def holdsAt (text : Array Char) (i : Nat) : Anchor → Bool
  | .textStart => i == 0
  | .textEnd => i == text.size
  | .lineStart =>
      match i with
      | 0 => true
      | j + 1 => text[j]? == some '\n'
  | .lineEnd => i == text.size || text[i]? == some '\n'
  | .wordEdge => wordBefore text i != wordAfter text i
  | .notWordEdge => wordBefore text i == wordAfter text i
  | .wordStart => !wordBefore text i && wordAfter text i
  | .wordEnd => wordBefore text i && !wordAfter text i
  | .wordStartHalf => !wordBefore text i
  | .wordEndHalf => !wordAfter text i

end Anchor

namespace Regex

/-- Puts `x` in front of the first larger element of an ascending list and
    goes on with `rest` from there. -/
def place (x : Nat) (rest : List Nat → List Nat) : List Nat → List Nat
  | [] => x :: rest []
  | y :: ys =>
      if x < y then x :: rest (y :: ys)
      else if x = y then x :: rest ys
      else y :: place x rest ys

/-- The union of two ascending lists. -/
def unite : List Nat → List Nat → List Nat
  | [] => id
  | x :: xs => place x (unite xs)

/-- The elements of an ascending list that another one lacks. -/
def minus : List Nat → List Nat → List Nat
  | [], _ => []
  | x :: xs, seen =>
      let later := seen.dropWhile (· < x)
      match later with
      | [] => x :: xs
      | y :: _ => if y = x then minus xs later else x :: minus xs later

/-- `count` steps, one after the other. -/
def steps (step : List Nat → List Nat) : Nat → List Nat → List Nat
  | 0, positions => positions
  | count + 1, positions =>
      if positions.isEmpty then [] else steps step count (step positions)

/-- All positions within `rounds` steps; `seen` holds those found so far and
    `fresh` those found last. -/
def spread (step : List Nat → List Nat) : Nat → List Nat → List Nat → List Nat
  | 0, seen, _ => seen
  | rounds + 1, seen, fresh =>
      let new := minus (step fresh) seen
      if new.isEmpty then seen else spread step rounds (unite seen new) new

/-- The positions where a match that starts at one of `starts` may end. -/
def ends (text : Array Char) : Regex → List Nat → List Nat
  | .empty, starts => starts
  | .chars set, starts =>
      starts.filterMap fun i =>
        match text[i]? with
        | some c => if set.holds c then some (i + 1) else none
        | none => none
  | .anchor a, starts => starts.filter fun i => a.holdsAt text i
  | .seq first second, starts => ends text second (ends text first starts)
  | .alt left right, starts => unite (ends text left starts) (ends text right starts)
  | .repeated body least most, starts =>
      let step := ends text body
      let entered := steps step least starts
      let rounds :=
        match most with
        | some most => most - least
        | none => text.size + 1
      spread step rounds entered entered

/-- Whether the pattern matches somewhere in the text. -/
def accepts (regex : Regex) (text : String) : Bool :=
  let chars := text.toList.toArray
  !(regex.ends chars (List.range (chars.size + 1))).isEmpty

end Regex

end Conform
