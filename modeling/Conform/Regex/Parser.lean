import Conform.Regex
import Conform.Text.Digit

/-! # Reading patterns

    The notation of patterns: literals and escapes, classes with ranges,
    nesting and set operations, groups with flags, repetitions and anchors.
    Unless a flag says otherwise the classes `\d`, `\w` and `\s` are those of
    Unicode, `.` stands for every character but the line feed, and `^` and `$`
    stand for the two ends of the text only.

    Left out are the Unicode property classes (`\p` and `\P`), which have no reading
    here; a group name may stand twice, and neither the size of the pattern nor the
    depth of its groups has a limit.

    A text that is not a pattern has no reading; why not is not told. -/

namespace Conform.Regex

open Conform.Text (Chars hexDigit?)

/-- The flags in force at a place of a pattern. -/
structure Flags where
  ignoreCase : Bool := false
  multiLine : Bool := false
  dotAll : Bool := false
  spaced : Bool := false
  unicode : Bool := true

/-- What one escape or literal stands for. -/
inductive Atom where
  | literal (c : Char)
  | set (set : CharSet)
  | anchor (anchor : Anchor)

/-- The character with a code point, unless it is no character. -/
def charOf? (n : Nat) : Option Char :=
  if h : n.isValidChar then some (Char.ofNatAux n h) else none

/-- The number that hexadecimal digits write; none without a digit. -/
def hexNumber? (digits : Chars) : Option Nat :=
  if digits.isEmpty then none
  else digits.foldlM (fun n c => (hexDigit? c).map (16 * n + ·)) 0

/-- The character of a hexadecimal escape: `width` digits, or any number of
    them in braces. -/
def readHex (width : Nat) (text : Chars) : Option (Char × Chars) :=
  match text with
  | '{' :: more =>
      let digits := more.takeWhile (· ≠ '}')
      match more.dropWhile (· ≠ '}') with
      | [] => none
      | _ :: rest => do
          let n ← hexNumber? digits
          let c ← charOf? n
          return (c, rest)
  | _ =>
      if text.length < width then none
      else do
        let n ← hexNumber? (text.take width)
        let c ← charOf? n
        return (c, text.drop width)

/-- The sets that need no table. -/
def asciiDigits : Text.Ranges := [(48, 57)]

def asciiWords : Text.Ranges := [(48, 57), (65, 90), (95, 95), (97, 122)]

def asciiBlanks : Text.Ranges := [(9, 13), (32, 32)]

/-- The class of a letter after a backslash. -/
def letterClass? (flags : Flags) : Char → Option CharSet
  | 'd' => some (if flags.unicode then .digit else .ranges asciiDigits)
  | 'w' => some (if flags.unicode then .word else .ranges asciiWords)
  | 's' => some (if flags.unicode then .blank else .ranges asciiBlanks)
  | 'D' => some (.complement (if flags.unicode then .digit else .ranges asciiDigits))
  | 'W' => some (.complement (if flags.unicode then .word else .ranges asciiWords))
  | 'S' => some (.complement (if flags.unicode then .blank else .ranges asciiBlanks))
  | _ => none

/-- A letter whose escape stands for a control character. -/
def control? : Char → Option Char
  | 'a' => some '\x07'
  | 'f' => some '\x0c'
  | 't' => some '\t'
  | 'n' => some '\n'
  | 'r' => some '\r'
  | 'v' => some '\x0b'
  | _ => none

/-- Whether a backslash before the character makes it a literal: an ASCII
    character that is neither a letter nor a digit nor an angle bracket. -/
def isEscapable (c : Char) : Bool :=
  let n := c.toNat
  Nat.blt n 128
    && !(Nat.ble 48 n && Nat.ble n 57 || Nat.ble 65 n && Nat.ble n 90
      || Nat.ble 97 n && Nat.ble n 122 || c == '<' || c == '>')

/-- The word anchors that are written with a name in braces. -/
def namedEdge? (name : Chars) : Option Anchor :=
  if name = ['s', 't', 'a', 'r', 't'] then some .wordStart
  else if name = ['e', 'n', 'd'] then some .wordEnd
  else if name = ['s', 't', 'a', 'r', 't', '-', 'h', 'a', 'l', 'f'] then some .wordStartHalf
  else if name = ['e', 'n', 'd', '-', 'h', 'a', 'l', 'f'] then some .wordEndHalf
  else none

/-- Whether the text after `\b` and a brace begins with the name of an edge
    rather than a repetition. -/
def looksNamed : Chars → Bool
  | c :: _ => Nat.ble 65 c.toNat && Nat.ble c.toNat 90 || Nat.ble 97 c.toNat && Nat.ble c.toNat 122
      || c == '-'
  | [] => false

/-- Reads an escape after its backslash. -/
def readEscape (flags : Flags) (text : Chars) : Option (Atom × Chars) :=
  match text with
  | [] => none
  | 'x' :: more => (readHex 2 more).map fun r => (.literal r.1, r.2)
  | 'u' :: more => (readHex 4 more).map fun r => (.literal r.1, r.2)
  | 'U' :: more => (readHex 8 more).map fun r => (.literal r.1, r.2)
  | 'A' :: more => some (.anchor .textStart, more)
  | 'z' :: more => some (.anchor .textEnd, more)
  | 'B' :: more => some (.anchor .notWordEdge, more)
  | '<' :: more => some (.anchor .wordStart, more)
  | '>' :: more => some (.anchor .wordEnd, more)
  | 'b' :: more =>
      match more with
      | '{' :: name =>
          if looksNamed name then
            match name.dropWhile (· ≠ '}') with
            | [] => none
            | _ :: rest => (namedEdge? (name.takeWhile (· ≠ '}'))).map fun a => (.anchor a, rest)
          else some (.anchor .wordEdge, more)
      | _ => some (.anchor .wordEdge, more)
  | c :: more =>
      match letterClass? flags c with
      | some set => some (.set set, more)
      | none =>
          match control? c with
          | some plain => some (.literal plain, more)
          | none => if isEscapable c then some (.literal c, more) else none

/-! ## Classes -/

/-- The named ASCII classes. -/
def asciiClass? (name : String) : Option Text.Ranges :=
  match name with
  | "alnum" => some [(48, 57), (65, 90), (97, 122)]
  | "alpha" => some [(65, 90), (97, 122)]
  | "ascii" => some [(0, 127)]
  | "blank" => some [(9, 9), (32, 32)]
  | "cntrl" => some [(0, 31), (127, 127)]
  | "digit" => some [(48, 57)]
  | "graph" => some [(33, 126)]
  | "lower" => some [(97, 122)]
  | "print" => some [(32, 126)]
  | "punct" => some [(33, 47), (58, 64), (91, 96), (123, 126)]
  | "space" => some [(9, 13), (32, 32)]
  | "upper" => some [(65, 90)]
  | "word" => some [(48, 57), (65, 90), (95, 95), (97, 122)]
  | "xdigit" => some [(48, 57), (65, 70), (97, 102)]
  | _ => none

/-- Reads a named ASCII class after its opening bracket, if there is one. -/
def readAsciiClass? (text : Chars) : Option (CharSet × Chars) :=
  match text with
  | ':' :: more =>
      let negated := more.head? == some '^'
      let named := if negated then more.drop 1 else more
      let name := named.takeWhile (· ≠ ':')
      match named.dropWhile (· ≠ ':') with
      | ':' :: ']' :: rest =>
          (asciiClass? (String.ofList name)).map fun ranges =>
            (if negated then .complement (.ranges ranges) else .ranges ranges, rest)
      | _ => none
  | _ => none

/-- The operations on two classes. -/
inductive SetOp where
  | inter
  | diff
  | symmDiff

/-- Widens a set by the case variants of its characters, where case is ignored. -/
def foldSet (flags : Flags) (set : CharSet) : CharSet :=
  if flags.ignoreCase then .anyCase set else set

/-- Applies a pending operation to the operand that has just ended. -/
def applyOp (flags : Flags) (pending : Option (SetOp × CharSet)) (right : CharSet) : CharSet :=
  match pending with
  | none => right
  | some (.inter, left) => .inter (foldSet flags left) (foldSet flags right)
  | some (.diff, left) => .diff (foldSet flags left) (foldSet flags right)
  | some (.symmDiff, left) => .symmDiff (foldSet flags left) (foldSet flags right)

/-- Reads one character or escape inside a class. -/
def readClassAtom (flags : Flags) (text : Chars) : Option (Atom × Chars) :=
  match text with
  | [] => none
  | '\\' :: more => readEscape flags more
  | c :: more => some (.literal c, more)

/-- Reads a character, an escape or a range inside a class. -/
def readClassItem (flags : Flags) (text : Chars) : Option (CharSet × Chars) := do
  let (first, rest) ← readClassAtom flags text
  let alone : Option (CharSet × Chars) :=
    match first with
    | .literal c => some (.single c, rest)
    | .set set => some (set, rest)
    | .anchor _ => none
  match rest with
  | [] => none
  | '-' :: more =>
      match more with
      | ']' :: _ => alone
      | '-' :: _ => alone
      | _ => do
          let (last, rest) ← readClassAtom flags more
          match first, last with
          | .literal low, .literal high =>
              if low.toNat ≤ high.toNat then return (.ranges [(low.toNat, high.toNat)], rest)
              else none
          | _, _ => none
  | _ => alone

/-- The dashes that open a class are literals. -/
def leadingDashes (text : Chars) : CharSet × Chars :=
  match text with
  | '-' :: _ => (.single '-', text.dropWhile (· == '-'))
  | _ => (.ranges [], text)

mutual

/-- Reads a class after its opening bracket. -/
def readClass : Nat → Flags → Chars → Option (CharSet × Chars)
  | 0, _, _ => none
  | budget + 1, flags, text =>
      let negated := text.head? == some '^'
      let inner := if negated then text.drop 1 else text
      let (dashes, rest) := leadingDashes inner
      let start : CharSet × Chars :=
        match inner, rest with
        | ']' :: _, ']' :: more => (.single ']', more)
        | _, _ => (dashes, rest)
      match readClassItems budget flags start.1 none start.2 with
      | none => none
      | some (set, rest) =>
          let folded := foldSet flags set
          some (if negated then .complement folded else folded, rest)

/-- Reads the items of a class up to its closing bracket. -/
def readClassItems :
    Nat → Flags → CharSet → Option (SetOp × CharSet) → Chars → Option (CharSet × Chars)
  | 0, _, _, _, _ => none
  | _ + 1, _, _, _, [] => none
  | budget + 1, flags, set, pending, c :: more =>
      if flags.spaced && Text.isBlank c then readClassItems budget flags set pending more
      else
        match c, more with
        | ']', _ => some (applyOp flags pending set, more)
        | '[', _ =>
            match readAsciiClass? more with
            | some (named, rest) => readClassItems budget flags (.union set named) pending rest
            | none =>
                match readClass budget flags more with
                | some (nested, rest) =>
                    readClassItems budget flags (.union set nested) pending rest
                | none => none
        | '&', '&' :: rest =>
            readClassItems budget flags (.ranges []) (some (.inter, applyOp flags pending set)) rest
        | '-', '-' :: rest =>
            readClassItems budget flags (.ranges []) (some (.diff, applyOp flags pending set)) rest
        | '~', '~' :: rest =>
            readClassItems budget flags (.ranges [])
              (some (.symmDiff, applyOp flags pending set)) rest
        | _, _ =>
            match readClassItem flags (c :: more) with
            | some (item, rest) => readClassItems budget flags (.union set item) pending rest
            | none => none

end

/-! ## Repetitions and groups -/

/-- Reads a count with blanks around it; counts fit 32 bits. -/
def readCount (text : Chars) : Option (Option Nat × Chars) :=
  let start := Text.trimStart text
  let digits := start.takeWhile Text.isDigit
  let rest := Text.trimStart (start.drop digits.length)
  if digits.isEmpty then some (none, rest)
  else
    let n := Text.digitsValue digits
    if n < Nat.pow 2 32 then some (some n, rest) else none

/-- Reads a counted repetition after its opening brace. -/
def readCounts (text : Chars) : Option ((Nat × Option Nat) × Chars) := do
  let (least, rest) ← readCount text
  let least ← least
  match rest with
  | '}' :: rest => return ((least, some least), rest)
  | ',' :: '}' :: rest => return ((least, none), rest)
  | ',' :: more => do
      let (most, rest) ← readCount more
      let most ← most
      match rest with
      | '}' :: rest => if least ≤ most then return ((least, some most), rest) else none
      | _ => none
  | _ => none

/-- Skips the mark that makes a repetition lazy. -/
def skipLazy : Chars → Chars
  | '?' :: rest => rest
  | text => text

/-- Sets or clears the flag of a letter. -/
def setFlag? (flags : Flags) (value : Bool) : Char → Option Flags
  | 'i' => some { flags with ignoreCase := value }
  | 'm' => some { flags with multiLine := value }
  | 's' => some { flags with dotAll := value }
  | 'x' => some { flags with spaced := value }
  | 'u' => some { flags with unicode := value }
  | 'U' => some flags
  | _ => none

/-- Reads flags up to the bracket or colon that ends them; `seen` holds the
    letters so far.  The answer tells whether a colon ended them. -/
def readFlags : Flags → Bool → Chars → Chars → Option (Flags × Bool × Chars)
  | _, _, _, [] => none
  | flags, negating, seen, c :: rest =>
      if c == ':' || c == ')' then
        if seen.head? == some '-' || (c == ')' && seen.isEmpty) then none
        else some (flags, c == ':', rest)
      else if c == '-' then
        if negating then none else readFlags flags true ('-' :: seen) rest
      else if seen.contains c then none
      else
        match setFlag? flags (!negating) c with
        | some flags => readFlags flags negating (c :: seen) rest
        | none => none

/-- What an opening bracket begins. -/
inductive Opening where
  | group (flags : Flags)
  | flags (flags : Flags)

/-- Whether a group may be given this name. -/
def isGroupName : Chars → Bool
  | [] => false
  | c :: rest =>
      (Text.isWord c && !Text.isDecimalDigit c)
        && rest.all fun d => Text.isWord d || d == '.' || d == '[' || d == ']'

/-- Reads the name of a group after its angle bracket. -/
def readGroupName (flags : Flags) (text : Chars) : Option (Opening × Chars) :=
  match text.dropWhile (· ≠ '>') with
  | [] => none
  | _ :: rest => if isGroupName (text.takeWhile (· ≠ '>')) then some (.group flags, rest) else none

/-- Reads what follows an opening bracket, up to the body of the group. -/
def readOpening (flags : Flags) (text : Chars) : Option (Opening × Chars) :=
  match text with
  | '?' :: 'P' :: '<' :: name => readGroupName flags name
  | '?' :: '<' :: '=' :: _ => none
  | '?' :: '<' :: '!' :: _ => none
  | '?' :: '<' :: name => readGroupName flags name
  | '?' :: more =>
      (readFlags flags false [] more).map fun (changed, colon, rest) =>
        (if colon then .group changed else .flags changed, rest)
  | _ => some (.group flags, text)

/-- The pattern of an atom under the flags. -/
def ofAtom (flags : Flags) : Atom → Regex
  | .literal c => .chars (foldSet flags (.single c))
  | .set set => .chars (foldSet flags set)
  | .anchor a => .anchor a

/-- Joins items, last one first, into a sequence. -/
def sequence (items : List (Option Regex)) : Regex :=
  items.foldl (fun after item =>
    match item with
    | some regex => (match after with | .empty => regex | _ => .seq regex after)
    | none => after) .empty

/-- Joins alternatives, last one first, with the last one itself. -/
def choice (earlier : List Regex) (last : Regex) : Regex :=
  earlier.foldl (fun after regex => .alt regex after) last

/-- Repeats the latest item; there must be one, and it must not be a change of
    flags. -/
def repeatLast (items : List (Option Regex)) (least : Nat) (most : Option Nat) :
    Option (List (Option Regex)) :=
  match items with
  | some regex :: rest => some (some (.repeated regex least most) :: rest)
  | _ => none

/-- Reads alternatives up to the end of the text or an unmatched closing
    bracket, which is left in place.  `earlier` holds the alternatives that have
    ended and `items` the parts of the present one, last one first. -/
def readBranches :
    Nat → Flags → List Regex → List (Option Regex) → Chars → Option (Regex × Chars)
  | 0, _, _, _, _ => none
  | _ + 1, _, earlier, items, [] => some (choice earlier (sequence items), [])
  | budget + 1, flags, earlier, items, c :: more =>
      if flags.spaced && Text.isBlank c then readBranches budget flags earlier items more
      else if flags.spaced && c == '#' then
        readBranches budget flags earlier items (more.dropWhile (· ≠ '\n'))
      else
        match c with
        | ')' => some (choice earlier (sequence items), c :: more)
        | '|' => readBranches budget flags (sequence items :: earlier) [] more
        | '(' =>
            match readOpening flags more with
            | none => none
            | some (.flags changed, rest) =>
                readBranches budget changed earlier (none :: items) rest
            | some (.group inner, rest) =>
                match readBranches budget inner [] [] rest with
                | some (body, ')' :: rest) =>
                    readBranches budget flags earlier (some body :: items) rest
                | _ => none
        | '[' =>
            match readClass (2 * more.length + 2) flags more with
            | some (set, rest) =>
                readBranches budget flags earlier (some (.chars set) :: items) rest
            | none => none
        | '*' =>
            match repeatLast items 0 none with
            | some items => readBranches budget flags earlier items (skipLazy more)
            | none => none
        | '+' =>
            match repeatLast items 1 none with
            | some items => readBranches budget flags earlier items (skipLazy more)
            | none => none
        | '?' =>
            match repeatLast items 0 (some 1) with
            | some items => readBranches budget flags earlier items (skipLazy more)
            | none => none
        | '{' =>
            match readCounts more with
            | none => none
            | some ((least, most), rest) =>
                match repeatLast items least most with
                | some items => readBranches budget flags earlier items (skipLazy rest)
                | none => none
        | '^' =>
            let a := if flags.multiLine then Anchor.lineStart else .textStart
            readBranches budget flags earlier (some (.anchor a) :: items) more
        | '$' =>
            let a := if flags.multiLine then Anchor.lineEnd else .textEnd
            readBranches budget flags earlier (some (.anchor a) :: items) more
        | '.' =>
            let set : CharSet :=
              if flags.dotAll then .complement (.ranges []) else .complement (.single '\n')
            readBranches budget flags earlier (some (.chars set) :: items) more
        | '\\' =>
            match readEscape flags more with
            | some (atom, rest) =>
                readBranches budget flags earlier (some (ofAtom flags atom) :: items) rest
            | none => none
        | _ =>
            readBranches budget flags earlier (some (ofAtom flags (.literal c)) :: items) more

/-- The pattern that a text denotes. -/
def ofText? (text : String) : Option Regex :=
  match readBranches (text.length + 1) {} [] [] text.toList with
  | some (regex, []) => some regex
  | _ => none

end Conform.Regex
