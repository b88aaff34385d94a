import Conform.Dsl.Choices

/-! # Outlines — the bracket structure of a specification

    A specification is a name, perhaps with a body after a colon, perhaps with
    a final `!`.  Two bodies hold further specifications: the items of an array
    stand in angle brackets, the members of a union have bars between them.
    An outline is that nesting; names and clauses in it are still plain text,
    and a part that has no structure is kept as its fault.

    Right after a colon an angle bracket is a comparison and opens nothing.

    Parts are shorter than the whole (`Form`), which is why outlines end. -/

namespace Conform.Dsl

open Conform.Text (Chars trim trimEnd cutAt? afterLead? beforeLast?
  length_trim_le length_trimEnd_le length_cutAt? length_afterLead? length_beforeLast?)

/-- A specification down to its names, clauses and choices.  The flag says
    whether it ended with `!`. -/
inductive Outline where
  | fault (fault : Fault)
  | named (required : Bool) (name : Chars)
  | choice (required : Bool) (hint : Option ChoiceType) (body : Chars)
  | bounded (required : Bool) (name body rest : Chars)
  | array (required : Bool) (clause : Option Chars) (items : Option Outline)
  | union (required : Bool) (members : List Outline)

/-- One level of an outline: the parts are texts shorter than `size`. -/
inductive Form (size : Nat) where
  | fault (fault : Fault)
  | named (name : Chars)
  | choice (hint : Option ChoiceType) (body : Chars)
  | bounded (name rest : Chars)
  | array (clause : Option Chars) (items : Option { part : Chars // part.length < size })
  | union (members : List { part : Chars // part.length < size })

/-! ## Brackets -/

/-- What stands before and after the first opening bracket. -/
def openBracket? : Bool → Chars → Option (Chars × Chars)
  | _, [] => none
  | afterColon, c :: rest =>
      if c = '<' && !afterColon then some ([], rest)
      else (openBracket? (c == ':') rest).map fun halves => (c :: halves.1, halves.2)

/-- The number of open brackets after a character; none if one too many closes. -/
def depthAfter? (depth : Nat) (afterColon : Bool) (c : Char) : Option Nat :=
  if afterColon then some depth
  else if c = '<' then some (depth + 1)
  else if c = '>' then
    match depth with
    | 0 => none
    | depth + 1 => some depth
  else some depth

/-- Puts a character in front of the first piece. -/
def extendFirst (c : Char) : List Chars → List Chars
  | [] => [[c]]
  | piece :: more => (c :: piece) :: more

/-- Cuts at every bar outside of brackets. -/
def members : Nat → Bool → Chars → Except GrammarFault (List Chars)
  | depth, _, [] => if depth = 0 then .ok [[]] else .error .unclosedBracket
  | depth, afterColon, c :: rest =>
      if c = '|' && depth == 0 then ([] :: ·) <$> members 0 false rest
      else
        match depthAfter? depth afterColon c with
        | none => .error .unbalancedBracket
        | some depth => extendFirst c <$> members depth (c == ':') rest

/-- A bracket that opens is left out of both halves. -/
theorem length_openBracket? {afterColon : Bool} {text : Chars} {halves : Chars × Chars}
    (h : openBracket? afterColon text = some halves) :
    halves.1.length + halves.2.length + 1 = text.length := by
  induction text generalizing afterColon halves with
  | nil => exact nomatch h
  | cons c rest ih =>
      unfold openBracket? at h
      split at h
      · simp only [Option.some.injEq] at h
        simp [← h]
      · simp only [Option.map_eq_some_iff] at h
        obtain ⟨inner, hi, rfl⟩ := h
        have := ih hi
        simp only [List.length_cons]
        omega

theorem length_le_of_mem_extendFirst {c : Char} {pieces : List Chars} {piece : Chars} {bound : Nat}
    (hall : ∀ p ∈ pieces, p.length ≤ bound) (h : piece ∈ extendFirst c pieces) :
    piece.length ≤ bound + 1 := by
  cases pieces with
  | nil =>
      simp only [extendFirst, List.mem_singleton] at h
      simp [h]
  | cons first more =>
      simp only [extendFirst, List.mem_cons] at h
      rcases h with rfl | h
      · have := hall first (List.mem_cons_self ..)
        simp only [List.length_cons]
        omega
      · have := hall piece (List.mem_cons_of_mem _ h)
        omega

/-- No member is longer than the text. -/
theorem length_le_of_mem_members {depth : Nat} {afterColon : Bool} {text : Chars}
    {pieces : List Chars} (h : members depth afterColon text = .ok pieces) :
    ∀ piece ∈ pieces, piece.length ≤ text.length := by
  induction text generalizing depth afterColon pieces with
  | nil =>
      unfold members at h
      split at h
      · simp only [Except.ok.injEq] at h
        subst h
        simp
      · exact nomatch h
  | cons c rest ih =>
      unfold members at h
      split at h
      · cases hr : members 0 false rest with
        | error fault => rw [hr] at h; exact nomatch h
        | ok inner =>
            rw [hr] at h
            have h : Except.ok ([] :: inner) = Except.ok pieces := h
            simp only [Except.ok.injEq] at h
            subst h
            intro piece hp
            rcases List.mem_cons.1 hp with rfl | hp
            · simp
            · have := ih hr piece hp
              simp only [List.length_cons]
              omega
      · split at h
        · exact nomatch h
        · rename_i depth' _
          cases hr : members depth' (c == ':') rest with
          | error fault => rw [hr] at h; exact nomatch h
          | ok inner =>
              rw [hr] at h
              have h : Except.ok (extendFirst c inner) = Except.ok pieces := h
              simp only [Except.ok.injEq] at h
              subst h
              intro piece hp
              exact length_le_of_mem_extendFirst (ih hr) hp

/-! ## One level -/

/-- The form of an array from what follows the keyword: nothing, a colon and a
    clause, or the items in brackets.  Anything else is no array. -/
def arrayForm? (rest : Chars) : Option (Form (rest.length + 1)) :=
  match rest with
  | [] => some (.array none none)
  | ':' :: more =>
      match ho : openBracket? true more with
      | none => some (.array (some more) none)
      | some (clause, inside) =>
          match hb : beforeLast? '>' inside with
          | none => some (.fault ⟨':' :: more, .unclosedBracket⟩)
          | some items =>
              some (.array (some clause) (some ⟨items, by
                have h1 := length_openBracket? ho
                have h2 := length_beforeLast? hb
                simp only [List.length_cons] at h1 ⊢
                omega⟩))
  | '<' :: inside =>
      match hb : beforeLast? '>' inside with
      | none => some (.fault ⟨'<' :: inside, .unclosedBracket⟩)
      | some items =>
          some (.array none (some ⟨items, by
            have := length_beforeLast? hb
            simp only [List.length_cons]
            omega⟩))
  | _ => none

/-- The form of a union from what follows its colon. -/
def unionForm (rest : Chars) : Form (rest.length + 1) :=
  match hm : members 0 false rest with
  | .error cause => .fault ⟨rest, cause⟩
  | .ok pieces =>
      if pieces.length < 2 then .fault ⟨rest, .fewMembers⟩
      else
        .union (pieces.attach.map fun piece =>
          ⟨trim piece.1, Nat.lt_succ_of_le
            (Nat.le_trans (length_trim_le piece.1) (length_le_of_mem_members hm _ piece.2))⟩)

/-- The form of choices after `enum:`.  A type may be named before the members;
    anything else before a colon belongs to the first member. -/
def enumForm (size : Nat) (rest : Chars) : Form size :=
  match cutAt? ':' rest with
  | some (hint, body) =>
      match ChoiceType.ofName? (String.ofList (trim hint)) with
      | some type => .choice (some type) body
      | none => .choice none rest
  | none => .choice none rest

/-- The same form with room for longer parts. -/
def Form.widen {small large : Nat} (h : small ≤ large) : Form small → Form large
  | .fault flaw => .fault flaw
  | .named name => .named name
  | .choice hint body => .choice hint body
  | .bounded name rest => .bounded name rest
  | .array clause items =>
      .array clause (items.map fun part => ⟨part.1, Nat.lt_of_lt_of_le part.2 h⟩)
  | .union members => .union (members.map fun part => ⟨part.1, Nat.lt_of_lt_of_le part.2 h⟩)

/-- The form of a specification without a colon: choices or a name. -/
def plainForm (size : Nat) (body : Chars) : Form size :=
  if body.any (· == '|') then .choice none body else .named body

/-- The form of a specification with a colon; `body` is the whole of it. -/
def colonForm (body name rest : Chars) (h : rest.length < body.length) : Form body.length :=
  if rest.isEmpty then .fault ⟨body, .missingBody⟩
  else if String.ofList name = "types" then (unionForm rest).widen h
  else if String.ofList name = "enum" then enumForm body.length rest
  else .bounded name rest

/-- The form of a specification that is no array. -/
def generalForm (body : Chars) : Form body.length :=
  match hc : cutAt? ':' body with
  | none => plainForm body.length (trim body)
  | some (name, rest) =>
      colonForm body (trim name) (trim rest) (by
        have h1 := length_cutAt? hc
        have h2 := length_trim_le rest
        simp only at h1
        omega)

/-- The form of a specification without its final `!`. -/
def formOf (body : Chars) : Form body.length :=
  match ha : afterLead? ['a', 'r', 'r', 'a', 'y'] body with
  | none => generalForm body
  | some rest =>
      match arrayForm? rest with
      | none => generalForm body
      | some form =>
          form.widen (by
            have := length_afterLead? ha
            simp only [List.length_cons, List.length_nil] at this
            omega)

/-! ## All levels -/

/-- Whether a text ends with `!`. -/
def endsWithMark (text : Chars) : Bool := (beforeLast? '!' text).isSome

/-- The text without the final `!` it may have, and whether it had one. -/
def bodyOf (text : Chars) : Except Fault (Bool × { body : Chars // body.length ≤ text.length }) :=
  if (trim text).isEmpty then .error ⟨text, .emptySpecification⟩
  else
    match hb : beforeLast? '!' (trim text) with
    | none => .ok (false, ⟨trim text, length_trim_le text⟩)
    | some body =>
        if endsWithMark (trimEnd body) then .error ⟨trim text, .repeatedMark⟩
        else
          .ok (true, ⟨trimEnd body, by
            have h1 := length_beforeLast? hb
            have h2 := length_trimEnd_le body
            have h3 := length_trim_le text
            omega⟩)

/-- The outline of a text. -/
def Outline.ofText (text : Chars) : Outline :=
  match bodyOf text with
  | .error flaw => .fault flaw
  | .ok (required, ⟨body, _⟩) =>
      match formOf body with
      | .fault flaw => .fault flaw
      | .named name => .named required name
      | .choice hint choices => .choice required hint choices
      | .bounded name rest => .bounded required name body rest
      | .array clause none => .array required clause none
      | .array clause (some part) => .array required clause (some (Outline.ofText part.1))
      | .union parts => .union required (parts.map fun part => Outline.ofText part.1)
termination_by text.length
decreasing_by
  · have := part.2
    omega
  · have := part.2
    omega

end Conform.Dsl
