import Conform.Chain
import Conform.Error

/-! # Building chains — one call after another

    A chain is written as a sequence of calls.  `when` opens the chain and
    `else_when` a further entry; `and` and `or` add conditions to the latest
    entry, `message` and `then` say what it does; `otherwise` ends the chain.
    The first call that does not fit is the fault of the whole sequence. -/

namespace Conform.Chain

/-- A call. -/
inductive Call (α : Type) where
  | opening (predicate : Predicate)
  | conj (predicate : Predicate)
  | disj (predicate : Predicate)
  | further (predicate : Predicate)
  | message (text : String)
  | target (target : α)
  | otherwise (target : α)
  | otherwiseNothing

variable {α : Type}

/-- The call as it is written. -/
def Call.name : Call α → String
  | .opening _ => "when"
  | .conj _ => "and"
  | .disj _ => "or"
  | .further _ => "else_when"
  | .message _ => "message"
  | .target _ => "then"
  | .otherwise _ => "otherwise"
  | .otherwiseNothing => "otherwise_null"

/-- A chain under construction; a closed one takes no further call. -/
structure Draft (α : Type) where
  entries : List (Entry α) := []
  fallback : Fallback α := .undefined
  closed : Bool := false

/-- An entry with its first condition. -/
def Entry.start (kind : EntryKind) (predicate : Predicate) : Entry α :=
  ⟨kind, [⟨.root, predicate, none⟩], none, none, false⟩

/-- Changes the last element of a list. -/
def mapLast {β : Type} (f : β → β) : List β → List β
  | [] => []
  | [last] => [f last]
  | first :: second :: rest => first :: mapLast f (second :: rest)

/-- The entry with one more condition. -/
def Entry.joined (join : Join) (predicate : Predicate) (entry : Entry α) : Entry α :=
  { entry with conditions := entry.conditions ++ [⟨join, predicate, none⟩] }

/-- The entry that throws, with the message at its latest condition. -/
def Entry.throwing (text : String) (entry : Entry α) : Entry α :=
  { entry with
    conditions := mapLast (fun condition => { condition with message := some text }) entry.conditions
    message := some text
    throws := true }

/-- Whether the latest entry has a target. -/
def Draft.hasTarget (draft : Draft α) : Bool :=
  match draft.entries.getLast? with
  | none => false
  | some entry => entry.target.isSome

/-- Changes the latest entry. -/
def Draft.revise (draft : Draft α) (f : Entry α → Entry α) : Draft α :=
  { draft with entries := mapLast f draft.entries }

/-- The draft after a call that follows an opening. -/
def Draft.continued (draft : Draft α) : Call α → Except ChainFault (Draft α)
  | .opening _ => .error .secondWhen
  | .conj predicate => .ok (draft.revise (Entry.joined .conj predicate))
  | .disj predicate => .ok (draft.revise (Entry.joined .disj predicate))
  | .further predicate =>
      .ok { draft with entries := draft.entries ++ [Entry.start .further predicate] }
  | .message text => .ok (draft.revise (Entry.throwing text))
  | .target target =>
      if draft.hasTarget then .error .secondThen
      else .ok (draft.revise fun entry => { entry with target := some target })
  | .otherwise target => .ok { draft with fallback := .target target, closed := true }
  | .otherwiseNothing => .ok { draft with fallback := .nothing, closed := true }

/-- The draft after a call. -/
def Draft.step (draft : Draft α) (call : Call α) : Except ChainFault (Draft α) :=
  if draft.closed then .error (.afterFallback call.name)
  else if draft.entries.isEmpty then
    match call with
    | .opening predicate => .ok { draft with entries := [Entry.start .first predicate] }
    | call => .error (.withoutWhen call.name)
  else draft.continued call

/-- The draft after some calls; the first fault stops it. -/
def Draft.after (draft : Draft α) : List (Call α) → Except ChainFault (Draft α)
  | [] => .ok draft
  | call :: rest =>
      match draft.step call with
      | .ok next => next.after rest
      | .error fault => .error fault

/-- The chain that a draft amounts to. -/
def Draft.finish (draft : Draft α) : Except ChainFault (Chain α) :=
  if draft.entries.isEmpty then .error .noWhen else .ok ⟨draft.entries, draft.fallback⟩

/-- The chain that a sequence of calls builds. -/
def ofCalls (calls : List (Call α)) : Except ChainFault (Chain α) :=
  match Draft.after {} calls with
  | .ok draft => draft.finish
  | .error fault => .error fault

end Conform.Chain
