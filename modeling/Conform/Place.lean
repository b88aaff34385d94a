/-! # Places — positions in a document

    A place is the list of steps from the root of a document.  It is written
    with points before keys and brackets around indices, `user.tags[2]`; a
    first key has no point, and the root is the empty text. -/

namespace Conform

/-- One step down: to a member, to an item, or to every item at once. -/
inductive Step where
  | key (name : String)
  | index (position : Nat)
  | items
deriving DecidableEq

/-- A position in a document. -/
structure Place where
  steps : List Step
deriving DecidableEq

namespace Place

/-- The whole document. -/
def root : Place := ⟨[]⟩

/-- The member called `name`. -/
def key (place : Place) (name : String) : Place := ⟨place.steps ++ [.key name]⟩

/-- The item at `position`. -/
def index (place : Place) (position : Nat) : Place := ⟨place.steps ++ [.index position]⟩

/-- Every item, to name the site of a declaration. -/
def items (place : Place) : Place := ⟨place.steps ++ [.items]⟩

/-- Whether this is the whole document. -/
def isRoot (place : Place) : Bool := place.steps.isEmpty

/-- The text of a step that is not the first one. -/
def stepText : Step → String
  | .key name => "." ++ name
  | .index position => "[" ++ toString position ++ "]"
  | .items => "[]"

/-- The text of the first step. -/
def firstText : Step → String
  | .key name => name
  | step => stepText step

/-- The text of the place. -/
def text (place : Place) : String :=
  match place.steps with
  | [] => ""
  | first :: more => more.foldl (fun written step => written ++ stepText step) (firstText first)

/-- A name follows a point, except at the root. -/
theorem text_key (place : Place) (name : String) :
    (place.key name).text
      = if place.isRoot then name else place.text ++ "." ++ name := by
  obtain ⟨steps⟩ := place
  cases steps with
  | nil => rfl
  | cons first more =>
      show (more ++ [Step.key name]).foldl _ _ = _
      rw [List.foldl_append]
      show more.foldl _ _ ++ ("." ++ name) = more.foldl _ _ ++ "." ++ name
      rw [String.append_assoc]

end Place

end Conform
