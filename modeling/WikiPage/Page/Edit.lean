import WikiPage.Arena.Surgery
import WikiPage.Page

/-!
# Edits

An edit changes the page step by step and may fail. What was done before a failure stays done, so an
edit asks everything that may be refused before it changes anything.
-/

namespace WikiPage

abbrev Edit := EStateM PageError Page

namespace Edit

variable {α : Type}

def ask (f : Page → Except PageError α) : Edit α := fun p =>
  match f p with
  | .ok x => .ok x p
  | .error e => .error e p

def surgery (s : Surgery α) : Edit α := fun p =>
  match s p.arena with
  | .ok x a => .ok x { p with arena := a }
  | .error e a => .error e { p with arena := a }

def update (id : ElementId) (f : Element → Element) : Edit Unit := do
  let _ ← ask (·.get id)
  modify (·.update id f)

def make (e : Element) : Edit ElementId := fun p =>
  .ok p.next (p.push e)

/-- The page after an edit. -/
def exec (edit : Edit α) (p : Page) : Except PageError Page :=
  match edit p with
  | .ok _ q => .ok q
  | .error e _ => .error e

end Edit
end WikiPage
