/-!
# Trees over a table

Nodes kept in a table refer to each other by identifier. A tree is the table as seen from one
identifier: every node with what stands below it, in order. An identifier that the table lacks is a
leaf of its own.
-/

namespace WikiPage

inductive Tree (ι α : Type)
  | missing (id : ι)
  | node (id : ι) (value : α) (below : List (Tree ι α))

namespace Tree

variable {ι α : Type}

/-- The tree at an identifier, down to the given depth; deeper down nothing is found. In a table of
`n` nodes without cycles no path is longer than `n`, so that depth shows the whole tree. -/
def grow (find? : ι → Option α) (children : α → List ι) : Nat → ι → Tree ι α
  | 0, id => missing id
  | n + 1, id =>
    match find? id with
    | none => missing id
    | some value => node id value ((children value).map (grow find? children n))

def id : Tree ι α → ι
  | missing id => id
  | node id _ _ => id

@[simp] theorem id_grow (find? : ι → Option α) (children : α → List ι) (n : Nat) (i : ι) :
    (grow find? children n i).id = i := by
  cases n with
  | zero => rfl
  | succ n =>
    rw [grow]
    split <;> rfl

mutual

/-- All identifiers, each before those below it. -/
def preorder : Tree ι α → List ι
  | missing id => [id]
  | node id _ below => id :: preorders below

def preorders : List (Tree ι α) → List ι
  | [] => []
  | t :: ts => preorder t ++ preorders ts

end

mutual

/-- The first identifier that the table lacks. -/
def firstMissing? : Tree ι α → Option ι
  | missing id => some id
  | node _ _ below => firstMissingOf? below

def firstMissingOf? : List (Tree ι α) → Option ι
  | [] => none
  | t :: ts => (firstMissing? t).or (firstMissingOf? ts)

end

/-- The identifiers below the top of the tree. The table has to hold all of them; otherwise the first
that it lacks is the answer. -/
def below? : Tree ι α → Except ι (List ι)
  | missing id => .error id
  | node _ _ below =>
    match firstMissingOf? below with
    | some id => .error id
    | none => .ok (preorders below)

end Tree
end WikiPage
