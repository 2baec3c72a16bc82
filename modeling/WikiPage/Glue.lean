/-!
# Glue

The literal text that a node keeps from its source: one slot before each child and one behind the
last, so a node with `n` children has `n + 1` slots.
-/

namespace WikiPage

structure Glue where
  slots : List String
  deriving DecidableEq, Repr, Inhabited

namespace Glue

def size (g : Glue) : Nat :=
  g.slots.length

def slot? (g : Glue) (i : Nat) : Option String :=
  g.slots[i]?

/-- Whether the text before the first child ends with a character. -/
def opensWith (g : Glue) (c : Char) : Bool :=
  match g.slot? 0 with
  | some s => s.toList.getLast? == some c
  | none => false

/-- The total length in bytes. -/
def byteSize (g : Glue) : Nat :=
  g.slots.foldr (fun s n => s.utf8ByteSize + n) 0

@[simp] theorem size_mk (slots : List String) : (Glue.mk slots).size = slots.length := rfl

end Glue
end WikiPage
