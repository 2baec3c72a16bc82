import WikiPage.Token

/-!
# References

A reference stands for a character: by its code point in decimal or hexadecimal, or by the name of
an entity. One that stands for no character is not a reference but plain text.
-/

namespace WikiPage

/-- The characters that named entities stand for. The names under which characters are escaped in the values
of attributes are known. -/
class Entities where
  find? : String → Option Char
  find?_amp : find? "amp" = some '&'
  find?_lt : find? "lt" = some '<'
  find?_quot : find? "quot" = some '"'

inductive Reference
  | char (code : Nat)
  | entity (name resolved : String)
  deriving DecidableEq, Repr

namespace Reference

/-- The code point between `&#` and the semicolon. -/
def code? (digits : List Char) : Option Nat :=
  let n := match digits with
    | 'x' :: ds => Text.numeral 16 ds
    | 'X' :: ds => Text.numeral 16 ds
    | ds => Text.numeral 10 ds
  if n.isValidChar then some n else none

/-- What a token refers to. -/
def ofToken? [Entities] : Token.Kind → List Char → Option Reference
  | .charRef, text => (code? (text.drop 2).dropLast).map char
  | .entityRef, text =>
    let name := String.ofList (text.drop 1).dropLast
    (Entities.find? name).map fun c => entity name (String.singleton c)
  | _, _ => none

example [Entities] : ofToken? .charRef "&#x41;".toList = some (char 65) := rfl

example [Entities] : ofToken? .charRef "&#xD800;".toList = none := rfl

end Reference
end WikiPage
