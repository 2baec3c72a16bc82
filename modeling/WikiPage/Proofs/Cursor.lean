import WikiPage.Proofs.Boundaries
import WikiPage.Proofs.Paragraphs

/-!
# Reading with a cursor

Markup is read here from the tokens of a text, with a cursor that is moved. It tells how many tokens
have been taken and which constructs are open; a reader looks at the token at the cursor, takes tokens,
and opens and closes constructs. Tags and comments are scanned from the byte offset of the token, and the
tokens up to the end of the scan are taken.

The readers call each other as the constructs of markup contain each other, and nothing here says that
they come to an end. So each is told how deep the calls may go, and a reader that would go deeper has no
answer; nor has one that looks for a comment where there is none.
-/

namespace WikiPage

/-- How many tokens have been taken, and the constructs that are open, the innermost first. -/
structure Cursor where
  position : Nat
  opened : List Open
  deriving DecidableEq, Repr

namespace Cursor

abbrev Reader := StateT Cursor Option

variable (text : String)

/-- The tokens that have not been taken. -/
def left (c : Cursor) : List Token :=
  (Token.list text).drop c.position

/-- The kind of the token `n` tokens ahead. -/
def kindAt? (c : Cursor) (n : Nat) : Option Token.Kind :=
  (c.left text)[n]?.map Token.kind

/-- The byte offset of the token `n` tokens ahead, or of the end of the text. -/
def offsetAt (c : Cursor) (n : Nat) : Nat :=
  ((c.left text)[n]?.map Token.offset).getD (Text.byteSize text.toList)

def atLineStart (c : Cursor) : Bool :=
  c.position == 0 || (Token.list text)[c.position - 1]?.map Token.kind == some .newline

/-- The block tag that begins `n` tokens ahead, and its end. -/
def blockTagAt? (c : Cursor) (n : Nat) : Option (StartTag × Nat) :=
  if c.kindAt? text n = some .lt then
    (StartTag.scanAt? text (c.offsetAt text n)).filter fun p => p.1.isBlock
  else none

def paragraphEnds (c : Cursor) : Bool :=
  match c.kindAt? text 1 with
  | none => true
  | some .newline => true
  | some .dashes => true
  | some .lt => (c.blockTagAt? text 1).isSome
  | _ => false

def stops (c : Cursor) : Bool :=
  match c.kindAt? text 0 with
  | none => true
  | some .newline =>
    match c.opened with
    | [] => c.paragraphEnds text
    | .tag _ :: _ => false
    | _ :: _ => true
  | some .linkClose => c.opened.contains .title
  | some .bold => c.opened.contains (.emphasis .bold)
  | some .italics => c.opened.contains (.emphasis .italics)
  | some .lt =>
    match EndTag.scanAt? text (c.offsetAt text 0) with
    | some (e, _) => c.opened.contains (.tag e.lowerName)
    | none => false
  | _ => false

def linkCloses (c : Cursor) : Bool :=
  ((c.left text).takeWhile fun t => t.kind ≠ .newline).any fun t => t.kind = .linkClose

def take : Reader (List Char) := fun c =>
  match (c.left text).head? with
  | some t => some (t.text, { c with position := c.position + 1 })
  | none => some ([], c)

/-- Take the tokens that begin before an offset. -/
def takeTo (stop : Nat) : Reader Unit := fun c =>
  some ((), { c with position := c.position + (Token.skipTo stop (c.left text)).1.length })

def takeIf (kind : Token.Kind) : Reader Bool := do
  if (← get).kindAt? text 0 = some kind then
    let _ ← take text
    pure true
  else pure false

def enter (x : Open) : Reader Unit := fun c =>
  some ((), { c with opened := x :: c.opened })

def leave : Reader Unit := fun c =>
  some ((), { c with opened := c.opened.tail })

/-- Take the end tag of the named element if it is at the cursor. -/
def takeEndTag (name : String) : Reader (Option EndTag) := do
  let c ← get
  match EndTag.scanAt? text (c.offsetAt text 0) with
  | some (e, stop) =>
    if c.kindAt? text 0 = some .lt ∧ e.lowerName = name then
      takeTo text stop
      pure (some e)
    else pure none
  | none => pure none

def linkTarget : Nat → Reader (List Char)
  | 0 => failure
  | depth + 1 => do
    let kind := (← get).kindAt? text 0
    if kind = none ∨ kind = some .pipe ∨ kind = some .linkClose then pure []
    else
      let s ← take text
      let r ← linkTarget depth
      pure (s ++ r)

def comment : Reader Inline := do
  let c ← get
  match Comment.scanAt? text (c.offsetAt text 0) with
  | some (x, stop) =>
    takeTo text stop
    pure (.comment x.text x.closed)
  | none => failure

/-- Take a token that begins nothing. -/
def plain [Entities] : Reader Inline := do
  let kind := (← get).kindAt? text 0
  let raw ← take text
  match kind.bind fun k => Reference.ofToken? k raw with
  | some r => pure (.reference raw r)
  | none => pure (.text raw)

mutual

def run [Entities] : Nat → Reader (List Inline)
  | 0 => failure
  | depth + 1 => do
    if (← get).stops text then pure []
    else
      let x ← item depth
      let xs ← run depth
      pure (Inline.cons x xs)

def item [Entities] : Nat → Reader Inline
  | 0 => failure
  | depth + 1 => do
    match (← get).kindAt? text 0 with
    | some .bold => emphasis .bold depth
    | some .italics => emphasis .italics depth
    | some .linkOpen => link depth
    | some .commentOpen => comment text
    | some .lt => markup depth
    | some .newline => Inline.newline <$> take text
    | _ => plain text

def emphasis [Entities] (style : Emphasis) : Nat → Reader Inline
  | 0 => failure
  | depth + 1 => do
    let _ ← take text
    enter (.emphasis style)
    let body ← run depth
    leave
    let closed ← takeIf text (Inline.closer style)
    pure (.emphasis style body closed)

def link [Entities] : Nat → Reader Inline
  | 0 => failure
  | depth + 1 => do
    if (← get).linkCloses text then
      let _ ← take text
      let target ← linkTarget text depth
      let piped ← takeIf text .pipe
      if piped then
        enter .title
        let title ← run depth
        leave
        let closed ← takeIf text .linkClose
        pure (.link target true title closed)
      else
        let closed ← takeIf text .linkClose
        pure (.link target false [] closed)
    else Inline.text <$> take text

def markup [Entities] : Nat → Reader Inline
  | 0 => failure
  | depth + 1 => do
    let c ← get
    match StartTag.scanAt? text (c.offsetAt text 0) with
    | some (tag, stop) =>
      let p ← element tag stop depth
      pure (.element tag p.1 p.2)
    | none =>
      match EndTag.scanAt? text (c.offsetAt text 0) with
      | some (e, stop) =>
        takeTo text stop
        pure (.text e.raw)
      | none => Inline.text <$> take text

/-- The body and the end tag of an element whose start tag, which ends at `stop`, has been scanned. -/
def element [Entities] (tag : StartTag) (stop : Nat) : Nat → Reader (List Inline × Option EndTag)
  | 0 => failure
  | depth + 1 => do
    takeTo text stop
    if tag.isEmpty then pure ([], none)
    else
      enter (.tag tag.lowerName)
      let body ← run depth
      leave
      let closing ← takeEndTag text tag.lowerName
      pure (body, closing)

end

def paragraph [Entities] (depth : Nat) : Reader Block :=
  Block.paragraph <$> run text depth

def block [Entities] (depth : Nat) : Reader Block := do
  let c ← get
  if c.kindAt? text 0 = some .newline then Block.newline <$> take text
  else if c.kindAt? text 0 = some .dashes ∧ c.atLineStart text then Block.rule <$> take text
  else
    match c.blockTagAt? text 0 with
    | some (tag, stop) =>
      let p ← element text tag stop depth
      pure (.element tag p.1 p.2)
    | none => paragraph text depth

/-- The blocks from the cursor on. -/
def document [Entities] : Nat → Reader (List Block)
  | 0 => failure
  | depth + 1 => do
    if (← get).kindAt? text 0 = none then pure []
    else
      let b ← block text depth
      let bs ← document depth
      pure (b :: bs)

end Cursor
end WikiPage
