import WikiPage.Markup

/-!
# Attribute values

The value of an attribute is text with references in it.
-/

namespace WikiPage

inductive Span
  | text (s : List Char)
  | reference (raw : List Char) (meaning : Reference)
  deriving DecidableEq, Repr

namespace Span

/-- Put a span before others; adjacent texts are one. -/
def cons : Span → List Span → List Span
  | text s, text t :: spans => text (s ++ t) :: spans
  | span, spans => span :: spans

/-- The spans of a value as written. -/
def list [Entities] (s : List Char) : List Span :=
  match _h : Token.first? s with
  | none => []
  | some t =>
    let span := match Reference.ofToken? t.kind t.text with
      | some r => reference t.text r
      | none => text t.text
    cons span (list t.rest)
termination_by s.length
decreasing_by exact Token.length_rest_lt _h

def source : Span → List Char
  | text s => s
  | reference raw _ => raw

theorem flatMap_source_cons (span : Span) (spans : List Span) :
    (cons span spans).flatMap source = span.source ++ spans.flatMap source := by
  rw [cons.eq_def]
  split <;> simp [source]

theorem flatMap_source_list [Entities] (s : List Char) : (list s).flatMap source = s := by
  fun_induction list s with
  | case1 s h => simp_all
  | case2 s t h span ih =>
    rw [flatMap_source_cons, ih]
    have : span.source = t.text := by
      simp only [span]
      split <;> rfl
    rw [this, Token.text_append_rest h]

end Span
end WikiPage
