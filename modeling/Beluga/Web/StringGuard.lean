import Beluga.Text.Search
import Beluga.Text.Words
import Mathlib.Data.List.Infix

/-! # Hardcoded strings

`hardcodedStringGuard.ts`: which literals of an expression that is rendered as a JSX child or as
an attribute are reported as prose, and what such an expression evaluates to. -/

namespace HardcodedStrings

open Text

/-! ## Prose -/

/-- `\p{L}` and `toLowerCase` of the engine. -/
structure Unicode where
  letter : Char → Bool
  toLowerCase : String → String
  /-- No letter is white space. -/
  letter_space : ∀ c, letter c = true → Regex.space c = false

def asciiLetter (c : Char) : Bool := ('a' ≤ c && c ≤ 'z') || ('A' ≤ c && c ≤ 'Z')

/-- `/&[a-zA-Z]+;/g`. -/
def HTML_ENTITY_REF : Matcher Unit := do
  Matcher.one (· = '&')
  let _ ← Matcher.plus asciiLetter
  Matcher.one (· = ';')

section

variable (uni : Unicode)

/-- `HAS_LETTER.test(text.replace(HTML_ENTITY_REF, ' '))`. -/
def hasProse (text : List Char) : Bool := (HTML_ENTITY_REF.replace [' '] text).any uni.letter

/-- Returns the trimmed text if it looks like translatable prose. -/
def translatableText (rawText : List Char) : Option (List Char) :=
  let trimmed := trim rawText
  if trimmed.length = 0 then none
  else if !hasProse uni trimmed then none
  else some trimmed

end

/-! ## Attributes -/

def STRUCTURAL_ATTRIBUTES : List String :=
  ["classname", "class", "style", "id", "key", "href", "src", "srcset", "rel", "target",
    "type", "name", "htmlfor", "for", "role", "tabindex", "colspan", "rowspan", "value",
    "action", "method", "x", "y", "width", "height", "fill", "viewbox", "xmlns"]

def USER_FACING_ATTRIBUTES : List String := ["title", "aria-label", "placeholder", "alt", "label"]

def isStructuralAttribute (lowerName : String) : Bool :=
  decide (lowerName ∈ STRUCTURAL_ATTRIBUTES) ||
    decide ("data-".toList <+: lowerName.toList) ||
    (decide ("testid".toList <:+: lowerName.toList) ||
      decide ("test-id".toList <:+: lowerName.toList)) ||
    (decide ("aria-".toList <+: lowerName.toList) && lowerName ≠ "aria-label")

def isUserFacingAttribute (uni : Unicode) (name : String) : Bool :=
  let lower := uni.toLowerCase name
  if isStructuralAttribute lower then false
  else decide (lower ∈ USER_FACING_ATTRIBUTES) || decide ("label".toList <:+ lower.toList)

/-! ## Expressions -/

inductive Operator where
  /-- `&&`. -/
  | ampersandAmpersand
  /-- `||`. -/
  | barBar
  /-- `??`. -/
  | questionQuestion
  deriving DecidableEq

mutual

/-- An expression, with the positions of its literals and templates. -/
inductive Expr where
  /-- A string literal, or a template without holes. -/
  | literal (node : ℕ) (text : List Char)
  | template (node : ℕ) (head : List Char) (templateSpans : Spans)
  | parenthesized (expression : Expr)
  | conditional (condition whenTrue whenFalse : Expr)
  | binary (operatorToken : Operator) (left right : Expr)
  | arrayLiteral (elements : Elements)
  /-- A call, an identifier or a property access. -/
  | leaf

inductive Elements where
  | nil
  | cons (element : Expr) (rest : Elements)

/-- The holes of a template, each with the text behind it. -/
inductive Spans where
  | nil
  | cons (expression : Expr) (literal : List Char) (rest : Spans)

end

/-- The static texts behind the holes. -/
def Spans.texts : Spans → List (List Char)
  | .nil => []
  | .cons _ literal rest => literal :: rest.texts

mutual

/-- The literals and templates of an expression. -/
def Expr.nodes : Expr → List ℕ
  | .literal node _ => [node]
  | .template node _ templateSpans => node :: templateSpans.nodes
  | .parenthesized expression => expression.nodes
  | .conditional condition whenTrue whenFalse =>
      condition.nodes ++ (whenTrue.nodes ++ whenFalse.nodes)
  | .binary _ left right => left.nodes ++ right.nodes
  | .arrayLiteral elements => elements.nodes
  | .leaf => []

def Elements.nodes : Elements → List ℕ
  | .nil => []
  | .cons element rest => element.nodes ++ rest.nodes

def Spans.nodes : Spans → List ℕ
  | .nil => []
  | .cons expression _ rest => expression.nodes ++ rest.nodes

end

/-! ## The scan -/

structure ResolvedLiteral where
  text : List Char
  node : ℕ

section

variable (uni : Unicode)

mutual

def resolveTranslatableLiterals : Expr → List ResolvedLiteral
  | .literal node text => (translatableText uni text).toList.map (⟨·, node⟩)
  | .parenthesized expression => resolveTranslatableLiterals expression
  | .conditional _ whenTrue whenFalse =>
      resolveTranslatableLiterals whenTrue ++ resolveTranslatableLiterals whenFalse
  -- The left side is not looked at.
  | .binary _ _ right => resolveTranslatableLiterals right
  | .arrayLiteral elements => resolveElements elements
  -- Neither are the holes.
  | .template node head templateSpans =>
      (translatableText uni (head :: templateSpans.texts).flatten).toList.map (⟨·, node⟩)
  | .leaf => []

def resolveElements : Elements → List ResolvedLiteral
  | .nil => []
  | .cons element rest => resolveTranslatableLiterals element ++ resolveElements rest

end

end

inductive Holder where
  /-- `{expression}` between the tags of an element or a fragment. -/
  | jsxChild
  /-- `name={expression}`, or `name="text"`. -/
  | jsxAttribute (name : String)

/-- A place where an expression is rendered. -/
structure Site where
  /-- Where the expression container or the attribute starts. -/
  start : ℕ
  holder : Holder
  /-- The reason of an exemption comment there. -/
  exemptReason : Option String
  expression : Expr
  distinct : expression.nodes.Nodup

inductive Kind where
  | jsxText
  | jsxAttribute

structure HardcodedStringViolation where
  position : ℕ
  kind : Kind
  attrName : Option String
  text : List Char

/-- What is reported of one place, under a kind. -/
def Site.report (uni : Unicode) (site : Site) (kind : Kind) (attrName : Option String) :
    List HardcodedStringViolation :=
  if site.exemptReason.isSome then [] else
    match site.expression with
    | .literal _ text =>
        (translatableText uni text).toList.map (⟨site.start, kind, attrName, ·⟩)
    | expression =>
        (resolveTranslatableLiterals uni expression).map fun found =>
          ⟨found.node, kind, attrName, found.text⟩

/-- What `visit` adds at the place. -/
def Site.collectViolations (uni : Unicode) (site : Site) : List HardcodedStringViolation :=
  match site.holder with
  | .jsxChild => site.report uni .jsxText none
  | .jsxAttribute name =>
      if isUserFacingAttribute uni name then site.report uni .jsxAttribute (some name) else []

/-! ## Values -/

/-- A piece of a text, and the literal or template that it comes from. -/
structure Piece where
  node : Option ℕ
  text : List Char

inductive Value where
  | undefined
  | null
  | boolean (b : Bool)
  /-- A number or a bigint by its text. -/
  | number (text : List Char) (truthy : Bool)
  | string (pieces : List Piece)
  | array (elements : List Value)
  /-- An object, a function or a React element, by its text. -/
  | object (text : List Char)

def chars (pieces : List Piece) : List Char := pieces.flatMap Piece.text

/-- A text that no literal of the expression has written. -/
def foreign (text : List Char) : Piece := ⟨none, text⟩

namespace Value

def nullish : Value → Bool
  | undefined | null => true
  | _ => false

def truthy : Value → Bool
  | undefined | null => false
  | boolean b => b
  | number _ truthy => truthy
  | string pieces => !(chars pieces).isEmpty
  | array _ | object _ => true

mutual

/-- `String(value)`. -/
def text : Value → List Piece
  | undefined => [foreign ['u', 'n', 'd', 'e', 'f', 'i', 'n', 'e', 'd']]
  | null => [foreign ['n', 'u', 'l', 'l']]
  | boolean b => [foreign (toString b).toList]
  | number text _ => [foreign text]
  | string pieces => pieces
  | array [] => []
  | array (v :: rest) => (if v.nullish then [] else v.text) ++ textAfter rest
  | object text => [foreign text]

/-- What `join` adds behind an element. -/
def textAfter : List Value → List Piece
  | [] => []
  | v :: rest => foreign [','] :: (if v.nullish then [] else v.text) ++ textAfter rest

end

mutual

/-- What React renders of a child. -/
def children : Value → List Piece
  | undefined | null | boolean _ => []
  | number text _ => [foreign text]
  | string pieces => pieces
  | array elements => childrenOf elements
  | object text => [foreign text]

def childrenOf : List Value → List Piece
  | [] => []
  | v :: rest => v.children ++ childrenOf rest

end

/-- What stands in an attribute. -/
def attributeText : Value → List Piece
  | undefined | null | boolean _ => []
  | v => v.text

/-- A value without a text from the expression. -/
def Foreign (v : Value) : Prop := ∀ p ∈ v.children, p.node = none

end Value

/-! ## Evaluation -/

/-- The operator gives its left operand. -/
def Operator.keeps (v : Value) : Operator → Bool
  | .ampersandAmpersand => !v.truthy
  | .barBar => v.truthy
  | .questionQuestion => !v.nullish

mutual

/-- The expression gives the value for some choice of values for its leaves. -/
def Eval : Expr → Value → Prop
  | .literal node text, v => v = .string [⟨some node, text⟩]
  | .template node head templateSpans, v =>
      ∃ pieces, EvalSpans node templateSpans pieces ∧ v = .string (⟨some node, head⟩ :: pieces)
  | .parenthesized expression, v => Eval expression v
  | .conditional condition whenTrue whenFalse, v =>
      ∃ w, Eval condition w ∧ if w.truthy then Eval whenTrue v else Eval whenFalse v
  | .binary operatorToken left right, v =>
      ∃ w, Eval left w ∧ if operatorToken.keeps w then v = w else Eval right v
  | .arrayLiteral elements, v => ∃ values, EvalElements elements values ∧ v = .array values
  | .leaf, v => v.Foreign

def EvalElements : Elements → List Value → Prop
  | .nil, values => values = []
  | .cons element rest, values =>
      ∃ v more, Eval element v ∧ EvalElements rest more ∧ values = v :: more

/-- The pieces of a template behind its head. -/
def EvalSpans (node : ℕ) : Spans → List Piece → Prop
  | .nil, pieces => pieces = []
  | .cons expression literal rest, pieces =>
      ∃ v more, Eval expression v ∧ EvalSpans node rest more ∧
        pieces = v.text ++ ⟨some node, literal⟩ :: more

end

/-- What is seen of a value. -/
def Holder.rendered (v : Value) : Holder → List Piece
  | .jsxChild => v.children
  | .jsxAttribute _ => v.attributeText

/-- The position under which a literal or template of a place is reported. -/
def Site.positionOf (site : Site) (node : ℕ) : ℕ :=
  match site.expression with
  | .literal _ _ => site.start
  | _ => node

/-- No prose of a literal or template can be seen without a report. -/
def Site.Guarded (uni : Unicode) (site : Site) : Prop :=
  ∀ v, Eval site.expression v → ∀ p ∈ site.holder.rendered v, ∀ node, p.node = some node →
    hasProse uni p.text = true →
      ∃ violation ∈ site.collectViolations uni, violation.position = site.positionOf node

end HardcodedStrings
