import Mathlib.Tactic.Common
import Stepwise.Guard.Parser

/-! The grammar of conditions, apart from any parser. A derivation is a value of the type of its nonterminal,
with a constructor for each production. It has the lexemes that it spells, the syntax tree that it stands
for, and the greatest number of negations and parentheses that are open around one of its lexemes. Two
derivations never spell the same lexemes. -/
namespace Stepwise.Guard.Grammar

/-- A value that stands for itself. -/
inductive Literal where
  | number (value : Number)
  | string (text : String)
  | truth (value : Bool)
  | none

mutual

/-- A conjunction, or several with `or` between them. -/
inductive Disjunction where
  | one (c : Conjunction)
  | more (c : Conjunction) (rest : Disjunction)

/-- A negation, or several with `and` between them. -/
inductive Conjunction where
  | one (n : Negation)
  | more (n : Negation) (rest : Conjunction)

inductive Negation where
  | not (inner : Negation)
  | test (t : Test)

inductive Test where
  | chain (c : Chain)
  | isNone (a : Atom) (negated : Bool)

/-- An operand, or several with comparison operators between them. -/
inductive Chain where
  | one (a : Atom)
  | more (a : Atom) (op : Comparison) (rest : Chain)

inductive Atom where
  | path (path : Path)
  | literal (value : Literal)
  | group (inner : Disjunction)

end

/-! ### Lexemes -/

def Literal.lexeme : Literal → Lexeme
  | number value => .number value
  | string text => .string text
  | truth value => .truth value
  | none => .none

def keyLexemes (keys : List String) : List Lexeme :=
  keys.flatMap fun key => [.dot, .name key]

def pathLexemes (path : Path) : List Lexeme :=
  .name path.root.name :: keyLexemes path.keys

/-- `None` after `is`, perhaps with `not` before it. -/
def noneLexemes : (negated : Bool) → List Lexeme
  | false => [.none]
  | true => [.not, .none]

mutual

def Disjunction.lexemes : Disjunction → List Lexeme
  | .one c => c.lexemes
  | .more c rest => c.lexemes ++ .or :: rest.lexemes

def Conjunction.lexemes : Conjunction → List Lexeme
  | .one n => n.lexemes
  | .more n rest => n.lexemes ++ .and :: rest.lexemes

def Negation.lexemes : Negation → List Lexeme
  | .not inner => .not :: inner.lexemes
  | .test t => t.lexemes

def Test.lexemes : Test → List Lexeme
  | .chain c => c.lexemes
  | .isNone a negated => a.lexemes ++ .is :: noneLexemes negated

def Chain.lexemes : Chain → List Lexeme
  | .one a => a.lexemes
  | .more a op rest => a.lexemes ++ .compare op :: rest.lexemes

def Atom.lexemes : Atom → List Lexeme
  | .path path => pathLexemes path
  | .literal value => [value.lexeme]
  | .group inner => .openParen :: inner.lexemes ++ [.closeParen]

end

/-! ### Trees -/

def Literal.value : Literal → Scalar
  | number value => .number value
  | string text => .string text
  | truth value => .bool value
  | none => .null

mutual

/-- A disjunction of one term is that term. -/
def Disjunction.tree : Disjunction → Expr
  | .one c => c.tree
  | .more c rest => .or (c.tree :: rest.terms)

def Disjunction.terms : Disjunction → List Expr
  | .one c => [c.tree]
  | .more c rest => c.tree :: rest.terms

/-- A conjunction of one term is that term. -/
def Conjunction.tree : Conjunction → Expr
  | .one n => n.tree
  | .more n rest => .and (n.tree :: rest.terms)

def Conjunction.terms : Conjunction → List Expr
  | .one n => [n.tree]
  | .more n rest => n.tree :: rest.terms

def Negation.tree : Negation → Expr
  | .not inner => .not inner.tree
  | .test t => t.tree

/-- A chain without operators is its operand. -/
def Test.tree : Test → Expr
  | .chain (.one a) => .operand a.tree
  | .chain (.more a op rest) => .compare a.tree ((op, rest.first) :: rest.rest)
  | .isNone a negated => .isNone a.tree negated

def Chain.first : Chain → Operand
  | .one a => a.tree
  | .more a _ _ => a.tree

/-- The operands after the first one, each with the operator before it. -/
def Chain.rest : Chain → List (Comparison × Operand)
  | .one _ => []
  | .more _ op rest => (op, rest.first) :: rest.rest

def Atom.tree : Atom → Operand
  | .path path => .path path
  | .literal value => .literal value.value
  | .group inner => .group inner.tree

end

/-! ### Depth -/

mutual

def Disjunction.depth : Disjunction → Nat
  | .one c => c.depth
  | .more c rest => max c.depth rest.depth

def Conjunction.depth : Conjunction → Nat
  | .one n => n.depth
  | .more n rest => max n.depth rest.depth

def Negation.depth : Negation → Nat
  | .not inner => inner.depth + 1
  | .test t => t.depth

def Test.depth : Test → Nat
  | .chain c => c.depth
  | .isNone a _ => a.depth

def Chain.depth : Chain → Nat
  | .one a => a.depth
  | .more a _ rest => max a.depth rest.depth

def Atom.depth : Atom → Nat
  | .path _ | .literal _ => 0
  | .group inner => inner.depth + 1

end

end Stepwise.Guard.Grammar
