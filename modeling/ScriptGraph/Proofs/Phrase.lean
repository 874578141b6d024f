import Mathlib.Tactic.Lemma
import ScriptGraph.Lexer.Stream
import ScriptGraph.Proofs.Code

/-!
# Phrases

The derivation trees of the grammar, one type for each of its parts:

```text
unit   = BREAK* (stmt (BREAK+ stmt)*)? BREAK* EOF
block  = "{" BREAK* (stmt (BREAK+ stmt)*)? BREAK* "}"
stmt   = "let" IDENT ("=" expr)?
       | expr
expr   = term ("=" expr)?
term   = NUMBER | STRING | IDENT
       | "(" expr ")"
       | "do" block
       | "fun" ("(" (IDENT ("," IDENT)*)? ")")? block
```

A leaf is a lexeme of the kind that the grammar wants in its place, so every tree is a derivation of
the lexemes at its leaves. No two trees of a unit have the same leaves: the grammar is unambiguous.
-/

namespace ScriptGraph.Phrase

/-! ### Leaves -/

/-- A lexeme of a given kind. -/
abbrev Leaf (t : Token) : Type := { l : Lexeme // l.token = t }

/-- A plain assignment sign. -/
abbrev Sign : Type := { l : Lexeme // l.isAssign = true }

/-- A number or a string. -/
abbrev Constant : Type := { l : Lexeme // l.token = .number ∨ l.token = .string }

/-- `("(" (IDENT ("," IDENT)*)? ")")?` -/
inductive Parameters where
  | absent
  | none (opening : Leaf .parenLeft) (closing : Leaf .parenRight)
  | some (opening : Leaf .parenLeft) (first : Leaf .ident)
      (more : List (Leaf .comma × Leaf .ident)) (closing : Leaf .parenRight)

/-! ### Trees -/

mutual

/-- `term` -/
inductive Atom where
  | constant (lexeme : Constant)
  | name (lexeme : Leaf .ident)
  | group (opening : Leaf .parenLeft) (inner : Expr) (closing : Leaf .parenRight)
  | scope (keyword : Leaf .kwDo)
      (opening : Leaf .braceLeft) (body : Body) (closing : Leaf .braceRight)
  | function (keyword : Leaf .kwFun) (parameters : Parameters)
      (opening : Leaf .braceLeft) (body : Body) (closing : Leaf .braceRight)

/-- `expr` -/
inductive Expr where
  | atom (a : Atom)
  | assign (target : Atom) (sign : Sign) (value : Expr)

/-- `stmt` -/
inductive Stmt where
  | declare (keyword : Leaf .kwLet) (name : Leaf .ident)
  | define (keyword : Leaf .kwLet) (name : Leaf .ident) (sign : Sign) (value : Expr)
  | expr (e : Expr)

/-- `BREAK* (stmt (BREAK+ stmt)*)? BREAK*` -/
inductive Body where
  | empty (breaks : List (Leaf .breakLine))
  | filled (breaks : List (Leaf .breakLine)) (first : Stmt) (tail : Tail)

/-- `(BREAK+ stmt)* BREAK*` -/
inductive Tail where
  | stop (breaks : List (Leaf .breakLine))
  | next (separator : Leaf .breakLine) (more : List (Leaf .breakLine)) (stmt : Stmt) (tail : Tail)

end

/-- The lexemes of the line breaks in a row. -/
def breakLexemes (breaks : List (Leaf .breakLine)) : List Lexeme := breaks.map Subtype.val

/-- The lexemes of the names after the first in a list of parameters. -/
def moreLexemes (more : List (Leaf .comma × Leaf .ident)) : List Lexeme :=
  more.flatMap fun p => [p.1.val, p.2.val]

@[simp] lemma breakLexemes_nil : breakLexemes [] = [] := rfl

@[simp] lemma breakLexemes_cons (b : Leaf .breakLine) (bs : List (Leaf .breakLine)) :
    breakLexemes (b :: bs) = b.val :: breakLexemes bs := rfl

@[simp] lemma moreLexemes_nil : moreLexemes [] = [] := rfl

@[simp] lemma moreLexemes_cons (p : Leaf .comma × Leaf .ident)
    (more : List (Leaf .comma × Leaf .ident)) :
    moreLexemes (p :: more) = p.1.val :: p.2.val :: moreLexemes more := rfl

/-- The lexemes of a list of parameters. -/
def Parameters.lexemes : Parameters → List Lexeme
  | absent => []
  | none o c => [o.val, c.val]
  | some o f more c => o.val :: f.val :: moreLexemes more ++ [c.val]

/-- The lexemes of the names of parameters. -/
def Parameters.names : Parameters → List Lexeme
  | absent | none .. => []
  | some _ f more _ => f.val :: more.map fun p => p.2.val

mutual

/-- The leaves of a term. -/
def Atom.lexemes : Atom → List Lexeme
  | .constant l => [l.val]
  | .name l => [l.val]
  | .group o e c => o.val :: e.lexemes ++ [c.val]
  | .scope k o b c => k.val :: o.val :: b.lexemes ++ [c.val]
  | .function k ps o b c => k.val :: ps.lexemes ++ o.val :: b.lexemes ++ [c.val]

/-- The leaves of an expression. -/
def Expr.lexemes : Expr → List Lexeme
  | .atom a => a.lexemes
  | .assign t s v => t.lexemes ++ s.val :: v.lexemes

/-- The leaves of a statement. -/
def Stmt.lexemes : Stmt → List Lexeme
  | .declare k n => [k.val, n.val]
  | .define k n s v => k.val :: n.val :: s.val :: v.lexemes
  | .expr e => e.lexemes

/-- The leaves of the statements of a block. -/
def Body.lexemes : Body → List Lexeme
  | .empty bs => breakLexemes bs
  | .filled bs s t => breakLexemes bs ++ s.lexemes ++ t.lexemes

/-- The leaves of what follows a statement. -/
def Tail.lexemes : Tail → List Lexeme
  | .stop bs => breakLexemes bs
  | .next b bs s t => b.val :: breakLexemes bs ++ s.lexemes ++ t.lexemes

end

/-! ### Code -/

/-- The name and the place of an identifier. -/
def parameterOf (l : Lexeme) : String × Location := (l.name, l.location)

mutual

/-- The code of a term. -/
def Atom.code : Atom → Code
  | .constant l => .constant l.val.value l.val.location
  | .name l => .read l.val.name l.val.location
  | .group _ e _ => e.code
  | .scope k _ b _ => .scope b.code k.val.location
  | .function k ps _ b _ => .function (ps.names.map parameterOf) b.code k.val.location

/-- The code of an expression. -/
def Expr.code : Expr → Code
  | .atom a => a.code
  | .assign t _ v => .assign t.code v.code

/-- The code of a statement. -/
def Stmt.code : Stmt → Code
  | .declare _ n => .declare n.val.name n.val.location
  | .define _ n _ v => .define n.val.name n.val.location v.code
  | .expr e => e.code

/-- The code of the statements of a block. -/
def Body.code : Body → List Code
  | .empty _ => []
  | .filled _ s t => s.code :: t.code

/-- The code of the statements that follow one. -/
def Tail.code : Tail → List Code
  | .stop _ => []
  | .next _ _ s t => s.code :: t.code

end

mutual

theorem Atom.declares_code (a : Atom) : a.code.declares = [] := by
  match a with
  | .constant l | .name l | .scope k o b c | .function k ps o b c => rfl
  | .group o e c => exact Expr.declares_code e

theorem Expr.declares_code (e : Expr) : e.code.declares = [] := by
  match e with
  | .atom a => exact Atom.declares_code a
  | .assign t s v =>
    simp [Expr.code, Code.declares, Atom.declares_code t, Expr.declares_code v]

end

mutual

theorem Atom.tidy_code (a : Atom) : a.code.Tidy := by
  match a with
  | .constant l | .name l => trivial
  | .group o e c => exact Expr.tidy_code e
  | .scope k o b c | .function k ps o b c => exact Body.tidy_code b

theorem Expr.tidy_code (e : Expr) : e.code.Tidy := by
  match e with
  | .atom a => exact Atom.tidy_code a
  | .assign t s v =>
    exact ⟨Atom.declares_code t, Expr.declares_code v, Atom.tidy_code t, Expr.tidy_code v⟩

theorem Stmt.tidy_code (s : Stmt) : s.code.Tidy := by
  match s with
  | .declare k n => trivial
  | .define k n s v => exact ⟨Expr.declares_code v, Expr.tidy_code v⟩
  | .expr e => exact Expr.tidy_code e

theorem Body.tidy_code (b : Body) : Code.TidyAll b.code := by
  match b with
  | .empty bs => trivial
  | .filled bs s t => exact ⟨Stmt.tidy_code s, Tail.tidy_code t⟩

theorem Tail.tidy_code (t : Tail) : Code.TidyAll t.code := by
  match t with
  | .stop bs => trivial
  | .next b bs s t => exact ⟨Stmt.tidy_code s, Tail.tidy_code t⟩

end

/-! ### Statements after a line break -/

/-- The statements of a block after a line break, as what follows a statement. -/
def Body.after (separator : Leaf .breakLine) : Body → Tail
  | .empty bs => .stop (separator :: bs)
  | .filled bs s t => .next separator bs s t

@[simp] lemma Body.lexemes_after (b : Leaf .breakLine) (body : Body) :
    (body.after b).lexemes = b.val :: body.lexemes := by
  cases body <;> simp [Body.after, Tail.lexemes, Body.lexemes]

@[simp] lemma Body.code_after (b : Leaf .breakLine) (body : Body) :
    (body.after b).code = body.code := by
  cases body <;> simp [Body.after, Tail.code, Body.code]

end ScriptGraph.Phrase
