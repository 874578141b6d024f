/-!
# Tokens

The kinds of token: punctuation, keywords, operators, names and literals, and what separates them.
The same kinds class the characters with which tokens start.
-/

namespace ScriptGraph

/-- The kinds of token, in order. -/
inductive Token where
  | parenLeft | parenRight | bracketLeft | bracketRight | braceLeft | braceRight | comma | dot
  | colon
  | kwLet | kwFun | kwDo | kwIf | kwElse | kwWhile | kwReturn | kwBreak | kwContinue | kwIt
  | kwSelf | kwAsync
  | assign | opOr | opAnd | opXor | opEq | opNe | opLt | opGt | opLe | opGe | opAdd | opSub
  | opMul | opDiv | opMod | opNot | opTilde | opQuestion
  | ident | string | number
  | whitespace | comment | breakLine | continueLine | eof | other
deriving DecidableEq, Repr, Inhabited

namespace Token

/-- All kinds of token in order. -/
def all : List Token :=
  [.parenLeft, .parenRight, .bracketLeft, .bracketRight, .braceLeft, .braceRight, .comma, .dot,
    .colon, .kwLet, .kwFun, .kwDo, .kwIf, .kwElse, .kwWhile, .kwReturn, .kwBreak, .kwContinue,
    .kwIt, .kwSelf, .kwAsync, .assign, .opOr, .opAnd, .opXor, .opEq, .opNe, .opLt, .opGt, .opLe,
    .opGe, .opAdd, .opSub, .opMul, .opDiv, .opMod, .opNot, .opTilde, .opQuestion, .ident,
    .string, .number, .whitespace, .comment, .breakLine, .continueLine, .eof, .other]

/-- The place of a kind in the order. -/
def ordinal (t : Token) : Nat := all.idxOf t

/-- The name of a kind in documents and tables. -/
def name : Token → String
  | .parenLeft => "PAREN_LEFT"
  | .parenRight => "PAREN_RIGHT"
  | .bracketLeft => "BRACKET_LEFT"
  | .bracketRight => "BRACKET_RIGHT"
  | .braceLeft => "BRACE_LEFT"
  | .braceRight => "BRACE_RIGHT"
  | .comma => "COMMA"
  | .dot => "DOT"
  | .colon => "COLON"
  | .kwLet => "LET"
  | .kwFun => "FUN"
  | .kwDo => "DO"
  | .kwIf => "IF"
  | .kwElse => "ELSE"
  | .kwWhile => "WHILE"
  | .kwReturn => "RETURN"
  | .kwBreak => "BREAK"
  | .kwContinue => "CONTINUE"
  | .kwIt => "IT"
  | .kwSelf => "SELF"
  | .kwAsync => "ASYNC"
  | .assign => "ASSIGN"
  | .opOr => "OP_OR"
  | .opAnd => "OP_AND"
  | .opXor => "OP_XOR"
  | .opEq => "OP_EQ"
  | .opNe => "OP_NE"
  | .opLt => "OP_LT"
  | .opGt => "OP_GT"
  | .opLe => "OP_LE"
  | .opGe => "OP_GE"
  | .opAdd => "OP_ADD"
  | .opSub => "OP_SUB"
  | .opMul => "OP_MUL"
  | .opDiv => "OP_DIV"
  | .opMod => "OP_MOD"
  | .opNot => "OP_NOT"
  | .opTilde => "OP_TILDE"
  | .opQuestion => "OP_QUESTION"
  | .ident => "IDENT"
  | .string => "STRING"
  | .number => "NUMBER"
  | .whitespace => "WHITESPACE"
  | .comment => "COMMENT"
  | .breakLine => "BREAK_LINE"
  | .continueLine => "CONTINUE_LINE"
  | .eof => "EOF"
  | .other => "OTHER"

/-- The kind with a given name. -/
def ofName? (s : String) : Option Token := all.find? fun t => t.name == s

/-- Whether the token is an operator, assignment included. -/
def isOperator : Token → Bool
  | .assign | .opOr | .opAnd | .opXor | .opEq | .opNe | .opLt | .opGt | .opLe | .opGe | .opAdd
  | .opSub | .opMul | .opDiv | .opMod | .opNot | .opTilde | .opQuestion => true
  | _ => false

/-- Whether the token never reaches the parser. -/
def isTrivia : Token → Bool
  | .whitespace | .comment | .continueLine => true
  | _ => false

/-- Whether the token opens a bracketed group. -/
def isOpening : Token → Bool
  | .parenLeft | .bracketLeft | .braceLeft => true
  | _ => false

/-- Whether the token closes a bracketed group. -/
def isClosing : Token → Bool
  | .parenRight | .bracketRight | .braceRight => true
  | _ => false

end Token

end ScriptGraph
