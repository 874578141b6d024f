import ScriptGraph.Token

/-!
# Lexicons

A lexicon holds what the lexer can be told about the language: which words and operators are
keywords, and after which tokens a line break is ignored. The classes of characters are fixed.
-/

namespace ScriptGraph

/-! ### Classes of characters -/

/-- The class of a code point: the kind of token that it starts. Only ASCII code points have a class
of their own. -/
def classOf (c : Nat) : Token :=
  if 0x80 ≤ c then .other
  else
    match Char.ofNat c with
    | '\t' | '\x0b' | '\x0c' | '\r' | ' ' => .whitespace
    | '\n' | ';' => .breakLine
    | '!' => .opNot
    | '"' => .string
    | '%' => .opMod
    | '&' => .opAnd
    | '\'' => .number
    | '(' => .parenLeft
    | ')' => .parenRight
    | '*' => .opMul
    | '+' => .opAdd
    | ',' => .comma
    | '-' => .opSub
    | '.' => .dot
    | '/' => .opDiv
    | ':' => .colon
    | '<' => .opLt
    | '=' => .assign
    | '>' => .opGt
    | '?' => .opQuestion
    | '[' => .bracketLeft
    | '\\' => .continueLine
    | ']' => .bracketRight
    | '^' => .opXor
    | '_' | '\x60' => .ident
    | '{' => .braceLeft
    | '|' => .opOr
    | '}' => .braceRight
    | '~' => .opTilde
    | c => if c.isDigit then .number else if c.isAlpha then .ident else .other

/-! ### Keywords and line breaks -/

/-- The keywords of the language. -/
def standardKeywords : List (String × Token) :=
  [("let", .kwLet), ("fun", .kwFun), ("do", .kwDo), ("if", .kwIf), ("else", .kwElse),
    ("while", .kwWhile), ("return", .kwReturn), ("break", .kwBreak), ("continue", .kwContinue),
    ("it", .kwIt), ("self", .kwSelf), ("async", .kwAsync), ("==", .opEq), ("!=", .opNe),
    ("<=", .opLe), (">=", .opGe), ("&&", .opAnd), ("||", .opOr), ("=", .assign), ("+", .opAdd),
    ("-", .opSub), ("*", .opMul), ("/", .opDiv), ("%", .opMod), ("<", .opLt), (">", .opGt),
    ("!", .opNot), ("~", .opTilde), ("?", .opQuestion), ("^", .opXor), ("|", .opOr),
    ("&", .opAnd), ("--", .comment)]

/-- Whether a statement cannot end after a token, so that a line break there is ignored. -/
def standardSkips : Token → Bool
  | .parenLeft | .bracketLeft | .braceLeft | .comma | .dot | .colon | .kwFun | .kwDo | .kwIf
  | .kwElse | .kwWhile | .kwAsync => true
  | t => t.isOperator

/-- The changeable tables of the lexer. A line break never swallows the line break after it. -/
structure Lexicon where
  keywords : List (String × Token)
  skipsBreak : Token → Bool
  skipsBreak_breakLine : skipsBreak .breakLine = false

namespace Lexicon

/-- The lexicon of the language. -/
def standard : Lexicon := ⟨standardKeywords, standardSkips, rfl⟩

instance : Inhabited Lexicon := ⟨standard⟩

/-- The token of a keyword. -/
def keyword? (l : Lexicon) (text : String) : Option Token := l.keywords.lookup text

/-- The length of the longest keyword. -/
def longest (l : Lexicon) : Nat := l.keywords.foldl (fun n k => max n k.1.length) 0

private theorem le_foldl_max (keywords : List (String × Token)) (n : Nat) :
    n ≤ keywords.foldl (fun n k => max n k.1.length) n := by
  induction keywords generalizing n with
  | nil => exact Nat.le_refl n
  | cons k keywords ih => exact Nat.le_trans (Nat.le_max_left _ _) (ih _)

private theorem length_le_foldl_max {keywords : List (String × Token)} {text : String} {t : Token}
    (h : keywords.lookup text = some t) (n : Nat) :
    text.length ≤ keywords.foldl (fun n k => max n k.1.length) n := by
  induction keywords generalizing n with
  | nil => simp at h
  | cons k keywords ih =>
    rw [List.lookup_cons] at h
    split at h
    · next heq =>
      rw [eq_of_beq heq]
      exact Nat.le_trans (Nat.le_max_right _ _) (le_foldl_max keywords _)
    · exact ih h _

/-- No keyword is longer than the longest. -/
theorem length_le_longest {l : Lexicon} {text : String} {t : Token} (h : l.keyword? text = some t) :
    text.length ≤ l.longest :=
  length_le_foldl_max h 0

/-- The lexicon without a keyword. -/
def erase (l : Lexicon) (text : String) : Lexicon :=
  { l with keywords := l.keywords.filter fun k => k.1 != text }

/-- The lexicon with a keyword added or replaced. -/
def insert (l : Lexicon) (text : String) (token : Token) : Lexicon :=
  { l with keywords := (text, token) :: (l.erase text).keywords }

/-- The lexicon in which a line break after a token is ignored or not. There is no such choice for
the line break itself. -/
def setSkips (l : Lexicon) (token : Token) (skips : Bool) : Lexicon :=
  if h : token = .breakLine then l
  else
    { l with
      skipsBreak := fun t => if t = token then skips else l.skipsBreak t
      skipsBreak_breakLine := by simp [Ne.symm h, l.skipsBreak_breakLine] }

/-! ### Overrides -/

/-- Changes to the keywords of the language. -/
structure Overrides where
  /-- Keywords to add or replace; of two entries for one text the last counts. -/
  keywords : List (String × Token) := []
  /-- Keywords to remove before the others are added. -/
  removed : List String := []

/-- The lexicon of the language with its keywords changed. -/
def ofOverrides (o : Overrides) : Lexicon :=
  let kept := o.removed.foldl erase standard
  o.keywords.foldl (fun l k => l.insert k.1 k.2) kept

end Lexicon

end ScriptGraph
