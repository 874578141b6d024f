import ScriptGraph.Lexicon

/-!
# Line breaks that count

Blanks, comments and continuation marks never reach the parser. A line break is dropped where the
statement cannot end: after a continuation mark, after a token that expects more, and anywhere
inside parentheses or square brackets. Inside braces line breaks separate statements again.
-/

namespace ScriptGraph

/-- What decides whether the next token is kept. -/
structure Breaks where
  /-- The last token that was kept. -/
  previous : Token := .breakLine
  /-- Whether a continuation mark came after the last line break. -/
  continued : Bool := false
  /-- The open groups, innermost first. -/
  groups : List Token := []

namespace Breaks

/-- Whether the innermost open group joins lines. -/
def joinsLines (b : Breaks) : Bool :=
  match b.groups with
  | .parenLeft :: _ | .bracketLeft :: _ => true
  | _ => false

/-- Whether a line break is dropped here. -/
def dropsBreak (lexicon : Lexicon) (b : Breaks) : Bool :=
  b.continued || lexicon.skipsBreak b.previous || b.joinsLines

/-- The state after a token and whether the token is kept. -/
def sift (lexicon : Lexicon) (b : Breaks) (t : Token) : Breaks × Bool :=
  match t with
  | .whitespace | .comment => (b, false)
  | .continueLine => ({ b with continued := true }, false)
  | .breakLine =>
    if b.dropsBreak lexicon then ({ b with continued := false }, false)
    else ({ b with continued := false, previous := .breakLine }, true)
  | t =>
    let groups :=
      if t.isOpening then t :: b.groups else if t.isClosing then b.groups.tail else b.groups
    ({ b with previous := t, groups }, true)

/-- The end is always kept. -/
@[simp] theorem sift_eof (lexicon : Lexicon) (b : Breaks) : (b.sift lexicon .eof).2 = true := rfl

end Breaks

end ScriptGraph
