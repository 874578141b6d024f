import ScriptGraph.Builder.Machine
import ScriptGraph.Lexer.Stream

/-!
# Reading token streams

The parser reads a token stream and issues building instructions as it goes. A reading consists of
the instructions issued, each with the lexeme at which the parser then stood, and of a result with
the lexemes that are left, or of a failure. What the instructions do is not known here: an
instruction that fails ends the parse before anything that was read after it.
-/

namespace ScriptGraph

/-- An instruction and the current lexeme when it was issued. -/
structure Event where
  instruction : Instruction
  current : Lexeme

/-- Events in order, joined without copying. -/
inductive Trace where
  | empty
  | single (event : Event)
  | append (first second : Trace)

namespace Trace

/-- The events of a trace, with others after them. -/
def onto : Trace → List Event → List Event
  | empty, es => es
  | single e, es => e :: es
  | append a b, es => a.onto (b.onto es)

/-- The events of a trace. -/
def toList (t : Trace) : List Event := t.onto []

theorem onto_eq_append (t : Trace) (es : List Event) : t.onto es = t.toList ++ es := by
  induction t generalizing es with
  | empty => rfl
  | single e => rfl
  | append a b iha ihb => rw [onto, toList, onto, iha, ihb, iha (b.onto []), ihb []]; simp

@[simp] theorem toList_empty : empty.toList = [] := rfl

@[simp] theorem toList_single (e : Event) : (single e).toList = [e] := rfl

@[simp] theorem toList_append (a b : Trace) : (a.append b).toList = a.toList ++ b.toList := by
  rw [toList, onto, onto_eq_append, onto_eq_append, List.append_nil]

end Trace

/-- An error and the current lexeme when it arose. -/
structure Failure where
  error : Error
  current : Lexeme

/-- What came of reading a part of a stream. -/
structure Reading (α : Type) where
  trace : Trace
  result : Except Failure (α × List Lexeme)

/-- A part of the grammar: how to read it from the lexemes before a given ending. -/
def Grammar (α : Type) : Type := Ending → List Lexeme → Reading α

namespace Grammar

/-- Reads nothing. -/
protected def pure (x : α) : Grammar α := fun _ ts => ⟨.empty, .ok (x, ts)⟩

/-- Reads one part and then another. -/
protected def bind (g : Grammar α) (f : α → Grammar β) : Grammar β := fun ending ts =>
  match g ending ts with
  | ⟨trace, .error failure⟩ => ⟨trace, .error failure⟩
  | ⟨trace, .ok (x, rest)⟩ =>
    let next := f x ending rest
    ⟨trace.append next.trace, next.result⟩

instance : Monad Grammar where
  pure := Grammar.pure
  bind := Grammar.bind

/-- The current lexeme of a stream. -/
def currentOf (ending : Ending) (ts : List Lexeme) : Lexeme := ts.headD ending.lexeme

/-- The current lexeme. -/
def current : Grammar Lexeme := fun ending ts => ⟨.empty, .ok (currentOf ending ts, ts)⟩

/-- Issues an instruction. -/
def issue (i : Instruction) : Grammar Unit := fun ending ts =>
  ⟨.single ⟨i, currentOf ending ts⟩, .ok ((), ts)⟩

/-- Fails at the current lexeme. -/
def fail (error : Lexeme → Error) : Grammar α := fun ending ts =>
  let current := currentOf ending ts
  ⟨.empty, .error ⟨error current, current⟩⟩

/-- Stands at the start of the given lexemes, unless the stream breaks there. -/
def standAt (ts : List Lexeme) : Grammar Unit := fun ending _ =>
  match ts, ending with
  | [], .broken error place => ⟨.empty, .error ⟨error, place⟩⟩
  | ts, _ => ⟨.empty, .ok ((), ts)⟩

/-- Stands at the first lexeme. -/
def start : Grammar Unit := fun ending ts => standAt ts ending ts

/-- Goes on to the next lexeme. -/
def advance : Grammar Unit := fun ending ts => standAt ts.tail ending ts

/-- Passes over line breaks. -/
def skipBreaks : Grammar Unit := fun ending ts =>
  match ts with
  | [] => ⟨.empty, .ok ((), [])⟩
  | ts => standAt (ts.dropWhile fun t => t.token = .breakLine) ending ts

/-- Fails because something else was expected. -/
def expected (expectation : String) : Grammar α :=
  fail fun l => .unexpected l.location expectation l.describe

/-- Fails because a part of the language has no graph yet. -/
def unsupported (what : Lexeme → String) : Grammar α :=
  fail fun l => .unsupported l.location (what l)

/-- Passes over a token, which has to stand here. -/
def expect (token : Token) (expectation : String) : Grammar Unit := do
  if (← current).token = token then advance else expected expectation

/-- Reads an identifier. -/
def ident (expectation : String) : Grammar (String × Location) := do
  let l ← current
  if l.token = .ident then
    advance
    return (l.name, l.location)
  else expected expectation

end Grammar

end ScriptGraph
