import ScriptGraph.Json.Reader
import ScriptGraph.Lexicon

/-!
# Keyword overrides as documents

A document of changes to the keywords: a record with an object of `keywords` and their tokens, and
an array of words to `remove`. Both may be absent, and no other member is allowed.
-/

namespace ScriptGraph.Lexicon

open Json (Fault Reader)

/-- The token with a name. -/
def tokenNamed (name : String) : Except Fault Token := Json.required (Token.ofName? name)

/-- A token: its name, or an object with its name as the only key and null as the value. Nothing
else may stand here. -/
def readToken (levels : Nat) : Reader Token := fun cs => do
  match Json.skipBlanks cs, levels with
  | [], _ => .error .incomplete
  | '"' :: cs, _ =>
    let (name, rest) ← Json.stringBody cs
    return (← tokenNamed name, rest)
  | '{' :: cs, _ + 1 =>
    let (name, cs) ← Json.key cs
    let token ← tokenNamed name
    let ((), cs) ← Json.memberValue Json.null cs
    match Json.skipBlanks cs with
    | '}' :: rest => return (token, rest)
    | [] => .error .incomplete
    | _ => .error .malformed
  | _, _ => .error .malformed

/-- The keywords to add. -/
def readKeywords (levels : Nat) : Reader (List (String × Token)) := fun cs => do
  let member (n : Nat) (ks : List (String × Token)) (k : String) : Reader (List (String × Token)) :=
    fun cs => do
      let (t, rest) ← Json.memberValue (readToken n) cs
      return ((k, t) :: ks, rest)
  let (ks, rest) ← Json.objectOf member [] levels cs
  return (ks.reverse, rest)

/-- The keywords to remove. -/
def readRemoved (levels : Nat) : Reader (List String) := Json.arrayOf (fun _ => Json.string) levels

/-- Overrides by their fields' names. -/
def readByName (levels : Nat) : Reader Overrides := fun cs => do
  let member (s : Option (List (String × Token)) × Option (List String)) (k : String) :
      Reader (Option (List (String × Token)) × Option (List String)) :=
    if k = "keywords" then Json.field s.1 (readKeywords levels) fun x => (some x, s.2)
    else if k = "remove" then Json.field s.2 (readRemoved levels) fun x => (s.1, some x)
    else fun _ => .error .mismatched
  let ((keywords, removed), rest) ← Json.members member (none, none) cs
  return (⟨keywords.getD [], removed.getD []⟩, rest)

/-- Overrides by their fields in order, of which the last may be missing. -/
def readInOrder (levels : Nat) : Reader Overrides := fun cs => do
  let (keywords, cs) ← Json.element? true (readKeywords levels) cs
  let (removed, cs) ← Json.element? keywords.isNone (readRemoved levels) cs
  return (⟨keywords.getD [], removed.getD []⟩, ← Json.closeArray cs)

/-- Overrides. -/
def readOverrides (levels : Nat) : Reader Overrides := Json.record levels readByName readInOrder

/-- The lexicon of the language with the changes of a document. -/
def load (text : String) : Except Fault Lexicon := do
  return ofOverrides (← Json.document (readOverrides Json.maxNesting) text)

end ScriptGraph.Lexicon
