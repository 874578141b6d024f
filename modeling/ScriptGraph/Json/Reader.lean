import ScriptGraph.Json.Chars
import ScriptGraph.Json.Numeral

/-!
# Reading JSON documents

A document is read from left to right into the expected shape, and the first fault met is the one
reported: a value of the wrong shape hides what is wrong further on. Arrays and objects nest at most
`maxNesting` deep; a reader of a container takes the number of levels that are still allowed. Only
values that nobody reads may nest without limit.
-/

namespace ScriptGraph.Json

/-- How deep the arrays and objects of a document may nest. -/
def maxNesting : Nat := 127

/-! ### Scalars -/

/-- The scalar that the first character announces, or nothing if it announces none. -/
def scalar? : List Char → Option (Except Fault (Value × List Char))
  | 'n' :: cs => some do return (.null, ← expectWord "ull".toList cs)
  | 't' :: cs => some do return (.bool true, ← expectWord "rue".toList cs)
  | 'f' :: cs => some do return (.bool false, ← expectWord "alse".toList cs)
  | '-' :: cs => some (numeral true cs)
  | '"' :: cs => some do
    let (s, rest) ← stringBody cs
    return (.string s, rest)
  | c :: cs => if c.isDigit then some (numeral false (c :: cs)) else none
  | [] => none

/-- The fault of a value that has not the expected shape. A scalar is read to its end, so a fault in
it counts first. -/
def mismatch (cs : List Char) : Fault :=
  match scalar? cs with
  | some (.ok _) => .mismatched
  | some (.error e) => e
  | none =>
    match cs with
    | [] => .incomplete
    | '[' :: _ | '{' :: _ => .mismatched
    | _ => .malformed

/-- A string. -/
def string : Reader String := fun cs =>
  match skipBlanks cs with
  | '"' :: cs => stringBody cs
  | cs => .error (mismatch cs)

/-- The first integer that is too large for an index or a count. -/
def wordLimit : Nat := 0x100000000

/-- An integer that fits a 32-bit word. -/
def word : Reader Nat := fun cs => do
  let cs := skipBlanks cs
  match scalar? cs with
  | some r =>
    match ← r with
    | (.natural n, rest) => if n < wordLimit then return (n, rest) else .error .mismatched
    | _ => .error .mismatched
  | none => .error (mismatch cs)

/-- The null value. -/
def null : Reader Unit := fun cs =>
  match skipBlanks cs with
  | 'n' :: cs => do return ((), ← expectWord "ull".toList cs)
  | cs => .error (mismatch cs)

/-! ### Containers -/

/-- The text after the colon between a key and its value. -/
def colon (cs : List Char) : Except Fault (List Char) :=
  match skipBlanks cs with
  | ':' :: cs => .ok cs
  | [] => .error .incomplete
  | _ => .error .malformed

/-- Where the next element of an array starts, or nothing before the closing bracket. -/
def nextElement (first : Bool) (cs : List Char) : Except Fault (Option (List Char)) :=
  match skipBlanks cs with
  | [] => .error .incomplete
  | ']' :: _ => .ok none
  | c :: cs =>
    if first then .ok (some (c :: cs))
    else if c = ',' then
      match skipBlanks cs with
      | [] => .error .incomplete
      | ']' :: _ => .error .malformed
      | cs => .ok (some cs)
    else .error .malformed

/-- The text after the closing bracket of an array that has no further element. -/
def closeArray (cs : List Char) : Except Fault (List Char) :=
  match skipBlanks cs with
  | ']' :: cs => .ok cs
  | [] => .error .incomplete
  | _ => .error .malformed

/-- A key, which has to stand here. -/
def key : Reader String := fun cs =>
  match skipBlanks cs with
  | '"' :: cs => stringBody cs
  | [] => .error .incomplete
  | _ => .error .malformed

/-- The next key of an object with the text after it, or the text after the closing brace. -/
def nextKey (first : Bool) (cs : List Char) : Except Fault (Option String × List Char) := do
  match skipBlanks cs with
  | [] => .error .incomplete
  | '}' :: cs => return (none, cs)
  | c :: cs =>
    if first then
      let (k, rest) ← key (c :: cs)
      return (some k, rest)
    else if c = ',' then
      let (k, rest) ← key cs
      return (some k, rest)
    else .error .malformed

/-- The elements of an array. Each takes a character at least, so the text itself bounds their
number: where the bound is used up, so is the text. -/
def elementsWithin (item : Reader α) : List Char → Bool → Reader (List α)
  | [], _, _ => .error .incomplete
  | _ :: bound, first, cs => do
    match ← nextElement first cs with
    | none => return ([], ← closeArray cs)
    | some cs =>
      let (x, cs) ← item cs
      let (xs, cs) ← elementsWithin item bound false cs
      return (x :: xs, cs)

/-- The elements of an array after its opening bracket. -/
def elements (item : Reader α) : Reader (List α) := fun cs => elementsWithin item cs true cs

/-- The members of an object, of which the text bounds the number. -/
def membersWithin (member : σ → String → Reader σ) : List Char → Bool → σ → Reader σ
  | [], _, _, _ => .error .incomplete
  | _ :: bound, first, state, cs => do
    match ← nextKey first cs with
    | (none, cs) => return (state, cs)
    | (some k, cs) =>
      let (state, cs) ← member state k cs
      membersWithin member bound false state cs

/-- The members of an object after its opening brace. A member is read from the text after its
key. -/
def members (member : σ → String → Reader σ) (initial : σ) : Reader σ := fun cs =>
  membersWithin member cs true initial cs

/-- An array whose elements are read with one level less. -/
def arrayOf (item : Nat → Reader α) (levels : Nat) : Reader (List α) := fun cs =>
  match skipBlanks cs with
  | '[' :: cs =>
    match levels with
    | 0 => .error .malformed
    | n + 1 => elements (item n) cs
  | cs => .error (mismatch cs)

/-- An object whose members are read with one level less. -/
def objectOf (member : Nat → σ → String → Reader σ) (initial : σ) (levels : Nat) : Reader σ :=
  fun cs =>
    match skipBlanks cs with
    | '{' :: cs =>
      match levels with
      | 0 => .error .malformed
      | n + 1 => members (member n) initial cs
    | cs => .error (mismatch cs)

/-! ### Any value -/

/-- Any value, with its strings and numbers checked. -/
def value : Nat → Reader Value := fun levels cs =>
  let cs := skipBlanks cs
  match scalar? cs with
  | some r => r
  | none =>
    match cs, levels with
    | [], _ => .error .incomplete
    | '[' :: cs, n + 1 => do
      let (vs, rest) ← elements (value n) cs
      return (.array vs, rest)
    | '{' :: cs, n + 1 => do
      let member (ms : List (String × Value)) (k : String) : Reader (List (String × Value)) :=
        fun cs => do
          let (v, rest) ← value n (← colon cs)
          return ((k, v) :: ms, rest)
      let (ms, rest) ← members member [] cs
      return (.object ms.reverse, rest)
    | _, _ => .error .malformed

mutual

/-- The text after a value that nobody reads. The fuel bounds the characters looked at. -/
def skipValue : Nat → List Char → Except Fault (List Char)
  | 0, _ => .error .malformed
  | fuel + 1, cs =>
    match skipBlanks cs with
    | [] => .error .incomplete
    | 'n' :: cs => expectWord "ull".toList cs
    | 't' :: cs => expectWord "rue".toList cs
    | 'f' :: cs => expectWord "alse".toList cs
    | '-' :: cs => skipNumeral cs
    | '"' :: cs => skipString cs
    | '[' :: cs => skipElements fuel true cs
    | '{' :: cs => skipMembers fuel true cs
    | c :: cs => if c.isDigit then skipNumeral (c :: cs) else .error .malformed

/-- The text after the elements of an array that nobody reads. -/
def skipElements : Nat → Bool → List Char → Except Fault (List Char)
  | 0, _, _ => .error .malformed
  | fuel + 1, first, cs => do
    match ← nextElement first cs with
    | none => closeArray cs
    | some cs => skipElements fuel false (← skipValue fuel cs)

/-- The text after the members of an object that nobody reads. -/
def skipMembers : Nat → Bool → List Char → Except Fault (List Char)
  | 0, _, _ => .error .malformed
  | fuel + 1, first, cs =>
    let member : List Char → Except Fault (List Char)
      | '"' :: cs => do skipMembers fuel false (← skipValue fuel (← colon (← skipString cs)))
      | [] => .error .incomplete
      | _ => .error .malformed
    match skipBlanks cs with
    | [] => .error .incomplete
    | '}' :: cs => .ok cs
    | c :: cs =>
      if first then member (c :: cs)
      else if c = ',' then member (skipBlanks cs)
      else .error .malformed

end

/-- Passes over the value of a member that nobody reads. -/
def ignore (state : σ) : Reader σ := fun cs => do
  let cs ← colon cs
  return (state, ← skipValue (2 * cs.length + 2) cs)

/-! ### Records and documents -/

/-- Reads the value of a member after its colon. -/
def memberValue (r : Reader α) : Reader α := fun cs => do r (← colon cs)

/-- Reads the value of a known member, which may stand only once. -/
def field (old : Option α) (r : Reader α) (store : α → σ) : Reader σ := fun cs => do
  if old.isSome then .error .mismatched
  let (x, rest) ← memberValue r cs
  return (store x, rest)

/-- A required field. -/
def required (x : Option α) : Except Fault α :=
  match x with
  | some x => .ok x
  | none => .error .mismatched

/-- A record: an object with its fields by name, or an array with its fields in order. -/
def record (levels : Nat) (byName inOrder : Nat → Reader α) : Reader α := fun cs =>
  match skipBlanks cs, levels with
  | '{' :: cs, n + 1 => byName n cs
  | '[' :: cs, n + 1 => inOrder n cs
  | '{' :: _, 0 | '[' :: _, 0 => .error .malformed
  | cs, _ => .error (mismatch cs)

/-- The next element of a record that is written in order, if there is one. -/
def element? (first : Bool) (r : Reader α) : Reader (Option α) := fun cs => do
  match ← nextElement first cs with
  | none => return (none, cs)
  | some cs =>
    let (x, rest) ← r cs
    return (some x, rest)

/-- The next element of a record that is written in order. -/
def element (first : Bool) (r : Reader α) : Reader α := fun cs => do
  let (x, rest) ← element? first r cs
  return (← required x, rest)

/-- A whole document: a value with nothing but blanks after it. -/
def document (r : Reader α) (text : String) : Except Fault α := do
  let (x, rest) ← r text.toList
  if (skipBlanks rest).isEmpty then return x else .error .malformed

end ScriptGraph.Json
