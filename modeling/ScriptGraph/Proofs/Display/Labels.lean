import ScriptGraph.Graph.Tree
import ScriptGraph.Proofs.Numbers.Text

/-!
# What the line of a node says

The line of a node gives its kind and its data. Numbers, quoted texts and indices can be read back
from it, and the name of a global stands in it as it is, so the line says which node it is. It is
one line, unless such a name has a line feed in it.
-/

namespace ScriptGraph

/-- A run of elements that satisfy a condition is told apart from what comes after it. -/
lemma append_inj_of_run {α : Type} {p : α → Prop} {xs ys rest rest' : List α}
    (hxs : ∀ x ∈ xs, p x) (hys : ∀ y ∈ ys, p y) (hrest : ∀ x ∈ rest.head?, ¬p x)
    (hrest' : ∀ y ∈ rest'.head?, ¬p y) (h : xs ++ rest = ys ++ rest') : xs = ys ∧ rest = rest' := by
  induction xs generalizing ys with
  | nil =>
    cases ys with
    | nil => exact ⟨rfl, h⟩
    | cons y ys =>
      rw [List.nil_append] at h
      exact absurd (hys y List.mem_cons_self) (hrest y (h ▸ rfl))
  | cons x xs ih =>
    cases ys with
    | nil =>
      rw [List.nil_append] at h
      exact absurd (hxs x List.mem_cons_self) (hrest' x (h ▸ rfl))
    | cons y ys =>
      obtain ⟨rfl, htail⟩ := List.cons.inj h
      obtain ⟨rfl, hrest⟩ :=
        ih (List.forall_mem_cons.1 hxs).2 (List.forall_mem_cons.1 hys).2 htail
      exact ⟨rfl, hrest⟩

/-- Texts are told apart from what comes after a delimiter that they do not hold. -/
lemma append_inj_of_delimiter {d : Char} {xs ys rest rest' : List Char} (hxs : d ∉ xs)
    (hys : d ∉ ys) (h : xs ++ d :: rest = ys ++ d :: rest') : xs = ys ∧ rest = rest' := by
  have hne {xs : List Char} (hxs : d ∉ xs) : ∀ x ∈ xs, x ≠ d := by
    rintro x hx rfl
    exact hxs hx
  obtain ⟨hsame, htail⟩ := append_inj_of_run (hne hxs) (hne hys) (by simp) (by simp) h
  exact ⟨hsame, (List.cons.inj htail).2⟩

lemma lineFeed_notMem_append {s t : String} (hs : '\n' ∉ s.toList) (ht : '\n' ∉ t.toList) :
    '\n' ∉ (s ++ t).toList := by
  rw [String.toList_append, List.mem_append, not_or]
  exact ⟨hs, ht⟩

/-! ### Quoted texts -/

namespace Quoted

lemma digitChar_inj : ∀ m < 16, ∀ n < 16, m.digitChar = n.digitChar → m = n := by decide

lemma mem_toDigits_hexadecimal (n : Nat) :
    ∀ c ∈ Nat.toDigits 16 n, ∃ d < 16, c = d.digitChar := by
  induction n using Nat.strongRecOn with
  | ind n ih =>
    intro c hc
    rw [Nat.toDigits_eq_if (by decide)] at hc
    split_ifs at hc with hn
    · exact ⟨n, hn, List.mem_singleton.1 hc⟩
    · rcases List.mem_append.1 hc with hc | hc
      · exact ih (n / 16) (by omega) c hc
      · exact ⟨n % 16, Nat.mod_lt n (by decide), List.mem_singleton.1 hc⟩

/-- Different numbers have different hexadecimal digits. -/
lemma toDigits_hexadecimal_injective : Function.Injective (Nat.toDigits 16) := by
  intro m n h
  induction m using Nat.strongRecOn generalizing n with
  | ind m ih =>
    have hne (k : Nat) : Nat.toDigits 16 k ≠ [] := Nat.toDigits_ne_nil
    rw [Nat.toDigits_eq_if (by decide), Nat.toDigits_eq_if (n := n) (by decide)] at h
    split_ifs at h with hm hn hn
    · exact digitChar_inj m hm n hn (List.singleton_inj.1 h)
    · exact absurd (List.append_eq_singleton_iff.1 h.symm) (by simp [hne])
    · exact absurd (List.append_eq_singleton_iff.1 h) (by simp [hne])
    · obtain ⟨hrest, hlast⟩ := List.append_singleton_inj.1 h
      have hdiv := ih (m / 16) (by omega) hrest
      have hmod := digitChar_inj _ (Nat.mod_lt m (by decide)) _ (Nat.mod_lt n (by decide)) hlast
      omega

/-- The closing brace of an escape by number is not one of its digits. -/
lemma notMem_toDigits_hexadecimal {c : Char} (hc : ∀ d < 16, c ≠ d.digitChar) (n : Nat) :
    c ∉ Nat.toDigits 16 n := by
  intro h
  obtain ⟨d, hd, heq⟩ := mem_toDigits_hexadecimal n c h
  exact hc d hd heq

/-- The characters that have a short escape, each with the letter of it. -/
def shortEscapes : List (Char × Char) :=
  [('\x00', '0'), ('\t', 't'), ('\n', 'n'), ('\r', 'r'), ('"', '"'), ('\\', '\\')]

/-- How a character is written. -/
inductive Written : Char → List Char → Prop
  | short {c e : Char} (h : (c, e) ∈ shortEscapes) : Written c ['\\', e]
  | plain {c : Char} (hescape : c ≠ '\\') (hbreak : c ≠ '\n') : Written c [c]
  | number (c : Char) :
      Written c ('\\' :: 'u' :: '\x7b' :: (Nat.toDigits 16 c.toNat ++ ['\x7d']))

lemma written_escape (c : Char) : Written c (escape c).toList := by
  unfold escape
  split
  iterate 6 exact .short (by decide)
  next hbreak _ _ hescape =>
  split_ifs
  · have hself : c.toString.toList = [c] := by simp
    rw [hself]
    exact .plain hescape hbreak
  · simp only [String.toList_append, hexadecimal, String.toList_ofList]
    exact .number c

variable {c d e : Char} {w w' rest rest' : List Char}

lemma of_mem_shortEscapes (h : (c, e) ∈ shortEscapes) : e ≠ 'u' ∧ e ≠ '\n' := by
  have hall : ∀ p ∈ shortEscapes, p.2 ≠ 'u' ∧ p.2 ≠ '\n' := by decide
  exact hall _ h

lemma shortEscapes_inj (h : (c, e) ∈ shortEscapes) (h' : (d, e) ∈ shortEscapes) : c = d := by
  have hall : ∀ p ∈ shortEscapes, ∀ q ∈ shortEscapes, p.2 = q.2 → p.1 = q.1 := by decide
  exact hall _ h _ h' rfl

/-- A written character is read back, whatever follows it. -/
lemma Written.append_inj (h : Written c w) (h' : Written d w') (heq : w ++ rest = w' ++ rest') :
    c = d ∧ rest = rest' := by
  cases h with
  | short h =>
    cases h' with
    | short h' =>
      obtain ⟨-, heq⟩ := List.cons.inj heq
      obtain ⟨rfl, hrest⟩ := List.cons.inj heq
      exact ⟨shortEscapes_inj h h', hrest⟩
    | plain hescape => exact absurd (List.cons.inj heq).1.symm hescape
    | number =>
      obtain ⟨-, heq⟩ := List.cons.inj heq
      exact absurd (List.cons.inj heq).1 (of_mem_shortEscapes h).1
  | plain hescape =>
    cases h' with
    | short | number => exact absurd (List.cons.inj heq).1 hescape
    | plain => exact List.cons.inj heq
  | number =>
    cases h' with
    | short h' =>
      obtain ⟨-, heq⟩ := List.cons.inj heq
      exact absurd (List.cons.inj heq).1.symm (of_mem_shortEscapes h').1
    | plain hescape => exact absurd (List.cons.inj heq).1.symm hescape
    | number =>
      have hbrace (n : Nat) : '\x7d' ∉ Nat.toDigits 16 n :=
        notMem_toDigits_hexadecimal (by decide) n
      simp only [List.cons_append, List.append_assoc, List.nil_append, List.cons.injEq,
        true_and] at heq
      obtain ⟨hdigits, hrest⟩ := append_inj_of_delimiter (hbrace _) (hbrace _) heq
      exact ⟨Char.toNat_inj.1 (toDigits_hexadecimal_injective hdigits), hrest⟩

lemma Written.ne_nil (h : Written c w) : w ≠ [] := by
  cases h <;> exact List.cons_ne_nil _ _

lemma Written.lineFeed_notMem (h : Written c w) : '\n' ∉ w := by
  cases h with
  | short h =>
    have hne := (of_mem_shortEscapes h).2
    simp [hne.symm]
  | plain _ hbreak => simpa using hbreak.symm
  | number =>
    have hdigits := notMem_toDigits_hexadecimal (c := '\n') (by decide) c.toNat
    simp [hdigits]

lemma toList_render (s : String) :
    (render s).toList = '"' :: (s.toList.flatMap (fun c => (escape c).toList) ++ ['"']) := by
  simp [render, String.toList_join, List.flatMap_map]

/-- Different texts are quoted differently. -/
lemma render_injective : Function.Injective render := by
  intro s t h
  have htext := congrArg String.toList h
  rw [toList_render, toList_render, List.cons_inj_right] at htext
  have hflat := List.append_cancel_right htext
  refine String.toList_inj.1 ?_
  generalize s.toList = cs at hflat
  generalize t.toList = ds at hflat
  induction cs generalizing ds with
  | nil =>
    cases ds with
    | nil => rfl
    | cons d ds =>
      exact absurd (List.append_eq_nil_iff.1 hflat.symm).1 (written_escape d).ne_nil
  | cons c cs ih =>
    cases ds with
    | nil => exact absurd (List.append_eq_nil_iff.1 hflat).1 (written_escape c).ne_nil
    | cons d ds =>
      obtain ⟨rfl, hrest⟩ := (written_escape c).append_inj (written_escape d) hflat
      rw [ih ds hrest]

/-- A quoted text stands on one line. -/
lemma lineFeed_notMem_render (s : String) : '\n' ∉ (render s).toList := by
  rw [toList_render]
  intro h
  simp only [List.mem_cons, List.mem_append, List.mem_flatMap, List.not_mem_nil, or_false] at h
  rcases h with h | ⟨c, -, h⟩ | h
  · exact absurd h (by decide)
  · exact (written_escape c).lineFeed_notMem h
  · exact absurd h (by decide)

end Quoted

/-! ### Values -/

namespace Literal

/-- Words and quoted texts are not numbers. -/
lemma render_number_ne (x : Number) :
    x.render ≠ "undefined" ∧ ∀ s, x.render ≠ Quoted.render s := by
  obtain ⟨c, cs, htext, hc⟩ := x.head_render
  have hhead {d : Char} {ds : List Char} (h : x.render.toList = d :: ds) : c = d :=
    (List.cons.inj (htext.symm.trans h)).1
  constructor
  · intro h
    obtain rfl := hhead (congrArg String.toList h)
    exact absurd hc (by decide)
  · intro s h
    obtain rfl := hhead ((congrArg String.toList h).trans (Quoted.toList_render s))
    exact absurd hc (by decide)

lemma render_string_ne (s : String) : Quoted.render s ≠ "undefined" := by
  intro h
  have htext := congrArg String.toList h
  rw [Quoted.toList_render] at htext
  exact absurd (List.cons.inj htext).1 (by decide)

/-- Different values have different texts. -/
lemma render_injective : Function.Injective render := by
  intro v v' h
  match v, v' with
  | undefined, undefined => rfl
  | number x, number y => rw [Number.render_injective h]
  | string s, string t => rw [Quoted.render_injective h]
  | undefined, number x => exact absurd h.symm (render_number_ne x).1
  | number x, undefined => exact absurd h (render_number_ne x).1
  | undefined, string s => exact absurd h.symm (render_string_ne s)
  | string s, undefined => exact absurd h (render_string_ne s)
  | number x, string s => exact absurd h ((render_number_ne x).2 s)
  | string s, number x => exact absurd h.symm ((render_number_ne x).2 s)

/-- The text of a value stands on one line. -/
lemma lineFeed_notMem_render (v : Literal) : '\n' ∉ v.render.toList := by
  cases v with
  | undefined => decide
  | number x => exact x.lineFeed_notMem_render
  | string s => exact Quoted.lineFeed_notMem_render s

end Literal

/-! ### Indices -/

/-- A natural number is told apart from what comes after it, unless this is a digit. -/
lemma toString_append_inj {m n : Nat} {rest rest' : List Char}
    (hrest : ∀ c ∈ rest.head?, c.isDigit = false) (hrest' : ∀ c ∈ rest'.head?, c.isDigit = false)
    (h : (toString m).toList ++ rest = (toString n).toList ++ rest') : m = n ∧ rest = rest' := by
  have hdigits (k : Nat) : ∀ c ∈ (toString k).toList, c.isDigit = true := by
    intro c hc
    rw [Nat.toString_eq_ofList_toDigits, String.toList_ofList] at hc
    exact Nat.isDigit_of_mem_toDigits (by decide) (by decide) hc
  obtain ⟨hsame, htail⟩ := append_inj_of_run (hdigits m) (hdigits n)
    (fun c hc => by simp [hrest c hc]) (fun c hc => by simp [hrest' c hc]) h
  refine ⟨?_, htail⟩
  simp only [Nat.toString_eq_ofList_toDigits, String.toList_ofList] at hsame
  rw [← Nat.ofDigitChars_ten_toDigits (n := m), hsame, Nat.ofDigitChars_ten_toDigits]

lemma toString_injective {m n : Nat} (h : toString m = toString n) : m = n := by
  have hend : ∀ c ∈ ([] : List Char).head?, c.isDigit = false := by simp
  exact (toString_append_inj hend hend (by rw [h])).1

lemma lineFeed_notMem_toString (n : Nat) : '\n' ∉ (toString n).toList := by
  intro h
  rw [Nat.toString_eq_ofList_toDigits, String.toList_ofList] at h
  have hdigit := Nat.isDigit_of_mem_toDigits (by decide) (by decide) h
  exact absurd hdigit (by decide)

/-! ### Nodes -/

namespace Tree

/-- The data of a node as it stands in its line. -/
def detail (data : List String) : String :=
  if data.isEmpty then "" else "(" ++ ", ".intercalate data ++ ")"

/-- The line of a node without its guides. -/
def label : Tree → String
  | node kind data _ => kind ++ detail data

/-- The trees beneath a node. -/
def children : Tree → List Tree
  | node _ _ children => children

lemma head?_detail (data : List String) : ∀ c ∈ (detail data).toList.head?, c = '(' := by
  intro c hc
  cases data with
  | nil => cases hc
  | cons d ds =>
    simp only [detail, List.isEmpty_cons, Bool.false_eq_true, if_false, String.toList_append] at hc
    exact (Option.some.inj hc).symm

/-- The kind of a node ends where its data start. -/
lemma label_inj {kind kind' : String} {data data' : List String} {cs cs' : List Tree}
    (hkind : '(' ∉ kind.toList) (hkind' : '(' ∉ kind'.toList)
    (h : (node kind data cs).label = (node kind' data' cs').label) :
    kind = kind' ∧ detail data = detail data' := by
  have htext := congrArg String.toList h
  rw [label, label, String.toList_append, String.toList_append] at htext
  have hne {kind : String} (hkind : '(' ∉ kind.toList) : ∀ c ∈ kind.toList, c ≠ '(' := by
    rintro c hc rfl
    exact hkind hc
  obtain ⟨hsame, hdetail⟩ := append_inj_of_run (hne hkind) (hne hkind')
    (fun c hc => not_not.2 (head?_detail data c hc))
    (fun c hc => not_not.2 (head?_detail data' c hc)) htext
  exact ⟨String.toList_inj.1 hsame, String.toList_inj.1 hdetail⟩

lemma detail_singleton_inj {d d' : String} (h : detail [d] = detail [d']) : d = d' := by
  have htext := congrArg String.toList h
  simp only [detail, List.isEmpty_cons, Bool.false_eq_true, if_false, String.toList_append,
    String.intercalate_singleton, List.append_left_inj, List.append_right_inj] at htext
  exact String.toList_inj.1 htext

/-- What the data of a node hold stands in its line, with commas, blanks and parentheses. -/
lemma lineFeed_notMem_detail {data : List String} (h : ∀ d ∈ data, '\n' ∉ d.toList) :
    '\n' ∉ (detail data).toList := by
  have hjoined (d : String) (ds : List String) (h : ∀ x ∈ d :: ds, '\n' ∉ x.toList) :
      '\n' ∉ (", ".intercalate (d :: ds)).toList := by
    induction ds generalizing d with
    | nil =>
      rw [String.intercalate_singleton]
      exact h d List.mem_cons_self
    | cons e es ih =>
      obtain ⟨hd, hrest⟩ := List.forall_mem_cons.1 h
      have hcomma : '\n' ∉ ", ".toList := by decide
      rw [String.intercalate_cons_cons]
      exact lineFeed_notMem_append (lineFeed_notMem_append hd hcomma) (ih e hrest)
  cases data with
  | nil => decide
  | cons d ds =>
    have hopen : '\n' ∉ "(".toList := by decide
    have hclose : '\n' ∉ ")".toList := by decide
    rw [detail, List.isEmpty_cons, if_neg Bool.false_ne_true]
    exact lineFeed_notMem_append (lineFeed_notMem_append hopen (hjoined d ds h)) hclose

end Tree

namespace Term

/-- The kind of a term in its line. -/
def kind : Term → String
  | value .. => "Value"
  | block .. => "Block"
  | getLocal .. => "GetLocal"
  | setLocal .. => "SetLocal"
  | getGlobal .. => "GetGlobal"
  | setGlobal .. => "SetGlobal"
  | getFunction .. => "GetFunction"

/-- The data of a term in its line. -/
def data : Term → List String
  | value v _ => [v.render]
  | block .. => []
  | getLocal i _ | setLocal i _ _ | getFunction i _ => [toString i]
  | getGlobal n _ | setGlobal n _ _ => [n]

lemma tree_eq (t : Term) : t.tree = .node t.kind t.data (trees t.children) := by
  cases t <;> rfl

/-- Kinds consist of letters. -/
lemma isAlpha_of_mem_kind (t : Term) : ∀ c ∈ t.kind.toList, c.isAlpha = true := by
  have hall : ∀ kind ∈ ["Value", "Block", "GetLocal", "SetLocal", "GetGlobal", "SetGlobal",
      "GetFunction"], kind.toList.all Char.isAlpha = true := by decide
  apply List.all_eq_true.1
  apply hall
  cases t <;> simp [kind]

lemma paren_notMem_kind (t : Term) : '(' ∉ t.kind.toList := by
  intro h
  exact absurd (t.isAlpha_of_mem_kind _ h) (by decide)

/-- A term without the places that its parts come from. -/
def placeless (t : Term) : Term := t.rename { location := fun _ => none }

lemma placeless_block (ts : List Term) (l : Option Location) :
    (block ts l).placeless = block (ts.map placeless) none := by
  simp only [placeless, rename, renameAll_eq_map]
  rfl

/-- The line of a term and the terms beneath it say which term it is. -/
lemma placeless_of_label {t u : Term} (hlabel : t.tree.label = u.tree.label)
    (hchildren : t.children.map placeless = u.children.map placeless) :
    t.placeless = u.placeless := by
  rw [tree_eq, tree_eq] at hlabel
  obtain ⟨hkind, hdata⟩ := Tree.label_inj t.paren_notMem_kind u.paren_notMem_kind hlabel
  cases t with
  | value v =>
    cases u with
    | value v' =>
      rw [Literal.render_injective (Tree.detail_singleton_inj hdata)]
      rfl
    | _ => simp [kind] at hkind
  | block ts =>
    cases u with
    | block us =>
      rw [placeless_block, placeless_block]
      exact congrArg (block · none) hchildren
    | _ => simp [kind] at hkind
  | getLocal i =>
    cases u with
    | getLocal j =>
      rw [toString_injective (Tree.detail_singleton_inj hdata)]
      rfl
    | _ => simp [kind] at hkind
  | setLocal i v =>
    cases u with
    | setLocal j v' =>
      rw [toString_injective (Tree.detail_singleton_inj hdata)]
      exact congrArg (setLocal j · none) (List.singleton_inj.1 hchildren)
    | _ => simp [kind] at hkind
  | getGlobal n =>
    cases u with
    | getGlobal n' =>
      rw [Tree.detail_singleton_inj hdata]
      rfl
    | _ => simp [kind] at hkind
  | setGlobal n v =>
    cases u with
    | setGlobal n' v' =>
      rw [Tree.detail_singleton_inj hdata]
      exact congrArg (setGlobal n' · none) (List.singleton_inj.1 hchildren)
    | _ => simp [kind] at hkind
  | getFunction i =>
    cases u with
    | getFunction j =>
      rw [toString_injective (Tree.detail_singleton_inj hdata)]
      rfl
    | _ => simp [kind] at hkind

/-- The globals that a term names, in order. -/
def globalNames (t : Term) : List String :=
  t.subterms.filterMap fun
    | getGlobal n _ | setGlobal n _ _ => some n
    | _ => none

lemma globalNames_child {t u : Term} (hu : u ∈ t.children) : u.globalNames ⊆ t.globalNames := by
  refine List.filterMap_subset _ fun v hv => ?_
  rw [subterms_eq]
  exact List.mem_cons_of_mem _ (List.mem_flatMap.2 ⟨u, hu, hv⟩)

/-- The line of a term is one line, unless the name of a global is not. -/
lemma lineFeed_notMem_label {t : Term} (h : ∀ n ∈ t.globalNames, '\n' ∉ n.toList) :
    '\n' ∉ t.tree.label.toList := by
  have hkind : '\n' ∉ t.kind.toList := by
    intro hmem
    exact absurd (t.isAlpha_of_mem_kind _ hmem) (by decide)
  have hdata : ∀ d ∈ t.data, '\n' ∉ d.toList := by
    cases t with
    | value v => exact List.forall_mem_singleton.2 v.lineFeed_notMem_render
    | block => exact List.forall_mem_nil _
    | getLocal i | setLocal i | getFunction i =>
      exact List.forall_mem_singleton.2 (lineFeed_notMem_toString i)
    | getGlobal n | setGlobal n =>
      refine List.forall_mem_singleton.2 (h n ?_)
      simp [globalNames, subterms]
  rw [tree_eq, Tree.label]
  exact lineFeed_notMem_append hkind (Tree.lineFeed_notMem_detail hdata)

end Term

/-! ### Functions -/

namespace Function

/-- What the line of a function says of its parameters. -/
def arityInfo (arity : Nat) : String := if arity = 0 then "" else s!", arity: {arity}"

/-- What the line of a function says of its part in the graph. -/
def entryInfo (isEntry : Bool) : String := if isEntry then ", entry" else ""

/-- What the line of a function says of it. -/
def info (f : Function) (isEntry : Bool) : String :=
  s!"locals: {f.localCount}" ++ arityInfo f.arity ++ entryInfo isEntry

lemma tree_eq (f : Function) (index : Nat) (isEntry : Bool) :
    f.tree index isEntry =
      .node "Function" [toString index, f.info isEntry] (Term.trees [f.root]) := rfl

lemma toList_info (f : Function) (isEntry : Bool) :
    (f.info isEntry).toList = "locals: ".toList ++ ((toString f.localCount).toList ++
      ((arityInfo f.arity).toList ++ (entryInfo isEntry).toList)) := by
  simp only [info, String.toList_append, List.append_assoc]
  rfl

lemma toList_arityInfo {arity : Nat} (h : arity ≠ 0) :
    (arityInfo arity).toList = ", arity: ".toList ++ (toString arity).toList := by
  rw [arityInfo, if_neg h, String.toList_append]
  rfl

/-- After a number there is a comma or nothing. -/
lemma head?_entryInfo (isEntry : Bool) :
    ∀ c ∈ (entryInfo isEntry).toList.head?, c.isDigit = false := by
  intro c hc
  cases isEntry with
  | false => cases hc
  | true =>
    obtain rfl := Option.some.inj hc
    decide

lemma head?_arityInfo (arity : Nat) (isEntry : Bool) :
    ∀ c ∈ ((arityInfo arity).toList ++ (entryInfo isEntry).toList).head?, c.isDigit = false := by
  by_cases h : arity = 0
  · subst h
    exact head?_entryInfo isEntry
  · rw [toList_arityInfo h]
    intro c hc
    obtain rfl := Option.some.inj hc
    decide

lemma entryInfo_inj : ∀ a b, entryInfo a = entryInfo b → a = b := by decide

/-- A part that says `entry` says no arity. -/
lemma entryInfo_ne_arityInfo {arity : Nat} (h : arity ≠ 0) (isEntry : Bool) (rest : List Char) :
    (entryInfo isEntry).toList ≠ (arityInfo arity).toList ++ rest := by
  rw [toList_arityInfo h]
  cases isEntry <;> simp [entryInfo]

lemma arityInfo_append_inj {arity arity' : Nat} {isEntry isEntry' : Bool}
    (h : (arityInfo arity).toList ++ (entryInfo isEntry).toList =
      (arityInfo arity').toList ++ (entryInfo isEntry').toList) :
    arity = arity' ∧ isEntry = isEntry' := by
  by_cases ha : arity = 0 <;> by_cases ha' : arity' = 0
  · subst ha ha'
    exact ⟨rfl, entryInfo_inj _ _ (String.toList_inj.1 h)⟩
  · subst ha
    exact absurd h (entryInfo_ne_arityInfo ha' _ _)
  · subst ha'
    exact absurd h.symm (entryInfo_ne_arityInfo ha _ _)
  · rw [toList_arityInfo ha, toList_arityInfo ha', List.append_assoc, List.append_assoc,
      List.append_right_inj] at h
    obtain ⟨rfl, hentry⟩ := toString_append_inj (head?_entryInfo _) (head?_entryInfo _) h
    exact ⟨rfl, entryInfo_inj _ _ (String.toList_inj.1 hentry)⟩

/-- The line of a function at a given index says how many locals and parameters it has and whether
it is an entry point. -/
lemma label_inj {f f' : Function} {index : Nat} {isEntry isEntry' : Bool}
    (h : (f.tree index isEntry).label = (f'.tree index isEntry').label) :
    f.localCount = f'.localCount ∧ f.arity = f'.arity ∧ isEntry = isEntry' := by
  rw [tree_eq, tree_eq] at h
  obtain ⟨-, hdata⟩ := Tree.label_inj (by decide) (by decide) h
  have hinfo : (f.info isEntry).toList = (f'.info isEntry').toList := by
    simpa [Tree.detail] using congrArg String.toList hdata
  rw [toList_info, toList_info, List.append_right_inj] at hinfo
  obtain ⟨hlocals, hrest⟩ :=
    toString_append_inj (head?_arityInfo _ _) (head?_arityInfo _ _) hinfo
  exact ⟨hlocals, arityInfo_append_inj hrest⟩

lemma lineFeed_notMem_label (f : Function) (index : Nat) (isEntry : Bool) :
    '\n' ∉ (f.tree index isEntry).label.toList := by
  have harity : '\n' ∉ (arityInfo f.arity).toList := by
    by_cases h : f.arity = 0
    · simp [arityInfo, h]
    · have hcomma : '\n' ∉ ", arity: ".toList := by decide
      rw [toList_arityInfo h, List.mem_append, not_or]
      exact ⟨hcomma, lineFeed_notMem_toString f.arity⟩
  have hentry : '\n' ∉ (entryInfo isEntry).toList := by
    cases isEntry <;> decide
  have hinfo : '\n' ∉ (f.info isEntry).toList := by
    have hlocals : '\n' ∉ "locals: ".toList := by decide
    have hcount := lineFeed_notMem_append hlocals (lineFeed_notMem_toString f.localCount)
    exact lineFeed_notMem_append (lineFeed_notMem_append hcount harity) hentry
  have hkind : '\n' ∉ "Function".toList := by decide
  rw [tree_eq, Tree.label]
  refine lineFeed_notMem_append hkind (Tree.lineFeed_notMem_detail ?_)
  simp only [List.forall_mem_cons]
  exact ⟨lineFeed_notMem_toString index, hinfo, List.forall_mem_nil _⟩

end Function

end ScriptGraph
