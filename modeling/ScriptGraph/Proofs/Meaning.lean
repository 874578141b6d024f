import Mathlib.Tactic.Set
import ScriptGraph.Proofs.Building
import ScriptGraph.Proofs.Lowering.Meaning
import ScriptGraph.Proofs.Pruning

/-!
# Graphs mean what their texts do

Every function of the graph of a text belongs to a function literal of the text, or to the text as a
whole, and does by slots what the statements of the literal do one after the other. So hoisting,
dropping statements without an effect, folding single terms and pruning preserve meaning.
-/

namespace ScriptGraph

open Resolved

/-! ### The procedures of a text -/

/-- A function literal with its body resolved. -/
def Code.procedure? : Code → Option Procedure
  | function ps body l => do
    let start ← Frame.initial.declareAll? ps
    let (inner, rs) ← resolveAll? start body
    return ⟨function ps body l, ps.length, inner.count, rs⟩
  | _ => none

lemma Code.procedure?_eq_some {c : Code} {p : Procedure} (h : c.procedure? = some p) :
    ∃ ps body l start inner rs, c = .function ps body l ∧
      Frame.initial.declareAll? ps = some start ∧ resolveAll? start body = some (inner, rs) ∧
      p = ⟨c, ps.length, inner.count, rs⟩ := by
  cases c with
  | function ps body l =>
    simp only [procedure?, Option.bind_eq_bind, Option.bind_eq_some_iff, Prod.exists,
      Option.pure_def, Option.some.injEq] at h
    obtain ⟨start, hs, inner, rs, hb, rfl⟩ := h
    exact ⟨ps, body, l, start, inner, rs, rfl, hs, hb, rfl⟩
  | constant | read | assign | declare | define | scope => cases h

namespace Code

mutual

/-- Resolution keeps the function literals of some code. -/
theorem source_procedures (c : Code) {f f' : Frame} {r : Resolved}
    (h : c.resolve? f = some (f', r)) :
    r.procedures.map Procedure.source = c.literals ∧
      ∀ p ∈ r.procedures, p.source.procedure? = some p := by
  match c with
  | constant v l | read n l =>
    cases h
    exact ⟨rfl, by simp [procedures]⟩
  | assign t v =>
    obtain ⟨f₁, t', v', ht, hv, rfl⟩ := resolve?_assign.1 h
    obtain ⟨hst, hpt⟩ := source_procedures t ht
    obtain ⟨hsv, hpv⟩ := source_procedures v hv
    refine ⟨by simp [procedures, literals, hst, hsv], ?_⟩
    intro p hp
    rcases List.mem_append.1 hp with hp | hp
    · exact hpt p hp
    · exact hpv p hp
  | declare n l =>
    obtain ⟨-, rfl⟩ := resolve?_declare.1 h
    exact ⟨rfl, by simp [procedures]⟩
  | define n l v =>
    obtain ⟨f₁, v', hv, -, rfl⟩ := resolve?_define.1 h
    exact source_procedures v (r := v') hv
  | scope body l =>
    obtain ⟨inner, rs, hb, -, rfl⟩ := resolve?_scope.1 h
    exact source_proceduresAll body hb
  | function ps body l =>
    obtain ⟨start, inner, rs, hs, hb, -, rfl⟩ := resolve?_function.1 h
    obtain ⟨hsb, hpb⟩ := source_proceduresAll body hb
    refine ⟨by simp [procedures, literals, hsb], ?_⟩
    intro p hp
    rcases List.mem_append.1 hp with hp | hp
    · exact hpb p hp
    · rw [List.mem_singleton.1 hp]
      simp [procedure?, hs, hb]

theorem source_proceduresAll (cs : List Code) {f f' : Frame} {rs : List Resolved}
    (h : resolveAll? f cs = some (f', rs)) :
    (proceduresAll rs).map Procedure.source = literalsAll cs ∧
      ∀ p ∈ proceduresAll rs, p.source.procedure? = some p := by
  match cs with
  | [] =>
    cases h
    exact ⟨rfl, by simp [proceduresAll]⟩
  | c :: cs =>
    obtain ⟨f₁, r, rs', hc, hcs, rfl⟩ := resolveAll?_cons.1 h
    obtain ⟨hsc, hpc⟩ := source_procedures c hc
    obtain ⟨hscs, hpcs⟩ := source_proceduresAll cs hcs
    refine ⟨by simp [proceduresAll, literalsAll, hsc, hscs], ?_⟩
    intro p hp
    rcases List.mem_append.1 hp with hp | hp
    · exact hpc p hp
    · exact hpcs p hp

end

end Code

/-! ### Functions that are kept -/

/-- The function values of some procedures by index. -/
def denote (ps : List Procedure) (i : Nat) : Value :=
  (ps[i]?.map fun p => .function p.source).getD .undefined

lemma names_denote (ps : List Procedure) : Names (denote ps) 0 ps := by
  intro i p hp
  simp [denote, hp]

/-- A reference of a kept function has the value after pruning that it had before. -/
lemma denote_renumber {g : Graph} {ps : List Procedure} (hlen : ps.length = g.size) {i j : Nat}
    (hi : i ∈ g.kept) (hj : j ∈ g.callees i) :
    denote (g.keptOf ps) (g.renumber g.unreachable j) = denote ps j := by
  by_cases hlt : j < g.size
  · rw [denote, denote, Graph.getElem?_keptOf hlen (Graph.mem_kept_of_callee hi hj hlt)]
  · -- Such a reference denotes nothing, neither before nor after.
    have hshort : (g.keptOf ps).length ≤ g.size := hlen ▸ (Graph.keptOf_sublist hlen).length_le
    rw [denote, denote, Graph.renumber, if_neg hlt, List.getElem?_eq_none (by omega),
      List.getElem?_eq_none (by omega)]

/-- Pruning keeps what functions do. -/
theorem implements_prune {g : Graph} {ps : List Procedure}
    (h : List.Forall₂ (Implements (denote ps)) g.functions ps) :
    List.Forall₂ (Implements (denote (g.keptOf ps))) g.prune.functions (g.keptOf ps) := by
  have hlen : ps.length = g.size := h.length_eq.symm
  rw [Graph.functions_prune, List.forall₂_map_left_iff]
  apply Graph.forall₂_keptOf
  intro i hi
  have hlt := (Graph.mem_kept.1 hi).1
  have hf : g.functions[i]? = some (g.functions[i]) := List.getElem?_eq_getElem hlt
  have hp : ps[i]? = some (ps[i]) := List.getElem?_eq_getElem (hlen ▸ hlt)
  have himp : Implements (denote ps) g.functions[i] ps[i] := h.get _ _
  refine ⟨_, _, hf, hp, himp.arity, himp.count, ?_⟩
  intro s
  rw [← himp.root s, Term.eval_rename]
  apply Term.eval_congr
  intro j hj
  exact denote_renumber hlen hi (by rwa [Graph.callees, hf])

/-! ### The graph of a text -/

/-- The functions that are left of a unit's lowered code belong to function literals of the unit,
and the last of them to the unit itself. -/
lemma exists_procedures_addEntry {body : List Code} {f : Frame} {r : Resolved} {fs : List Function}
    {pre : List Term} {t : Term} (hr : (Code.unit body).resolve? f = some (f, r))
    (hl : r.lower? [] = some (fs, pre, t)) :
    ∃ ps : List Procedure,
      (ps.map Procedure.source).Sublist (Code.unit body).literals ∧
      (ps.map Procedure.source).getLast? = some (Code.unit body) ∧
      (∀ p ∈ ps, p.source.procedure? = some p) ∧
      List.Forall₂ (Implements (denote ps)) (Builder.addEntry ⟨fs, []⟩).functions ps := by
  obtain ⟨hsources, hprocedures⟩ := Code.source_procedures _ hr
  obtain ⟨fs', hfs, himp⟩ := implements_lower? r hl (names_denote r.procedures)
  rw [List.nil_append] at hfs
  subst hfs
  set g : Graph := ⟨fs, [fs.length - 1]⟩
  have hlen : r.procedures.length = g.size := himp.length_eq.symm
  have hlast : g.size - 1 ∈ g.kept := by
    apply Graph.mem_kept_of_entry
    · rw [← hlen, ← List.length_map (f := Procedure.source), hsources]
      simp [Code.unit, Code.literals]
    · exact List.mem_singleton.2 rfl
  have hsub := Graph.keptOf_sublist hlen
  refine ⟨g.keptOf r.procedures, hsources ▸ hsub.map _, ?_, ?_, implements_prune himp⟩
  · rw [List.getLast?_map, Graph.getLast?_keptOf hlen hlast, ← List.getLast?_map, hsources]
    simp [Code.unit, Code.literals]
  · intro p hp
    exact hprocedures p (hsub.subset hp)

/-- Every function of the graph of a text does by slots what the statements of its function literal
do one after the other. The last function is that of the text as a whole. -/
theorem parse_preserves_meaning {lexicon : Lexicon} {source : List UInt8} {g : Graph}
    (h : parse lexicon source = .ok g) :
    ∃ (b : Phrase.Body) (ps : List Procedure),
      (Lexer.ofBytes lexicon source).Derives b ∧
      (ps.map Procedure.source).Sublist (Code.unit b.code).literals ∧
      (ps.map Procedure.source).getLast? = some (Code.unit b.code) ∧
      (∀ p ∈ ps, p.source.procedure? = some p) ∧
      List.Forall₂ (Implements (denote ps)) g.functions ps := by
  obtain ⟨b, r, fs, pre, t, hb, hr, hl, rfl⟩ := parse_eq_ok_iff_lower.1 h
  obtain ⟨ps, hsources, hlast, hprocedures, himp⟩ := exists_procedures_addEntry hr hl
  exact ⟨b, ps, hb, hsources, hlast, hprocedures, himp⟩

/-- A text with a block in the middle of an assignment and a function inside the block. -/
def nested : List UInt8 :=
  Utf8.encode "let a\na = do \x7b b = fun (x) \x7b x = a; x \x7d; b; 2 \x7d\nb"

theorem parse_preserves_meaning_nested :
    ∃ g, parse .standard nested = .ok g ∧
      ∃ ps, List.Forall₂ (Implements (denote ps)) g.functions ps := by
  have hsome : (parse .standard nested).toOption.isSome = true := by decide +kernel
  obtain ⟨g, hg⟩ := Option.isSome_iff_exists.1 hsome
  rw [toOption_eq_some] at hg
  obtain ⟨b, ps, -, -, -, -, himp⟩ := parse_preserves_meaning hg
  exact ⟨g, hg, ps, himp⟩

end ScriptGraph
