import ScriptGraph.Proofs.Reading.Units
import ScriptGraph.Proofs.View

/-!
# Building is resolving and lowering

The machine that carries out the instructions of some code does at once what resolution and lowering
do one after the other: it fails where one of them fails, and otherwise it leaves the term of the
code, has handed the hoisted terms to the open blocks and added the functions to the graph. So the
graph of a text is that of the lowered code of its derivation, without what cannot be reached.
-/

namespace ScriptGraph

namespace Code

/-- The frame after some code, the functions after it, the terms hoisted out of it and the term of
its value. -/
def build? (f : Frame) (fs : List Function) (c : Code) :
    Option (Frame × List Function × List Term × Term) :=
  (c.resolve? f).bind fun (f', r) => (r.lower? fs).map fun x => (f', x)

/-- The frame after some statements, the functions after them and their terms. -/
def buildAll? (f : Frame) (fs : List Function) (cs : List Code) :
    Option (Frame × List Function × List Term) :=
  (resolveAll? f cs).bind fun (f', rs) => (Resolved.lowerAll? fs rs).map fun x => (f', x)

variable {f : Frame} {fs : List Function} {l : Location}

-- Both passes only ever fail without an answer, so it does not matter which of them fails first:
-- code can be built part by part.

lemma build?_assign (t v : Code) :
    (assign t v).build? f fs = (t.build? f fs).bind fun (f₁, fs₁, pre₁, t') =>
      (v.build? f₁ fs₁).bind fun (f₂, fs₂, pre₂, v') =>
        (Builder.assign t' v').toOption.map fun u => (f₂, fs₂, pre₁ ++ pre₂, u) := by
  cases ht : t.resolve? f with
  | none => simp [build?, resolve?, ht]
  | some x =>
    obtain ⟨f₁, t'⟩ := x
    cases hlt : t'.lower? fs with
    | none =>
      cases hv : v.resolve? f₁ <;> simp [build?, resolve?, Resolved.lower?, ht, hlt, hv]
    | some y =>
      obtain ⟨fs₁, pre₁, t''⟩ := y
      cases hv : v.resolve? f₁ with
      | none => simp [build?, resolve?, ht, hlt, hv]
      | some z =>
        obtain ⟨f₂, v'⟩ := z
        cases hlv : v'.lower? fs₁ with
        | none => simp [build?, resolve?, Resolved.lower?, ht, hlt, hv, hlv]
        | some w =>
          obtain ⟨fs₂, pre₂, v''⟩ := w
          cases hu : (Builder.assign t'' v'').toOption <;>
            simp [build?, resolve?, Resolved.lower?, ht, hlt, hv, hlv, hu]

lemma build?_declare (n : String) :
    (declare n l).build? f fs =
      (f.declare? n).map fun f' => (f', fs, [], .getLocal f.fresh.slot (some l)) := by
  cases hd : f.declare? n <;> simp [build?, resolve?, Resolved.lower?, hd]

lemma build?_define (n : String) (v : Code) :
    (define n l v).build? f fs = (v.build? f fs).bind fun (f₁, fs₁, pre, v') =>
      ((f₁.declare? n).bind fun f' =>
        (Builder.assign (.getLocal f₁.fresh.slot (some l)) v').toOption.map fun u => (f', u)).map
          fun (f', u) => (f', fs₁, pre, u) := by
  cases hv : v.resolve? f with
  | none => simp [build?, resolve?, hv]
  | some x =>
    obtain ⟨f₁, v'⟩ := x
    cases hl : v'.lower? fs with
    | none => cases hd : f₁.declare? n <;> simp [build?, resolve?, Resolved.lower?, hv, hl, hd]
    | some y =>
      obtain ⟨fs₁, pre, v''⟩ := y
      cases hd : f₁.declare? n with
      | none => simp [build?, resolve?, hv, hl, hd]
      | some f' =>
        cases hu : (Builder.assign (.getLocal f₁.fresh.slot (some l)) v'').toOption <;>
          simp [build?, resolve?, Resolved.lower?, hv, hl, hd, hu]

lemma build?_scope (body : List Code) :
    (scope body l).build? f fs = (buildAll? f.enter fs body).map fun (inner, fs', terms) =>
      (f.leave inner, fs', terms.dropLast, terms.getLast?.getD (.undefined (some l))) := by
  cases hb : resolveAll? f.enter body with
  | none => simp [build?, buildAll?, resolve?, hb]
  | some x =>
    obtain ⟨inner, rs⟩ := x
    cases hl : Resolved.lowerAll? fs rs <;>
      simp [build?, buildAll?, resolve?, Resolved.lower?, hb, hl]

lemma build?_function (ps : List (String × Location)) (body : List Code) :
    (function ps body l).build? f fs =
      ((Frame.initial.declareAll? ps).bind fun start => buildAll? start fs body).map
        fun (inner, fs', terms) =>
          (f, fs' ++ [⟨inner.count, ps.length, closeBody terms l⟩], [],
            .getFunction fs'.length (some l)) := by
  cases hs : Frame.initial.declareAll? ps with
  | none => simp [build?, resolve?, hs]
  | some start =>
    cases hb : resolveAll? start body with
    | none => simp [build?, buildAll?, resolve?, hs, hb]
    | some x =>
      obtain ⟨inner, rs⟩ := x
      cases hl : Resolved.lowerAll? fs rs <;>
        simp [build?, buildAll?, resolve?, Resolved.lower?, hs, hb, hl]

lemma buildAll?_cons (c : Code) (cs : List Code) :
    buildAll? f fs (c :: cs) = (c.build? f fs).bind fun (f₁, fs₁, pre, t) =>
      (buildAll? f₁ fs₁ cs).map fun (f₂, fs₂, terms) => (f₂, fs₂, pre ++ t :: terms) := by
  cases hc : c.resolve? f with
  | none => simp [build?, buildAll?, resolveAll?, hc]
  | some x =>
    obtain ⟨f₁, r⟩ := x
    cases hl : r.lower? fs with
    | none =>
      cases hcs : resolveAll? f₁ cs <;>
        simp [build?, buildAll?, resolveAll?, Resolved.lowerAll?, hc, hl, hcs]
    | some y =>
      obtain ⟨fs₁, pre, t⟩ := y
      cases hcs : resolveAll? f₁ cs with
      | none => simp [build?, buildAll?, resolveAll?, hc, hl, hcs]
      | some z =>
        obtain ⟨f₂, rs⟩ := z
        cases hls : Resolved.lowerAll? fs₁ rs <;>
          simp [build?, buildAll?, resolveAll?, Resolved.lowerAll?, hc, hl, hcs, hls]

lemma build?_follows {c : Code} {f' : Frame} {fs' : List Function} {pre : List Term} {t : Term}
    (h : c.build? f fs = some (f', fs', pre, t)) : f.Follows f' := by
  obtain ⟨⟨f₁, r⟩, hr, hl⟩ := Option.bind_eq_some_iff.1 h
  obtain ⟨x, -, hx⟩ := Option.map_eq_some_iff.1 hl
  cases hx
  exact resolve?_follows c hr

end Code

/-! ### The machine -/

namespace Machine

lemma rel_bind {R : α → β → Prop} {S : γ → δ → Prop} {x : Option α} {y : Option β}
    {g : α → Option γ} {h : β → Option δ} (hxy : Option.Rel R x y)
    (hgh : ∀ a b, R a b → y = some b → Option.Rel S (g a) (h b)) :
    Option.Rel S (x.bind g) (y.bind h) := by
  cases hxy with
  | none => exact .none
  | some hab => exact hgh _ _ hab rfl

lemma rel_bind_map {R : α → β → Prop} {S : γ → δ → Prop} {x : Option α} {y : Option β}
    {g : α → Option γ} {h : β → δ} (hxy : Option.Rel R x y)
    (hgh : ∀ a b, R a b → ∃ c, g a = some c ∧ S c (h b)) : Option.Rel S (x.bind g) (y.map h) := by
  cases hxy with
  | none => exact .none
  | some hab =>
    obtain ⟨c, hc, hS⟩ := hgh _ _ hab
    rw [Option.bind_some, hc]
    exact .some hS

lemma rel_map {R : α → β → Prop} {S : α → γ → Prop} {x : Option α} {y : Option β} {h : β → γ}
    (hxy : Option.Rel R x y) (hh : ∀ a b, R a b → S a (h b)) : Option.Rel S x (y.map h) := by
  cases hxy with
  | none => exact .none
  | some hab => exact .some (hh _ _ hab)

lemma run?_pushBlock (m : Machine) (inherits : Bool) (is : List Instruction) :
    m.run? (.pushBlock inherits :: is) =
      run? { m with builder := m.builder.pushBlock inherits } is := rfl

lemma run?_pushFunction (m : Machine) (is : List Instruction) :
    m.run? (.pushFunction :: is) = run? { m with builder := m.builder.pushFunction } is := rfl

lemma run?_statement_cons {m : Machine} {t : Term} {ts : List Term} (hops : m.operands = t :: ts)
    (is : List Instruction) :
    m.run? (.statement :: is) = run? ⟨m.builder.addStatement t, ts⟩ is := by
  simp only [run?, step, hops]

/-- Whether a machine has built some code since a given one. -/
def Builds (m m' : Machine) (x : Frame × List Function × List Term × Term) : Prop :=
  m'.operands = x.2.2.2 :: m.operands ∧ m'.builder.view = m.builder.view.after x.1 x.2.2.1 x.2.1

/-- Whether a machine has built some statements since a given one. -/
def BuildsAll (m m' : Machine) (x : Frame × List Function × List Term) : Prop :=
  m'.operands = m.operands ∧ m'.builder.view = m.builder.view.after x.1 x.2.2 x.2.1

variable {m : Machine} {f : Frame}

lemma rel_declare (h : m.builder.view.Matches f) (n : String) (l : Location) :
    Option.Rel (Builds m) (m.run? [.declare n l])
      ((Code.declare n l).build? f m.builder.graph.functions) := by
  rw [Code.build?_declare]
  simp only [run?, step]
  rcases Builder.rel_toOption (Builder.declare_rel h n l) with
    ⟨e, he, hf⟩ | ⟨r, f', hr, hf, hview, hterm⟩
  · rw [he, hf]
    exact .none
  · rw [hr, hf]
    exact .some ⟨congrArg (· :: _) hterm, hview⟩

lemma rel_assign {t v : Term} {ts : List Term} (hops : m.operands = v :: t :: ts) :
    Option.Rel (fun m' u => m' = { m with operands := u :: ts }) (m.run? [.assign])
      (Builder.assign t v).toOption := by
  simp only [run?, step, hops]
  cases Builder.assign t v with
  | error e => exact .none
  | ok u => exact .some rfl

lemma rel_define {v : Term} {ts : List Term} (h : m.builder.view.Matches f)
    (hops : m.operands = v :: ts) (n : String) (l : Location) :
    Option.Rel
      (fun m' x => m'.operands = x.2 :: ts ∧
        m'.builder.view = m.builder.view.after x.1 [] m.builder.graph.functions)
      (m.run? [.define n l])
      ((f.declare? n).bind fun f' =>
        (Builder.assign (.getLocal f.fresh.slot (some l)) v).toOption.map fun u => (f', u)) := by
  simp only [run?, step, hops]
  rcases Builder.rel_toOption (Builder.declare_rel h n l) with
    ⟨e, he, hf⟩ | ⟨r, f', hr, hf, hview, hterm⟩
  · rw [he, hf]
    exact .none
  · rw [hr, hf, ← hterm]
    simp only [Option.bind_some]
    cases Builder.assign r.2 v with
    | error e => exact .none
    | ok u => exact .some ⟨rfl, hview⟩

lemma rel_parameters (ps : List (String × Location)) (h : m.builder.view.Matches f) :
    Option.Rel
      (fun m' start => m'.operands = m.operands ∧ m'.builder.view.Matches start ∧
        m'.builder.view =
          (m.builder.view.after start [] m.builder.graph.functions).addArity ps.length)
      (m.run? (ps.map fun p => .parameter p.1 p.2)) (f.declareAll? ps) := by
  induction ps generalizing m f with
  | nil => exact .some ⟨rfl, h, by rw [h.after_self, List.length_nil, View.addArity_zero]; rfl⟩
  | cons p ps ih =>
    simp only [List.map_cons, run?, step, Frame.declareAll?]
    rcases Builder.rel_toOption (Builder.addParameter_rel h p.1 p.2) with
      ⟨e, he, hf⟩ | ⟨b, f', hb, hf, hview⟩
    · rw [he, hf]
      exact .none
    · rw [hb, hf, Option.bind_some]
      have hmatch : b.view.Matches f' := by
        rw [hview]
        exact (h.after (.of_declare? hf) _ _).addArity 1
      have hfs : b.graph.functions = m.builder.graph.functions :=
        congrArg (·.graph.functions) hview
      have hps := ih (m := { m with builder := b }) hmatch
      simp only [hfs, hview, View.after_addArity, View.after_after, View.addArity_addArity,
        List.nil_append, Nat.add_comm 1] at hps
      exact hps

/-- The machine enters a function and builds its body, if it builds the body in every frame. -/
lemma rel_function {m : Machine} (ps : List (String × Location)) {body : List Code}
    (hbody : ∀ {m : Machine} {f : Frame}, m.builder.view.Matches f →
      Option.Rel (BuildsAll m) (m.run? (Code.instructionsAll body))
        (Code.buildAll? f m.builder.graph.functions body)) :
    Option.Rel
      (fun m' x => m'.operands = m.operands ∧
        m'.builder.view = (m.builder.view.pushFunction.after x.1 x.2.2 x.2.1).addArity ps.length)
      (m.run? (.pushFunction :: ps.map (fun p => .parameter p.1 p.2) ++ Code.instructionsAll body))
      ((Frame.initial.declareAll? ps).bind fun start =>
        Code.buildAll? start m.builder.graph.functions body) := by
  rw [List.cons_append, run?_pushFunction, run?_append]
  have hpush := Builder.view_pushFunction m.builder
  have hmatch : m.builder.pushFunction.view.Matches Frame.initial := by
    rw [hpush]
    exact View.matches_pushFunction _
  apply rel_bind (rel_parameters (m := { m with builder := m.builder.pushFunction }) ps hmatch)
  rintro m₁ start ⟨hops₁, hmatch₁, hview₁⟩ -
  have hfs₁ : m₁.builder.graph.functions = m.builder.graph.functions :=
    congrArg (·.graph.functions) hview₁
  have hbody₁ := hbody hmatch₁
  rw [hfs₁] at hbody₁
  rw [← Option.map_id' (x := Code.buildAll? _ _ _)]
  apply rel_map hbody₁
  rintro m₂ ⟨inner, fs', terms⟩ ⟨hops₂, hview₂⟩
  rw [hview₁, hpush, View.after_addArity, View.after_after, List.nil_append] at hview₂
  exact ⟨hops₂.trans hops₁, hview₂⟩

mutual

/-- The machine builds some code as resolution and lowering do. -/
theorem rel_code (c : Code) {m : Machine} {f : Frame} (h : m.builder.view.Matches f) :
    Option.Rel (Builds m) (m.run? c.instructions) (c.build? f m.builder.graph.functions) := by
  match c with
  | .constant v l =>
    exact .some ⟨rfl, (h.after_self _).symm⟩
  | .read n l =>
    exact .some ⟨congrArg (· :: _) (Builder.get_eq h n l), (h.after_self _).symm⟩
  | .assign t v =>
    rw [Code.instructions, run?_append, run?_append, Option.bind_assoc, Code.build?_assign]
    apply rel_bind (rel_code t h)
    rintro m₁ ⟨f₁, fs₁, pre₁, t'⟩ ⟨hops₁, hview₁⟩ ht
    have h₁ : m₁.builder.view.Matches f₁ := hview₁ ▸ h.after (Code.build?_follows ht) _ _
    have hfs₁ : m₁.builder.graph.functions = fs₁ := congrArg (·.graph.functions) hview₁
    have hv := rel_code v h₁
    rw [hfs₁] at hv
    apply rel_bind hv
    rintro m₂ ⟨f₂, fs₂, pre₂, v'⟩ ⟨hops₂, hview₂⟩ -
    rw [hops₁] at hops₂
    apply rel_map (rel_assign hops₂)
    rintro m₃ u rfl
    refine ⟨rfl, ?_⟩
    rw [hview₁, View.after_after] at hview₂
    exact hview₂
  | .declare n l => exact rel_declare h n l
  | .define n l v =>
    rw [Code.instructions, run?_append, Code.build?_define]
    apply rel_bind (rel_code v h)
    rintro m₁ ⟨f₁, fs₁, pre, v'⟩ ⟨hops₁, hview₁⟩ hv
    have h₁ : m₁.builder.view.Matches f₁ := hview₁ ▸ h.after (Code.build?_follows hv) _ _
    have hfs₁ : m₁.builder.graph.functions = fs₁ := congrArg (·.graph.functions) hview₁
    have hd := rel_define h₁ hops₁ n l
    rw [hfs₁, hview₁] at hd
    simp only [View.after_after, List.append_nil] at hd
    exact rel_map hd fun _ _ hx => hx
  | .scope body l =>
    rw [Code.instructions, List.cons_append, run?_pushBlock, run?_append, Code.build?_scope]
    have hpush := Builder.view_pushBlock h true
    have hmatch : (m.builder.pushBlock true).view.Matches f.enter := by
      rw [hpush]
      exact h.pushBlock true f.next
    apply rel_bind_map (rel_body body (m := { m with builder := m.builder.pushBlock true }) hmatch)
    rintro m₁ ⟨inner, fs', terms⟩ ⟨hops, hview⟩
    rw [hpush] at hview
    obtain ⟨hview', hvalue⟩ := Builder.popBlock_eq l h hview
    exact ⟨_, rfl, congrArg₂ List.cons hvalue hops, hview'⟩
  | .function ps body l =>
    rw [Code.instructions, run?_append, Code.build?_function]
    apply rel_bind_map (rel_function ps fun h' => rel_body body h')
    rintro m₁ ⟨inner, fs', terms⟩ ⟨hops, hview⟩
    have hpop := Builder.popFunction_eq l hview
    obtain ⟨s, outer, hs, -⟩ := h.function
    rw [if_neg (by simp [hs])] at hpop
    refine ⟨_, rfl, congrArg₂ List.cons hpop.2 hops, ?_⟩
    rw [h.after_self]
    exact hpop.1

theorem rel_body (cs : List Code) {m : Machine} {f : Frame} (h : m.builder.view.Matches f) :
    Option.Rel (BuildsAll m) (m.run? (Code.instructionsAll cs))
      (Code.buildAll? f m.builder.graph.functions cs) := by
  match cs with
  | [] => exact .some ⟨rfl, (h.after_self _).symm⟩
  | c :: cs =>
    rw [Code.instructionsAll, run?_append, Code.buildAll?_cons]
    apply rel_bind (rel_code c h)
    rintro m₁ ⟨f₁, fs₁, pre, t⟩ ⟨hops₁, hview₁⟩ hc
    rw [run?_statement_cons hops₁]
    have hview₂ : (m₁.builder.addStatement t).view =
        m.builder.view.after f₁ (pre ++ [t]) fs₁ := by
      rw [Builder.view_addStatement, hview₁, View.append_after]
    have hmatch : (m₁.builder.addStatement t).view.Matches f₁ := by
      rw [hview₂]
      exact h.after (Code.build?_follows hc) _ _
    have hfs₁ : m₁.builder.graph.functions = fs₁ := congrArg (·.graph.functions) hview₁
    have hcs := rel_body cs (m := ⟨m₁.builder.addStatement t, m.operands⟩) hmatch
    have hfs₂ : (m₁.builder.addStatement t).graph.functions = fs₁ := hfs₁
    rw [hfs₂] at hcs
    apply rel_map hcs
    rintro m₂ ⟨f₂, fs₂, terms⟩ ⟨hops₂, hview₃⟩
    refine ⟨hops₂, ?_⟩
    rw [hview₂, View.after_after] at hview₃
    simpa using hview₃

end

/-- Outside of any function, the function of a unit becomes an entry point. -/
theorem rel_unit (body : List Code) {m : Machine} (hm : m.builder.view.functions = []) (f : Frame) :
    Option.Rel
      (fun m' x => m'.builder.view =
        { m.builder.view with
          graph := Builder.addEntry { m.builder.graph with functions := x.2.1 } })
      (m.run? (Code.unit body).instructions)
      ((Code.unit body).build? f m.builder.graph.functions) := by
  rw [Code.unit, Code.instructions, run?_append, Code.build?_function]
  apply rel_bind_map (rel_function [] fun h => rel_body body h)
  rintro m₁ ⟨inner, fs', terms⟩ ⟨-, hview⟩
  have hpop := Builder.popFunction_eq .beginning hview
  rw [if_pos hm] at hpop
  exact ⟨_, rfl, hpop⟩

end Machine

/-- A builder without open functions that has been through a unit holds the functions of the unit's
lowered code, and is without open functions again. -/
theorem Machine.run?_unit {builder : Builder} {m : Machine} {body : List Code}
    (hb : builder.view.functions = [])
    (h : Machine.run? { builder } (Code.unit body).instructions = some m) :
    ∃ r fs pre t, (Code.unit body).resolve? Frame.initial = some (Frame.initial, r) ∧
      r.lower? builder.graph.functions = some (fs, pre, t) ∧
      m.builder.view = { builder.view with
        graph := Builder.addEntry { builder.graph with functions := fs } } := by
  have hrel := rel_unit body (m := { builder }) hb Frame.initial
  rw [h] at hrel
  generalize hx : (Code.unit body).build? Frame.initial builder.graph.functions = x at hrel
  cases hrel with
  | some hview =>
    obtain ⟨⟨f, r⟩, hr, hmap⟩ := Option.bind_eq_some_iff.1 hx
    obtain ⟨⟨fs, pre, t⟩, hl, rfl⟩ := Option.map_eq_some_iff.1 hmap
    obtain ⟨start, inner, rs, hs, hrs, rfl, rfl⟩ := Code.resolve?_function.1 hr
    exact ⟨_, fs, pre, t, hr, hl, hview⟩

/-- The machine gets through every unit that can be resolved and lowered. -/
theorem Machine.exists_run?_unit (builder : Builder) {body : List Code} {r : Resolved}
    {f : Frame} {x : List Function × List Term × Term} (hb : builder.view.functions = [])
    (hr : (Code.unit body).resolve? Frame.initial = some (f, r))
    (hl : r.lower? builder.graph.functions = some x) :
    ∃ m, Machine.run? { builder } (Code.unit body).instructions = some m := by
  have hrel := rel_unit body (m := { builder }) hb Frame.initial
  have hx : (Code.unit body).build? Frame.initial builder.graph.functions = some (f, x) := by
    simp [Code.build?, hr, hl]
  rw [hx] at hrel
  generalize hm : Machine.run? { builder } (Code.unit body).instructions = m at hrel
  cases hrel with
  | some _ => exact ⟨_, rfl⟩

/-- The graph of a text is that of the lowered code of its derivation, without what cannot be
reached. -/
theorem parse_eq_ok_iff_lower {lexicon : Lexicon} {source : List UInt8} {g : Graph} :
    parse lexicon source = .ok g ↔
      ∃ b r fs pre t, (Lexer.ofBytes lexicon source).Derives b ∧
        (Code.unit b.code).resolve? Frame.initial = some (Frame.initial, r) ∧
        r.lower? [] = some (fs, pre, t) ∧ g = Builder.addEntry ⟨fs, []⟩ := by
  rw [parse_eq_ok]
  constructor
  · rintro ⟨b, m, hb, hm, rfl⟩
    obtain ⟨r, fs, pre, t, hr, hl, hview⟩ := Machine.run?_unit rfl hm
    exact ⟨b, r, fs, pre, t, hb, hr, hl, congrArg View.graph hview⟩
  · rintro ⟨b, r, fs, pre, t, hb, hr, hl, rfl⟩
    obtain ⟨m, hm⟩ := Machine.exists_run?_unit {} rfl hr hl
    obtain ⟨r', fs', pre', t', hr', hl', hview⟩ := Machine.run?_unit rfl hm
    cases hr.symm.trans hr'
    cases hl.symm.trans hl'
    exact ⟨b, m, hb, hm, (congrArg View.graph hview).symm⟩

end ScriptGraph
