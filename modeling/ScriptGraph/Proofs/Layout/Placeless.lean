import ScriptGraph.Proofs.Parallel
import ScriptGraph.Proofs.Pruning

/-!
# Everything at the beginning

Graphs, tokens and errors can be moved to the beginning of a text. Pruning a graph does not look at
the locations of its terms, so this is a transport, and tokens at the beginning correspond to those
that stand elsewhere.
-/

namespace ScriptGraph

/-! ### Graphs at one place -/

namespace Graph

variable (g : Graph) (l : Option Location)

/-- The graph with all its terms at one place, or at none. -/
def placedAt : Graph := g.rename { location := fun _ => l }

lemma placedAt_placedAt (k l : Option Location) : (g.placedAt k).placedAt l = g.placedAt l := by
  simp only [placedAt, rename, List.map_map, Function.comp_def, Term.rename_then]
  rfl

@[simp] lemma entryPoints_placedAt : (g.placedAt l).entryPoints = g.entryPoints := by
  simp [placedAt, rename]

/-- Pruning does not look at locations. -/
lemma prune_placedAt : (g.placedAt l).prune = g.prune.placedAt l := prune_rename g rfl

lemma addEntry_placedAt :
    Builder.addEntry (g.placedAt l) = (Builder.addEntry g).placedAt l := by
  rw [Builder.addEntry, Builder.addEntry, ← prune_placedAt]
  simp [placedAt, rename, size]

end Graph

/-- Everything can be moved to the beginning of a text. -/
def Transport.toBeginning : Transport where
  function := id
  location _ := some .beginning
  place _ := .beginning
  graph g := g.placedAt (some .beginning)
  location_some _ := rfl
  location_unknown := rfl
  graph_addFunction g f := by simp [Builder.addFunction, Graph.placedAt, Graph.rename]
  last_graph g _ := by simp [Graph.placedAt]
  graph_addEntry g _ := (Graph.addEntry_placedAt g _).symm
  entry_graph g := by simp

/-! ### Streams -/

/-- The error with its location moved to the beginning of the text. -/
abbrev Error.atBeginning (e : Error) : Error := e.move fun _ => .beginning

/-- The lexeme moved to the beginning of the text. Of the end token only its kind is left. -/
def Lexeme.atBeginning (x : Lexeme) : Lexeme :=
  if x.token = .eof then ⟨.eof, 0, [], .beginning⟩
  else { x with start := 0, location := .beginning }

namespace Lexeme

variable (x : Lexeme)

@[simp] lemma token_atBeginning : x.atBeginning.token = x.token := by
  unfold atBeginning
  split
  · next h => exact h.symm
  · rfl

@[simp] lemma location_atBeginning : x.atBeginning.location = .beginning := by
  unfold atBeginning
  split <;> rfl

end Lexeme

namespace Ending

/-- The error with which a stream ends, if it does. -/
def error? : Ending → Option Error
  | finished _ => none
  | broken e _ => some e

/-- The ending moved to the beginning of the text. -/
def atBeginning : Ending → Ending
  | finished _ => .finished ⟨.eof, 0, [], .beginning⟩
  | broken e _ => .broken e.atBeginning ⟨.eof, 0, [], .beginning⟩

end Ending

/-! ### Parses of the same tokens -/

/-- What stands for what where all tokens stand at the beginning. -/
def Correspondence.toBeginning : Correspondence where
  transport := .toBeginning
  lexeme x y := y = x.atBeginning
  error e d := d = e.atBeginning
  place_beginning := rfl
  token := by
    rintro x _ rfl
    simp
  bytes := by
    rintro x _ rfl hx
    rw [Lexeme.atBeginning, if_neg hx]
  location := by
    rintro x _ rfl _ _
    exact x.location_atBeginning
  unexpected := by
    rintro x _ rfl _ _
    rw [x.location_atBeginning]
    rfl
  unsupported := by
    rintro x _ rfl _
    rw [x.location_atBeginning]
    rfl
  move _ := rfl

lemma Correspondence.forall₂_toBeginning {ts ts' : List Lexeme} :
    List.Forall₂ toBeginning.lexeme ts ts' ↔ ts' = ts.map Lexeme.atBeginning := by
  have hmap : List.Forall₂ toBeginning.lexeme ts ts' ↔
      List.Forall₂ Eq ts' (ts.map Lexeme.atBeginning) := by
    rw [List.forall₂_map_right_iff]
    exact ⟨.flip, .flip⟩
  rw [hmap, List.forall₂_eq_eq_eq]

lemma Ending.Proper.toBeginning {ending : Ending} (h : ending.Proper) :
    Correspondence.toBeginning.Endings ending ending.atBeginning := by
  cases ending with
  | finished x =>
    have hx : x.token = .eof := h
    apply Correspondence.Endings.finished
    change _ = x.atBeginning
    rw [Lexeme.atBeginning, if_pos hx]
  | broken e x => exact .broken rfl _ _

end ScriptGraph
