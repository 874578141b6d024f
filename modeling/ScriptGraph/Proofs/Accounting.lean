import Mathlib.Algebra.Ring.Nat
import ScriptGraph.Command
import ScriptGraph.Proofs.Layout.Placeless
import ScriptGraph.Proofs.Reading.Units
import ScriptGraph.Proofs.Sifting

/-!
# Error accounting of the command

A run of the command reports one error for each input file that cannot be read, for each table of
tokens that is broken off and for each graph that cannot be built, and no others. It succeeds if
there is none of them. A keyword document that cannot be used ends the run before the first file.
The table of a text that has a graph is complete, whatever the keywords are.
-/

namespace ScriptGraph

/-! ### Texts that cannot be lexed -/

namespace Lexer

/-- Whether asking for one token after another meets an error before the end token. -/
inductive Fails : Lexer → Prop
  | here {l l' : Lexer} {e : Error} (h : l.next = (l', .error e)) : Fails l
  | later {l l' : Lexer} {t : Token} (h : l.next = (l', .ok t)) (ht : t ≠ .eof)
      (hfails : Fails l') : Fails l

variable {l : Lexer}

lemma Fails.isSome_error? (h : l.Fails) : l.stream.ending.error?.isSome = true := by
  induction h with
  | here h =>
    rw [stream_of_next_error h]
    rfl
  | later h ht _ ih =>
    rw [stream_of_next_ok h, if_neg ht]
    exact ih

/-- A lexer fails if its stream breaks. -/
lemma fails_iff : l.Fails ↔ l.stream.ending.error?.isSome = true := by
  refine ⟨Fails.isSome_error?, ?_⟩
  intro h
  induction hn : l.remaining using Nat.strongRecOn generalizing l with
  | ind n ih =>
    rcases hnext : l.next with ⟨l', e | t⟩
    · exact .here hnext
    · rw [stream_of_next_ok hnext] at h
      split at h
      · cases h
      · next ht => exact .later hnext ht (ih _ (hn ▸ remaining_next hnext ht) h rfl)

instance : DecidablePred Fails := fun _ => decidable_of_iff _ fails_iff.symm

/-- What derives a body has been lexed up to the end token. -/
lemma Derives.not_fails {b : Phrase.Body} (h : l.Derives b) : ¬l.Fails := by
  obtain ⟨eof, hstream⟩ := h
  rw [fails_iff, hstream]
  exact Bool.false_ne_true

end Lexer

/-- A text that has a graph is lexed up to the end token. -/
lemma not_fails_of_parse {lexicon : Lexicon} {source : List UInt8} {g : Graph}
    (h : parse lexicon source = .ok g) : ¬(Lexer.ofBytes lexicon source).Fails := by
  obtain ⟨b, m, hb, -, -⟩ := parse_eq_ok.1 h
  exact hb.not_fails

/-! ### Inputs -/

/-- What the command can read: the content of a file, if it exists, and the unread bytes of standard
input. -/
structure Inputs where
  files : String → Option (List UInt8)
  input : List UInt8

namespace Inputs

/-- What stands at a path. A single dash is standard input. -/
def content? (x : Inputs) (path : String) : Option (List UInt8) :=
  if path = "-" then some x.input else x.files path

/-- What can be read after a path has been read. -/
def after (x : Inputs) (path : String) : Inputs := if path = "-" then { x with input := [] } else x

/-- What stands at some paths, read one after another. -/
def contents (x : Inputs) : List String → List (Option (List UInt8))
  | [] => []
  | path :: paths => x.content? path :: (x.after path).contents paths

end Inputs

/-! ### What is to be reported -/

/-- The lexicon of a keyword document, if it could be read and is valid. -/
def Lexicon.ofDocument? (content : Option (List UInt8)) : Option Lexicon :=
  content.bind fun bytes => (load (Utf8.decode bytes)).toOption

namespace Options

/-- The number of errors to report on an input file: one if it cannot be read; else one if its
tokens are to be printed and it cannot be lexed, and one if its graph is to be printed, on request
or because nothing else is, and it cannot be parsed. -/
def errorsOn (o : Options) (lexicon : Lexicon) : Option (List UInt8) → Nat
  | none => 1
  | some source =>
    (if o.tokens ∧ (Lexer.ofBytes lexicon source).Fails then 1 else 0) +
      if (o.graph ∨ o.document ∨ ¬o.tokens) ∧ (parse lexicon source).toOption = none then 1 else 0

lemma printsGraph_iff (o : Options) :
    o.printsGraph = true ↔ o.graph = true ∨ o.document = true ∨ ¬o.tokens = true := by
  simp [printsGraph, or_assoc]

/-- What a run has to work on: the lexicon and the contents of the input files. There is nothing to
work on if the keyword document cannot be used. -/
def work? (o : Options) (x : Inputs) : Option (Lexicon × List (Option (List UInt8))) :=
  match o.keywords with
  | none => some (.standard, x.contents o.files)
  | some path =>
    (Lexicon.ofDocument? (x.content? path)).map fun lexicon =>
      (lexicon, (x.after path).contents o.files)

/-- A file that has a graph is free of errors. -/
lemma errorsOn_of_parse (o : Options) {lexicon : Lexicon} {source : List UInt8} {g : Graph}
    (h : parse lexicon source = .ok g) : o.errorsOn lexicon (some source) = 0 := by
  have hsome : (parse lexicon source).toOption ≠ none := by simp [h, Except.toOption]
  simp only [errorsOn, not_fails_of_parse h, hsome, and_false, if_false]

end Options

/-! ### What is reported -/

namespace Session

/-- What a session can read. -/
def inputs (s : Session) : Inputs := ⟨s.files, s.input⟩

/-- Whether a session comes of another one by reports of a number of errors, and of writing. -/
structure Reports (s : Session) (n : Nat) (s' : Session) : Prop where
  errorCount : s'.errorCount = s.errorCount + n
  lexicon : s'.lexicon = s.lexicon
  inputs : s'.inputs = s.inputs

variable {s s' t : Session} {m n : Nat}

lemma Reports.refl (s : Session) : s.Reports 0 s := ⟨rfl, rfl, rfl⟩

lemma Reports.trans (h : s.Reports m s') (h' : s'.Reports n t) : s.Reports (m + n) t where
  errorCount := by rw [h'.errorCount, h.errorCount, Nat.add_assoc]
  lexicon := h'.lexicon.trans h.lexicon
  inputs := h'.inputs.trans h.inputs

lemma reports_print (s : Session) (text : String) : s.Reports 0 (s.print text) := ⟨rfl, rfl, rfl⟩

/-- To tell an error is to report one. -/
lemma reports_tell (s : Session) {m : Message} (h : m.severity.level = .error) :
    s.Reports 1 (s.tell m) := by
  rw [tell, h]
  exact ⟨rfl, rfl, rfl⟩

lemma stdout_tell (s : Session) (m : Message) : (s.tell m).stdout = s.stdout := by
  rw [tell]
  split <;> rfl

/-- A table is written as far as the tokens go, and it is reported if that is not to the end. -/
lemma reports_printTokens (s : Session) (path : String) (source : List UInt8) :
    s.Reports (if (Lexer.ofBytes s.lexicon source).Fails then 1 else 0)
      (s.printTokens path source) := by
  simp only [printTokens, Lexer.fails_iff]
  cases (Lexer.ofBytes s.lexicon source).stream.ending with
  | finished eof => exact s.reports_print _
  | broken e place => exact (s.reports_print _).trans (reports_tell _ rfl)

lemma reports_printGraph (s : Session) (path : String) (g : Graph) (asDocument : Bool) :
    s.Reports 0 (s.printGraph path g asDocument) := by
  cases asDocument <;> exact s.reports_print _

/-- A graph is built and printed, or it is reported that it cannot be built. -/
lemma reports_graph (s : Session) (path : String) (source : List UInt8) (asDocument : Bool) :
    s.Reports (if (ScriptGraph.parse s.lexicon source).toOption = none then 1 else 0)
      (match s.parse path source with
        | (s, some g) => s.printGraph path g asDocument
        | (s, none) => s) := by
  rw [parse]
  cases ScriptGraph.parse s.lexicon source with
  | error e => exact s.reports_tell rfl
  | ok g => exact s.reports_printGraph path g asDocument

/-- What is not asked for is not reported. -/
lemma Reports.ite {p q : Prop} [Decidable p] [Decidable q] (h : s.Reports (if q then 1 else 0) s') :
    s.Reports (if p ∧ q then 1 else 0) (if p then s' else s) := by
  by_cases hp : p
  · simpa only [hp, true_and, if_true] using h
  · simpa only [hp, false_and, if_false] using Reports.refl s

/-! ### Reading -/

/-- A session that has read a path. -/
def after (s : Session) (path : String) : Session :=
  { s with input := (s.inputs.after path).input }

lemma lexicon_after (s : Session) (path : String) : (s.after path).lexicon = s.lexicon := rfl

lemma inputs_after (s : Session) (path : String) : (s.after path).inputs = s.inputs.after path := by
  simp only [after, inputs, Inputs.after]
  split <;> rfl

lemma read_of_some {path : String} {bytes : List UInt8} (h : s.inputs.content? path = some bytes) :
    s.read path = (s.after path, some bytes) := by
  simp only [read, after, inputs, Inputs.content?, Inputs.after] at h ⊢
  split at h
  · next hpath =>
    cases h
    simp only [hpath, if_true]
  · next hpath => simp only [hpath, if_false, h]

/-- What cannot be read is no standard input, and is reported. -/
lemma read_of_none {path : String} (h : s.inputs.content? path = none) :
    s.read path = (s.tell (.unreadable path missingFile), none) ∧ s.after path = s := by
  simp only [read, after, inputs, Inputs.content?, Inputs.after] at h ⊢
  split at h
  · cases h
  · next hpath => simp only [hpath, if_false, h, and_self]

/-- One file: it is read, and the errors to report on it are reported. -/
lemma reports_processFile (s : Session) (o : Options) (path : String) :
    (s.after path).Reports (o.errorsOn s.lexicon (s.inputs.content? path))
      (s.processFile o path) := by
  cases hcontent : s.inputs.content? path with
  | none =>
    obtain ⟨hread, hafter⟩ := read_of_none hcontent
    rw [processFile, hread, hafter]
    exact s.reports_tell rfl
  | some source =>
    have htable := ((s.after path).reports_printTokens path source).ite (p := o.tokens = true)
    have hgraph := (reports_graph _ path source o.document).ite (p := o.printsGraph = true)
      (s := if o.tokens = true then (s.after path).printTokens path source else s.after path)
    rw [htable.lexicon] at hgraph
    have hboth := htable.trans hgraph
    simp only [o.printsGraph_iff, lexicon_after] at hboth
    simp only [processFile, read_of_some hcontent, Options.errorsOn, o.printsGraph_iff]
    exact hboth

/-- All files: the numbers of errors add up. -/
lemma errorCount_foldl_processFile (s : Session) (o : Options) (paths : List String) :
    (paths.foldl (fun s path => s.processFile o path) s).errorCount =
      s.errorCount + ((s.inputs.contents paths).map (o.errorsOn s.lexicon)).sum := by
  induction paths generalizing s with
  | nil => rfl
  | cons path paths ih =>
    have hfile := s.reports_processFile o path
    have hinputs := hfile.inputs.trans (s.inputs_after path)
    have hlexicon : (s.processFile o path).lexicon = s.lexicon := hfile.lexicon
    have hcount : (s.processFile o path).errorCount = s.errorCount + _ := hfile.errorCount
    rw [List.foldl_cons, ih, hinputs, hlexicon, hcount, Inputs.contents, List.map_cons,
      List.sum_cons, Nat.add_assoc]

/-! ### Keywords -/

/-- The session that is to process the input files, and whether it can. -/
def prepared (s : Session) (o : Options) : Session × Bool :=
  match o.keywords with
  | some path => s.loadKeywords path
  | none => (s, true)

lemma process_eq (s : Session) (o : Options) :
    s.process o =
      if (s.prepared o).2 then
        let final := o.files.foldl (fun s path => s.processFile o path) (s.prepared o).1
        (final, final.succeeded)
      else ((s.prepared o).1, false) := rfl

lemma process_of_ready {o : Options} (h : s.prepared o = (s', true)) :
    let final := o.files.foldl (fun s path => s.processFile o path) s'
    s.process o = (final, final.succeeded) := by
  rw [process_eq, h]
  rfl

lemma process_of_not_ready {o : Options} (h : s.prepared o = (s', false)) :
    s.process o = (s', false) := by
  rw [process_eq, h]
  rfl

/-- A session gets ready without a report if there is something to work on. -/
lemma prepared_of_work? {o : Options} {lexicon : Lexicon} {contents : List (Option (List UInt8))}
    (hs : s.lexicon = .standard) (h : o.work? s.inputs = some (lexicon, contents)) :
    ∃ s', s.prepared o = (s', true) ∧ s'.lexicon = lexicon ∧ s'.errorCount = s.errorCount ∧
      s'.inputs.contents o.files = contents := by
  rw [Options.work?] at h
  rw [prepared]
  cases hkeywords : o.keywords with
  | none =>
    rw [hkeywords] at h
    cases h
    exact ⟨s, rfl, hs, rfl, rfl⟩
  | some path =>
    rw [hkeywords] at h
    obtain ⟨_, hdocument, heq⟩ := Option.map_eq_some_iff.1 h
    cases heq
    obtain ⟨bytes, hcontent, hload⟩ := Option.bind_eq_some_iff.1 hdocument
    refine ⟨{ s.after path with lexicon }, ?_, rfl, rfl, ?_⟩
    · simp only [loadKeywords, read_of_some hcontent, toOption_eq_some.1 hload]
    · rw [← inputs_after]
      rfl

/-- Otherwise a session has only a report to make. -/
lemma prepared_of_work?_eq_none {o : Options} (h : o.work? s.inputs = none) :
    ∃ s' : Session, ∃ m : Message, s.prepared o = (s'.tell m, false) ∧ m.severity.level = .error ∧
      s'.errorCount = s.errorCount ∧ s'.stdout = s.stdout := by
  rw [Options.work?] at h
  rw [prepared]
  cases hkeywords : o.keywords with
  | none =>
    rw [hkeywords] at h
    cases h
  | some path =>
    rw [hkeywords, Option.map_eq_none_iff, Lexicon.ofDocument?] at h
    cases hcontent : s.inputs.content? path with
    | none =>
      refine ⟨s, .unreadable path missingFile, ?_, rfl, rfl, rfl⟩
      simp only [loadKeywords, (read_of_none hcontent).1]
    | some bytes =>
      rw [hcontent, Option.bind_some] at h
      refine ⟨s.after path, .badOverrides path, ?_, rfl, rfl, rfl⟩
      cases hload : Lexicon.load (Utf8.decode bytes) with
      | ok lexicon =>
        rw [hload] at h
        cases h
      | error e => simp only [loadKeywords, read_of_some hcontent, hload]

end Session

lemma Request.code_run_process (s : Session) (o : Options) :
    ((Request.process o).run s).code = if (s.process o).2 then 0 else 1 := rfl

/-- The errors of a run are those that there are to report on its input files, one after another,
and the run succeeds if there are none. If the keyword document cannot be used this is the only
error, nothing is written and the run fails, whatever the input files are. A text that has a graph
is lexed up to the end token, so that there is no error to report on it. -/
theorem errors_accounted (x : Inputs) (coloured : Bool) (o : Options) :
    let s : Session := { files := x.files, input := x.input, coloured }
    (o.work? x = none →
      (s.process o).1.errorCount = 1 ∧ (s.process o).1.stdout = "" ∧
        ((Request.process o).run s).code = 1 ∧
        ∀ paths, s.process { o with files := paths } = s.process o) ∧
    (∀ lexicon contents, o.work? x = some (lexicon, contents) →
      let total := (contents.map (o.errorsOn lexicon)).sum
      (s.process o).1.errorCount = total ∧
        ((Request.process o).run s).code = if total = 0 then 0 else 1) ∧
    ∀ lexicon source g, parse lexicon source = .ok g →
      ¬(Lexer.ofBytes lexicon source).Fails ∧ o.errorsOn lexicon (some source) = 0 := by
  intro s
  refine ⟨?_, ?_, fun _ _ _ h => ⟨not_fails_of_parse h, o.errorsOn_of_parse h⟩⟩
  · intro hwork
    obtain ⟨s', m, hprepared, hlevel, hcount, hstdout⟩ := s.prepared_of_work?_eq_none hwork
    have hprocess (paths : List String) :
        s.process { o with files := paths } = (s'.tell m, false) :=
      Session.process_of_not_ready hprepared
    have hrun := hprocess o.files
    refine ⟨?_, ?_, ?_, fun paths => (hprocess paths).trans hrun.symm⟩
    · rw [hrun, (s'.reports_tell hlevel).errorCount, hcount]
    · rw [hrun, s'.stdout_tell, hstdout]
    · rw [Request.run, hrun]
      rfl
  · intro lexicon contents hwork total
    obtain ⟨s', hprepared, rfl, hcount, rfl⟩ := Session.prepared_of_work? (s := s) rfl hwork
    have hrun := Session.process_of_ready hprepared
    have htotal := s'.errorCount_foldl_processFile o o.files
    rw [hcount] at htotal
    have htotal : (s.process o).1.errorCount = total := by
      rw [hrun, htotal]
      exact Nat.zero_add _
    refine ⟨htotal, ?_⟩
    have hsucceeded : (s.process o).2 = decide (total = 0) := by
      rw [← htotal, hrun]
      rfl
    rw [Request.code_run_process, hsucceeded]
    simp only [decide_eq_true_eq]

/-- A text that its keywords end before an open quote. -/
def endedEarly : List UInt8 := Utf8.encode "x = 1 fin \""

/-- Keywords that give a text an early end, and files of which one is such a text, one has an open
string, one is no unit and one is missing. -/
def mixedInputs : Inputs where
  files path :=
    [("keywords", Utf8.encode "\x7b\"keywords\": \x7b\"fin\": \"EOF\"\x7d\x7d"),
      ("early", endedEarly), ("open", Utf8.encode "x = \"1"),
      ("pair", Utf8.encode "x 1")].lookup path
  input := Utf8.encode "y = 2"

/-- A request for the tokens and the graphs of these files and of standard input. -/
def mixedRequest : Options where
  tokens := true
  graph := true
  keywords := some "keywords"
  files := ["early", "open", "pair", "missing", "-"]

/-- The early end is the end for the table and for the graph, the open string counts for both, and
without its keyword document the request has only that to report. -/
theorem errors_accounted_endedEarly :
    let s : Session := { files := mixedInputs.files, input := mixedInputs.input }
    let bad := { mixedRequest with keywords := some "missing" }
    (∃ lexicon contents, mixedRequest.work? mixedInputs = some (lexicon, contents) ∧
      contents.map (mixedRequest.errorsOn lexicon) = [0, 2, 1, 1, 0] ∧
      (s.process mixedRequest).1.errorCount = 4 ∧ ((Request.process mixedRequest).run s).code = 1 ∧
      ∃ g, parse lexicon endedEarly = .ok g ∧ ¬(Lexer.ofBytes lexicon endedEarly).Fails) ∧
    bad.work? mixedInputs = none ∧ (s.process bad).1.errorCount = 1 := by
  intro s bad
  have hbad : (bad.work? mixedInputs).isNone = true := by decide +kernel
  have hwork : (mixedRequest.work? mixedInputs).map (fun w =>
      (w.2.map (mixedRequest.errorsOn w.1), (parse w.1 endedEarly).toOption.isSome)) =
        some ([0, 2, 1, 1, 0], true) := by decide +kernel
  obtain ⟨⟨lexicon, contents⟩, hwork, hvalues⟩ := Option.map_eq_some_iff.1 hwork
  obtain ⟨hcounts, hparses⟩ := Prod.mk.inj hvalues
  obtain ⟨g, hg⟩ := Option.isSome_iff_exists.1 hparses
  obtain ⟨-, hsome, hlexed⟩ := errors_accounted mixedInputs false mixedRequest
  obtain ⟨hunusable, -, -⟩ := errors_accounted mixedInputs false bad
  obtain ⟨htotal, hcode⟩ := hsome lexicon contents hwork
  rw [hcounts] at htotal hcode
  have hparse := toOption_eq_some.1 hg
  refine ⟨⟨lexicon, contents, hwork, hcounts, htotal, hcode, g, hparse, ?_⟩,
    Option.isNone_iff_eq_none.1 hbad, ?_⟩
  · exact (hlexed lexicon endedEarly g hparse).1
  · exact (hunusable (Option.isNone_iff_eq_none.1 hbad)).1

end ScriptGraph
