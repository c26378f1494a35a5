import Flowchart.Command.Directory
import Flowchart.Proofs.Command.Run

/-! # All or nothing — what a run leaves behind

    A run is seen by its exit code, its standard output and the files after it.
    The text to emit is decided before anything is printed or written (`Emits`): if
    there is one, it goes to standard output or into one file, and if there is none,
    nothing is printed or written at all (`Command.AllOrNothing`).  A directory is a
    store of files, and writing a path there changes one file of it at most.  All
    this is about arguments that give options; those that ask for a page show it
    and those that make no sense are refused, and neither touches a file
    (`trace_of_page`, `trace_of_misuse`). -/

namespace Flowchart

namespace Command

variable {σ : Type}

/-! ## What is seen of a run -/

/-- What is seen of a run. -/
structure Trace (σ : Type) where
  code : Nat
  stdout : String
  files : σ

/-- The trace of a run that starts with the files `before`. -/
def trace (host : Host (StateM (World σ))) (arguments : List String) (before : σ) : Trace σ :=
  let (outcome, after) := (run host arguments).run { files := before }
  ⟨outcome.exitCode, after.stdout, after.files⟩

/-- The input of a run, the file that is named or else standard input, is
    `source` in UTF-8. -/
def Reads (fs : FileStore σ) (input : ByteArray) (before : σ) (o : Options)
    (source : String) : Prop :=
  match o.input with
  | some path => ∃ bytes, fs.read before path = .ok bytes ∧ String.fromUTF8? bytes = some source
  | none => String.fromUTF8? input = some source

/-- `text` is the rendering of `g` under the options, and ends in a line feed,
    which is added where the rendering does not end in one. -/
structure Renders (o : Options) (g : Graph) (text : String) : Prop where
  ends : text.toList.getLast? = some '\n'
  summary : o.format = some .summary →
    text = g.summary o.select ∨
      (g.summary o.select).toList.getLast? ≠ some '\n' ∧ text = g.summary o.select ++ "\n"
  json : o.format ≠ some .summary → ∃ rendered,
    rendered = g.renderElements
      { palette := defaultPalette, includeCycles := !o.noCycles, pretty := !o.compact } o.select ∧
    (text = rendered ∨ rendered.toList.getLast? ≠ some '\n' ∧ text = rendered ++ "\n")

/-- A run that starts with the files `before` has `text` to emit, and can: the
    input is read and accepted, and the path for the output, if one is given, can
    be written. -/
def Emits (fs : FileStore σ) (input : ByteArray) (before : σ) (o : Options) (text : String) :
    Prop :=
  ∃ source g, Reads fs input before o source ∧ parse source = .ok g ∧ Renders o g text ∧
    ∀ path ∈ o.output, ∃ after, fs.write before path text = .ok after

/-- Either a text is emitted, to one place, or nothing happens. -/
structure AllOrNothing (fs : FileStore σ) (input : ByteArray) (before : σ) (o : Options)
    (seen : Trace σ) : Prop where
  succeeds : seen.code = 0 ↔ ∃ text, Emits fs input before o text
  printed : ∀ text, Emits fs input before o text → o.output = none → seen = ⟨0, text, before⟩
  saved : ∀ text, Emits fs input before o text → ∀ path, o.output = some path →
    ∃ after, fs.write before path text = .ok after ∧ seen = ⟨0, "", after⟩
  fails : (¬∃ text, Emits fs input before o text) → seen = ⟨1, "", before⟩

/-! ## Rendering -/

/-- A text with a line feed at its end. -/
theorem getLast?_endLine (text : String) : (endLine text).toList.getLast? = some '\n' := by
  rw [endLine]
  split
  · next h => exact h
  · rw [String.toList_append]
    exact List.getLast?_concat

theorem endLine_eq (text : String) :
    endLine text = text ∨ text.toList.getLast? ≠ some '\n' ∧ endLine text = text ++ "\n" := by
  rw [endLine]
  split
  · exact Or.inl rfl
  · next h => exact Or.inr ⟨h, rfl⟩

/-- What is added to a text depends on its end alone. -/
theorem eq_endLine {rendered text : String} (hends : text.toList.getLast? = some '\n')
    (h : text = rendered ∨ rendered.toList.getLast? ≠ some '\n' ∧ text = rendered ++ "\n") :
    text = endLine rendered := by
  rw [endLine]
  rcases h with rfl | ⟨hopen, rfl⟩
  · rw [if_pos hends]
  · rw [if_neg hopen]

/-- **ONE TEXT IS RENDERED**: the one that the command emits. -/
theorem renders_iff {o : Options} {g : Graph} {text : String} :
    Renders o g text ↔ text = endLine (o.render g) := by
  constructor
  · rintro ⟨hends, hsummary, hjson⟩
    rw [Options.render]
    cases hformat : o.format with
    | none =>
        obtain ⟨rendered, rfl, h⟩ := hjson (by rw [hformat]; exact nofun)
        exact eq_endLine hends h
    | some format =>
        cases format with
        | summary => exact eq_endLine hends (hsummary hformat)
        | json =>
            obtain ⟨rendered, rfl, h⟩ := hjson (by rw [hformat]; exact nofun)
            exact eq_endLine hends h
  · rintro rfl
    refine ⟨getLast?_endLine _, fun hformat => ?_, fun hformat => ⟨_, rfl, ?_⟩⟩
    · rw [Options.render, hformat]
      exact endLine_eq _
    · have hrender : o.render g = g.renderElements o.exportConfig o.select := by
        rw [Options.render]
        cases hasked : o.format with
        | none => rfl
        | some format =>
            cases format with
            | summary => exact absurd hasked hformat
            | json => rfl
      rw [hrender]
      exact endLine_eq _

/-- What is emitted does not depend on how much is logged. -/
theorem emits_logging_iff {fs : FileStore σ} {input : ByteArray} {before : σ} {o : Options}
    {text : String} (verbosity : Nat) (quiet : Bool) :
    Emits fs input before { o with verbosity, quiet } text ↔ Emits fs input before o text := by
  simp only [Emits, renders_iff]
  rfl

/-! ## Runs over a store -/

section Store

variable {fs : FileStore σ} {input : ByteArray} {pages : Options.Page → String} {before : σ}
  {w : World σ} {o : Options} {arguments : List String}

theorem mapError_eq_ok_iff {α ε ε' : Type} {f : ε → ε'} {x : Except ε α} {a : α} :
    x.mapError f = .ok a ↔ x = .ok a := by
  cases x with
  | error e => exact ⟨nofun, nofun⟩
  | ok b =>
      show (Except.ok b : Except ε' α) = .ok a ↔ (Except.ok b : Except ε α) = .ok a
      rw [Except.ok.injEq, Except.ok.injEq]

theorem textOfBytes_eq_ok_iff {bytes : ByteArray} {text : String} :
    textOfBytes bytes = .ok text ↔ String.fromUTF8? bytes = some text := by
  rw [textOfBytes]
  cases String.fromUTF8? bytes with
  | none => exact ⟨nofun, nofun⟩
  | some found => rw [Except.ok.injEq, Option.some.injEq]

/-- The source text is the input in UTF-8. -/
theorem source_eq_ok_iff {text : String} :
    source fs input before o = .ok text ↔ Reads fs input before o text := by
  rw [source, Reads]
  cases o.input with
  | none =>
      show (textOfBytes input).mapError Failure.cannotReadInput = .ok text ↔ _
      rw [mapError_eq_ok_iff, textOfBytes_eq_ok_iff]
  | some path =>
      show ((fs.read before path).bind textOfBytes).mapError (Failure.cannotRead path) = .ok text ↔
        ∃ bytes, fs.read before path = .ok bytes ∧ String.fromUTF8? bytes = some text
      rw [mapError_eq_ok_iff]
      cases fs.read before path with
      | error reason =>
          constructor
          · intro hread
            cases hread
          · rintro ⟨_, hread, -⟩
            cases hread
      | ok bytes =>
          show textOfBytes bytes = .ok text ↔ _
          rw [textOfBytes_eq_ok_iff]
          simp only [Except.ok.injEq, exists_eq_left']

theorem Emits.writable {text : String} (h : Emits fs input before o text) :
    ∀ path ∈ o.output, ∃ after, fs.write before path text = .ok after := by
  obtain ⟨_, _, -, -, -, hwritable⟩ := h
  exact hwritable

/-- **A RUN THAT CAN EMIT A TEXT DOES**, and emits nothing else. -/
theorem run_of_emits {text : String} (h : Emits fs input w.files o text) :
    ∃ logged, (runWith (fs.host input pages) o).run w =
      match o.output with
      | none => (.printed, (w.logging logged).printing text)
      | some path =>
          match fs.write w.files path text with
          | .ok after => (.saved, (w.logging logged).saving after)
          | .error reason => (.failed (.cannotWrite path reason), w.logging logged) := by
  obtain ⟨found, g, hreads, hparse, hrenders, -⟩ := h
  refine ⟨o.kept (events found), ?_⟩
  rw [run_of_accepted (source_eq_ok_iff.2 hreads) hparse, run_deliver, renders_iff.1 hrenders]
  rfl

/-- **A RUN THAT CANNOT** emit a text fails, and adds to the log at most. -/
theorem run_of_not_emits (h : ¬∃ text, Emits fs input w.files o text) :
    ∃ reason logged,
      (runWith (fs.host input pages) o).run w = (.failed reason, w.logging logged) := by
  cases hsource : source fs input w.files o with
  | error reason => exact ⟨reason, [], by rw [run_of_unread hsource, w.logging_nil]⟩
  | ok found =>
      cases hparse : Flowchart.parse found with
      | error reason => exact ⟨.unsupported reason, _, run_of_rejected hsource hparse⟩
      | ok g =>
          rw [run_of_accepted hsource hparse, run_deliver, World.files_logging]
          -- only the write is left to fail
          have hblocked : ¬∀ path ∈ o.output, ∃ after,
              fs.write w.files path (endLine (o.render g)) = .ok after := fun hwrite =>
            h ⟨_, found, g, source_eq_ok_iff.1 hsource, hparse, renders_iff.2 rfl, hwrite⟩
          cases houtput : o.output with
          | none =>
              rw [houtput] at hblocked
              exact absurd (fun _ hpath => nomatch hpath) hblocked
          | some path =>
              cases hwrite : fs.write w.files path (endLine (o.render g)) with
              | error reason =>
                  refine ⟨.cannotWrite path reason, o.kept (events found), ?_⟩
                  simp only [hwrite]
              | ok after =>
                  refine absurd (fun other hother => ⟨after, ?_⟩) hblocked
                  rw [houtput] at hother
                  rw [← Option.some.inj hother, hwrite]

/-- What is seen of a run whose arguments give options. -/
theorem trace_of_parse? (h : Options.parse? arguments = some o) (host : Host (StateM (World σ)))
    {outcome : Outcome} {after : World σ}
    (hrun : (runWith host o).run { files := before } = (outcome, after)) :
    trace host arguments before = ⟨outcome.exitCode, after.stdout, after.files⟩ := by
  rw [trace, run, Options.parse?_eq_some_iff.1 h]
  simp only [hrun]

/-- Arguments that ask for a page show it and do nothing else. -/
theorem trace_of_page {page : Options.Page}
    (h : Options.parse arguments = .error (.page page)) :
    trace (fs.host input pages) arguments before = ⟨0, pages page, before⟩ := by
  rw [trace, run, h]
  show (⟨0, "" ++ pages page, before⟩ : Trace σ) = _
  rw [String.empty_append]

/-- Arguments that make no sense are refused. -/
theorem trace_of_misuse (h : Options.parse arguments = .error .misuse) :
    trace (fs.host input pages) arguments before = ⟨2, "", before⟩ := by
  rw [trace, run, h]
  rfl

/-- **ALL OR NOTHING**, over any store. -/
theorem allOrNothing_trace (h : Options.parse? arguments = some o) :
    AllOrNothing fs input before o (trace (fs.host input pages) arguments before) := by
  have hfails : (¬∃ text, Emits fs input before o text) →
      trace (fs.host input pages) arguments before = ⟨1, "", before⟩ := by
    intro hnone
    obtain ⟨reason, logged, hrun⟩ := run_of_not_emits (w := { files := before }) hnone
    exact trace_of_parse? h _ hrun
  have hprinted : ∀ text, Emits fs input before o text → o.output = none →
      trace (fs.host input pages) arguments before = ⟨0, text, before⟩ := by
    intro text hemits houtput
    obtain ⟨logged, hrun⟩ := run_of_emits (w := { files := before }) hemits
    rw [houtput] at hrun
    rw [trace_of_parse? h _ hrun]
    show (⟨0, "" ++ text, before⟩ : Trace σ) = _
    rw [String.empty_append]
  have hsaved : ∀ text, Emits fs input before o text → ∀ path, o.output = some path →
      ∃ after, fs.write before path text = .ok after ∧
        trace (fs.host input pages) arguments before = ⟨0, "", after⟩ := by
    intro text hemits path houtput
    obtain ⟨logged, hrun⟩ := run_of_emits (w := { files := before }) hemits
    obtain ⟨after, hwrite⟩ := hemits.writable path houtput
    rw [houtput] at hrun
    simp only [hwrite] at hrun
    exact ⟨after, hwrite, trace_of_parse? h _ hrun⟩
  refine ⟨⟨fun hcode => ?_, ?_⟩, hprinted, hsaved, hfails⟩
  -- the code tells the two outcomes apart: it is 1 in every run that emits nothing
  · refine Classical.byContradiction fun hnone => ?_
    rw [hfails hnone] at hcode
    exact nomatch hcode
  · rintro ⟨text, hemits⟩
    cases houtput : o.output with
    | none => rw [hprinted text hemits houtput]
    | some path =>
        obtain ⟨after, -, hseen⟩ := hsaved text hemits path houtput
        rw [hseen]

/-- Only one thing can be seen of a run. -/
theorem AllOrNothing.unique {seen seen' : Trace σ} (h : AllOrNothing fs input before o seen)
    (h' : AllOrNothing fs input before o seen') : seen = seen' := by
  by_cases hemits : ∃ text, Emits fs input before o text
  · obtain ⟨text, htext⟩ := hemits
    cases houtput : o.output with
    | none => rw [h.printed text htext houtput, h'.printed text htext houtput]
    | some path =>
        obtain ⟨after, hwrite, rfl⟩ := h.saved text htext path houtput
        obtain ⟨after', hwrite', rfl⟩ := h'.saved text htext path houtput
        rw [Except.ok.inj (hwrite.symm.trans hwrite')]
  · rw [h.fails hemits, h'.fails hemits]

/-- What is promised of a run is promised however much it logs. -/
theorem AllOrNothing.of_logging {seen : Trace σ} {verbosity : Nat} {quiet : Bool}
    (h : AllOrNothing fs input before { o with verbosity, quiet } seen) :
    AllOrNothing fs input before o seen := by
  have hemits : ∀ text, Emits fs input before { o with verbosity, quiet } text ↔
      Emits fs input before o text := fun text => emits_logging_iff verbosity quiet
  have hsome := exists_congr hemits
  exact
    { succeeds := h.succeeds.trans hsome
      printed := fun text htext => h.printed text ((hemits text).2 htext)
      saved := fun text htext => h.saved text ((hemits text).2 htext)
      fails := fun hnone => h.fails fun hfound => hnone (hsome.1 hfound) }

/-- **LOGGING CHANGES THE LOG ALONE**: runs whose options differ in how much is
    logged are seen alike. -/
theorem trace_of_logging {others : List String} {verbosity : Nat} {quiet : Bool}
    (h : Options.parse? arguments = some o)
    (hothers : Options.parse? others = some { o with verbosity, quiet }) :
    trace (fs.host input pages) others before = trace (fs.host input pages) arguments before :=
  (allOrNothing_trace hothers).of_logging.unique (allOrNothing_trace h)

end Store

/-! ## Hosts without a log -/

section Unlogged

variable {m : Type → Type} [Monad m] [LawfulMonad m] {host : Host m}

/-- Without a log nothing comes of a report. -/
theorem report_of_unlogged (hlog : ∀ e, host.log e = pure ()) (o : Options)
    (events : Thunk (List LogEvent)) : report host o events = pure () := by
  have hnothing : ∀ events : List LogEvent, forM events host.log = pure () := by
    intro events
    induction events with
    | nil => rfl
    | cons e events ih => rw [List.forM_cons, hlog, pure_bind, ih]
  rw [report, hnothing, ite_self]

/-- Without a log the verbosity makes no difference at all. -/
theorem runWith_of_unlogged (hlog : ∀ e, host.log e = pure ()) (o : Options) (verbosity : Nat)
    (quiet : Bool) : runWith host { o with verbosity, quiet } = runWith host o := by
  simp only [runWith, report_of_unlogged hlog, pure_bind]
  rfl

end Unlogged

end Command

/-! ## Directories -/

namespace Directory

theorem fromUTF8?_toUTF8 (text : String) : String.fromUTF8? text.toUTF8 = some text := by
  have hvalid : text.toUTF8.IsValidUTF8 := text.isValidUTF8
  rw [String.fromUTF8?, dif_pos hvalid]
  rfl

/-- **ONE FILE AT MOST**: writing a path changes the file it leads to, if that is
    in the directory, and no other. -/
theorem getElem?_of_write {d after : Directory} {path text : String}
    (h : d.write path text = .ok after) :
    ∃ folder name, d.locate path = .ok (.entry folder name false) ∧
      ∀ other : String, after[other]? =
        if folder = .own ∧ other = String.ofList name then some text else d[other]? := by
  rw [Directory.write] at h
  split at h
  · cases h
  · cases h
  · next folder name slashed hplace =>
      split at h
      · cases h
      · next hslashed =>
          split at h
          · cases h
          · obtain rfl := Except.ok.inj h
            rw [Bool.not_eq_true] at hslashed
            subst hslashed
            refine ⟨folder, name, hplace, fun other => ?_⟩
            rw [put]
            by_cases hown : folder = .own
            · have hsame : compare (String.ofList name) other = .eq ↔ other = String.ofList name :=
                Std.LawfulEqCmp.compare_eq_iff_eq.trans eq_comm
              simp only [hown, if_true, true_and, Std.ExtTreeMap.getElem?_insert, hsame]
            · rw [if_neg hown, if_neg fun both => hown both.1]

end Directory

namespace Command

/-- **A RUN IS ALL OR NOTHING** when its arguments give options, whatever holds the
    files, and so it is in a directory, where a text that is saved changes the file
    it is saved to alone.  How much is logged makes no difference to what is seen,
    over any store, and none at all for a host that keeps no log. -/
theorem all_or_nothing (input : ByteArray) (pages : Options.Page → String)
    {arguments : List String} {o : Options} (h : Options.parse? arguments = some o) :
    (∀ {σ : Type} (fs : FileStore σ) (before : σ),
      AllOrNothing fs input before o (trace (fs.host input pages) arguments before)) ∧
    (∀ before : Directory,
      AllOrNothing Directory.store input before o
        (trace (Directory.host input pages) arguments before) ∧
      ∀ text path after, o.output = some path → before.write path text = .ok after →
        ∃ folder name, before.locate path = .ok (.entry folder name false) ∧
          ∀ other : String, after[other]? =
            if folder = .own ∧ other = String.ofList name then some text else before[other]?) ∧
    (∀ (others : List String) (verbosity : Nat) (quiet : Bool),
      Options.parse? others = some { o with verbosity, quiet } →
        (∀ {σ : Type} (fs : FileStore σ) (before : σ),
          trace (fs.host input pages) others before
            = trace (fs.host input pages) arguments before) ∧
        ∀ {m : Type → Type} [Monad m] [LawfulMonad m] (host : Host m),
          (∀ e, host.log e = pure ()) → run host others = run host arguments) := by
  refine ⟨fun fs before => allOrNothing_trace h, fun before => ⟨allOrNothing_trace h, ?_⟩, ?_⟩
  · intro text path after _ hwrite
    exact Directory.getElem?_of_write hwrite
  · intro others verbosity quiet hothers
    refine ⟨fun fs before => trace_of_logging h hothers, fun host hlog => ?_⟩
    rw [run, run, Options.parse?_eq_some_iff.1 h, Options.parse?_eq_some_iff.1 hothers]
    exact runWith_of_unlogged hlog o verbosity quiet

/-- A summary that replaces the text it is made from, in a run that logs as much as
    it can and in one that does not log. -/
theorem all_or_nothing_in_place :
    let arguments := ["in.mmd", "-vvvfsummary", "-o", "in.mmd"]
    let quietly := ["-q", "in.mmd", "--format=summary", "-oin.mmd"]
    let o : Options :=
      { input := some "in.mmd", format := some .summary, output := some "in.mmd", verbosity := 3 }
    let pages : Options.Page → String := fun _ => ""
    let before : Directory := .ofList [("in.mmd", "graph TD\nA --> B"), ("other", "text")]
    let text := "flowchart TD\nnodes: 2\nedges: 1\nsubgraphs: 0\ncycles: none\n"
    Options.parse? arguments = some o ∧
      Options.parse? quietly = some { o with verbosity := 0, quiet := true } ∧
      ∃ after, before.write "in.mmd" text = .ok after ∧
        trace (Directory.host .empty pages) arguments before = ⟨0, "", after⟩ ∧
        trace (Directory.host .empty pages) quietly before = ⟨0, "", after⟩ ∧
        after["in.mmd"]? = some text ∧ after["other"]? = some "text" := by
  intro arguments quietly o pages before text
  have h : Options.parse? arguments = some o := by decide +kernel +zetaReduce
  have hquietly : Options.parse? quietly = some { o with verbosity := 0, quiet := true } := by
    decide +kernel +zetaReduce
  obtain ⟨-, hdirectory, hlogging⟩ := all_or_nothing .empty pages h
  obtain ⟨hall, hframe⟩ := hdirectory before
  have hemits : Emits Directory.store .empty before o text := by
    refine ⟨"graph TD\nA --> B", { direction := "TD", edges := [⟨"A", "B", none, .arrow⟩] },
      ⟨_, ?_, Directory.fromUTF8?_toUTF8 _⟩, by decide +kernel, renders_iff.2 ?_, ?_⟩
    · have hread : before.read "in.mmd" = .ok "graph TD\nA --> B" := by
        decide +kernel +zetaReduce
      show (before.read "in.mmd").map String.toUTF8 = _
      rw [hread]
      rfl
    · decide +kernel +zetaReduce
    · rintro path ⟨rfl⟩
      exact ⟨before.put .own "in.mmd".toList text, by decide +kernel +zetaReduce⟩
  obtain ⟨after, hwrite, hseen⟩ := hall.saved text hemits "in.mmd" rfl
  obtain ⟨folder, name, hplace, hfiles⟩ := hframe text "in.mmd" after rfl hwrite
  have hlocate : before.locate "in.mmd" = .ok (.entry .own "in.mmd".toList false) := by
    decide +kernel +zetaReduce
  obtain ⟨rfl, rfl⟩ : folder = .own ∧ name = "in.mmd".toList := by
    rw [hlocate] at hplace
    cases hplace
    exact ⟨rfl, rfl⟩
  have halike := (hlogging quietly 0 true hquietly).1 Directory.store before
  refine ⟨h, hquietly, after, hwrite, hseen, halike.trans hseen, ?_, ?_⟩
  · rw [hfiles, if_pos ⟨rfl, rfl⟩]
  · rw [hfiles, if_neg (by decide)]
    decide +kernel +zetaReduce

end Command

end Flowchart
