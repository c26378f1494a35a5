import Mathlib.Control.Monad.Basic
import Mathlib.Data.List.Basic
import Flowchart.Command.Store

/-! # Runs over a store — what they do to their world

    A run reads its source text, hands one text over at most, and logs on the way.
    `Command.source` is the text it reads and `Command.events` what its stages have
    to tell; of these the log takes what the verbosity lets through and nothing else
    (`Command.log_run`).  So without the flag for verbosity, or with the one for
    quiet, it takes nothing (`Command.log_run_of_silent`), and to give that flag once
    more takes nothing away from it (`Command.log_run_sublist`). -/

namespace Flowchart

/-! ## What is logged -/

namespace Options

/-- Those of the events that are logged. -/
def kept (o : Options) (events : List LogEvent) : List LogEvent :=
  events.filter fun e => o.logs e.level

/-- The flag for verbosity counts up to three times, and not at all beside the one
    for quiet. -/
theorem detail_logLimit (o : Options) :
    o.logLimit.detail = if o.quiet then 0 else min (o.verbosity + 1) 4 := by
  rw [logLimit]
  split
  · rfl
  · generalize o.verbosity = verbosity
    match verbosity with
    | 0 | 1 | 2 => rfl
    | more + 3 =>
        show 4 = min (more + 3 + 1) 4
        omega

theorem logs_info_eq_false {o : Options} (h : o.quiet = true ∨ o.verbosity = 0) :
    o.logs .info = false := by
  refine decide_eq_false ?_
  rw [detail_logLimit]
  show ¬ 2 ≤ _
  rcases h with h | h
  · rw [if_pos h]
    omega
  · split <;> omega

/-- Where not even information is logged, nothing is. -/
theorem kept_eq_nil {o : Options} (h : o.logs .info = false) (events : List LogEvent) :
    o.kept events = [] := by
  refine List.filter_eq_nil_iff.2 fun e _ hlogged => ?_
  have hlimit : o.logLimit.detail < LogLevel.info.detail := Nat.not_le.1 (of_decide_eq_false h)
  have hlevel : e.level.detail ≤ o.logLimit.detail := of_decide_eq_true hlogged
  exact absurd e.info_le_detail (Nat.not_le.2 (Nat.lt_of_le_of_lt hlevel hlimit))

/-- A greater limit only adds to the log. -/
theorem kept_sublist {o o' : Options} (h : o.logLimit.detail ≤ o'.logLimit.detail)
    (events : List LogEvent) : (o.kept events).Sublist (o'.kept events) :=
  List.monotone_filter_right events fun _ hlogged =>
    decide_eq_true (Nat.le_trans (of_decide_eq_true hlogged) h)

end Options

/-! ## Worlds -/

namespace World

variable {σ : Type}

theorem logging_nil (w : World σ) : w.logging [] = w := by
  rw [logging, List.append_nil]

theorem logging_append (w : World σ) (events later : List LogEvent) :
    w.logging (events ++ later) = (w.logging events).logging later := by
  rw [logging, logging, logging, List.append_assoc]

@[simp] theorem files_logging (w : World σ) (events : List LogEvent) :
    (w.logging events).files = w.files := rfl

@[simp] theorem stdout_logging (w : World σ) (events : List LogEvent) :
    (w.logging events).stdout = w.stdout := rfl

@[simp] theorem log_logging (w : World σ) (events : List LogEvent) :
    (w.logging events).log = w.log ++ events := rfl

end World

namespace Command

variable {σ : Type} {fs : FileStore σ} {input : ByteArray} {pages : Options.Page → String}
  {w : World σ} {o : Options}

/-! ## The stages -/

/-- The source text of a run over a store. -/
def source (fs : FileStore σ) (input : ByteArray) (before : σ) (o : Options) :
    Except Failure String :=
  match o.input with
  | some path => ((fs.read before path).bind textOfBytes).mapError (.cannotRead path)
  | none => (textOfBytes input).mapError .cannotReadInput

/-- What the stages of a run with this source text have to tell. -/
def events (text : String) : List LogEvent :=
  .inputRead text.utf8ByteSize :: parseEvents text.toList ++
    match Flowchart.parse text with
    | .error _ => []
    | .ok g => g.events

theorem run_forM_log (events : List LogEvent) (w : World σ) :
    (forM events (fs.host input pages).log).run w = pure ((), w.logging events) := by
  induction events generalizing w with
  | nil =>
      rw [w.logging_nil]
      rfl
  | cons e events ih =>
      rw [List.forM_cons, StateT.run_bind]
      show (forM events (fs.host input pages).log).run (w.logging [e]) = _
      rw [ih, ← w.logging_append]
      rfl

theorem run_report (events : Thunk (List LogEvent)) (w : World σ) :
    (report (fs.host input pages) o events).run w
      = pure ((), w.logging (o.kept events.get)) := by
  rw [report]
  split
  · exact run_forM_log _ w
  · next hsilent =>
      rw [Options.kept_eq_nil (Bool.eq_false_iff.2 hsilent), w.logging_nil]
      rfl

/-- Reading leaves the world alone. -/
theorem run_readSource :
    (readSource (fs.host input pages) o).run w = pure (source fs input w.files o, w) := by
  rw [readSource, source]
  cases o.input <;> rfl

/-- A write that fails leaves the world alone. -/
theorem run_writeFile (path text : String) :
    ((fs.host input pages).writeFile path text).run w =
      match fs.write w.files path text with
      | .ok after => (.ok (), w.saving after)
      | .error reason => (.error reason, w) := by
  show (match fs.write w.files path text with
      | .ok files => (do modify (·.saving files); return .ok ())
      | .error reason => return .error reason : StateM (World σ) (Except AccessError Unit)).run w
    = _
  cases fs.write w.files path text <;> rfl

/-- Handing a text over prints it, or writes it to the path that is given. -/
theorem run_deliver (text : String) :
    (deliver (fs.host input pages) o text).run w =
      match o.output with
      | none => (.printed, w.printing text)
      | some path =>
          match fs.write w.files path text with
          | .ok after => (.saved, w.saving after)
          | .error reason => (.failed (.cannotWrite path reason), w) := by
  rw [deliver]
  cases o.output with
  | none => rfl
  | some path =>
      simp only [StateT.run_bind, run_writeFile]
      cases fs.write w.files path text <;> rfl

/-! ## Whole runs -/

theorem run_of_unread {reason : Failure} (h : source fs input w.files o = .error reason) :
    (runWith (fs.host input pages) o).run w = (.failed reason, w) := by
  rw [runWith, StateT.run_bind, run_readSource, h]
  rfl

theorem run_of_rejected {text : String} {reason : Unsupported}
    (h : source fs input w.files o = .ok text) (hparse : Flowchart.parse text = .error reason) :
    (runWith (fs.host input pages) o).run w
      = (.failed (.unsupported reason), w.logging (o.kept (events text))) := by
  simp only [runWith, StateT.run_bind, run_readSource, h, pure_bind, run_report, hparse, events,
    List.append_nil]
  rfl

theorem run_of_accepted {text : String} {g : Graph} (h : source fs input w.files o = .ok text)
    (hparse : Flowchart.parse text = .ok g) :
    (runWith (fs.host input pages) o).run w
      = (deliver (fs.host input pages) o (endLine (o.render g))).run
          (w.logging (o.kept (events text))) := by
  have hkept : o.kept (events text)
      = o.kept (.inputRead text.utf8ByteSize :: parseEvents text.toList) ++ o.kept g.events := by
    simp only [events, hparse, Options.kept]
    exact List.filter_append ..
  simp only [runWith, StateT.run_bind, run_readSource, h, pure_bind, run_report, hparse, hkept,
    World.logging_append]
  rfl

/-- **THE LOG OF A RUN** is what its stages have to tell, as far as the verbosity
    lets it through, and nothing else. -/
theorem log_run (w : World σ) :
    ((runWith (fs.host input pages) o).run w).2.log
      = w.log ++ match source fs input w.files o with
        | .error _ => []
        | .ok text => o.kept (events text) := by
  cases hsource : source fs input w.files o with
  | error reason => rw [run_of_unread hsource, List.append_nil]
  | ok text =>
      cases hparse : Flowchart.parse text with
      | error reason =>
          rw [run_of_rejected hsource hparse]
          rfl
      | ok g =>
          rw [run_of_accepted hsource hparse, run_deliver]
          cases o.output with
          | none => rfl
          | some path =>
              simp only [World.files_logging]
              cases fs.write w.files path (endLine (o.render g)) <;> rfl

/-- **A QUIET RUN LOGS NOTHING**, and neither does one without the flag for
    verbosity. -/
theorem log_run_of_silent (h : o.quiet = true ∨ o.verbosity = 0) (w : World σ) :
    ((runWith (fs.host input pages) o).run w).2.log = w.log := by
  rw [log_run]
  split
  · exact List.append_nil _
  · rw [Options.kept_eq_nil (Options.logs_info_eq_false h), List.append_nil]

/-- **A MORE VERBOSE RUN LOGS MORE**, and leaves nothing out that a less verbose one
    logs. -/
theorem log_run_sublist {verbosity : Nat} (h : o.verbosity ≤ verbosity) (w : World σ) :
    ((runWith (fs.host input pages) o).run w).2.log.Sublist
      ((runWith (fs.host input pages) { o with verbosity }).run w).2.log := by
  have hlimit : o.logLimit.detail ≤ { o with verbosity }.logLimit.detail := by
    rw [Options.detail_logLimit, Options.detail_logLimit]
    show _ ≤ if o.quiet then 0 else min (verbosity + 1) 4
    split <;> omega
  have hsource : source fs input w.files { o with verbosity } = source fs input w.files o := rfl
  rw [log_run, log_run, hsource]
  refine (List.Sublist.refl w.log).append ?_
  split
  · exact List.Sublist.refl []
  · exact Options.kept_sublist hlimit _

end Command

end Flowchart
