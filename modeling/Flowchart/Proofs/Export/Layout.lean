import Flowchart.Command.Run
import Flowchart.Proofs.Json.Written

/-! # Layouts — one text, with or without blanks

    A JSON text is scanned character by character, and the scanner knows whether it
    stands in a string (`Json.Place`).  What it drops when it drops the white space
    outside of strings is what a layout put there, and nothing else: what is left of
    any written value is the value in the compact layout (`Json.scans_write`).  In
    that layout every character is printable, for in strings all others are escaped
    (`Json.printable_write`). -/

namespace Flowchart

namespace Json

/-! ## Scanning -/

/-- Where a scanner of a JSON text stands. -/
inductive Place where
  | outside
  /-- Between the quotes of a string. -/
  | inside
  /-- In a string, directly after a backslash that is not escaped itself. -/
  | escaped
deriving DecidableEq, Repr

/-- The place after a character. -/
def Place.after : Place → Char → Place
  | outside, c => if c = '"' then inside else outside
  | inside, c => if c = '"' then outside else if c = '\\' then escaped else inside
  | escaped, _ => inside

/-- The text from a place on, without the white space outside of its strings. -/
def squeeze (place : Place) : List Char → List Char
  | [] => []
  | c :: text =>
      if place = .outside ∧ isSpace c then squeeze (place.after c) text
      else c :: squeeze (place.after c) text

/-- Scanned from the one place, `kept` is left of `text`, and the scanner gets to the
    other place. -/
def Scans (place : Place) (text kept : List Char) (place' : Place) : Prop :=
  ∀ rest, squeeze place (text ++ rest) = kept ++ squeeze place' rest

/-- A character with a meaning of its own outside of strings. -/
def isMark (c : Char) : Bool := !isSpace c && c != '"'

namespace Scans

variable {place place' place'' : Place} {text text' kept kept' : List Char}

theorem nil : Scans place [] [] place := fun _ => rfl

theorem append (h : Scans place text kept place') (h' : Scans place' text' kept' place'') :
    Scans place (text ++ text') (kept ++ kept') place'' := by
  intro rest
  rw [List.append_assoc, h, h', List.append_assoc]

theorem char {c : Char} (h : place = .outside → isSpace c = false) :
    Scans place [c] [c] (place.after c) := by
  intro rest
  have hkept : ¬(place = .outside ∧ isSpace c) := by
    rintro ⟨hplace, hspace⟩
    rw [h hplace] at hspace
    cases hspace
  rw [List.singleton_append, squeeze, if_neg hkept]
  rfl

/-- Blanks outside of strings are dropped. -/
theorem spaces (h : ∀ c ∈ text, isSpace c = true) : Scans .outside text [] .outside := by
  induction text with
  | nil => exact nil
  | cons c text ih =>
      obtain ⟨hc, htext⟩ := List.forall_mem_cons.1 h
      have hquote : c ≠ '"' := by
        rintro rfl
        cases hc
      intro rest
      rw [List.cons_append, squeeze, if_pos ⟨rfl, hc⟩, Place.after, if_neg hquote]
      exact ih htext rest

/-- Marks outside of strings are kept. -/
theorem marks (h : text.all isMark = true) : Scans .outside text text .outside := by
  induction text with
  | nil => exact nil
  | cons c text ih =>
      rw [List.all_cons, Bool.and_eq_true, isMark, Bool.and_eq_true, Bool.not_eq_true',
        bne_iff_ne] at h
      obtain ⟨⟨hspace, hquote⟩, htext⟩ := h
      have hc : Scans .outside [c] [c] (Place.after .outside c) := char fun _ => hspace
      rw [Place.after, if_neg hquote] at hc
      exact hc.append (ih htext)

/-- In a string all but the quote and the backslash go on with it. -/
theorem inside {c : Char} (hquote : c ≠ '"') (hslash : c ≠ '\\') :
    Scans .inside [c] [c] .inside := by
  have h : Scans .inside [c] [c] (Place.after .inside c) := char fun hplace => nomatch hplace
  rwa [Place.after, if_neg hquote, if_neg hslash] at h

/-- A backslash goes on with the string, and so does the character after it. -/
theorem escape (e : Char) : Scans .inside ['\\', e] ['\\', e] .inside := fun _ => rfl

end Scans

/-! ## Strings -/

theorem hexDigit_ne : ∀ n < 16, hexDigit n ≠ '"' ∧ hexDigit n ≠ '\\' := by decide

/-- A written character does not end the string. -/
theorem Spelling.scans {c : Char} {text : List Char} (h : Spelling c text) :
    Scans .inside text text .inside := by
  cases h with
  | short hunit h => exact .escape _
  | unit h =>
      obtain ⟨hquote, hslash⟩ := hexDigit_ne (c.toNat / 16) (by omega)
      obtain ⟨hquote', hslash'⟩ := hexDigit_ne (c.toNat % 16) (by omega)
      have hzero : Scans .inside ['0'] ['0'] .inside := .inside (by decide) (by decide)
      exact (Scans.escape 'u').append (hzero.append (hzero.append
        ((Scans.inside hquote hslash).append (.inside hquote' hslash'))))
  | plain hquote hslash hcontrol => exact .inside hquote hslash

/-- **A STRING IS KEPT WHOLE**, whatever blanks and quotes it holds. -/
theorem scans_quote (text : String) : Scans .outside (quote text) (quote text) .outside := by
  have hopen : Scans .outside ['"'] ['"'] .inside := fun _ => rfl
  have hclose : Scans .inside ['"'] ['"'] .outside := fun _ => rfl
  have hchars : ∀ chars : List Char,
      Scans .inside (chars.flatMap escape) (chars.flatMap escape) .inside := by
    intro chars
    induction chars with
    | nil => exact .nil
    | cons c chars ih =>
        rw [List.flatMap_cons]
        exact (spelling_escape c).scans.append ih
  exact (hopen.append (hchars text.toList)).append hclose

/-! ## Values -/

theorem isMark_of_isDigit {c : Char} (h : c.isDigit = true) : isMark c = true := by
  have hother : ∀ d : Char, d.isDigit = false → c ≠ d := fun _ hd => ne_of_isDigit h hd
  have hspace : isSpace c = false := by
    simp only [isSpace, Bool.or_eq_false_iff, beq_eq_false_iff_ne]
    exact ⟨⟨⟨hother ' ' rfl, hother '\t' rfl⟩, hother '\n' rfl⟩, hother '\r' rfl⟩
  rw [isMark, hspace, Bool.not_false, Bool.true_and, bne_iff_ne]
  exact hother '"' rfl

theorem scans_toDigits (n : Nat) :
    Scans .outside (Nat.toDigits 10 n) (Nat.toDigits 10 n) .outside :=
  .marks (List.all_eq_true.2 fun _ hc => isMark_of_isDigit (isDigit_of_mem_toDigits hc))

@[simp] theorem Layout.compact_lineBreak (depth : Nat) : Layout.compact.lineBreak depth = [] := rfl

@[simp] theorem Layout.compact_gap : Layout.compact.gap = [] := rfl

section Write

variable {layout : Layout} (hlayout : layout.Spaced)
include hlayout

/-- A key and the colon after it. -/
theorem scans_key (key : String) :
    Scans .outside (quote key ++ ':' :: layout.gap) (quote key ++ [':']) .outside := by
  have hcolon : Scans .outside [':'] [':'] .outside := .marks rfl
  exact (scans_quote key).append (hcolon.append (.spaces hlayout.gap))

/-- A closing bracket on its line. -/
theorem scans_close (depth : Nat) {c : Char} (h : isMark c = true) :
    Scans .outside (layout.lineBreak depth ++ [c]) [c] .outside := by
  have hbracket : Scans .outside [c] [c] .outside := .marks (by rw [List.all_cons, h]; rfl)
  exact (Scans.spaces (hlayout.lineBreak depth)).append hbracket

/-- An opening bracket or a comma, and the line break after it. -/
theorem scans_open (depth : Nat) {c : Char} (h : isMark c = true) :
    Scans .outside (c :: layout.lineBreak depth) [c] .outside := by
  have hbracket : Scans .outside [c] [c] .outside := .marks (by rw [List.all_cons, h]; rfl)
  exact hbracket.append (Scans.spaces (hlayout.lineBreak depth))

mutual

/-- **LAYOUTS DIFFER IN BLANKS ALONE**: without the blanks outside of its strings a
    written value is the value in the compact layout. -/
theorem scans_write (depth : Nat) :
    ∀ value : Json,
      Scans .outside (write layout depth value) (write .compact depth value) .outside
  | null => .marks rfl
  | bool true => .marks rfl
  | bool false => .marks rfl
  | number n => scans_toDigits n
  | string text => scans_quote text
  | other => .marks rfl
  | array [] => .marks rfl
  | array (item :: items) => by
      have hopen := scans_open hlayout (depth + 1) (c := '[') rfl
      have hclose := scans_close hlayout depth (c := ']') rfl
      have hall := hopen.append ((scans_write (depth + 1) item).append
        ((scans_writeItems (depth + 1) items).append hclose))
      rw [write, write]
      simpa only [Layout.compact_lineBreak, Layout.compact_gap, List.append_assoc,
        List.cons_append, List.nil_append] using hall
  | object [] => .marks rfl
  | object ((key, value) :: members) => by
      have hopen := scans_open hlayout (depth + 1) (c := '\x7b') rfl
      have hclose := scans_close hlayout depth (c := '\x7d') rfl
      have hall := hopen.append ((scans_key hlayout key).append
        ((scans_write (depth + 1) value).append
          ((scans_writeMembers (depth + 1) members).append hclose)))
      rw [write, write]
      simpa only [Layout.compact_lineBreak, Layout.compact_gap, List.append_assoc,
        List.cons_append, List.nil_append] using hall

theorem scans_writeItems (depth : Nat) :
    ∀ items : List Json,
      Scans .outside (writeItems layout depth items) (writeItems .compact depth items) .outside
  | [] => .nil
  | item :: items => by
      have hcomma := scans_open hlayout depth (c := ',') rfl
      have hall := hcomma.append ((scans_write depth item).append (scans_writeItems depth items))
      rw [writeItems, writeItems]
      simpa only [Layout.compact_lineBreak, Layout.compact_gap, List.append_assoc,
        List.cons_append, List.nil_append] using hall

theorem scans_writeMembers (depth : Nat) :
    ∀ members : List (String × Json),
      Scans .outside (writeMembers layout depth members) (writeMembers .compact depth members)
        .outside
  | [] => .nil
  | (key, value) :: members => by
      have hcomma := scans_open hlayout depth (c := ',') rfl
      have hall := hcomma.append ((scans_key hlayout key).append
        ((scans_write depth value).append (scans_writeMembers depth members)))
      rw [writeMembers, writeMembers]
      simpa only [Layout.compact_lineBreak, Layout.compact_gap, List.append_assoc,
        List.cons_append, List.nil_append] using hall

end

end Write

/-- The pretty text of a value without the blanks outside of its strings. -/
theorem squeeze_pretty (value : Json) :
    squeeze .outside value.pretty.toList = value.compact.toList := by
  have h := scans_write Layout.spaced_pretty 0 value []
  rw [List.append_nil, squeeze, List.append_nil] at h
  rw [pretty, compact, String.toList_ofList, String.toList_ofList, h]

/-! ## Printable characters -/

/-- A character that may stand in a string as it is, or outside of all. -/
def isPrintable (c : Char) : Bool := decide (0x20 ≤ c.toNat)

theorem isPrintable_hexDigit : ∀ n < 16, isPrintable (hexDigit n) = true := by decide

/-- What stands for another character after a backslash is printable. -/
theorem isPrintable_of_unescape? {e c : Char} (h : unescape? e = some c) :
    isPrintable e = true := by
  unfold unescape? at h
  split_ifs at h with h₁ h₂ h₃ h₄ h₅ h₆ h₇ h₈
  all_goals
    subst e
    rfl

/-- Every character is written with printable ones. -/
theorem Spelling.printable {c : Char} {text : List Char} (h : Spelling c text) :
    text.all isPrintable = true := by
  cases h with
  | short hunit h =>
      rw [List.all_cons, List.all_cons, isPrintable_of_unescape? h]
      rfl
  | unit h =>
      have hhigh := isPrintable_hexDigit (c.toNat / 16) (by omega)
      have hlow := isPrintable_hexDigit (c.toNat % 16) (by omega)
      simp only [List.all_cons, List.all_nil, hhigh, hlow]
      rfl
  | plain hquote hslash hcontrol =>
      rw [List.all_cons, isPrintable, decide_eq_true (by omega)]
      rfl

theorem printable_quote (text : String) : (quote text).all isPrintable = true := by
  have hchars : (text.toList.flatMap escape).all isPrintable = true := by
    rw [List.all_flatMap, List.all_eq_true]
    exact fun c _ => (spelling_escape c).printable
  rw [quote, List.all_append, List.all_cons, hchars]
  rfl

theorem printable_toDigits (n : Nat) : (Nat.toDigits 10 n).all isPrintable = true := by
  refine List.all_eq_true.2 fun c hc => ?_
  have hdigit : 0x30 ≤ c.toNat := (Char.isDigit_iff_toNat.1 (isDigit_of_mem_toDigits hc)).1
  exact decide_eq_true (by omega)

mutual

/-- **COMPACT TEXTS ARE PRINTABLE**, whatever the strings of the value hold. -/
theorem printable_write (depth : Nat) :
    ∀ value : Json, (write .compact depth value).all isPrintable = true
  | null => rfl
  | bool true => rfl
  | bool false => rfl
  | number n => printable_toDigits n
  | string text => printable_quote text
  | other => rfl
  | array [] => rfl
  | array (item :: items) => by
      rw [write]
      simp only [Layout.compact_lineBreak, List.all_append, List.all_cons, List.all_nil]
      rw [printable_write (depth + 1) item, printable_writeItems (depth + 1) items]
      rfl
  | object [] => rfl
  | object ((key, value) :: members) => by
      rw [write]
      simp only [Layout.compact_lineBreak, Layout.compact_gap, List.all_append, List.all_cons,
        List.all_nil]
      rw [printable_quote, printable_write (depth + 1) value,
        printable_writeMembers (depth + 1) members]
      rfl

theorem printable_writeItems (depth : Nat) :
    ∀ items : List Json, (writeItems .compact depth items).all isPrintable = true
  | [] => rfl
  | item :: items => by
      rw [writeItems]
      simp only [Layout.compact_lineBreak, List.all_append, List.all_cons, List.all_nil]
      rw [printable_write depth item, printable_writeItems depth items]
      rfl

theorem printable_writeMembers (depth : Nat) :
    ∀ members : List (String × Json),
      (writeMembers .compact depth members).all isPrintable = true
  | [] => rfl
  | (key, value) :: members => by
      rw [writeMembers]
      simp only [Layout.compact_lineBreak, Layout.compact_gap, List.all_append, List.all_cons,
        List.all_nil]
      rw [printable_quote, printable_write depth value, printable_writeMembers depth members]
      rfl

end

theorem printable_compact {value : Json} {c : Char} (h : c ∈ value.compact.toList) :
    0x20 ≤ c.toNat := by
  rw [compact, String.toList_ofList] at h
  exact of_decide_eq_true (List.all_eq_true.1 (printable_write 0 value) c h)

end Json

/-! ## Exports -/

namespace Graph

/-- The compact export has no line feed, so the command adds the one at its end. -/
theorem endLine_compact (g : Graph) {config : ExportConfig} (h : config.pretty = false)
    (selected : Option String) :
    '\n' ∉ (g.renderElements config selected).toList ∧
      endLine (g.renderElements config selected) = g.renderElements config selected ++ "\n" := by
  have hcompact : g.renderElements config selected
      = (Elements.ofGraph g config selected).toJson.compact := by
    rw [renderElements, Elements.render, h]
    rfl
  have hfree : '\n' ∉ (g.renderElements config selected).toList := by
    rw [hcompact]
    exact fun hmem => absurd (Json.printable_compact hmem) (by decide)
  refine ⟨hfree, ?_⟩
  rw [endLine, if_neg fun hlast => hfree (List.mem_of_getLast? hlast)]

/-- **EXPORTS DIFFER IN BLANKS ALONE**: every character of a compact export is
    printable, and a pretty export is the compact one but for the white space outside
    of its strings.  So the command, asked for compact JSON, emits one line. -/
theorem renderElements_layouts (g : Graph) (config : ExportConfig) (selected : Option String) :
    (∀ c ∈ (g.renderElements { config with pretty := false } selected).toList,
        0x20 ≤ c.toNat) ∧
      Json.squeeze .outside (g.renderElements { config with pretty := true } selected).toList
        = (g.renderElements { config with pretty := false } selected).toList ∧
      ∀ o : Options, o.compact = true → o.format ≠ some .summary →
        ∃ line, endLine (o.render g) = line ++ "\n" ∧ '\n' ∉ line.toList := by
  refine ⟨fun c hc => Json.printable_compact hc, Json.squeeze_pretty _, ?_⟩
  intro o hcompact hformat
  have hrender : o.render g = g.renderElements o.exportConfig o.select := by
    rw [Options.render]
    cases hchoice : o.format with
    | none => rfl
    | some format =>
        cases format with
        | json => rfl
        | summary => exact absurd hchoice hformat
  have hpretty : o.exportConfig.pretty = false := by rw [Options.exportConfig, hcompact]; rfl
  obtain ⟨hfree, hline⟩ := g.endLine_compact hpretty o.select
  rw [hrender]
  exact ⟨_, hline, hfree⟩

/-- A direction with a quote, a backslash and a line feed, and a label of blanks. -/
theorem renderElements_layouts_escaped :
    let g : Graph :=
      { direction := "\"\\ \n", edges := [⟨"a b", "a b", some "  ", .arrow⟩] }
    let o : Options := { compact := true, noCycles := true }
    (g.renderElements { o.exportConfig with pretty := true } none).toList.count '\n' = 19 ∧
      Json.squeeze .outside (g.renderElements { o.exportConfig with pretty := true } none).toList
        = (g.renderElements { o.exportConfig with pretty := false } none).toList ∧
      o.compact = true ∧ o.format ≠ some .summary ∧
      ∃ line, endLine (o.render g) = line ++ "\n" ∧ '\n' ∉ line.toList := by
  intro g o
  obtain ⟨-, hsqueezed, hline⟩ := renderElements_layouts g o.exportConfig none
  refine ⟨?_, hsqueezed, rfl, nofun, hline o rfl nofun⟩
  show (String.ofList _).toList.count '\n' = 19
  rw [String.toList_ofList]
  decide +kernel +zetaReduce

end Graph

end Flowchart
