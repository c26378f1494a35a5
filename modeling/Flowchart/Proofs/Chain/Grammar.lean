import Flowchart.Proofs.Text.Trim
import Flowchart.Syntax.Chain

/-! # The grammar of hops — any arrow, with or without a label

    `Hop.Fits` says what a hop is without saying how it is found: blanks, any of
    the twelve arrows, a label between bars or none, at least one blank, and the
    node token there.  Reading a hop takes the first arrow of the table that fits
    and any label that follows, and never goes back.  It loses nothing: a lexeme
    that begins another one is followed there by a character that no hop may go
    on with (`Arrow.read?_lexeme`), and where a label stands a node cannot.  So a
    hop is read exactly where one fits (`Hop.read?_eq_some_iff`). -/

namespace Flowchart

open Text

/-! ## What a hop is -/

/-- What a label between bars says: its text without the blanks around it, or
    nothing when only blanks stand there. -/
def shownLabel (body : List Char) : Option String :=
  if trim body = [] then none else some (String.ofList (trim body))

/-- The text between an arrow and the blanks before the target, and the label it
    gives. -/
inductive LabelPart : List Char → Option String → Prop where
  | absent : LabelPart [] none
  | barred {blanks body : List Char} (hblanks : Blanks blanks) (hbody : '|' ∉ body) :
      LabelPart (blanks ++ '|' :: (body ++ ['|'])) (shownLabel body)

/-- `hop` stands at the front of the first text, and the second text follows it. -/
inductive Hop.Fits : Hop → List Char → List Char → Prop where
  | intro {before part gap after rest : List Char} {arrow : Arrow} {label : Option String}
      {target : NodeToken} (hbefore : Blanks before) (harrow : arrow ∈ Arrow.all)
      (hpart : LabelPart part label) (hgap : Blanks gap) (hne : gap ≠ [])
      (htarget : NodeToken.read? after = some (target, rest)) :
      Hop.Fits ⟨arrow, label, target⟩ (before ++ (arrow.lexeme ++ (part ++ (gap ++ after)))) rest

/-! ## Arrows -/

/-- No arrow begins with a blank. -/
theorem Arrow.first_not_blank {arrow : Arrow} (h : arrow ∈ Arrow.all) (text : List Char) :
    ∀ c ∈ (arrow.lexeme ++ text).head?, isBlank c = false := by
  have hall : ∀ a ∈ Arrow.all, a.lexeme.head?.map isBlank = some false := by decide +kernel
  exact head?_append_eq_false (hall arrow h) text

/-- **NO LEXEME IS CUT SHORT**: an arrow is read where it is written, unless the
    text goes on with a character that would make it a longer one. -/
theorem Arrow.read?_lexeme {arrow : Arrow} (h : arrow ∈ Arrow.all) {c : Char} (hdash : c ≠ '-')
    (hhead : c ≠ '>') (text : List Char) :
    Arrow.read? (arrow.lexeme ++ c :: text) = some (arrow, c :: text) := by
  simp only [Arrow.all, List.mem_cons, List.not_mem_nil, or_false] at h
  -- for each arrow, those before it in the table differ from it or go on after it
  rcases h with rfl | rfl | rfl | rfl | rfl | rfl | rfl | rfl | rfl | rfl | rfl | rfl <;>
    simp [Arrow.read?, Arrow.all, after?, hdash.symm, hhead.symm]

/-! ## What comes after an arrow -/

/-- A hop goes on after its arrow with a blank or a bar. -/
def Continues (c : Char) : Prop := isBlank c = true ∨ c = '|'

theorem Continues.ne_dash {c : Char} (h : Continues c) : c ≠ '-' := by
  rintro rfl
  rcases h with hblank | hbar
  · exact absurd hblank (by decide)
  · exact absurd hbar (by decide)

theorem Continues.ne_head {c : Char} (h : Continues c) : c ≠ '>' := by
  rintro rfl
  rcases h with hblank | hbar
  · exact absurd hblank (by decide)
  · exact absurd hbar (by decide)

/-- A node token begins with a word character. -/
theorem NodeToken.exists_cons_of_read? {text rest : List Char} {token : NodeToken}
    (h : NodeToken.read? text = some (token, rest)) :
    ∃ c text', text = c :: text' ∧ isWord c = true := by
  obtain ⟨-, -, -, hid, hne, -⟩ := NodeToken.read?_sound h
  rw [hid] at hne
  exact exists_cons_of_takeWhile_ne_nil hne

theorem not_isWord_bar : isWord '|' = false := by decide

theorem not_isBlank_bar : isBlank '|' = false := by decide

/-- Blanks before a bar, the text up to the next bar, and what follows: there the
    label is that text. -/
theorem Hop.readLabel_bars {blanks body : List Char} (hblanks : Blanks blanks)
    (hbody : '|' ∉ body) (rest : List Char) :
    Hop.readLabel (blanks ++ '|' :: (body ++ '|' :: rest)) = (shownLabel body, rest) := by
  have hstart : (blanks ++ '|' :: (body ++ '|' :: rest)).dropWhile isBlank
      = '|' :: (body ++ '|' :: rest) := by
    refine dropWhile_run hblanks ?_
    intro c hc
    rw [← Option.some.inj hc]
    exact not_isBlank_bar
  have htake := takeWhile_before hbody rest
  have hdrop := dropWhile_before hbody rest
  simp only [Hop.readLabel, readEdgeLabel?, hstart, htake, hdrop, shownLabel, List.isEmpty_iff]

/-- A label that is read stands between bars. -/
theorem exists_bars_of_readEdgeLabel? {text : List Char} {r : Reading (Option String)}
    (h : readEdgeLabel? text = some r) :
    ∃ blanks body, Blanks blanks ∧ '|' ∉ body ∧ text = blanks ++ '|' :: (body ++ '|' :: r.rest) := by
  rw [readEdgeLabel?] at h
  split at h
  · next inner hinner =>
      split at h
      · cases h
      · next bar rest hrest =>
          obtain rfl := Option.some.inj h
          have hblanks := takeWhile_append_trimStart text
          have hbody := List.takeWhile_append_dropWhile (p := (· != '|')) (l := inner)
          have hstop := List.head?_dropWhile_not (· != '|') inner
          rw [trimStart, hinner] at hblanks
          rw [hrest] at hbody hstop
          have hbar : bar = '|' := by simpa using hstop
          subst hbar
          refine ⟨_, inner.takeWhile (· != '|'), blanks_takeWhile text, ?_, ?_⟩
          · intro hmem
            have hne := forall_mem_takeWhile (· != '|') inner _ hmem
            exact bne_iff_ne.1 hne rfl
          · rw [hbody, hblanks]
  · cases h

/-- Where a node follows the blanks there is no label. -/
theorem readEdgeLabel?_of_node {gap after : List Char} (hgap : Blanks gap) {c : Char}
    {after' : List Char} (hafter : after = c :: after') (hword : isWord c = true) :
    readEdgeLabel? (gap ++ after) = none := by
  have hblank := isBlank_eq_false_of_isWord hword
  have hbar : c ≠ '|' := by
    rintro rfl
    rw [not_isWord_bar] at hword
    exact nomatch hword
  have hstart : (gap ++ after).dropWhile isBlank = c :: after' := by
    rw [hafter]
    refine dropWhile_run hgap ?_
    intro d hd
    rw [← Option.some.inj hd]
    exact hblank
  rw [readEdgeLabel?, hstart]
  split
  · next inner heq => exact absurd (List.cons.inj heq).1 hbar
  · rfl

/-- A hop goes on after its arrow with a bar, or with the blanks before its target. -/
theorem LabelPart.exists_cons_continues {part : List Char} {label : Option String}
    (h : LabelPart part label) {gap : List Char} (hgap : Blanks gap) (hne : gap ≠ [])
    (after : List Char) : ∃ c follow, part ++ (gap ++ after) = c :: follow ∧ Continues c := by
  cases h with
  | absent =>
      cases gap with
      | nil => exact absurd rfl hne
      | cons c gap => exact ⟨c, gap ++ after, rfl, Or.inl (hgap c List.mem_cons_self)⟩
  | @barred blanks body hblanks hbody =>
      cases blanks with
      | nil => exact ⟨'|', _, rfl, Or.inr rfl⟩
      | cons c blanks => exact ⟨c, _, rfl, Or.inl (hblanks c List.mem_cons_self)⟩

/-- The label of a hop is read, and the blanks before its target are left. -/
theorem LabelPart.readLabel {part : List Char} {label : Option String} (h : LabelPart part label)
    {gap after rest : List Char} {target : NodeToken} (hgap : Blanks gap)
    (htarget : NodeToken.read? after = some (target, rest)) :
    Hop.readLabel (part ++ (gap ++ after)) = (label, gap ++ after) := by
  cases h with
  | absent =>
      obtain ⟨c, after', hafter, hword⟩ := NodeToken.exists_cons_of_read? htarget
      rw [List.nil_append, Hop.readLabel, readEdgeLabel?_of_node hgap hafter hword]
  | @barred blanks body hblanks hbody =>
      rw [List.append_assoc, List.cons_append, List.append_assoc, List.singleton_append,
        Hop.readLabel_bars hblanks hbody]

/-! ## Hops -/

/-- What a label reads as, between its bars. -/
theorem Hop.exists_part_of_readLabel {text rest : List Char} {label : Option String}
    (h : Hop.readLabel text = (label, rest)) :
    ∃ part, text = part ++ rest ∧ LabelPart part label := by
  cases hread : readEdgeLabel? text with
  | none =>
      rw [Hop.readLabel, hread] at h
      obtain ⟨rfl, rfl⟩ := Prod.mk.inj h
      exact ⟨[], rfl, LabelPart.absent⟩
  | some r =>
      obtain ⟨blanks, body, hblanks, hbody, rfl⟩ := exists_bars_of_readEdgeLabel? hread
      rw [Hop.readLabel_bars hblanks hbody] at h
      obtain ⟨rfl, rfl⟩ := Prod.mk.inj h
      refine ⟨_, ?_, LabelPart.barred hblanks hbody⟩
      rw [List.append_assoc, List.cons_append, List.append_assoc, List.singleton_append]

/-- The steps of reading a hop. -/
theorem Hop.read?_eq_some_iff_steps {text rest : List Char} {hop : Hop} :
    Hop.read? text = some (hop, rest) ↔
      ∃ afterArrow afterLabel, Arrow.read? (trimStart text) = some (hop.arrow, afterArrow) ∧
        Hop.readLabel afterArrow = (hop.label, afterLabel) ∧
        (afterLabel.head?.any isBlank) = true ∧
        NodeToken.read? (trimStart afterLabel) = some (hop.target, rest) := by
  rw [Hop.read?]
  constructor
  · intro h
    split at h
    · cases h
    · next arrow afterArrow harrow =>
        simp only at h
        split at h
        · next hblank =>
            split at h
            · cases h
            · next target rest' htarget =>
                obtain ⟨rfl, rfl⟩ := Prod.mk.inj (Option.some.inj h)
                exact ⟨afterArrow, _, harrow, rfl, hblank, htarget⟩
        · cases h
  · rintro ⟨afterArrow, afterLabel, harrow, hlabel, hblank, htarget⟩
    simp only [harrow, hlabel, hblank, htarget, if_true]

/-- **A HOP IS READ WHERE ONE FITS**: whatever arrow and label complete a hop, the
    hop read there is that one. -/
theorem Hop.read?_eq_some_iff {text rest : List Char} {hop : Hop} :
    Hop.read? text = some (hop, rest) ↔ hop.Fits text rest := by
  rw [Hop.read?_eq_some_iff_steps]
  constructor
  · rintro ⟨afterArrow, afterLabel, harrow, hlabel, hblank, htarget⟩
    obtain ⟨hmem, hlexeme⟩ := Arrow.read?_sound harrow
    obtain ⟨part, hpart, hfits⟩ := Hop.exists_part_of_readLabel hlabel
    have hne : afterLabel.takeWhile isBlank ≠ [] := by
      cases afterLabel with
      | nil => exact nomatch hblank
      | cons c afterLabel =>
          have hc : isBlank c = true := hblank
          rw [List.takeWhile_cons_of_pos hc]
          exact List.cons_ne_nil c _
    have hfit := Hop.Fits.intro (blanks_takeWhile text) hmem hfits
      (blanks_takeWhile afterLabel) hne htarget
    rwa [takeWhile_append_trimStart, ← hpart, ← hlexeme, takeWhile_append_trimStart] at hfit
  · intro h
    cases h with
    | @intro before part gap after rest arrow label target hbefore harrow hpart hgap hne htarget =>
        obtain ⟨c, follow, hfollow, hcontinues⟩ := hpart.exists_cons_continues hgap hne after
        refine ⟨part ++ (gap ++ after), gap ++ after, ?_, hpart.readLabel hgap htarget, ?_, ?_⟩
        · rw [trimStart_append hbefore, trimStart_eq_self (Arrow.first_not_blank harrow _), hfollow,
            Arrow.read?_lexeme harrow hcontinues.ne_dash hcontinues.ne_head]
        · cases gap with
          | nil => exact absurd rfl hne
          | cons b gap => exact hgap b List.mem_cons_self
        · obtain ⟨first, after', rfl, hword⟩ := NodeToken.exists_cons_of_read? htarget
          rw [trimStart_append hgap, trimStart_eq_self, htarget]
          intro d hd
          rw [← Option.some.inj hd]
          exact isBlank_eq_false_of_isWord hword

end Flowchart
