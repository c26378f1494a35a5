import Flowchart.Text.Blank

/-! # Lines — how a source text falls into lines, and which of them count

    A line ends at a line feed, or at a carriage return directly followed by
    one.  A final line end opens no further line, and a carriage return
    elsewhere belongs to its line.  A line is *significant* when, trimmed, it is
    neither empty nor a `%%` comment. -/

namespace Flowchart.Text

/-- The number of bytes of `text` in UTF-8. -/
def width (text : List Char) : Nat := text.foldr (fun c bytes => c.utf8Size + bytes) 0

@[simp] theorem width_nil : width [] = 0 := rfl

@[simp] theorem width_cons (c : Char) (text : List Char) :
    width (c :: text) = c.utf8Size + width text := rfl

@[simp] theorem width_append (front back : List Char) :
    width (front ++ back) = width front + width back := by
  induction front with
  | nil => simp
  | cons c front ih => rw [List.cons_append, width_cons, width_cons, ih, Nat.add_assoc]

/-- What follows `lead` in `text`, when `text` begins with `lead`. -/
def after? : List Char → List Char → Option (List Char)
  | [], text => some text
  | _ :: _, [] => none
  | c :: lead, d :: text => if c = d then after? lead text else none

/-- `after?` splits the lead off and loses nothing. -/
theorem after?_eq_some_iff {lead text rest : List Char} :
    after? lead text = some rest ↔ text = lead ++ rest := by
  induction lead generalizing text with
  | nil => simp [after?]
  | cons c lead ih =>
      cases text with
      | nil => simp [after?]
      | cons d text =>
          by_cases h : c = d
          · subst h; simp [after?, ih]
          · simp [after?, h, Ne.symm h]

/-- `text` begins with `lead`. -/
def startsWith (lead text : List Char) : Bool := (after? lead text).isSome

/-- A line without the carriage return at its end, if it has one there. -/
def dropReturn (line : List Char) : List Char :=
  if line.getLast? = some '\r' then line.dropLast else line

/-- The lines of `text`. -/
def lines (text : List Char) : List (List Char) :=
  match _found : text.dropWhile (· != '\n') with
  | [] => if text.isEmpty then [] else [text]
  | _ :: rest => dropReturn (text.takeWhile (· != '\n')) :: lines rest
termination_by text.length
decreasing_by
  have hlen := (List.dropWhile_sublist (· != '\n') (l := text)).length_le
  rw [_found, List.length_cons] at hlen
  omega

/-- A trimmed line that is neither empty nor a comment. -/
def isSignificant (line : List Char) : Bool :=
  !line.isEmpty && !startsWith ['%', '%'] line

/-- The first significant line of `text`, trimmed, and its index among the
    lines. -/
def firstSignificant? (text : List Char) : Option (List Char × Nat) :=
  ((lines text).map trim).zipIdx.find? fun entry => isSignificant entry.1

/-- The lines of the empty text. -/
theorem lines_nil : lines [] = [] := by
  rw [lines]; rfl

/-- A text without a line feed is one line. -/
theorem lines_of_not_mem {text : List Char} (h : '\n' ∉ text) (hne : text ≠ []) :
    lines text = [text] := by
  have hdrop : text.dropWhile (· != '\n') = [] := by
    have hall : ∀ c ∈ text, (c != '\n') = true := by
      intro c hc
      simp only [bne_iff_ne, ne_eq]
      rintro rfl
      exact h hc
    have happ : (text ++ []).dropWhile (· != '\n') = [] :=
      List.dropWhile_append_of_pos hall
    rwa [List.append_nil] at happ
  rw [lines]
  split
  · simp [hne]
  · next heq => rw [hdrop] at heq; exact nomatch heq

/-- A line feed ends the line before it. -/
theorem lines_append_newline {line rest : List Char} (h : '\n' ∉ line) :
    lines (line ++ '\n' :: rest) = dropReturn line :: lines rest := by
  have hall : ∀ c ∈ line, (c != '\n') = true := by
    intro c hc
    simp only [bne_iff_ne, ne_eq]
    rintro rfl
    exact h hc
  have hdrop : (line ++ '\n' :: rest).dropWhile (· != '\n') = '\n' :: rest := by
    rw [List.dropWhile_append_of_pos hall]; rfl
  have htake : (line ++ '\n' :: rest).takeWhile (· != '\n') = line := by
    rw [List.takeWhile_append_of_pos hall]; simp
  rw [lines]
  split
  · next heq => rw [hdrop] at heq; exact nomatch heq
  · next heq =>
      rw [hdrop] at heq
      obtain ⟨-, rfl⟩ := List.cons.inj heq
      rw [htake]

end Flowchart.Text
