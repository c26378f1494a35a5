import Flowchart.Proofs.Json.Scalar

/-! # Written values — a text is cut and read as the value it was written for

    Writing and reading meet at the tokens of a value.  Whatever the layout puts
    between the parts is passed over, so both layouts are cut into the same
    tokens (`cuts_write`); and these tokens take a reader over the whole value
    and no further (`runs_tokens`).  So every value without a part that no record
    holds is read back (`read?_compact`, `read?_pretty`). -/

namespace Flowchart.Json

/-! ## Cutting -/

/-- Cutting one token off. -/
theorem readTokens_eq (done : List Token) (text : List Char) :
    readTokens done text =
      if (text.dropWhile isSpace).isEmpty then some done.reverse
      else match Token.read? (text.dropWhile isSpace) with
        | none => none
        | some (token, rest) => readTokens (token :: done) rest := by
  rw [readTokens]
  split
  · rfl
  · split
    · next h => rw [h]
    · next h => rw [h]

/-- The text before `rest` is cut into `tokens`. -/
def Cuts (text : List Char) (tokens : List Token) (rest : List Char) : Prop :=
  ∀ done, readTokens done (text ++ rest) = readTokens (tokens.reverse ++ done) rest

namespace Cuts

variable {text text' rest : List Char} {tokens tokens' : List Token}

theorem nil : Cuts [] [] rest := fun _ => rfl

theorem append (h : Cuts text tokens (text' ++ rest)) (h' : Cuts text' tokens' rest) :
    Cuts (text ++ text') (tokens ++ tokens') rest := by
  intro done
  rw [List.append_assoc, h, h', List.reverse_append, List.append_assoc]

/-- Blanks are passed over. -/
theorem spaces (h : ∀ c ∈ text, isSpace c = true) : Cuts text [] rest := by
  intro done
  show readTokens done (text ++ rest) = readTokens done rest
  rw [readTokens_eq done (text ++ rest), readTokens_eq done rest, List.dropWhile_append_of_pos h]

/-- What is read as a token is cut as one. -/
theorem token {c : Char} {token : Token} (hspace : isSpace c = false)
    (h : Token.read? (c :: (text ++ rest)) = some (token, rest)) :
    Cuts (c :: text) [token] rest := by
  intro done
  have hdrop : (c :: text ++ rest).dropWhile isSpace = c :: (text ++ rest) := by
    rw [List.cons_append, List.dropWhile_cons_of_neg (by rw [hspace]; exact Bool.false_ne_true)]
  rw [readTokens_eq, hdrop, h]
  rfl

end Cuts

section Scalars

variable {rest : List Char}

theorem cuts_quote (text : String) : Cuts (quote text) [.string (some text)] rest := by
  refine Cuts.token (by decide) ?_
  show Token.read? ('"' :: (text.toList.flatMap escape ++ ['"'] ++ rest)) = _
  rw [List.append_assoc, List.singleton_append, Token.read?, readString?_quote]
  rfl

theorem cuts_toDigits (n : Nat) (hrest : Ends rest) :
    Cuts (Nat.toDigits 10 n) [.scalar (.number n)] rest := by
  have hread := readNumber?_toDigits n hrest
  obtain ⟨c, digits, hdigits, hdigit, -⟩ := exists_digit n
  have hother : ∀ d : Char, d.isDigit = false → c ≠ d := fun _ hd => ne_of_isDigit hdigit hd
  rw [hdigits] at hread ⊢
  refine Cuts.token ?_ ?_
  · simp only [isSpace, Bool.or_eq_false_iff, beq_eq_false_iff_ne]
    exact ⟨⟨⟨hother ' ' rfl, hother '\t' rfl⟩, hother '\n' rfl⟩, hother '\r' rfl⟩
  · have hread' : readNumber? (c :: (digits ++ rest)) = some (.number n, rest) := hread
    rw [Token.read?, hread']
    · rfl
    · exact List.cons_ne_nil _ _
    all_goals
      intro tail htail
      exact hother _ rfl (List.cons.inj htail).1

end Scalars

/-! ## Tokens -/

mutual

/-- The tokens of a value. -/
def tokens : Json → List Token
  | null => [.scalar null]
  | bool value => [.scalar (bool value)]
  | number n => [.scalar (number n)]
  | string text => [.string (some text)]
  | other => [.scalar null]
  | array [] => [.openArray, .closeArray]
  | array (item :: items) => .openArray :: (tokens item ++ itemTokens items ++ [.closeArray])
  | object [] => [.openObject, .closeObject]
  | object ((key, value) :: members) =>
      .openObject :: .string (some key) :: .colon
        :: (tokens value ++ memberTokens members ++ [.closeObject])

/-- The tokens of the items after the first. -/
def itemTokens : List Json → List Token
  | [] => []
  | item :: items => .comma :: (tokens item ++ itemTokens items)

/-- The tokens of the members after the first. -/
def memberTokens : List (String × Json) → List Token
  | [] => []
  | (key, value) :: members =>
      .comma :: .string (some key) :: .colon :: (tokens value ++ memberTokens members)

end

/-- Only blanks stand between the parts of a value. -/
structure Layout.Spaced (layout : Layout) : Prop where
  lineBreak : ∀ depth, ∀ c ∈ layout.lineBreak depth, isSpace c = true
  gap : ∀ c ∈ layout.gap, isSpace c = true

theorem Layout.spaced_compact : Layout.compact.Spaced where
  lineBreak _ _ hc := absurd hc List.not_mem_nil
  gap _ hc := absurd hc List.not_mem_nil

theorem Layout.spaced_pretty : Layout.pretty.Spaced where
  lineBreak depth c hc := by
    rcases List.mem_cons.1 hc with rfl | hblank
    · rfl
    · rw [List.eq_of_mem_replicate hblank]
      rfl
  gap c hc := by
    rw [List.mem_singleton.1 hc]
    rfl

/-! ### Where numbers end -/

theorem ends_nil : Ends [] := fun _ hc => nomatch hc

theorem ends_cons {c : Char} {rest : List Char} (h : goesOn c = false) : Ends (c :: rest) := by
  intro d hd
  rwa [← Option.some.inj hd]

/-- No number goes on with a blank. -/
theorem Ends.spaces {text rest : List Char} (h : ∀ c ∈ text, isSpace c = true) (hrest : Ends rest) :
    Ends (text ++ rest) := by
  cases text with
  | nil => exact hrest
  | cons c text =>
      have hspace : isSpace c = true := h c List.mem_cons_self
      refine ends_cons ?_
      simp only [isSpace, Bool.or_eq_true, beq_iff_eq] at hspace
      rcases hspace with ((rfl | rfl) | rfl) | rfl <;> rfl

/-- Further items begin with a comma. -/
theorem ends_writeItems (layout : Layout) (depth : Nat) (items : List Json) {rest : List Char}
    (hrest : Ends rest) : Ends (writeItems layout depth items ++ rest) := by
  cases items with
  | nil => exact hrest
  | cons item items => exact ends_cons rfl

/-- Further members begin with a comma. -/
theorem ends_writeMembers (layout : Layout) (depth : Nat) (members : List (String × Json))
    {rest : List Char} (hrest : Ends rest) : Ends (writeMembers layout depth members ++ rest) := by
  cases members with
  | nil => exact hrest
  | cons member members => exact ends_cons rfl

/-! ### Values -/

section Write

variable {layout : Layout} (hlayout : layout.Spaced)
include hlayout

/-- A key and the colon after it. -/
theorem cuts_key (key : String) {rest : List Char} :
    Cuts (quote key ++ (':' :: layout.gap)) [.string (some key), .colon] rest := by
  have hcolon : Cuts [':'] [.colon] (layout.gap ++ rest) := Cuts.token rfl rfl
  exact (cuts_quote key).append (hcolon.append (Cuts.spaces hlayout.gap))

/-- A closing bracket on its line. -/
theorem cuts_close {c : Char} {token : Token} (depth : Nat) (hspace : isSpace c = false)
    (h : ∀ rest, Token.read? (c :: rest) = some (token, rest)) {rest : List Char} :
    Cuts (layout.lineBreak depth ++ [c]) [token] rest :=
  (Cuts.spaces (hlayout.lineBreak depth)).append (Cuts.token hspace (h rest))

theorem ends_close {c : Char} (depth : Nat) (h : goesOn c = false) {rest : List Char} :
    Ends (layout.lineBreak depth ++ [c] ++ rest) := by
  rw [List.append_assoc]
  exact Ends.spaces (hlayout.lineBreak depth) (ends_cons h)

mutual

/-- **A WRITTEN VALUE IS CUT INTO ITS TOKENS**, in any layout and at any depth. -/
theorem cuts_write (depth : Nat) {rest : List Char} (hrest : Ends rest) :
    ∀ value : Json, Cuts (write layout depth value) (tokens value) rest
  | null => Cuts.token rfl rfl
  | bool true => Cuts.token rfl rfl
  | bool false => Cuts.token rfl rfl
  | number n => cuts_toDigits n hrest
  | string text => cuts_quote text
  | other => Cuts.token rfl rfl
  | array [] =>
      have hopen : Cuts ['['] [.openArray] ([']'] ++ rest) := Cuts.token rfl rfl
      hopen.append (Cuts.token rfl rfl)
  | array (item :: items) => by
      have hopen : ∀ rest, Cuts ['['] [.openArray] rest := fun _ => Cuts.token rfl rfl
      -- from the closing bracket back, since a value ends by what follows it
      have hclose : Cuts (layout.lineBreak depth ++ [']']) [.closeArray] rest :=
        cuts_close hlayout depth rfl fun _ => rfl
      have hends : Ends (layout.lineBreak depth ++ [']'] ++ rest) := ends_close hlayout depth rfl
      have hitems := (cuts_writeItems (depth + 1) hends items).append hclose
      have hfirst : Ends (writeItems layout (depth + 1) items
          ++ (layout.lineBreak depth ++ [']']) ++ rest) := by
        rw [List.append_assoc]
        exact ends_writeItems layout (depth + 1) items hends
      have hall := (hopen _).append ((Cuts.spaces (hlayout.lineBreak (depth + 1))).append
        ((cuts_write (depth + 1) hfirst item).append hitems))
      rw [write, tokens]
      simpa only [List.append_assoc, List.cons_append, List.nil_append] using hall
  | object [] =>
      have hopen : Cuts ['\x7b'] [.openObject] (['\x7d'] ++ rest) := Cuts.token rfl rfl
      hopen.append (Cuts.token rfl rfl)
  | object ((key, value) :: members) => by
      have hopen : ∀ rest, Cuts ['\x7b'] [.openObject] rest := fun _ => Cuts.token rfl rfl
      have hclose : Cuts (layout.lineBreak depth ++ ['\x7d']) [.closeObject] rest :=
        cuts_close hlayout depth rfl fun _ => rfl
      have hends : Ends (layout.lineBreak depth ++ ['\x7d'] ++ rest) :=
        ends_close hlayout depth rfl
      have hmembers := (cuts_writeMembers (depth + 1) hends members).append hclose
      have hfirst : Ends (writeMembers layout (depth + 1) members
          ++ (layout.lineBreak depth ++ ['\x7d']) ++ rest) := by
        rw [List.append_assoc]
        exact ends_writeMembers layout (depth + 1) members hends
      have hall := (hopen _).append ((Cuts.spaces (hlayout.lineBreak (depth + 1))).append
        ((cuts_key hlayout key).append ((cuts_write (depth + 1) hfirst value).append hmembers)))
      rw [write, tokens]
      simpa only [List.append_assoc, List.cons_append, List.nil_append] using hall

theorem cuts_writeItems (depth : Nat) {rest : List Char} (hrest : Ends rest) :
    ∀ items : List Json, Cuts (writeItems layout depth items) (itemTokens items) rest
  | [] => Cuts.nil
  | item :: items => by
      have hcomma : ∀ rest, Cuts [','] [.comma] rest := fun _ => Cuts.token rfl rfl
      have hitem := cuts_write depth (ends_writeItems layout depth items hrest) item
      have hall := (hcomma _).append ((Cuts.spaces (hlayout.lineBreak depth)).append
        (hitem.append (cuts_writeItems depth hrest items)))
      rw [writeItems, itemTokens]
      simpa only [List.append_assoc, List.cons_append, List.nil_append] using hall

theorem cuts_writeMembers (depth : Nat) {rest : List Char} (hrest : Ends rest) :
    ∀ members : List (String × Json),
      Cuts (writeMembers layout depth members) (memberTokens members) rest
  | [] => Cuts.nil
  | (key, value) :: members => by
      have hcomma : ∀ rest, Cuts [','] [.comma] rest := fun _ => Cuts.token rfl rfl
      have hvalue := cuts_write depth (ends_writeMembers layout depth members hrest) value
      have hall := (hcomma _).append ((Cuts.spaces (hlayout.lineBreak depth)).append
        ((cuts_key hlayout key).append
          (hvalue.append (cuts_writeMembers depth hrest members))))
      rw [writeMembers, memberTokens]
      simpa only [List.append_assoc, List.cons_append, List.nil_append] using hall

end

end Write

/-! ## Reading -/

/-- A value without a part that no record holds. -/
inductive Whole : Json → Prop
  | null : Whole .null
  | bool (value : Bool) : Whole (.bool value)
  | number (n : Nat) : Whole (.number n)
  | string (text : String) : Whole (.string text)
  | array {items : List Json} (h : ∀ item ∈ items, Whole item) : Whole (.array items)
  | object {members : List (String × Json)} (h : ∀ member ∈ members, Whole member.2) :
      Whole (.object members)

/-- The tokens take one reader to the other. -/
def Reader.Runs (r : Reader) (tokens : List Token) (r' : Reader) : Prop :=
  tokens.foldlM Reader.step r = some r'

namespace Reader.Runs

variable {r r' r'' : Reader} {tokens tokens' : List Token} {token : Token}

theorem nil : r.Runs [] r := rfl

theorem append (h : r.Runs tokens r') (h' : r'.Runs tokens' r'') :
    r.Runs (tokens ++ tokens') r'' := by
  rw [Runs, List.foldlM_append, h]
  exact h'

theorem cons (h : r.step token = some r') (h' : r'.Runs tokens r'') :
    r.Runs (token :: tokens) r'' := by
  rw [Runs, List.foldlM_cons, h]
  exact h'

end Reader.Runs

/-- A list is found again if each of its entries is. -/
theorem mapM_map_eq_some {α β : Type} {encode : α → β} {decode : β → Option α} {entries : List α}
    (h : ∀ entry ∈ entries, decode (encode entry) = some entry) :
    (entries.map encode).mapM decode = some entries := by
  induction entries with
  | nil => rfl
  | cons entry entries ih =>
      have hentries := ih fun later hlater => h later (List.mem_cons_of_mem _ hlater)
      rw [List.map_cons, List.mapM_cons, h entry List.mem_cons_self, hentries]
      rfl

/-- Members whose keys have texts make an object. -/
theorem ofMembers_map (members : List (String × Json)) :
    ofMembers (members.map fun member => (some member.1, member.2)) = .object members := by
  have hkeys : (members.map fun member => (some member.1, member.2)).mapM
      (fun (member : Member) => member.1.map fun key => (key, member.2)) = some members :=
    mapM_map_eq_some fun _ _ => rfl
  rw [ofMembers, hkeys]

/-- No value begins with the end of an array. -/
theorem exists_tokens (value : Json) :
    ∃ token rest, tokens value = token :: rest ∧ token ≠ .closeArray := by
  match value with
  | null | bool _ | number _ | string _ | other | array [] | array (_ :: _) | object []
  | object ((_, _) :: _) =>
      rw [tokens]
      exact ⟨_, _, rfl, nofun⟩

/-- So the first item of an array is begun like any other value. -/
theorem runs_firstItem {contexts : List Context} {item : Json} {r : Reader}
    (h : Reader.Runs ⟨.array [] :: contexts, .value⟩ (tokens item) r) :
    Reader.Runs ⟨contexts, .firstItem⟩ (tokens item) r := by
  obtain ⟨token, rest, htokens, htoken⟩ := exists_tokens item
  have hstep : Reader.step ⟨contexts, .firstItem⟩ token
      = Reader.step ⟨.array [] :: contexts, .value⟩ token := by
    cases token with
    | closeArray => exact absurd rfl htoken
    | openArray | openObject | closeObject | comma | colon | string | scalar => rfl
  rw [htokens, Reader.Runs, List.foldlM_cons] at h ⊢
  rw [hstep]
  exact h

open Reader (Runs)

mutual

/-- **A READER READS A VALUE** off its tokens, and no further. -/
theorem runs_tokens (contexts : List Context) {value : Json} (h : value.Whole) :
    Runs ⟨contexts, .value⟩ (tokens value) ⟨contexts, .after value⟩ := by
  match value, h with
  | null, _ => exact Runs.cons rfl Runs.nil
  | bool _, _ => exact Runs.cons rfl Runs.nil
  | number _, _ => exact Runs.cons rfl Runs.nil
  | string _, _ => exact Runs.cons rfl Runs.nil
  | array [], _ => exact Runs.cons rfl (Runs.cons rfl Runs.nil)
  | array (item :: items), .array h =>
      have hitem := runs_tokens (.array [] :: contexts) (h item List.mem_cons_self)
      have hitems := runs_itemTokens contexts [] item fun later hlater =>
        h later (List.mem_cons_of_mem _ hlater)
      rw [tokens, List.append_assoc]
      exact Runs.cons rfl ((runs_firstItem hitem).append hitems)
  | object [], _ => exact Runs.cons rfl (Runs.cons rfl Runs.nil)
  | object ((key, value) :: members), .object h =>
      have hvalue := runs_tokens (.object [] (some key) :: contexts)
        (h (key, value) List.mem_cons_self)
      have hmembers := runs_memberTokens contexts [] key value fun later hlater =>
        h later (List.mem_cons_of_mem _ hlater)
      rw [tokens, List.append_assoc]
      exact Runs.cons rfl (Runs.cons rfl (Runs.cons rfl (hvalue.append hmembers)))

/-- The items after `last` and the end of the array, with the items before `last`
    in reverse. -/
theorem runs_itemTokens (contexts : List Context) (done : List Json) (last : Json)
    {items : List Json} (h : ∀ item ∈ items, item.Whole) :
    Runs ⟨.array done :: contexts, .after last⟩ (itemTokens items ++ [.closeArray])
      ⟨contexts, .after (.array (done.reverse ++ last :: items))⟩ := by
  match items with
  | [] =>
      refine Runs.cons ?_ Runs.nil
      show some (Reader.mk contexts (.after (.array (last :: done).reverse))) = _
      rw [List.reverse_cons]
  | item :: items =>
      have hitem := runs_tokens (.array (last :: done) :: contexts) (h item List.mem_cons_self)
      have hitems := runs_itemTokens contexts (last :: done) item fun later hlater =>
        h later (List.mem_cons_of_mem _ hlater)
      rw [List.reverse_cons, List.append_assoc, List.singleton_append] at hitems
      rw [itemTokens, List.cons_append, List.append_assoc]
      exact Runs.cons rfl (hitem.append hitems)

/-- The members after `last` and the end of the object, with the members before
    in reverse. -/
theorem runs_memberTokens (contexts : List Context) (done : List (String × Json)) (key : String)
    (last : Json) {members : List (String × Json)} (h : ∀ member ∈ members, member.2.Whole) :
    Runs ⟨.object (done.map fun member => (some member.1, member.2)) (some key) :: contexts,
        .after last⟩ (memberTokens members ++ [.closeObject])
      ⟨contexts, .after (.object (done.reverse ++ (key, last) :: members))⟩ := by
  match members with
  | [] =>
      refine Runs.cons ?_ Runs.nil
      -- all keys were read from texts, so the members make an object
      have hdone := ofMembers_map ((key, last) :: done).reverse
      rw [List.map_reverse] at hdone
      refine congrArg (fun value => some (Reader.mk contexts (.after value))) (hdone.trans ?_)
      rw [List.reverse_cons]
  | (next, value) :: members =>
      have hvalue := runs_tokens
        (.object (((key, last) :: done).map fun member => (some member.1, member.2)) (some next)
          :: contexts) (h (next, value) List.mem_cons_self)
      have hmembers := runs_memberTokens contexts ((key, last) :: done) next value
        fun later hlater => h later (List.mem_cons_of_mem _ hlater)
      rw [List.reverse_cons, List.append_assoc, List.singleton_append] at hmembers
      rw [memberTokens, List.cons_append, List.cons_append, List.cons_append, List.append_assoc]
      exact Runs.cons rfl (Runs.cons rfl (Runs.cons rfl (hvalue.append hmembers)))

end

/-! ## Texts -/

/-- A written value is read back in every layout that puts blanks between its
    parts. -/
theorem readChars?_write {layout : Layout} (hlayout : layout.Spaced) {value : Json}
    (h : value.Whole) : readChars? (write layout 0 value) = some value := by
  have hcuts := cuts_write hlayout 0 ends_nil value []
  rw [List.append_nil, List.append_nil] at hcuts
  have hruns : (tokens value).foldlM Reader.step ⟨[], .value⟩ = some ⟨[], .after value⟩ :=
    runs_tokens [] h
  have hend : readTokens (tokens value).reverse [] = some (tokens value) := by
    rw [readTokens_eq, List.reverse_reverse]
    rfl
  simp only [readChars?, hcuts, hend, hruns]
  rfl

theorem read?_compact {value : Json} (h : value.Whole) : read? value.compact = some value := by
  rw [read?, compact, String.toList_ofList, readChars?_write Layout.spaced_compact h]

theorem read?_pretty {value : Json} (h : value.Whole) : read? value.pretty = some value := by
  rw [read?, pretty, String.toList_ofList, readChars?_write Layout.spaced_pretty h]

end Flowchart.Json
