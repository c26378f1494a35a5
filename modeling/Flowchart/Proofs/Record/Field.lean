import Flowchart.Graph.Record
import Flowchart.Proofs.Json.Written

/-! # Fields — what is written into a record is found in it

    A value stands for what it is decoded to (`Json.StandsFor`).  Texts, numbers,
    names, lists and maps are written as values that stand for them.  An object
    whose members are fields in their order is a record as it stands
    (`record?_of_sublist`), so an array is read as the object that gives its items
    their names (`record?_array`), and a member that stands for something is a
    field, whether it must be there, may be left out, or has a default.  The other
    way round, a record holds each field once (`nodup_of_record?`), and every part
    of what was read was itself decoded from some value, so an index that was read
    is below the bound. -/

namespace Flowchart

namespace Json

/-- The value is whole and is decoded to `a`. -/
structure StandsFor {α : Type} (decode : Json → Option α) (value : Json) (a : α) : Prop where
  whole : value.Whole
  decoded : decode value = some a

namespace StandsFor

variable {α : Type} {decode : Json → Option α} {encode : α → Json}

theorem text (s : String) : StandsFor text? (.string s) s := ⟨.string s, rfl⟩

theorem bool (b : Bool) : StandsFor bool? (.bool b) b := ⟨.bool b, rfl⟩

theorem index {n : Nat} (h : n < indexBound) : StandsFor index? (.number n) n where
  whole := .number n
  decoded := by rw [index?, if_pos h]

/-- A name stands for what it names. -/
theorem choice {ofName? : String → Option α} {name : String} {a : α} (h : ofName? name = some a) :
    StandsFor (choice? ofName?) (.string name) a := ⟨.string name, h⟩

theorem list {entries : List α} (h : ∀ a ∈ entries, StandsFor decode (encode a) a) :
    StandsFor (list? decode) (.array (entries.map encode)) entries where
  whole := by
    refine .array fun value hvalue => ?_
    obtain ⟨a, ha, rfl⟩ := List.mem_map.1 hvalue
    exact (h a ha).whole
  decoded := mapM_map_eq_some fun a ha => (h a ha).decoded

theorem texts (values : List String) : StandsFor (list? text?) (texts values) values :=
  list fun s _ => text s

theorem numbers {values : List Nat} (h : ∀ n ∈ values, n < indexBound) :
    StandsFor (list? index?) (numbers values) values :=
  list fun n hn => index (h n hn)

end StandsFor

/-! ## Members -/

@[simp] theorem member?_nil (name : String) : (object []).member? name = none := rfl

@[simp] theorem member?_cons (name key : String) (value : Json) (members : List (String × Json)) :
    (object ((key, value) :: members)).member? name
      = if name = key then some value else (object members).member? name := by
  show List.lookup name ((key, value) :: members) = _
  rw [List.lookup_cons]
  by_cases h : name = key
  · rw [if_pos h, beq_iff_eq.2 h]
  · rw [if_neg h, beq_eq_false_iff_ne.2 h]
    rfl

/-- A member that may be left out, before others. -/
@[simp] theorem member?_present_append {α : Type} (name key : String) (encode : α → Json)
    (field : Option α) (members : List (String × Json)) :
    (object (present key encode field ++ members)).member? name
      = if name = key then (field.map encode).or ((object members).member? name)
        else (object members).member? name := by
  cases field with
  | none => rw [present, List.nil_append, Option.map_none, Option.none_or, ite_self]
  | some a => rw [present, List.singleton_append, member?_cons, Option.map_some, Option.some_or]

/-- A member that may be left out, at the end. -/
@[simp] theorem member?_present {α : Type} (name key : String) (encode : α → Json)
    (field : Option α) :
    (object (present key encode field)).member? name
      = if name = key then field.map encode else none := by
  have happend := member?_present_append name key encode field []
  rwa [List.append_nil, member?_nil, Option.or_none] at happend

/-- Members that may be left out are whole. -/
theorem whole_present {α : Type} {name : String} {encode : α → Json} {field : Option α}
    (h : ∀ a ∈ field, (encode a).Whole) :
    ∀ member ∈ present name encode field, member.2.Whole := by
  cases field with
  | none => exact fun _ hmember => absurd hmember List.not_mem_nil
  | some a =>
      intro member hmember
      rw [List.mem_singleton.1 hmember]
      exact h a rfl

/-! ## Records -/

section Record

variable {names : List String} {members : List (String × Json)} {items : List Json}
  {value record : Json}

/-- Members that are fields in their order make a record as they stand. -/
theorem record?_of_sublist (hnames : names.Nodup) (h : (members.map (·.1)).Sublist names) :
    (object members).record? names = some (object members) := by
  have hknown : members.filter (fun member => names.contains member.1) = members := by
    rw [List.filter_eq_self]
    intro member hmember
    exact List.contains_iff_mem.2 (h.subset (List.mem_map_of_mem hmember))
  rw [record?]
  simp only [hknown, if_pos (hnames.sublist h)]

/-- The names that the items of an array take. -/
theorem map_fst_zip_sublist (names : List String) (items : List Json) :
    ((names.zip items).map (·.1)).Sublist names := by
  induction names generalizing items with
  | nil => exact List.nil_sublist _
  | cons name names ih =>
      cases items with
      | nil => exact List.nil_sublist _
      | cons item items => exact (ih items).cons_cons name

/-- **AN ARRAY IS A RECORD** like the object that gives its items their names. -/
theorem record?_array (hnames : names.Nodup) (h : items.length ≤ names.length) :
    (array items).record? names = (object (names.zip items)).record? names := by
  rw [record?_of_sublist hnames (map_fst_zip_sublist names items), record?, if_pos h]

/-- **NO FIELD IS THERE TWICE** in a record, and no member is that is not a field. -/
theorem nodup_of_record? (hnames : names.Nodup) (h : value.record? names = some record) :
    ∃ fields, record = object fields ∧ (fields.map (·.1)).Nodup ∧
      ∀ field ∈ fields, field.1 ∈ names := by
  cases value with
  | null | bool | number | string | other => exact nomatch h
  | array items =>
      rw [record?] at h
      split at h
      · obtain rfl := Option.some.inj h
        exact ⟨names.zip items, rfl, hnames.sublist (map_fst_zip_sublist names items),
          fun field hfield => (List.of_mem_zip hfield).1⟩
      · exact nomatch h
  | object members =>
      rw [record?] at h
      split at h
      · next hnodup =>
          obtain rfl := Option.some.inj h
          refine ⟨_, rfl, hnodup, fun field hfield => ?_⟩
          exact List.contains_iff_mem.1 (List.mem_filter.1 hfield).2
      · exact nomatch h

/-- An edge in an array that ends early is one; an object that gives its source twice
    is none. -/
example :
    Edge.ofJson? (.array [.string "a", .string "b"]) = some ⟨"a", "b", none, .arrow⟩ ∧
      Edge.ofJson? (.object [("source", .string "a"), ("target", .string "b"),
        ("source", .string "a")]) = none := by
  decide +kernel

/-- The name of a member that may be left out is there once or not at all. -/
theorem map_fst_present_sublist {α : Type} (name : String) (encode : α → Json) (field : Option α) :
    ((present name encode field).map (·.1)).Sublist [name] := by
  cases field with
  | none => exact List.nil_sublist _
  | some a => exact List.Sublist.refl _

end Record

section Field

variable {α : Type} {decode : Json → Option α} {name : String} {record value : Json} {a : α}

theorem required?_of_member? (h : StandsFor decode value a)
    (hmember : record.member? name = some value) : record.required? name decode = some a := by
  rw [required?, hmember]
  exact h.decoded

theorem defaulted?_of_member? {fallback : α} (h : StandsFor decode value a)
    (hmember : record.member? name = some value) :
    record.defaulted? name decode fallback = some a := by
  rw [defaulted?, hmember]
  exact h.decoded

/-- A field that is left out when absent.  Null stands for nothing that could be
    mistaken for an absent field. -/
theorem optional?_of_member? {encode : α → Json} {field : Option α}
    (h : ∀ a ∈ field, StandsFor decode (encode a) a) (hnull : decode null = none)
    (hmember : record.member? name = field.map encode) :
    record.optional? name decode = some field := by
  cases field with
  | none => rw [optional?, hmember]; rfl
  | some a =>
      have hdecoded := (h a rfl).decoded
      have hpresent : encode a ≠ null := by
        intro heq
        rw [heq, hnull] at hdecoded
        exact nomatch hdecoded
      rw [optional?, hmember, Option.map_some]
      split
      · next heq => exact nomatch heq
      · next heq => exact absurd (Option.some.inj heq) hpresent
      · next heq => rw [← Option.some.inj heq, hdecoded, Option.map_some]

end Field

/-! ## What is read -/

/-- Every entry of a list that is read was read off an item. -/
theorem exists_of_mem_list? {α : Type} {decode : Json → Option α} {value : Json} {entries : List α}
    (h : list? decode value = some entries) {a : α} (ha : a ∈ entries) :
    ∃ item, decode item = some a := by
  cases value with
  | null | bool | number | string | object | other => exact nomatch h
  | array items =>
      rw [list?] at h
      induction items generalizing entries with
      | nil =>
          obtain rfl := Option.some.inj h
          exact absurd ha List.not_mem_nil
      | cons item items ih =>
          rw [List.mapM_cons] at h
          obtain ⟨first, hfirst, hitems⟩ := Option.bind_eq_some_iff.1 h
          obtain ⟨later, hlater, heq⟩ := Option.bind_eq_some_iff.1 hitems
          obtain rfl := Option.some.inj heq
          rcases List.mem_cons.1 ha with rfl | hmem
          · exact ⟨item, hfirst⟩
          · exact ih hmem hlater

/-- A number that is read as an index is one. -/
theorem lt_indexBound_of_index? {value : Json} {n : Nat} (h : index? value = some n) :
    n < indexBound := by
  cases value with
  | number m =>
      rw [index?] at h
      split at h
      · next hm => rwa [← Option.some.inj h]
      · exact nomatch h
  | null | bool | string | array | object | other => exact nomatch h

theorem lt_indexBound_of_mem_list? {value : Json} {values : List Nat}
    (h : list? index? value = some values) : ∀ n ∈ values, n < indexBound := by
  intro n hn
  obtain ⟨item, hitem⟩ := exists_of_mem_list? h hn
  exact lt_indexBound_of_index? hitem

/-- A required field is read off a member. -/
theorem exists_of_required? {α : Type} {decode : Json → Option α} {name : String} {record : Json}
    {a : α} (h : record.required? name decode = some a) : ∃ value, decode value = some a := by
  rw [required?] at h
  split at h
  · exact nomatch h
  · next value _ => exact ⟨value, h⟩

/-- An optional field that is there is read off a member. -/
theorem exists_of_optional? {α : Type} {decode : Json → Option α} {name : String} {record : Json}
    {a : α} (h : record.optional? name decode = some (some a)) :
    ∃ value, decode value = some a := by
  rw [optional?] at h
  split at h
  · exact nomatch Option.some.inj h
  · exact nomatch Option.some.inj h
  · next value _ _ =>
      obtain ⟨b, hb, heq⟩ := Option.map_eq_some_iff.1 h
      exact ⟨value, Option.some.inj heq ▸ hb⟩

end Json

/-! ## Maps -/

/-- A map is its list of entries. -/
theorem ofList_toList {α : Type} (m : Std.ExtTreeMap String α) :
    Std.ExtTreeMap.ofList m.toList = m := by
  refine Std.ExtTreeMap.ext_getElem? fun key => ?_
  cases hkey : m[key]? with
  | none =>
      refine Std.ExtTreeMap.getElem?_ofList_of_contains_eq_false ?_
      rw [List.contains_eq_mem, decide_eq_false_iff_not, List.mem_map]
      rintro ⟨entry, hentry, rfl⟩
      rw [Std.ExtTreeMap.mem_toList_iff_getElem?_eq_some.1 hentry] at hkey
      exact nomatch hkey
  | some a =>
      exact Std.ExtTreeMap.getElem?_ofList_of_mem (Std.ReflCmp.compare_self)
        Std.ExtTreeMap.distinct_keys_toList (Std.ExtTreeMap.mem_toList_iff_getElem?_eq_some.2 hkey)

theorem Json.StandsFor.map {α : Type} {decode : Json → Option α} {encode : α → Json}
    (h : ∀ a, StandsFor decode (encode a) a) (m : Std.ExtTreeMap String α) :
    StandsFor (mapOfJson? decode) (mapToJson encode m) m where
  whole := by
    refine .object fun member hmember => ?_
    obtain ⟨entry, -, rfl⟩ := List.mem_map.1 hmember
    exact (h entry.2).whole
  decoded := by
    have hentries : (m.toList.map fun entry => (entry.1, encode entry.2)).mapM
        (fun member => (decode member.2).map fun v => (member.1, v)) = some m.toList := by
      refine mapM_map_eq_some fun entry _ => ?_
      rw [(h entry.2).decoded]
      rfl
    have hmembers : (mapToJson encode m).members?
        = some (m.toList.map fun entry => (entry.1, encode entry.2)) := rfl
    simp only [mapOfJson?, hmembers, Option.bind_eq_bind, Option.bind_some, hentries]
    exact congrArg some (ofList_toList m)

end Flowchart
