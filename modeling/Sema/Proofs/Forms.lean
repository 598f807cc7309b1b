import Sema.Json.SpanForm
import Sema.Json.TypeForm

/-!
# The forms of types and positions

A type, a signature, a location or a span has many JSON forms: a tag with or without an empty
content, a record as an object or as an array, further fields anywhere in an object, and all of this
mixed at every depth. Here the forms are given by rules (`Ty.Form`, `Signature.Form`,
`Location.Form`, `Span.Form`) that say nothing about reading, and the readers are shown to accept
exactly them:

* `Ty.ofJson?_eq_some_iff` and its companions follow the recursion of the readers;
* `Decodes.of_exact` draws everything else from that and from one fact about writing: what is
  written is a form.
-/

namespace Sema

/-! ## 1. Fields -/

namespace Json

/-- One field is named `name`, and it has the value `j`. All other fields are free. -/
def Holds (name : String) (j : Json) (fields : List (String × Json)) : Prop :=
  ∃ before after, fields = before ++ (name, j) :: after ∧ ∀ f ∈ before ++ after, f.1 ≠ name

variable {name : String} {j : Json} {fields rest : List (String × Json)}

@[simp]
theorem occurrences_nil (name : String) : occurrences name [] = 0 := rfl

theorem occurrences_cons (name key : String) (j : Json) (rest : List (String × Json)) :
    occurrences name ((key, j) :: rest) =
      occurrences name rest + if key = name then 1 else 0 := by
  simp [occurrences, List.countP_cons]

theorem occurrences_eq_zero : occurrences name fields = 0 ↔ ∀ f ∈ fields, f.1 ≠ name := by
  simp [occurrences, List.countP_eq_zero]

@[simp]
theorem not_holds_nil : ¬ Holds name j [] := by
  intro h
  obtain ⟨before, after, h, -⟩ := h
  simp at h

/-- A field of the wanted name at the head is the wanted one, and the only one. -/
theorem holds_cons_self {content : Json} :
    Holds name j ((name, content) :: rest) ↔ content = j ∧ ∀ f ∈ rest, f.1 ≠ name := by
  constructor
  · intro h
    obtain ⟨before, after, h, hothers⟩ := h
    cases before with
    | nil =>
        obtain ⟨⟨-, rfl⟩, rfl⟩ := by simpa using h
        exact ⟨rfl, hothers⟩
    | cons f before =>
        obtain ⟨rfl, -⟩ := by simpa using h
        exact absurd rfl (hothers (name, content) (by simp))
  · intro h
    obtain ⟨rfl, hrest⟩ := h
    exact ⟨[], rest, rfl, hrest⟩

/-- A field of another name at the head is passed over. -/
theorem holds_cons_of_ne {key : String} {content : Json} (hne : key ≠ name) :
    Holds name j ((key, content) :: rest) ↔ Holds name j rest := by
  constructor
  · intro h
    obtain ⟨before, after, h, hothers⟩ := h
    cases before with
    | nil =>
        obtain ⟨⟨rfl, -⟩, -⟩ := by simpa using h
        exact absurd rfl hne
    | cons f before =>
        obtain ⟨rfl, rfl⟩ := by simpa using h
        exact ⟨before, after, rfl, fun g hg => hothers g (List.mem_cons_of_mem _ hg)⟩
  · intro h
    obtain ⟨before, after, rfl, hothers⟩ := h
    refine ⟨(key, content) :: before, after, rfl, ?_⟩
    intro f hf
    rcases List.mem_cons.mp hf with rfl | hf
    · exact hne
    · exact hothers f hf

/-- A field of another name at the head does not count for a lookup. -/
theorem lookup_cons_of_ne {key : String} (hne : key ≠ name) (content : Json) :
    ((key, content) :: rest).lookup name = rest.lookup name := by
  have hbeq : (name == key) = false := by simpa using Ne.symm hne
  rw [List.lookup_cons, hbeq]

/-- A lookup among fields that name `name` once finds that field. -/
theorem holds_iff_lookup :
    Holds name j fields ↔ occurrences name fields = 1 ∧ fields.lookup name = some j := by
  induction fields with
  | nil => simp
  | cons f rest ih =>
      obtain ⟨key, content⟩ := f
      by_cases hkey : key = name
      · subst hkey
        rw [holds_cons_self, occurrences_cons, ← occurrences_eq_zero]
        simp [and_comm]
      · rw [holds_cons_of_ne hkey, ih, occurrences_cons, lookup_cons_of_ne hkey]
        simp [hkey]

/-- **The field that `field?` finds** is the one that is there once. -/
theorem field?_eq_some_iff : field? name fields = some j ↔ Holds name j fields := by
  rw [holds_iff_lookup, field?]
  split <;> simp_all

end Json

open Json (Holds)

/-! ## 2. The rules -/

/-- The tag of a plain type. -/
def Ty.tag? : Ty → Option String
  | bool => some "Bool"
  | int => some "Int"
  | float => some "Float"
  | str => some "String"
  | void => some "Void"
  | type => some "Type"
  | any => some "Any"
  | list _ | function _ _ => none

mutual

/-- The forms of a type. -/
inductive Ty.Form : Ty → Json → Prop where
  | tag {t : Ty} {x : String} (h : t.tag? = some x) : Ty.Form t (.string x)
  | empty {t : Ty} {x : String} (h : t.tag? = some x) : Ty.Form t (.object [(x, .null)])
  | list {t : Ty} {j : Json} (h : Ty.Form t j) : Ty.Form (.list t) (.object [("List", j)])
  | function {s : Signature} {j : Json} (h : Signature.Form s j) :
      Ty.Form (.function s.parameters s.result) (.object [("Function", j)])

/-- The forms of a signature. -/
inductive Signature.Form : Signature → Json → Prop where
  | object {s : Signature} {ps : List Json} {r : Json} {fields : List (String × Json)}
      (hparameters : Holds "parameters" (.array ps) fields) (hresult : Holds "return_type" r fields)
      (hps : Ty.Forms s.parameters ps) (hr : Ty.Form s.result r) :
      Signature.Form s (.object fields)
  | array {s : Signature} {ps : List Json} {r : Json}
      (hps : Ty.Forms s.parameters ps) (hr : Ty.Form s.result r) :
      Signature.Form s (.array [.array ps, r])

/-- One form each of some types, in order. -/
inductive Ty.Forms : List Ty → List Json → Prop where
  | nil : Ty.Forms [] []
  | cons {t : Ty} {j : Json} {ts : List Ty} {js : List Json} (h : Ty.Form t j)
      (hs : Ty.Forms ts js) : Ty.Forms (t :: ts) (j :: js)

end

/-- The forms of a count: the integers from 0 to 2^64 - 1. -/
inductive CountForm : UInt64 → Json → Prop where
  | int (n : Nat) (h : n < UInt64.size) : CountForm (.ofNat n) (.int n)

/-- The forms of a location. -/
inductive Location.Form : Location → Json → Prop where
  | object {l : Location} {line column offset : Json} {fields : List (String × Json)}
      (hline : Holds "line" line fields) (hcolumn : Holds "column" column fields)
      (hoffset : Holds "offset" offset fields) (h₁ : CountForm l.line line)
      (h₂ : CountForm l.column column) (h₃ : CountForm l.offset offset) :
      Location.Form l (.object fields)
  | array {l : Location} {line column offset : Json} (h₁ : CountForm l.line line)
      (h₂ : CountForm l.column column) (h₃ : CountForm l.offset offset) :
      Location.Form l (.array [line, column, offset])

/-- The forms of a span. -/
inductive Span.Form : Span → Json → Prop where
  | object {s : Span} {start stop : Json} {fields : List (String × Json)}
      (hstart : Holds "start" start fields) (hstop : Holds "end" stop fields)
      (h₁ : Location.Form s.start start) (h₂ : Location.Form s.stop stop) :
      Span.Form s (.object fields)
  | array {s : Span} {start stop : Json} (h₁ : Location.Form s.start start)
      (h₂ : Location.Form s.stop stop) : Span.Form s (.array [start, stop])

/-- `read` and `write` decode and encode the values whose forms are given by `Form`. -/
structure Decodes {α : Type} (read : Json → Option α) (write : α → Json)
    (Form : α → Json → Prop) : Prop where
  /-- What is read from a value is exactly what the value is a form of. -/
  accepts : ∀ j x, read j = some x ↔ Form x j
  /-- What is no form of anything is refused. -/
  refuses : ∀ j, read j = none ↔ ∀ x, ¬ Form x j
  /-- What is written is read back. -/
  restores : ∀ x, read (write x) = some x
  /-- A value is a form of one thing at most. -/
  unique : ∀ j x y, Form x j → Form y j → x = y
  /-- Writing what was read and reading it again changes nothing. -/
  settles : ∀ j, (read j).bind (fun x => read (write x)) = read j

/-- **A reader that accepts exactly the forms, and a writer of forms, belong together.** -/
theorem Decodes.of_exact {α : Type} {read : Json → Option α} {write : α → Json}
    {Form : α → Json → Prop} (hread : ∀ j x, read j = some x ↔ Form x j)
    (hwrite : ∀ x, Form x (write x)) : Decodes read write Form where
  accepts := hread
  refuses j := by
    rw [Option.eq_none_iff_forall_ne_some]
    exact forall_congr' fun x => not_congr (hread j x)
  restores x := (hread _ _).mpr (hwrite x)
  unique j x y hx hy := by
    have heq : some x = some y := ((hread j x).mpr hx).symm.trans ((hread j y).mpr hy)
    exact Option.some.inj heq
  settles j := by
    have hrestores : (fun x => read (write x)) = some := funext fun x => (hread _ _).mpr (hwrite x)
    rw [hrestores]
    exact Option.bind_fun_some (read j)

/-! ## 3. Types and signatures -/

namespace Ty

/-- A tag is read as the plain type that has it. -/
theorem ofTag?_eq_some_iff {x : String} {t : Ty} : ofTag? x = some t ↔ t.tag? = some x := by
  constructor
  · intro h
    unfold ofTag? at h
    split at h <;> cases h <;> rfl
  · intro h
    cases t <;> cases h <;> rfl

/-- The forms of a string: it is a tag. -/
theorem form_string {t : Ty} {x : String} : Form t (.string x) ↔ t.tag? = some x :=
  ⟨fun h => by cases h; assumption, .tag⟩

/-- The forms of an object with one field: its name is a tag and its value nothing, or it gives the
    content of a list or of a function. -/
theorem form_object {t : Ty} {x : String} {j : Json} :
    Form t (.object [(x, j)]) ↔
      (t.tag? = some x ∧ j = .null) ∨ (x = "List" ∧ ∃ a, Form a j ∧ list a = t) ∨
        (x = "Function" ∧ ∃ s : Signature, s.Form j ∧ s.ty = t) := by
  constructor
  · intro h
    cases h with
    | empty h => exact .inl ⟨h, rfl⟩
    | list h => exact .inr (.inl ⟨rfl, _, h, rfl⟩)
    | function h => exact .inr (.inr ⟨rfl, _, h, rfl⟩)
  · intro h
    rcases h with ⟨h, rfl⟩ | ⟨rfl, a, h, rfl⟩ | ⟨rfl, s, h, rfl⟩
    · exact .empty h
    · exact .list h
    · exact .function h

@[simp]
theorem tag?_ne_list (t : Ty) : t.tag? ≠ some "List" := by
  cases t <;> simp [tag?]

@[simp]
theorem tag?_ne_function (t : Ty) : t.tag? ≠ some "Function" := by
  cases t <;> simp [tag?]

theorem forms_nil {ts : List Ty} : Forms ts [] ↔ ts = [] :=
  ⟨fun h => by cases h; rfl, fun h => h ▸ .nil⟩

theorem forms_cons {ts : List Ty} {j : Json} {js : List Json} :
    Forms ts (j :: js) ↔ ∃ a, Form a j ∧ ∃ as, Forms as js ∧ a :: as = ts := by
  constructor
  · intro h
    cases h with
    | cons h hs => exact ⟨_, h, _, hs, rfl⟩
  · intro h
    obtain ⟨a, h, as, hs, rfl⟩ := h
    exact .cons h hs

/-- The forms of a signature by an array. -/
theorem signature_form_array {s : Signature} {ps : List Json} {r : Json} :
    s.Form (.array [.array ps, r]) ↔ ∃ ts, Forms ts ps ∧ ∃ a, Form a r ∧ ⟨ts, a⟩ = s := by
  constructor
  · intro h
    cases h with
    | array hps hr => exact ⟨_, hps, _, hr, rfl⟩
  · intro h
    obtain ⟨ts, hps, a, hr, rfl⟩ := h
    exact .array hps hr

/-- The forms of a signature by an object: both fields are there once. -/
theorem signature_form_object {s : Signature} {fields : List (String × Json)} :
    s.Form (.object fields) ↔
      (Json.occurrences "parameters" fields = 1 ∧ Json.occurrences "return_type" fields = 1) ∧
      ∃ ts, (∃ ps, fields.lookup "parameters" = some (.array ps) ∧ Forms ts ps) ∧
        ∃ a, (∃ r, fields.lookup "return_type" = some r ∧ Form a r) ∧ ⟨ts, a⟩ = s := by
  constructor
  · intro h
    cases h with
    | object hparameters hresult hps hr =>
        rw [Json.holds_iff_lookup] at hparameters hresult
        exact ⟨⟨hparameters.1, hresult.1⟩, _, ⟨_, hparameters.2, hps⟩, _, ⟨_, hresult.2, hr⟩, rfl⟩
  · intro h
    obtain ⟨⟨hp, hr⟩, ts, ⟨ps, hlookup, hps⟩, a, ⟨r, hlookup', hform⟩, rfl⟩ := h
    exact .object (Json.holds_iff_lookup.mpr ⟨hp, hlookup⟩)
      (Json.holds_iff_lookup.mpr ⟨hr, hlookup'⟩) hps hform

mutual

/-- **A value is read as a type exactly when it is a form of the type.** The recursion is that of
    the reader: through the contents, the arrays and the fields of a value. -/
theorem ofJson?_eq_some_iff : ∀ (j : Json) (t : Ty), ofJson? j = some t ↔ Form t j
  | .string x, t => by rw [ofJson?, ofTag?_eq_some_iff, form_string]
  | .object [(x, content)], t => by
      rw [form_object]
      by_cases hlist : x = "List"
      · subst hlist
        simp [ofJson?, Option.map_eq_some_iff, ofJson?_eq_some_iff content]
      by_cases hfunction : x = "Function"
      · subst hfunction
        simp [ofJson?, Option.map_eq_some_iff, signatureOfJson?_eq_some_iff content]
      cases content <;> simp [ofJson?, hlist, hfunction, ofTag?_eq_some_iff]
  | .null, t | .bool _, t | .int _, t | .real _ _, t | .array _, t | .object [], t
  | .object (_ :: _ :: _), t => ⟨nofun, nofun⟩

/-- **A value is read as a signature exactly when it is a form of the signature.** -/
theorem signatureOfJson?_eq_some_iff :
    ∀ (j : Json) (s : Signature), signatureOfJson? j = some s ↔ s.Form j
  | .array [first, r], s => by
      cases first with
      | array ps =>
          simp only [signatureOfJson?, bind, Option.bind_eq_some_iff, pure, Option.some.injEq,
            ofJsons?_eq_some_iff ps, ofJson?_eq_some_iff r, signature_form_array]
      | _ => exact ⟨nofun, nofun⟩
  | .object fields, s => by
      rw [signature_form_object, signatureOfJson?]
      simp only [← parametersIn?_eq_some_iff fields, ← resultIn?_eq_some_iff fields]
      split
      · simp_all [Option.bind_eq_some_iff]
      · simp_all
  | .null, s | .bool _, s | .int _, s | .real _ _, s | .string _, s | .array [], s => ⟨nofun, nofun⟩
  | .array [first], s | .array (first :: _ :: _ :: _), s => by
      -- the reader looks at the first element before it counts them
      cases first <;> exact ⟨nofun, nofun⟩

theorem ofJsons?_eq_some_iff :
    ∀ (js : List Json) (ts : List Ty), ofJsons? js = some ts ↔ Forms ts js
  | [], ts => by rw [forms_nil, ofJsons?, Option.some.injEq, eq_comm]
  | j :: js, ts => by
      simp only [ofJsons?, bind, Option.bind_eq_some_iff, pure, Option.some.injEq,
        ofJson?_eq_some_iff j, ofJsons?_eq_some_iff js, forms_cons]

theorem parametersIn?_eq_some_iff : ∀ (fields : List (String × Json)) (ts : List Ty),
    parametersIn? fields = some ts ↔
      ∃ ps, fields.lookup "parameters" = some (.array ps) ∧ Forms ts ps
  | [], ts => by simp [parametersIn?]
  | (x, content) :: rest, ts => by
      by_cases hx : x = "parameters"
      · subst hx
        cases content with
        | array ps => simp [parametersIn?, ofJsons?_eq_some_iff ps]
        | _ => simp [parametersIn?]
      · have hskip : parametersIn? ((x, content) :: rest) = parametersIn? rest := by
          cases content <;> simp [parametersIn?, hx]
        rw [hskip, Json.lookup_cons_of_ne hx, parametersIn?_eq_some_iff rest]

theorem resultIn?_eq_some_iff : ∀ (fields : List (String × Json)) (t : Ty),
    resultIn? fields = some t ↔ ∃ r, fields.lookup "return_type" = some r ∧ Form t r
  | [], t => by simp [resultIn?]
  | (x, content) :: rest, t => by
      by_cases hx : x = "return_type"
      · subst hx
        simp [resultIn?, ofJson?_eq_some_iff content]
      · rw [resultIn?, if_neg hx, Json.lookup_cons_of_ne hx, resultIn?_eq_some_iff rest]

end

/-- The form of a signature with the two fields that it needs and no others. -/
theorem signature_form_fields {s : Signature} {ps : List Json} {r : Json}
    (hps : Forms s.parameters ps) (hr : Form s.result r) :
    s.Form (.object [("parameters", .array ps), ("return_type", r)]) :=
  .object ⟨[], _, rfl, by simp⟩ ⟨[_], [], rfl, by simp⟩ hps hr

mutual

/-- What is written for a type is a form of it. -/
theorem form_toJson : ∀ t : Ty, Form t t.toJson
  | bool | int | float | str | void | type | any => .tag rfl
  | list a => .list (form_toJson a)
  | function ps r =>
      .function (s := ⟨ps, r⟩) (signature_form_fields (forms_toJsons ps) (form_toJson r))

/-- What is written for some types is a form of each. -/
theorem forms_toJsons : ∀ ts : List Ty, Forms ts (toJsons ts)
  | [] => .nil
  | a :: as => .cons (form_toJson a) (forms_toJsons as)

end

end Ty

theorem Signature.form_toJson (s : Signature) : s.Form s.toJson :=
  Ty.signature_form_fields (Ty.forms_toJsons s.parameters) (Ty.form_toJson s.result)

/-! ## 4. Locations and spans -/

theorem countForm_iff {n : UInt64} {j : Json} : CountForm n j ↔ j = countToJson n := by
  constructor
  · intro h
    obtain ⟨k, hk⟩ := h
    rw [countToJson, UInt64.toNat_ofNat', Nat.mod_eq_of_lt hk]
  · rintro rfl
    have h := CountForm.int n.toNat n.toNat_lt_size
    rwa [UInt64.ofNat_toNat] at h

/-- **A value is read as a count exactly when it is a form of the count.** -/
theorem countOfJson?_eq_some_iff {j : Json} {n : UInt64} :
    countOfJson? j = some n ↔ CountForm n j := by
  rw [countForm_iff]
  cases j with
  | int k =>
      rw [countOfJson?, countToJson, Json.int.injEq]
      split
      next hk =>
        obtain ⟨m, rfl⟩ := Int.eq_ofNat_of_zero_le hk.1
        have hm : m < UInt64.size := by exact_mod_cast hk.2
        rw [Option.some.injEq, Int.toNat_natCast, ← UInt64.toNat_inj, UInt64.toNat_ofNat',
          Nat.mod_eq_of_lt hm, Int.natCast_inj]
      next hk =>
        have := n.toNat_lt_size
        simp only [reduceCtorEq, false_iff]
        omega
  | _ => simp [countOfJson?, countToJson]

namespace Location

theorem ofParts?_eq_some_iff {line column offset : Json} {l : Location} :
    ofParts? line column offset = some l ↔
      CountForm l.line line ∧ CountForm l.column column ∧ CountForm l.offset offset := by
  simp only [ofParts?, bind, Option.bind_eq_some_iff, pure, Option.some.injEq,
    countOfJson?_eq_some_iff]
  constructor
  · intro h
    obtain ⟨a, ha, b, hb, c, hc, rfl⟩ := h
    exact ⟨ha, hb, hc⟩
  · intro h
    obtain ⟨ha, hb, hc⟩ := h
    exact ⟨_, ha, _, hb, _, hc, rfl⟩

/-- **A value is read as a location exactly when it is a form of the location.** -/
theorem ofJson?_eq_some_iff (j : Json) (l : Location) : ofJson? j = some l ↔ l.Form j := by
  constructor
  · intro h
    unfold ofJson? at h
    split at h
    next =>
      obtain ⟨h₁, h₂, h₃⟩ := ofParts?_eq_some_iff.mp h
      exact .array h₁ h₂ h₃
    next fields =>
      simp only [bind, Option.bind_eq_some_iff, Json.field?_eq_some_iff] at h
      obtain ⟨line, hline, column, hcolumn, offset, hoffset, h⟩ := h
      obtain ⟨h₁, h₂, h₃⟩ := ofParts?_eq_some_iff.mp h
      exact .object hline hcolumn hoffset h₁ h₂ h₃
    next => cases h
  · intro h
    cases h with
    | array h₁ h₂ h₃ => exact ofParts?_eq_some_iff.mpr ⟨h₁, h₂, h₃⟩
    | object hline hcolumn hoffset h₁ h₂ h₃ =>
        simp only [ofJson?, Json.field?_eq_some_iff.mpr hline, Json.field?_eq_some_iff.mpr hcolumn,
          Json.field?_eq_some_iff.mpr hoffset]
        exact ofParts?_eq_some_iff.mpr ⟨h₁, h₂, h₃⟩

theorem form_toJson (l : Location) : l.Form l.toJson :=
  .object ⟨[], _, rfl, by simp⟩ ⟨[_], _, rfl, by simp⟩ ⟨[_, _], _, rfl, by simp⟩
    (countForm_iff.mpr rfl) (countForm_iff.mpr rfl) (countForm_iff.mpr rfl)

end Location

namespace Span

theorem ofParts?_eq_some_iff {start stop : Json} {s : Span} :
    ofParts? start stop = some s ↔ s.start.Form start ∧ s.stop.Form stop := by
  simp only [ofParts?, bind, Option.bind_eq_some_iff, pure, Option.some.injEq,
    Location.ofJson?_eq_some_iff]
  constructor
  · intro h
    obtain ⟨a, ha, b, hb, rfl⟩ := h
    exact ⟨ha, hb⟩
  · intro h
    obtain ⟨ha, hb⟩ := h
    exact ⟨_, ha, _, hb, rfl⟩

/-- **A value is read as a span exactly when it is a form of the span.** -/
theorem ofJson?_eq_some_iff (j : Json) (s : Span) : ofJson? j = some s ↔ s.Form j := by
  constructor
  · intro h
    unfold ofJson? at h
    split at h
    next =>
      obtain ⟨h₁, h₂⟩ := ofParts?_eq_some_iff.mp h
      exact .array h₁ h₂
    next fields =>
      simp only [bind, Option.bind_eq_some_iff, Json.field?_eq_some_iff] at h
      obtain ⟨start, hstart, stop, hstop, h⟩ := h
      obtain ⟨h₁, h₂⟩ := ofParts?_eq_some_iff.mp h
      exact .object hstart hstop h₁ h₂
    next => cases h
  · intro h
    cases h with
    | array h₁ h₂ => exact ofParts?_eq_some_iff.mpr ⟨h₁, h₂⟩
    | object hstart hstop h₁ h₂ =>
        simp only [ofJson?, Json.field?_eq_some_iff.mpr hstart, Json.field?_eq_some_iff.mpr hstop]
        exact ofParts?_eq_some_iff.mpr ⟨h₁, h₂⟩

theorem form_toJson (s : Span) : s.Form s.toJson :=
  .object ⟨[], _, rfl, by simp⟩ ⟨[_], _, rfl, by simp⟩ s.start.form_toJson s.stop.form_toJson

end Span

/-! ## 5. Forms and readers -/

/-- **Types, signatures, locations and spans are decoded exactly by their forms.** Every other value
    is refused, what is written is read back, no value stands for two things, and writing what was
    read loses nothing. -/
theorem forms_decode_exactly :
    Decodes Ty.ofJson? Ty.toJson Ty.Form ∧
      Decodes Signature.ofJson? Signature.toJson Signature.Form ∧
      Decodes Location.ofJson? Location.toJson Location.Form ∧
      Decodes Span.ofJson? Span.toJson Span.Form :=
  ⟨.of_exact Ty.ofJson?_eq_some_iff Ty.form_toJson,
    .of_exact Ty.signatureOfJson?_eq_some_iff Signature.form_toJson,
    .of_exact Location.ofJson?_eq_some_iff Location.form_toJson,
    .of_exact Span.ofJson?_eq_some_iff Span.form_toJson⟩

/-- Spellings mix freely: one type by an array inside an object, and by an object with a field that
    means nothing. -/
example :
    Ty.ofJson? (.object [("List", .object [("Function", .array
        [.array [.object [("Int", .null)]], .object [("List", .string "String")]])])]) =
      some (.list (.function [.int] (.list .str))) ∧
    Ty.ofJson? (.object [("List", .object [("Function", .object
        [("return_type", .object [("List", .object [("String", .null)])]), ("doc", .int 1),
          ("parameters", .array [.string "Int"])])])]) =
      some (.list (.function [.int] (.list .str))) :=
  ⟨rfl, rfl⟩

end Sema
