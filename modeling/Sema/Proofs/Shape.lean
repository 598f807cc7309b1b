import Sema.Proofs.Resolution

/-!
# Resolution keeps the shape of a program

What is left of a program when spans and written types are forgotten, and of a resolved program when
types and entities are, is one and the same kind of tree: a `Shape`. It still has every statement in
its place, operators, literals, the names of what is declared and which variables are constants.

An accepted program and what it is resolved to have one shape (`resolution_preserves_program`).
Names that are used are the one thing that a shape leaves open: a name became an entity, and which
one is said place by place. It is declared by the program under that name, or it is the catalog's
entry.
-/

namespace Sema

/-! ## 1. Shapes -/

namespace Shape

/-- An expression without spans, types and entities. -/
inductive Expr where
  | int (value : Int64)
  | float (value : Binary64)
  | bool (value : Bool)
  | str (value : String)
  /-- A name, whichever it is. -/
  | name
  | conditional (test consequent alternate : Expr)
  | logical (op : Connective) (operands : List Expr)
  | binary (op : BinaryOp) (left right : Expr)
  | unary (op : UnaryOp) (operand : Expr)
  | subscript (list index : Expr)
  | list (elements : List Expr)
  | emptyList
  | call (callee : Expr) (arguments : List Expr)

mutual

/-- A statement without spans, types and identities; what it declares has its name. -/
inductive Stmt where
  | declare (name : String) (readOnly : Bool) (init : Expr)
  | function (name : String) (parameters : List String) (body : List Stmt)
  | step (dir : Step) (target : Expr)
  | assign (target source : Expr)
  | exitLoop
  | returnValue (value : Expr)
  | returnNothing
  | branch (branch : Branch)
  | whileLoop (test : Expr) (body : List Stmt)
  | forEach (iterator : String) (collection : Expr) (body : List Stmt)
  | eval (expr : Expr)

/-- An `if` with its alternate. -/
inductive Branch where
  | mk (test : Expr) (consequent : List Stmt) (alternate : Alternate)

/-- What follows `else`. -/
inductive Alternate where
  | none
  | block (body : List Stmt)
  | elseIf (next : Branch)

end

end Shape

/-! ## 2. The shape of a program -/

mutual

/-- The expression with spans and written types forgotten. -/
def Expr.shape : Expr → Shape.Expr
  | .int v _ => .int v
  | .float v _ => .float v
  | .bool v _ => .bool v
  | .str v _ => .str v
  | .name _ _ => .name
  | .conditional t c a _ => .conditional t.shape c.shape a.shape
  | .logical op es _ => .logical op (Expr.shapeAll es)
  | .binary op l r _ => .binary op l.shape r.shape
  | .unary op e _ => .unary op e.shape
  | .subscript l i _ => .subscript l.shape i.shape
  | .list es _ => .list (Expr.shapeAll es)
  | .emptyList _ _ => .emptyList
  | .call f es _ => .call f.shape (Expr.shapeAll es)

def Expr.shapeAll : List Expr → List Shape.Expr
  | [] => []
  | e :: es => e.shape :: Expr.shapeAll es

end

mutual

/-- The statement with spans and written types forgotten. -/
def Stmt.shape : Stmt → Shape.Stmt
  | .declare x readOnly e _ => .declare x readOnly e.shape
  | .function name ps _ body _ => .function name (ps.map (·.name)) (Stmt.shapeAll body)
  | .step dir e _ => .step dir e.shape
  | .assign target source _ => .assign target.shape source.shape
  | .exitLoop _ => .exitLoop
  | .returnValue e _ => .returnValue e.shape
  | .returnNothing _ => .returnNothing
  | .branch b => .branch b.shape
  | .whileLoop e body _ => .whileLoop e.shape (Stmt.shapeAll body)
  | .forEach x e body _ => .forEach x e.shape (Stmt.shapeAll body)
  | .eval e _ => .eval e.shape

def Branch.shape : Branch → Shape.Branch
  | .mk test consequent alternate _ =>
      .mk test.shape (Stmt.shapeAll consequent) alternate.shape

def Alternate.shape : Alternate → Shape.Alternate
  | .none => .none
  | .block body => .block (Stmt.shapeAll body)
  | .elseIf next => .elseIf next.shape

def Stmt.shapeAll : List Stmt → List Shape.Stmt
  | [] => []
  | s :: ss => s.shape :: Stmt.shapeAll ss

end

/-! ## 3. The shape of a resolved program -/

namespace Resolved

mutual

/-- The expression with types and entities forgotten. -/
def Expr.shape : Expr → Shape.Expr
  | .mk form _ => form.shape
termination_by structural e => e

def Form.shape : Form → Shape.Expr
  | .int v => .int v
  | .float v => .float v
  | .bool v => .bool v
  | .str v => .str v
  | .entity _ => .name
  | .conditional t c a => .conditional t.shape c.shape a.shape
  | .logical op es => .logical op (Expr.shapeAll es)
  | .binary op l r => .binary op l.shape r.shape
  | .unary op e => .unary op e.shape
  | .subscript l i => .subscript l.shape i.shape
  | .list es => .list (Expr.shapeAll es)
  | .emptyList _ => .emptyList
  | .call f es => .call f.shape (Expr.shapeAll es)
termination_by structural f => f

def Expr.shapeAll : List Expr → List Shape.Expr
  | [] => []
  | e :: es => e.shape :: Expr.shapeAll es
termination_by structural es => es

end

mutual

/-- The statement with types and identities forgotten; what it declares keeps its name. -/
def Stmt.shape : Stmt → Shape.Stmt
  | .declare v e => .declare v.name v.readOnly e.shape
  | .function f ps body => .function f.name (ps.map (·.name)) (Stmt.shapeAll body)
  | .step dir e => .step dir e.shape
  | .assign target source => .assign target.shape source.shape
  | .exitLoop => .exitLoop
  | .returnValue e => .returnValue e.shape
  | .returnNothing => .returnNothing
  | .branch b => .branch b.shape
  | .whileLoop e body => .whileLoop e.shape (Stmt.shapeAll body)
  | .forEach v e body => .forEach v.name e.shape (Stmt.shapeAll body)
  | .eval e => .eval e.shape
termination_by structural s => s

def Branch.shape : Branch → Shape.Branch
  | .mk test consequent alternate => .mk test.shape (Stmt.shapeAll consequent) alternate.shape
termination_by structural b => b

def Alternate.shape : Alternate → Shape.Alternate
  | .none => .none
  | .block body => .block (Stmt.shapeAll body)
  | .elseIf next => .elseIf next.shape
termination_by structural a => a

def Stmt.shapeAll : List Stmt → List Shape.Stmt
  | [] => []
  | s :: ss => s.shape :: Stmt.shapeAll ss
termination_by structural ss => ss

end

end Resolved

/-! ## 4. What a program stands for has its shape -/

mutual

theorem Expr.shape_of_elaborates {Γ : Env} : ∀ (e : Expr) {r : Resolved.Expr},
    e.Elaborates Γ r → r.shape = e.shape
  | .int _ _, _, h | .float _ _, _, h | .bool _ _, _, h | .str _ _, _, h | .name _ _, _, h
  | .emptyList _ _, _, h => by
      cases h
      rfl
  | .conditional test consequent alternate _, _, h => by
      cases h with
      | conditional ht hc ha _ _ =>
          have htest := test.shape_of_elaborates ht
          have hconsequent := consequent.shape_of_elaborates hc
          have halternate := alternate.shape_of_elaborates ha
          simp only [Resolved.Expr.shape, Resolved.Form.shape, Expr.shape, htest, hconsequent,
            halternate]
  | .logical _ operands _, _, h => by
      cases h with
      | logical hrs _ =>
          have hoperands := Expr.shapeAll_of_elaborates operands hrs
          simp only [Resolved.Expr.shape, Resolved.Form.shape, Expr.shape, hoperands]
  | .binary _ left right _, _, h => by
      cases h with
      | binary hl hr _ _ =>
          have hleft := left.shape_of_elaborates hl
          have hright := right.shape_of_elaborates hr
          simp only [Resolved.Expr.shape, Resolved.Form.shape, Expr.shape, hleft, hright]
  | .unary _ operand _, _, h => by
      cases h with
      | unary hr _ =>
          have hoperand := operand.shape_of_elaborates hr
          simp only [Resolved.Expr.shape, Resolved.Form.shape, Expr.shape, hoperand]
  | .subscript items index _, _, h => by
      cases h with
      | subscript hl hi _ _ =>
          have hitems := items.shape_of_elaborates hl
          have hindex := index.shape_of_elaborates hi
          simp only [Resolved.Expr.shape, Resolved.Form.shape, Expr.shape, hitems, hindex]
  | .list elements _, _, h => by
      cases h with
      | list hrs _ _ =>
          have helements := Expr.shapeAll_of_elaborates elements hrs
          simp only [Resolved.Expr.shape, Resolved.Form.shape, Expr.shape, helements]
  | .call callee arguments _, _, h => by
      cases h with
      | call hf hrs _ _ =>
          have hcallee := callee.shape_of_elaborates hf
          have harguments := Expr.shapeAll_of_elaborates arguments hrs
          simp only [Resolved.Expr.shape, Resolved.Form.shape, Expr.shape, hcallee, harguments]

theorem Expr.shapeAll_of_elaborates {Γ : Env} : ∀ (es : List Expr) {rs : List Resolved.Expr},
    List.Forall₂ (Expr.Elaborates Γ) es rs → Resolved.Expr.shapeAll rs = Expr.shapeAll es
  | [], _, .nil => rfl
  | e :: es, _, .cons hr hrs => by
      have hfirst := e.shape_of_elaborates hr
      have hrest := Expr.shapeAll_of_elaborates es hrs
      simp only [Resolved.Expr.shapeAll, Expr.shapeAll, hfirst, hrest]

end

mutual

theorem Stmt.shape_of_elaborates : ∀ (s : Stmt) {Γ : Env} {r : Resolved.Stmt},
    s.Elaborates Γ r → r.shape = s.shape
  | .declare x readOnly init _, _, _, h => by
      cases h with
      | declare hr _ =>
          have hinit := init.shape_of_elaborates hr
          simp only [Resolved.Stmt.shape, Stmt.shape, hinit]
  | .function name parameters result body _, _, _, h => by
      cases h with
      | function _ hds _ hf hrs =>
          have hnames := hds.map_name
          have hbody := Stmt.shapeAll_of_elaborates body hrs
          simp only [Resolved.Stmt.shape, Stmt.shape, hf, hnames, hbody]
  | .step _ e _, _, _, h => by
      cases h with
      | step hr _ _ _ =>
          have htarget := e.shape_of_elaborates hr
          simp only [Resolved.Stmt.shape, Stmt.shape, htarget]
  | .assign target source _, _, _, h => by
      cases h with
      | assign hplace hvalue _ _ =>
          have htarget := target.shape_of_elaborates hplace
          have hsource := source.shape_of_elaborates hvalue
          simp only [Resolved.Stmt.shape, Stmt.shape, htarget, hsource]
  | .exitLoop _, _, _, h | .returnNothing _, _, _, h => by
      cases h
      rfl
  | .returnValue e _, _, _, h => by
      cases h with
      | returnValue _ _ hr _ =>
          have hvalue := e.shape_of_elaborates hr
          simp only [Resolved.Stmt.shape, Stmt.shape, hvalue]
  | .branch b, _, _, h => by
      cases h with
      | branch hr =>
          have hbranch := b.shape_of_elaborates hr
          simp only [Resolved.Stmt.shape, Stmt.shape, hbranch]
  | .whileLoop test body _, _, _, h => by
      cases h with
      | whileLoop ht _ hrs =>
          have htest := test.shape_of_elaborates ht
          have hbody := Stmt.shapeAll_of_elaborates body hrs
          simp only [Resolved.Stmt.shape, Stmt.shape, htest, hbody]
  | .forEach x collection body _, _, _, h => by
      cases h with
      | forEach hr _ hrs =>
          have hcollection := collection.shape_of_elaborates hr
          have hbody := Stmt.shapeAll_of_elaborates body hrs
          simp only [Resolved.Stmt.shape, Stmt.shape, hcollection, hbody]
  | .eval e _, _, _, h => by
      cases h with
      | eval hr =>
          have hexpr := e.shape_of_elaborates hr
          simp only [Resolved.Stmt.shape, Stmt.shape, hexpr]

theorem Branch.shape_of_elaborates : ∀ (b : Branch) {Γ : Env} {r : Resolved.Branch},
    b.Elaborates Γ r → r.shape = b.shape
  | .mk test consequent alternate _, _, _, h => by
      cases h with
      | mk ht _ hrs ha =>
          have htest := test.shape_of_elaborates ht
          have hconsequent := Stmt.shapeAll_of_elaborates consequent hrs
          have halternate := alternate.shape_of_elaborates ha
          simp only [Resolved.Branch.shape, Branch.shape, htest, hconsequent, halternate]

theorem Alternate.shape_of_elaborates : ∀ (a : Alternate) {Γ : Env} {r : Resolved.Alternate},
    a.Elaborates Γ r → r.shape = a.shape
  | .none, _, _, h => by
      cases h
      rfl
  | .block body, _, _, h => by
      cases h with
      | block hrs =>
          have hbody := Stmt.shapeAll_of_elaborates body hrs
          simp only [Resolved.Alternate.shape, Alternate.shape, hbody]
  | .elseIf next, _, _, h => by
      cases h with
      | elseIf hr =>
          have hnext := next.shape_of_elaborates hr
          simp only [Resolved.Alternate.shape, Alternate.shape, hnext]

/-- **One shape.** -/
theorem Stmt.shapeAll_of_elaborates : ∀ (ss : List Stmt) {Γ : Env} {rs : List Resolved.Stmt},
    Stmt.ElaboratesAll Γ ss rs → Resolved.Stmt.shapeAll rs = Stmt.shapeAll ss
  | [], _, _, h => by
      cases h
      rfl
  | s :: ss, _, _, h => by
      cases h with
      | cons hr hrs =>
          have hfirst := s.shape_of_elaborates hr
          have hrest := Stmt.shapeAll_of_elaborates ss hrs
          simp only [Resolved.Stmt.shapeAll, Stmt.shapeAll, hfirst, hrest]

end

/-! ## 5. Declarations and their names -/

/-- The name that a statement declares in a slot. -/
def Stmt.slotName? : Stmt → Slot → Option String
  | .declare x _ _ _, .self => some x
  | .function name _ _ _ _, .self => some name
  | .function _ ps _ _ _, .parameter k => ps[k]?.map (·.name)
  | .forEach x _ _ _, .self => some x
  | _, _ => none

/-- The name that is declared at a site of a program. -/
def Focus.nameAt? (root : Focus) (site : Site) : Option String :=
  (root.at? site.place).bind fun
    | .stmt s => s.slotName? site.slot
    | _ => none

section

variable {p : Program} {x : String} {here : Place} {site : Site}

theorem Stmt.slotName?_of_declares? {s : Stmt} (h : s.declares? = some x) :
    s.slotName? .self = some x := by
  cases s with
  | declare y readOnly init span => exact h
  | function name ps result body span => exact h
  | _ => cases h

/-- What comes into sight when a turn is taken back declares the name that is sought. -/
theorem Focus.nameAt?_of_seek {f : Focus} {t : Turn} (hat : (Focus.block p).at? here = some f)
    (h : f.seek x here t = some site) : (Focus.block p).nameAt? site = some x := by
  unfold Focus.seek at h
  split at h
  · -- a statement above in the same block
    rename_i ss i
    obtain ⟨j, hj, rfl⟩ := Option.map_eq_some_iff.mp h
    have hfound : ss[j]?.bind Stmt.declares? = some x := beq_iff_eq.mp (nearest_holds hj)
    obtain ⟨s, hs, hdeclares⟩ := Option.bind_eq_some_iff.mp hfound
    have hplace : (Focus.block p).at? (.item j :: here) = some (.stmt s) := by
      rw [Focus.at?_cons hat, Focus.child?, hs, Option.map_some]
    rw [Focus.nameAt?, hplace]
    exact Stmt.slotName?_of_declares? hdeclares
  · -- a parameter, or the function itself
    rename_i name ps result body span
    rw [Option.or_eq_some_iff] at h
    rcases h with h | ⟨-, h⟩
    · obtain ⟨k, hk, rfl⟩ := Option.map_eq_some_iff.mp h
      have hfound : ps[k]?.map Parameter.name = some x := beq_iff_eq.mp (nearest_holds hk)
      rw [Focus.nameAt?, hat]
      exact hfound
    · by_cases hx : x = name
      · rw [if_pos hx] at h
        cases h
        rw [Focus.nameAt?, hat, hx]
        rfl
      · rw [if_neg hx] at h
        cases h
  · -- the iterator of a loop
    rename_i iterator collection body span
    by_cases hx : x = iterator
    · rw [if_pos hx] at h
      cases h
      rw [Focus.nameAt?, hat, hx]
      rfl
    · rw [if_neg hx] at h
      cases h
  · cases h

/-- **A name designates a declaration of that name.** -/
theorem nameAt?_of_designated : ∀ {here : Place}, designated p x here = some site →
    (Focus.block p).nameAt? site = some x
  | t :: outer, h => by
      rw [designated, Option.or_eq_some_iff] at h
      rcases h with h | ⟨-, h⟩
      · obtain ⟨f, hf, hseek⟩ := Option.bind_eq_some_iff.mp h
        exact Focus.nameAt?_of_seek hf hseek
      · exact nameAt?_of_designated h

/-- An entity has the name under which the program declares it. -/
theorem Stmt.Elaborates.slotName? {Γ : Env} {s : Stmt} {r : Resolved.Stmt} (h : s.Elaborates Γ r)
    {slot : Slot} {e : Entity} (he : r.slot? slot = some e) : s.slotName? slot = some e.name := by
  cases h with
  | declare _ _ | forEach _ _ _ =>
      cases slot with
      | self =>
          cases he
          rfl
      | parameter k => cases he
  | function _ hds _ hf _ =>
      cases slot with
      | self =>
          cases he
          rw [hf]
          rfl
      | parameter k =>
          obtain ⟨d, hd, rfl⟩ := Option.map_eq_some_iff.mp he
          have hk := congrArg (·[k]?) hds.map_name
          simp only [List.getElem?_map, hd, Option.map_some] at hk
          exact hk.symm
  | _ => cases he

theorem Elaborates.nameAt? {c : Catalog} {R : Resolved.Program} (h : Elaborates c p R) {e : Entity}
    (he : (Resolved.Focus.block R).declaredAt? site = some e) :
    (Focus.block p).nameAt? site = some e.name := by
  obtain ⟨g, hg, hslot⟩ := Option.bind_eq_some_iff.mp he
  obtain ⟨f, Γ, hf, hfg, -⟩ := h.at_of_resolved hg
  cases hfg with
  | stmt hsr =>
      rw [Focus.nameAt?, hf]
      exact hsr.slotName? hslot
  | _ => cases hslot

end

/-! ## 6. Resolution preserves the program -/

/-- **Resolution preserves the program.** An accepted program and what it is resolved to have one
    shape. Each of its names has a place, and at that place stands an entity: one that the program
    declares, under that name, or the catalog's entry for it. There are no entities at other
    places. -/
theorem resolution_preserves_program (c : Catalog) (p : Program) (R : Resolved.Program)
    (hok : (analyze c p).result = .ok R) :
    Resolved.Stmt.shapeAll R = Stmt.shapeAll p ∧
    (∀ (x : String) (span : Span), .expr (.name x span) ∈ Stmt.nodesAll p →
      ∃ here, (Focus.block p).at? here = some (.expr (.name x span))) ∧
    (∀ (here : Place) (x : String) (span : Span),
      (Focus.block p).at? here = some (.expr (.name x span)) →
        ∃ e, (Resolved.Focus.block R).at? here = some (.expr (.mk (.entity e) e.ty)) ∧
          ((∃ site, (Focus.block p).nameAt? site = some x ∧
              (Resolved.Focus.block R).declaredAt? site = some e ∧ e.name = x) ∨
            c.get? x = some e)) ∧
    (∀ (here : Place) (e : Entity) (ty : Ty),
      (Resolved.Focus.block R).at? here = some (.expr (.mk (.entity e) ty)) →
        ∃ x span, (Focus.block p).at? here = some (.expr (.name x span))) := by
  have h : Elaborates c p R := elaborates_of_analyze hok
  refine ⟨Stmt.shapeAll_of_elaborates p h.derived, fun _ _ => exists_place_of_mem_nodesAll,
    fun here x span hx => ?_, fun here e ty he => ?_⟩
  · obtain ⟨e, he, hmeaning⟩ := h.reference hx
    refine ⟨e, he, ?_⟩
    cases hsite : designated p x here with
    | none =>
        rw [hsite] at hmeaning
        exact .inr hmeaning
    | some site =>
        rw [hsite] at hmeaning
        have hname := nameAt?_of_designated hsite
        have hname' := h.nameAt? hmeaning
        exact .inl ⟨site, hname, hmeaning, Option.some.inj (hname'.symm.trans hname)⟩
  · obtain ⟨x, span, hx, -⟩ := h.name_of_reference he
    exact ⟨x, span, hx⟩

/-- The standard library with its constant under a second name. -/
def twoNames : Catalog := Catalog.standard.add "τ" (.var ⟨.library 6, "π", true, .float⟩)

/-- The negative zero as a constant; a function that tells three cases apart and uses the second
    name of the library's constant; a loop in a loop with an exit; and a difference assigned to a
    variable. -/
def assorted : Program :=
  [.declare "zero" true (.float ⟨0x8000000000000000⟩ .origin) .origin,
   .function "scale" [⟨"x", .named "float" .origin, .origin⟩, ⟨"n", .named "int" .origin, .origin⟩]
    (some (.named "float" .origin))
    [.branch (.mk (.binary .less (.name "n" .origin) (.int 0 .origin) .origin)
      [.returnValue (.name "zero" .origin) .origin]
      (.elseIf (.mk (.binary .equal (.name "n" .origin) (.int 0 .origin) .origin)
        [.returnValue (.name "x" .origin) .origin]
        (.block [.returnValue (.binary .multiply (.name "x" .origin) (.name "τ" .origin) .origin)
          .origin]) .origin)) .origin)] .origin,
   .declare "n" false (.int 1 .origin) .origin,
   .forEach "i" (.list [.int 1 .origin, .int 2 .origin] .origin)
    [.whileLoop (.bool true .origin) [.exitLoop .origin] .origin,
     .assign (.name "n" .origin)
      (.binary .subtract (.name "n" .origin) (.name "i" .origin) .origin) .origin] .origin]

/-- The second name stands for the library's constant, whose own name is the first one. -/
theorem resolution_preserves_program_assorted :
    ∃ R e, (analyze twoNames assorted).result = .ok R ∧
      Resolved.Stmt.shapeAll R = Stmt.shapeAll assorted ∧
      (Resolved.Focus.block R).at? [.part 1, .part 0, .item 0, .alternate, .alternate, .branch,
        .item 0, .body, .item 1] = some (.expr (.mk (.entity e) e.ty)) ∧
      twoNames.get? "τ" = some e ∧ e.name = "π" := by
  obtain ⟨R, hok⟩ : ∃ R, (analyze twoNames assorted).result = .ok R := ⟨_, rfl⟩
  obtain ⟨hshape, _, hnames, _⟩ := resolution_preserves_program twoNames assorted R hok
  obtain ⟨e, he, _⟩ := hnames [.part 1, .part 0, .item 0, .alternate, .alternate, .branch,
    .item 0, .body, .item 1] "τ" .origin rfl
  have hfound : ((analyze twoNames assorted).result.toOption.bind fun S =>
      (Resolved.Focus.block S).at? [.part 1, .part 0, .item 0, .alternate, .alternate, .branch,
        .item 0, .body, .item 1]) =
      some (.expr (.mk (.entity (.var ⟨.library 6, "π", true, .float⟩)) .float)) := rfl
  rw [hok] at hfound
  cases he.symm.trans hfound
  exact ⟨R, _, hok, hshape, he, rfl, rfl⟩

end Sema
