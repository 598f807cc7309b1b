import Sema.Proofs.Lockstep
import Sema.Proofs.Replacement

/-!
# Statements that commute

Two statements in a row are independent when neither uses nor redeclares the name that the other one
declares. Then each of them sees the same before the other one as after it, and stands for the same
(`Stmt.Elaborates.of_agree`); and what they leave behind does not depend on their order
(`Env.after_comm`). So they can be exchanged in every block of a program, and in the same block of
what it stands for (`Stmt.Independent.elaboratesAll_exchange`). Only the numbers that an analysis
hands out follow the new order.
-/

namespace Sema

open Check

/-! ## 1. Exchanging two statements -/

/-- A list with its element at `i` and the one after it exchanged. -/
def swapAt {α : Type} : Nat → List α → List α
  | 0, a :: b :: as => b :: a :: as
  | i + 1, a :: as => a :: swapAt i as
  | _, as => as

section

variable {α : Type}

theorem swapAt_append (a b : α) (after : List α) : ∀ before : List α,
    swapAt before.length (before ++ a :: b :: after) = before ++ b :: a :: after
  | [] => rfl
  | _ :: before => congrArg _ (swapAt_append a b after before)

/-- Two elements in a row, with what is before and after them. -/
theorem exists_append_of_getElem? {a b : α} : ∀ {as : List α} {i : Nat}, as[i]? = some a →
    as[i + 1]? = some b → ∃ before after, as = before ++ a :: b :: after ∧ before.length = i
  | [], i, ha, _ => by simp at ha
  | c :: as, 0, ha, hb => by
      obtain rfl : c = a := Option.some.inj ha
      rw [List.getElem?_cons_succ] at hb
      cases as with
      | nil => cases hb
      | cons d as =>
          obtain rfl : d = b := Option.some.inj hb
          exact ⟨[], as, rfl, rfl⟩
  | c :: as, i + 1, ha, hb => by
      rw [List.getElem?_cons_succ] at ha hb
      obtain ⟨before, after, rfl, rfl⟩ := exists_append_of_getElem? ha hb
      exact ⟨c :: before, after, rfl, rfl⟩

end

/-- The program with two statements in a row exchanged: in the block at a place, the one at `i` and
    the one after it. -/
def exchange (block : Place) (i : Nat) (p : Program) : Program :=
  match (Focus.block p).at? block with
  | some (.block ss) => ((Focus.block p).putAt block (.block (swapAt i ss))).statements
  | _ => p

/-- The resolved program with two statements in a row exchanged. -/
def Resolved.exchange (block : Place) (i : Nat) (R : Resolved.Program) : Resolved.Program :=
  match (Resolved.Focus.block R).at? block with
  | some (.block rs) => ((Resolved.Focus.block R).putAt block (.block (swapAt i rs))).statements
  | _ => R

section

variable {block : Place} {i : Nat} {p : Program} {ss : List Stmt}

theorem block_exchange (h : (Focus.block p).at? block = some (.block ss)) :
    Focus.block (exchange block i p) = (Focus.block p).putAt block (.block (swapAt i ss)) := by
  have hsort : (Focus.block p).SameSort ((Focus.block p).putAt block (.block (swapAt i ss))) :=
    Focus.sameSort_putAt h .block
  obtain ⟨p', hp'⟩ : ∃ p', (Focus.block p).putAt block (.block (swapAt i ss)) = .block p' := by
    generalize (Focus.block p).putAt block _ = f at hsort
    cases hsort
    exact ⟨_, rfl⟩
  simp only [exchange, h, hp', Focus.statements]

theorem at?_exchange (h : (Focus.block p).at? block = some (.block ss)) :
    (Focus.block (exchange block i p)).at? block = some (.block (swapAt i ss)) := by
  rw [block_exchange h]
  exact Focus.at?_putAt h .block

/-- Exchanging the two statements once more brings the program back. -/
theorem exchange_exchange (h : (Focus.block p).at? block = some (.block ss))
    (hss : swapAt i (swapAt i ss) = ss) : exchange block i (exchange block i p) = p := by
  have htwice : Focus.block (exchange block i (exchange block i p)) = Focus.block p := by
    rw [block_exchange (at?_exchange h), hss, block_exchange h, Focus.putAt_putAt h .block .block,
      Focus.putAt_self h .block]
  exact Focus.block.inj htwice

end

/-! ## 2. Independent statements -/

/-- The name that the first statement declares, if it declares one, is neither used in the second
    one nor declared by it. -/
def Stmt.Spares (s t : Stmt) : Prop :=
  ∀ x, s.declares? = some x →
    (∀ node ∈ t.nodes, node.mentioned? ≠ some x) ∧ t.declares? ≠ some x

/-- Neither statement uses or redeclares what the other one declares. -/
def Stmt.Independent (s t : Stmt) : Prop := s.Spares t ∧ t.Spares s

theorem Session.Agree.symm {ns : List Node} {D : String → Prop} {s t : Session}
    (h : s.Agree ns D t) : t.Agree ns D s where
  serial := h.serial.symm
  lookup n hn x hx := (h.lookup n hn x hx).symm
  declares x hx := (h.declares x hx).symm
  inLoop := h.inLoop.symm
  function := h.function.symm

theorem Scopes.after_of_binding? (Γ : Scopes) (r : Resolved.Stmt) :
    Γ.after r = r.binding?.elim Γ fun e => { Γ with inner := Γ.inner.bind e.name e } := by
  cases r <;> rfl

section

variable {Γ Δ : Scopes} {s t : Stmt} {r : Resolved.Stmt} {n : Nat}

/-- A statement that is spared sees the same before and after the other one. -/
theorem Scopes.agree_after (hr : s.Elaborates Γ.env r) (h : s.Spares t) (n : Nat) :
    Session.Agree t.nodes (fun x => t.declares? = some x) ⟨Γ.after r, n⟩ ⟨Γ, n⟩ := by
  have hname := hr.name_binding?
  rw [Γ.after_of_binding? r]
  cases hbinding : r.binding? with
  | none => exact ⟨rfl, fun _ _ _ _ => rfl, fun _ _ => rfl, rfl, rfl⟩
  | some e =>
      rw [hbinding] at hname
      obtain ⟨hmentioned, hdeclared⟩ := h e.name hname.symm
      refine ⟨rfl, fun node hnode y hy => ?_, fun y hy => ?_, rfl, rfl⟩
      · have hne : y ≠ e.name := by
          intro hye
          exact hmentioned node hnode (hye ▸ hy)
        show Scopes.lookup? { Γ with inner := Γ.inner.bind e.name e } y = Γ.lookup? y
        rw [Scopes.lookup?_bind, if_neg hne]
      · have hne : y ≠ e.name := by
          intro hye
          exact hdeclared (hye ▸ hy)
        exact Frame.declares_bind_of_ne _ _ hne

/-- **What a statement stands for depends only on what it sees.** -/
theorem Stmt.Elaborates.of_agree (hr : s.Elaborates Γ.env r) (hn : Numbered n r.declared)
    (h : Session.Agree s.nodes (fun x => s.declares? = some x) ⟨Γ, n⟩ ⟨Δ, n⟩) :
    s.Elaborates Δ.env r := by
  obtain ⟨hok, -⟩ := (s.yields_check r ⟨Γ, n⟩ _).mpr ⟨hr, hn, rfl⟩
  obtain ⟨hsame, -⟩ := s.respects_check (List.Subset.refl _) (fun _ => id) _ _ h
  exact ((s.yields_check r ⟨Δ, n⟩ _).mp ⟨hsame ▸ hok, rfl⟩).1

end

/-- Different names can be declared in either order. -/
theorem Env.after_comm (Γ : Env) {r q : Resolved.Stmt}
    (h : ∀ x, r.binding?.map Entity.name = some x → q.binding?.map Entity.name ≠ some x) :
    (Γ.after r).after q = (Γ.after q).after r := by
  rw [Env.after_eq_extend, Env.after_eq_extend, Env.after_eq_extend, Env.after_eq_extend]
  cases hr : r.binding? with
  | none => rfl
  | some e =>
      cases hq : q.binding? with
      | none => rfl
      | some e' =>
          rw [hr, hq] at h
          have hne : e'.name ≠ e.name := by
            intro hnames
            exact h e.name rfl (congrArg some hnames)
          have hnames : (Γ.inner.names.insert e.name e).insert e'.name e' =
              (Γ.inner.names.insert e'.name e').insert e.name e :=
            Γ.inner.names.insert_insert_of_ne hne.symm
          exact congrArg (fun names => Env.mk { Γ.inner with names := names } Γ.outer) hnames

/-! ## 3. Exchanging in a derivation -/

section

variable {s₁ s₂ : Stmt}

theorem Stmt.Independent.symm (h : s₁.Independent s₂) : s₂.Independent s₁ := ⟨h.2, h.1⟩

/-- **Independent statements at the front of a row commute.** -/
theorem Stmt.Independent.elaboratesAll (h : s₁.Independent s₂) {Γ : Scopes} {n : Nat}
    {after : List Stmt} {r₁ r₂ : Resolved.Stmt} {rs : List Resolved.Stmt}
    (hrs : Stmt.ElaboratesAll Γ.env (s₁ :: s₂ :: after) (r₁ :: r₂ :: rs))
    (hn : Numbered n (Resolved.Stmt.declaredAll (r₁ :: r₂ :: rs))) :
    Stmt.ElaboratesAll Γ.env (s₂ :: s₁ :: after) (r₂ :: r₁ :: rs) := by
  rw [Resolved.Stmt.declaredAll, numbered_append, Resolved.Stmt.declaredAll, numbered_append] at hn
  obtain ⟨hn₁, hn₂, -⟩ := hn
  cases hrs with
  | cons h₁ hrs =>
      cases hrs with
      | cons h₂ hrs =>
          rw [← Scopes.env_after] at h₂
          -- the second one does not need the first one, and then the first one does not mind it
          have h₂' : s₂.Elaborates Γ.env r₂ := h₂.of_agree hn₂ (Scopes.agree_after h₁ h.1 _)
          have h₁' : s₁.Elaborates (Γ.after r₂).env r₁ :=
            h₁.of_agree hn₁ (Scopes.agree_after h₂' h.2 n).symm
          have hcomm : (Γ.env.after r₁).after r₂ = (Γ.env.after r₂).after r₁ := by
            refine Γ.env.after_comm fun x hx => ?_
            rw [h₁.name_binding?] at hx
            rw [h₂'.name_binding?]
            exact (h.1 x hx).2
          rw [Scopes.env_after] at h₁'
          exact .cons h₂' (.cons h₁' (hcomm ▸ hrs))

/-- So do those inside a row. -/
theorem Stmt.Independent.elaboratesAll_swapAt (h : s₁.Independent s₂) {Γ : Scopes} {n : Nat}
    {before after : List Stmt} {qs : List Resolved.Stmt}
    (hqs : Stmt.ElaboratesAll Γ.env (before ++ s₁ :: s₂ :: after) qs)
    (hn : Numbered n (Resolved.Stmt.declaredAll qs)) :
    Stmt.ElaboratesAll Γ.env (before ++ s₂ :: s₁ :: after) (swapAt before.length qs) ∧
      (Resolved.Stmt.declaredAll (swapAt before.length qs)).Perm
        (Resolved.Stmt.declaredAll qs) := by
  obtain ⟨Δ, m, bs, rs, rfl, hlength, hrs, hm, hput⟩ := hqs.cut hn
  obtain ⟨r₁, r₂, rs, rfl⟩ : ∃ r₁ r₂ rs', rs = r₁ :: r₂ :: rs' := by
    cases hrs with
    | cons h₁ hrs =>
        cases hrs
        exact ⟨_, _, _, rfl⟩
  rw [← hlength, swapAt_append]
  refine ⟨hput _ _ (h.elaboratesAll hrs hm), ?_⟩
  rw [Resolved.Stmt.declaredAll_append, Resolved.Stmt.declaredAll_append]
  refine List.Perm.append_left _ ?_
  simp only [Resolved.Stmt.declaredAll, ← List.append_assoc]
  exact List.perm_append_comm.append_right _

/-- **Independent statements commute in every block of a program.** -/
theorem Stmt.Independent.elaboratesAll_exchange (h : s₁.Independent s₂) {Γ : Scopes} {n : Nat}
    {block : Place} {p : Program} {R : Resolved.Program} {before after : List Stmt}
    (hblock : (Focus.block p).at? block = some (.block (before ++ s₁ :: s₂ :: after)))
    (hR : Stmt.ElaboratesAll Γ.env p R) (hn : Numbered n (Resolved.Stmt.declaredAll R)) :
    Stmt.ElaboratesAll Γ.env (exchange block before.length p)
        (Resolved.exchange block before.length R) ∧
      (Resolved.Stmt.declaredAll (Resolved.exchange block before.length R)).Perm
        (Resolved.Stmt.declaredAll R) := by
  have hroot : (Focus.block p).Elaborates Γ.env (.block R) := .block hR
  obtain ⟨q, hq, Δ, m, hgq, hm, hput⟩ := hroot.opens hn hblock
    (.block : Focus.SameSort _ (.block (before ++ s₂ :: s₁ :: after)))
  cases hgq with
  | @block _ rs hrs =>
      obtain ⟨hswapped, hperm⟩ := h.elaboratesAll_swapAt hrs hm
      obtain ⟨hderived, hreplaces⟩ := hput _ _ .block (.block hswapped) ⟨hperm, rfl⟩
      rw [← swapAt_append, ← block_exchange hblock] at hderived
      have hexchange : Resolved.exchange block before.length R =
          ((Resolved.Focus.block R).putAt block
            (.block (swapAt before.length rs))).statements := by
        simp only [Resolved.exchange, hq]
      rw [hexchange]
      generalize (Resolved.Focus.block R).putAt block _ = S at hderived hreplaces
      cases hderived with
      | block hS => exact ⟨hS, hreplaces.declared⟩

/-! ## 4. Exchanging in an analysis -/

theorem analyze_exchange (h : s₁.Independent s₂) {c : Catalog} {block : Place} {p : Program}
    {R : Resolved.Program} {before after : List Stmt}
    (hblock : (Focus.block p).at? block = some (.block (before ++ s₁ :: s₂ :: after)))
    (hok : (analyze c p).result = .ok R) :
    ∃ S, (analyze c (exchange block before.length p)).result = .ok S ∧
      Resolved.Alike c (Resolved.exchange block before.length R) S := by
  have hnames : c.names.Nodup := (result_analyze_eq_ok_iff.mp hok).1
  obtain ⟨hderived, hnumbered⟩ := (result_analyze_eq_ok_iff_elaborates hnames).mp hok
  rw [← Session.env_loaded hnames] at hderived
  obtain ⟨hexchanged, hperm⟩ := h.elaboratesAll_exchange hblock hderived hnumbered
  rw [Session.env_loaded hnames] at hexchanged
  have hR := elaborates_of_analyze hok
  refine analyze_of_elaborates hnames ⟨hexchanged, hperm.nodup_iff.mpr hR.distinct, ?_⟩
  intro j hj
  exact hR.fresh j (hperm.mem_iff.mp hj)

end

/-- **Independent statements commute.** Let two statements in a row, in some block of a program, be
    such that neither mentions or declares the name that the other one declares. Then the program
    with the two exchanged is accepted exactly when the program is, and the resolved programs are
    the same up to the same exchange and the identities of the program's declarations. -/
theorem independent_statements_commute (c : Catalog) (p : Program) (block : Place)
    (ss : List Stmt) (i : Nat) (s₁ s₂ : Stmt)
    (hblock : (Focus.block p).at? block = some (.block ss)) (h₁ : ss[i]? = some s₁)
    (h₂ : ss[i + 1]? = some s₂) (hindependent : s₁.Independent s₂) :
    ((∃ R, (analyze c p).result = .ok R) ↔
      ∃ R, (analyze c (exchange block i p)).result = .ok R) ∧
    ∀ R R', (analyze c p).result = .ok R → (analyze c (exchange block i p)).result = .ok R' →
      Resolved.Alike c (Resolved.exchange block i R) R' := by
  obtain ⟨before, after, rfl, rfl⟩ := exists_append_of_getElem? h₁ h₂
  refine ⟨⟨?_, ?_⟩, ?_⟩
  · intro ⟨R, hok⟩
    obtain ⟨S, hS, -⟩ := analyze_exchange hindependent hblock hok
    exact ⟨S, hS⟩
  · -- the exchanged program is one with independent statements in a row, too
    intro ⟨R, hok⟩
    have hback := at?_exchange (i := before.length) hblock
    rw [swapAt_append] at hback
    obtain ⟨S, hS, -⟩ := analyze_exchange hindependent.symm hback hok
    rw [exchange_exchange hblock (by rw [swapAt_append, swapAt_append])] at hS
    exact ⟨S, hS⟩
  · intro R R' hR hR'
    obtain ⟨S, hS, halike⟩ := analyze_exchange hindependent hblock hR
    obtain rfl : S = R' := Except.ok.inj (hS.symm.trans hR')
    exact halike

/-- A function that calls its inner function with its variable, after statements that declare the
    two. -/
def tallies (body : List Stmt) : Program :=
  [.function "tally" [⟨"n", .named "int" .origin, .origin⟩] (some (.named "int" .origin))
    (body ++ [.returnValue (.call (.name "bound" .origin) [.name "total" .origin] .origin) .origin])
    .origin]

/-- The variable. -/
def totalVariable : Stmt := .declare "total" false (.name "n" .origin) .origin

/-- The inner function, which hides the variable and does not use it. -/
def boundFunction : Stmt :=
  .function "bound" [⟨"m", .named "int" .origin, .origin⟩] (some (.named "int" .origin))
    [.declare "total" true (.str "inner" .origin) .origin, .returnValue (.name "m" .origin) .origin]
    .origin

/-- The variable and the inner function may change places. -/
theorem independent_statements_commute_tallies :
    exchange [.body, .item 0] 0 (tallies [totalVariable, boundFunction]) =
        tallies [boundFunction, totalVariable] ∧
      totalVariable.Independent boundFunction ∧
      ∃ R R', (analyze .standard (tallies [totalVariable, boundFunction])).result = .ok R ∧
        (analyze .standard (tallies [boundFunction, totalVariable])).result = .ok R' ∧
        Resolved.Alike .standard (Resolved.exchange [.body, .item 0] 0 R) R' := by
  have hindependent : totalVariable.Independent boundFunction := by
    constructor
    · intro x hx
      cases hx
      exact ⟨by decide, by decide⟩
    · intro x hx
      cases hx
      exact ⟨by decide, by decide⟩
  obtain ⟨haccepted, halike⟩ := independent_statements_commute .standard
    (tallies [totalVariable, boundFunction]) [.body, .item 0] _ 0 _ _ rfl rfl rfl hindependent
  obtain ⟨R, hR⟩ : ∃ R,
      (analyze .standard (tallies [totalVariable, boundFunction])).result = .ok R := ⟨_, rfl⟩
  obtain ⟨R', hR'⟩ := haccepted.mp ⟨R, hR⟩
  exact ⟨rfl, hindependent, R, R', hR, hR', halike R R' hR hR'⟩

end Sema
