import Sema.Proofs.Lockstep
import Sema.Proofs.Moves
import Sema.Proofs.Surviving

/-!
# An analysis depends on what the program mentions

Two sessions of any depths may have all kinds of names in their scopes. Statements are checked alike
in both as soon as they see the same: what the names that they mention denote, which of the names
that they declare at their own level are taken, the loop and the function around
(`Session.Matches`). The result differs in the identities of the statements' own declarations, which
each session counts from its own next number on; counted from a common number on, the results are
equal (`analysis_depends_on_mentions`).

In a session that arises the next numbers are not in use (`Session.Arises.scopes_below`), so the
session can count from a higher number on without a difference; from the same number on, checks go
in lockstep.

What a name denotes may differ by a renaming of identities `ρ`. With the identity for `ρ` the two
sessions share their entities; another `ρ` relates catalogs that were built apart.
-/

namespace Sema

open Check

/-! ## 1. Numbers in use -/

section

variable {Γ : Scopes} {n : Nat}

theorem Scopes.Below.modify (h : Γ.Below n) {i : Nat} {change : Frame → Frame}
    (hchange : ∀ f : Frame, f.Below n → (change f).Below n) : (Γ.modify i change).Below n := by
  intro f hf
  obtain ⟨j, hj⟩ := Scopes.mem_frames.mp hf
  rw [Scopes.frame?_modify] at hj
  by_cases hji : j = i
  · rw [if_pos hji] at hj
    obtain ⟨g, hg, rfl⟩ := Option.map_eq_some_iff.mp hj
    exact hchange g (h g (Scopes.mem_frames.mpr ⟨j, hg⟩))
  · rw [if_neg hji] at hj
    exact h f (Scopes.mem_frames.mpr ⟨j, hj⟩)

theorem Frame.Below.child {f : Frame} (h : f.Below n) (kind : ScopeKind) :
    (f.child kind).Below n := by
  cases kind with
  | block | loop => exact ⟨nofun, h.function⟩
  | functionBody => exact ⟨nofun, nofun⟩

end

/-- A move uses no number that has not been taken. -/
theorem Session.Move.scopes_below {s t : Session} (hm : s.Move t) (h : s.scopes.Below s.serial) :
    t.scopes.Below t.serial := by
  cases hm with
  | number => exact h.mono (Nat.le_succ _)
  | enter kind =>
      intro f hf
      obtain hf | hf := List.mem_cons.mp hf
      · rw [hf]
        exact (h _ List.mem_cons_self).child kind
      · exact h f hf
  | exit hexit =>
      intro f hf
      have houter := Scopes.exit?_eq_ok.mp hexit
      refine h f (List.mem_cons_of_mem _ ?_)
      rw [houter]
      exact hf
  | declare he hn hdefine =>
      obtain ⟨-, -, -, rfl⟩ := Scopes.defineIn_eq_ok.mp hdefine
      refine h.modify fun f hf => ⟨fun b hb i hi => ?_, hf.function⟩
      obtain hb | hb := List.mem_cons.mp hb
      · subst hb
        rw [he] at hi
        cases hi
        exact hn
      · exact hf.bindings b hb i hi
  | function hid hn hset =>
      obtain ⟨-, rfl⟩ := Scopes.setFunction_eq_ok.mp hset
      refine h.modify fun f hf => ⟨hf.bindings, fun g hg => ?_⟩
      cases hg
      rw [hid]
      exact hn

/-- **In a session that arises, the next numbers are not in use.** -/
theorem Session.Arises.scopes_below {c : Catalog} {s : Session} (h : s.Arises c) :
    s.scopes.Below s.serial := by
  induction h with
  | opened h =>
      rw [(Session.open?_eq_ok_iff.mp h).2]
      exact Session.below_loaded c
  | move _ hm ih => exact hm.scopes_below ih

/-! ## 2. Counting from another number on -/

namespace Identity

variable {m d : Nat}

/-- Numbers that are moved up are confused with none that stay. -/
theorem redirect_id_injective (m d : Nat) : Function.Injective (redirect id m d) := by
  refine redirect_injective Function.injective_id fun i k hi hk hik => ?_
  have hik : i = .program (k + d) := hik
  subst hik
  have hi : k + d + 1 ≤ m := hi
  omega

theorem redirect_id_zero (m : Nat) : redirect id m 0 = id := by
  funext i
  cases i with
  | library place => rfl
  | program k =>
      show (if m ≤ k then Identity.program (k + 0) else .program k) = .program k
      rw [Nat.add_zero, ite_self]

end Identity

section

variable {s t : Session} {n : Nat} {ρ : Identity → Identity}

/-- **A session may count from a higher number on**, and its entities may be renamed: the results
    differ by just that. -/
theorem Stmt.result_checkAll_recount (h : s.scopes.Below s.serial) (hn : s.serial ≤ n)
    (ρ : Identity → Identity) (ss : List Stmt) :
    ((Stmt.checkAll ss).run ⟨s.scopes.rename ρ, n⟩).result =
      ((Stmt.checkAll ss).run s).result.map
        (Resolved.Stmt.renameAll (Identity.redirect ρ s.serial (n - s.serial))) := by
  have hrenamed : Session.Renamed (Identity.redirect ρ s.serial (n - s.serial)) (n - s.serial) s
      ⟨s.scopes.rename ρ, n⟩ := by
    refine ⟨?_, ?_, fun k hk => Identity.redirect_program hk⟩
    · exact (Scopes.rename_congr h fun i hi => Identity.redirect_of_next_le hi).symm
    · show n = s.serial + (n - s.serial)
      omega
  exact (Stmt.mirrors_checkAll ss s _ hrenamed).2

theorem Scopes.lookup?_rename (Γ : Scopes) (x : String) :
    (Γ.rename ρ).lookup? x = (Γ.lookup? x).map (Entity.rename ρ) := by
  unfold Scopes.lookup? Scopes.locate?
  rw [Scopes.frames_rename, Scopes.locateIn_rename, Option.map_map, Option.map_map]
  rfl

/-- The statements see the same in two sessions, up to a renaming of identities: in what the names
    that they mention denote, in which of the names that they declare at their own level the current
    scope declares already, and in the loop and the function around. -/
structure Session.Matches (ρ : Identity → Identity) (ss : List Stmt) (s t : Session) : Prop where
  lookup : ∀ node ∈ Stmt.nodesAll ss, ∀ x, node.mentioned? = some x →
    s.scopes.lookup? x = (t.scopes.lookup? x).map (Entity.rename ρ)
  declares : ∀ x ∈ ss.filterMap Stmt.declares?,
    s.scopes.inner.declares x = t.scopes.inner.declares x
  inLoop : s.scopes.inLoop = t.scopes.inLoop
  function : s.scopes.currentFunction = t.scopes.currentFunction.map (Decl.Function.rename ρ)

/-- Once both count from the same number on, the sessions agree. -/
theorem Session.Matches.agree {ss : List Stmt} (h : Session.Matches ρ ss s t) (n : Nat) :
    Session.Agree (Stmt.nodesAll ss) (· ∈ ss.filterMap Stmt.declares?) ⟨s.scopes.rename id, n⟩
      ⟨t.scopes.rename ρ, n⟩ where
  serial := rfl
  lookup node hnode x hx := by
    show (s.scopes.rename id).lookup? x = (t.scopes.rename ρ).lookup? x
    rw [Scopes.rename_id, Scopes.lookup?_rename, h.lookup node hnode x hx]
  declares x hx := by
    show (s.scopes.inner.rename id).declares x = (t.scopes.inner.rename ρ).declares x
    rw [Frame.declares_rename, Frame.declares_rename, h.declares x hx]
  inLoop := h.inLoop
  function := by
    show (s.scopes.rename id).currentFunction = (t.scopes.rename ρ).currentFunction
    rw [Scopes.rename_id, Scopes.currentFunction_rename, h.function]

/-- Statements that see the same come to the same. -/
theorem Session.Matches.result_eq {ss : List Stmt} (h : Session.Matches ρ ss s t)
    (hs : s.scopes.Below s.serial) (ht : t.scopes.Below t.serial) (hsn : s.serial ≤ n)
    (htn : t.serial ≤ n) :
    ((Stmt.checkAll ss).run s).result.map
        (Resolved.Stmt.renameAll (Identity.redirect id s.serial (n - s.serial))) =
      ((Stmt.checkAll ss).run t).result.map
        (Resolved.Stmt.renameAll (Identity.redirect ρ t.serial (n - t.serial))) := by
  rw [← Stmt.result_checkAll_recount hs hsn, ← Stmt.result_checkAll_recount ht htn]
  exact (Stmt.respects_checkAll ss (List.Subset.refl _) (fun _ hx => hx) _ _ (h.agree n)).1

end

/-! ## 3. Catalogs -/

section

variable {c d : Catalog}

/-- Catalogs that agree on what a program mentions and declares show it the same. -/
theorem Session.matches_loaded (hc : c.names.Nodup) (hd : d.names.Nodup) {p : Program}
    {ρ : Identity → Identity}
    (hmentioned : ∀ node ∈ Stmt.nodesAll p, ∀ x, node.mentioned? = some x →
      c.get? x = (d.get? x).map (Entity.rename ρ))
    (hdeclared : ∀ x ∈ p.filterMap Stmt.declares?, (c.get? x).isSome = (d.get? x).isSome) :
    Session.Matches ρ p (Session.loaded c) (Session.loaded d) where
  lookup node hnode x hx := by
    rw [Session.lookup?_loaded hc, Session.lookup?_loaded hd]
    exact hmentioned node hnode x hx
  declares x hx := by
    rw [Session.declares_loaded hc, Session.declares_loaded hd]
    exact hdeclared x hx
  inLoop := rfl
  function := rfl

end

/-- **An analysis depends only on what the program mentions.**

    * Statements that see the same in two sessions that arise, of any depths and on any catalogs,
      come to the same resolved statements, once the declarations of both results are counted from a
      common number on; or they come to the same diagnostic.
    * Two catalogs without repeated names that agree on the names that a program mentions, and on
      which of the names of its own level they take, give the same analysis in this sense, whatever
      else is in them and in whatever order.
    * Counting from a number on keeps the identities that are in use and confuses none. -/
theorem analysis_depends_on_mentions :
    (∀ (c d : Catalog) (s t : Session) (ss : List Stmt) (ρ : Identity → Identity) (n : Nat),
      s.Arises c → t.Arises d → Session.Matches ρ ss s t → s.serial ≤ n → t.serial ≤ n →
        ((Stmt.checkAll ss).run s).result.map
            (Resolved.Stmt.renameAll (Identity.redirect id s.serial (n - s.serial))) =
          ((Stmt.checkAll ss).run t).result.map
            (Resolved.Stmt.renameAll (Identity.redirect ρ t.serial (n - t.serial)))) ∧
    (∀ (c d : Catalog) (p : Program) (ρ : Identity → Identity) (n : Nat),
      c.names.Nodup → d.names.Nodup →
      (∀ node ∈ Stmt.nodesAll p, ∀ x, node.mentioned? = some x →
        c.get? x = (d.get? x).map (Entity.rename ρ)) →
      (∀ x ∈ p.filterMap Stmt.declares?, (c.get? x).isSome = (d.get? x).isSome) →
      c.firstSerial ≤ n → d.firstSerial ≤ n →
        (analyze c p).result.map
            (Resolved.Stmt.renameAll (Identity.redirect id c.firstSerial (n - c.firstSerial))) =
          (analyze d p).result.map
            (Resolved.Stmt.renameAll (Identity.redirect ρ d.firstSerial (n - d.firstSerial)))) ∧
    (∀ m n : Nat, Function.Injective (Identity.redirect id m (n - m)) ∧
      ∀ i : Identity, i.next ≤ m → Identity.redirect id m (n - m) i = i) := by
  refine ⟨fun c d s t ss ρ n hs ht hst hsn htn => ?_,
    fun c d p ρ n hc hd hmentioned hdeclared => ?_,
    fun m n => ⟨Identity.redirect_id_injective m (n - m), fun i => Identity.redirect_of_next_le⟩⟩
  · exact hst.result_eq hs.scopes_below ht.scopes_below hsn htn
  · rw [result_analyze_of_nodup hc, result_analyze_of_nodup hd]
    exact (Session.matches_loaded hc hd hmentioned hdeclared).result_eq (Session.below_loaded c)
      (Session.below_loaded d)

/-- A function that prints its parameter. -/
def printing : Program :=
  [.function "f" [⟨"n", .named "int" .origin, .origin⟩] none
    [.declare "m" false (.name "n" .origin) .origin,
     .eval (.call (.name "print" .origin) [.name "m" .origin] .origin) .origin] .origin]

/-- A catalog with a type and a function. -/
def smallCatalog : Catalog :=
  Catalog.empty |>.addType "int" .int |>.addFunction "print" ⟨[.any], .void⟩

/-- The same, built in another order around a constant. -/
def otherCatalog : Catalog :=
  Catalog.empty |>.addFunction "print" ⟨[.any], .void⟩ |>.addConstant "e" .float
    |>.addType "int" .int

/-- The place of the function in one catalog to its place in the other. -/
def placeOfPrint (i : Identity) : Identity := if i = .library 0 then .library 1 else i

/-- The two catalogs give the program the same analysis, up to the place of the function; and in the
    body of a loop, a statement is checked alike with and without another scope in between. -/
theorem analysis_depends_on_mentions_printing :
    (∃ R, (analyze smallCatalog printing).result = .ok R) ∧
    (analyze smallCatalog printing).result =
      (analyze otherCatalog printing).result.map
        (Resolved.Stmt.renameAll (Identity.redirect placeOfPrint 0 0)) ∧
    ((Stmt.checkAll [.exitLoop .origin]).run ((Session.loaded .standard).enter .loop)).result =
      ((Stmt.checkAll [.exitLoop .origin]).run
        (((Session.loaded .standard).enter .loop).enter .block)).result := by
  obtain ⟨hsessions, hcatalogs, -⟩ := analysis_depends_on_mentions
  have hid : Resolved.Stmt.renameAll (Identity.redirect id 0 0) = id := by
    rw [Identity.redirect_id_zero]
    exact funext Resolved.Stmt.renameAll_id
  have hmap : ∀ r : Except Diagnostic (List Resolved.Stmt),
      r.map (Resolved.Stmt.renameAll (Identity.redirect id 0 0)) = r := by
    intro r
    rw [hid, Except.map_id]
    rfl
  have hmentioned : ∀ node ∈ Stmt.nodesAll printing, ∀ x ∈ node.mentioned?.toList,
      smallCatalog.get? x = (otherCatalog.get? x).map (Entity.rename placeOfPrint) := by decide
  refine ⟨⟨_, rfl⟩, ?_, ?_⟩
  · have hsame := hcatalogs smallCatalog otherCatalog printing placeOfPrint 0 (by decide)
      (by decide) (fun node hnode x hx => hmentioned node hnode x (Option.mem_toList.mpr hx))
      (by decide) (by decide) (by decide)
    exact (hmap _).symm.trans hsame
  · have hopen : (Session.loaded .standard).Arises .standard := .opened rfl
    have hloop := hopen.move (.enter _ .loop)
    have hblock := hloop.move (.enter _ .block)
    have hseen : Session.Matches id [.exitLoop .origin] ((Session.loaded .standard).enter .loop)
        (((Session.loaded .standard).enter .loop).enter .block) := by
      refine ⟨fun node hnode x hx => ?_, nofun, rfl, rfl⟩
      obtain rfl := List.mem_singleton.mp hnode
      cases hx
    have hsame := hsessions .standard .standard _ _ _ id 0 hloop hblock hseen (by decide)
      (by decide)
    exact (hmap _).symm.trans (hsame.trans (hmap _))

end Sema
