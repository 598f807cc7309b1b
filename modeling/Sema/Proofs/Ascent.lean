import Mathlib.Data.List.Basic
import Sema.Project.Path

/-!
# The way up from a path

The components of a path are the root, where the path starts there, and its steps. The parent of a
path is what is left of its text without the last component (`Path.IsParent`): of all beginnings of
the text that have the other components, the shortest. The root is no component that can be taken
away, so a path that has no other has no parent.

`Path.upward` goes this way: its paths are those that are reached when the last component is taken
away again and again (`getElem?_upward_eq_some`), and the way ends at the root or at the empty path
(`exists_rises_top`).
-/

namespace Sema.Path

/-! ## 1. Components and parents -/

/-- The segments that are steps. -/
def steps (segments : List String) : List String := segments.filter fun s => !isIdle s

/-- What a path starts with: the root, or its first segment. -/
def anchor (p : Path) : List String :=
  if p.isAbsolute then ["/"] else if p.first = "" then [] else [p.first]

/-- The components of a path: what it starts with, and the steps after that. -/
def components (p : Path) : List String := p.anchor ++ steps p.rest

/-- The text of the parent of a path: its shortest beginning with all components but the last. -/
structure IsParent (parent child : String) : Prop where
  components : ∃ last, last ≠ "/" ∧
    (ofString child).components = (ofString parent).components ++ [last]
  beginning : parent.toList <+: child.toList
  shortest : ∀ other : String, other.toList <+: child.toList →
    (ofString other).components = (ofString parent).components → parent.length ≤ other.length

/-- From `start`, the path `top` is reached by taking away the last component `n` times. -/
inductive Rises : (start : String) → (n : Nat) → (top : String) → Prop
  | here (t : String) : Rises t 0 t
  | up {t u v : String} {n : Nat} : IsParent u t → Rises u n v → Rises t (n + 1) v

/-! ## 2. Texts and segments -/

/-- The segments of a path, the first included. -/
def parts (p : Path) : List String := p.first :: p.rest

theorem eq_of_parts {p : Path} {f : String} {r : List String} (h : p.parts = f :: r) :
    p = ⟨f, r⟩ := by
  obtain ⟨rfl, rfl⟩ := List.cons.inj h
  rfl

theorem textOf_parts (p : Path) : textOf p.parts = "/" ++ p.text := String.append_assoc

theorem textOf_append (a b : List String) : textOf (a ++ b) = textOf a ++ textOf b := by
  induction a with
  | nil => simp [textOf]
  | cons s a ih => simp [textOf, ih, String.append_assoc]

theorem slash_notMem_segments : ∀ (cs : List Char), ∀ s ∈ segments cs, '/' ∉ s
  | [], s, hs => by
      rw [segments, List.mem_singleton] at hs
      simp [hs]
  | c :: r, s, hs => by
      have ih := slash_notMem_segments r
      cases hr : segments r with
      | nil => exact absurd hr (segments_ne_nil r)
      | cons x xs =>
          rw [segments, hr] at hs
          rw [hr] at ih
          by_cases hc : c = '/'
          · rw [if_pos hc, List.mem_cons] at hs
            rcases hs with rfl | hs
            · exact List.not_mem_nil
            · exact ih s hs
          · rw [if_neg hc, List.mem_cons] at hs
            rcases hs with rfl | hs
            · rw [List.mem_cons, not_or]
              exact ⟨fun h => hc h.symm, ih x List.mem_cons_self⟩
            · exact ih s (List.mem_cons_of_mem x hs)

theorem parts_ofString (t : String) :
    (ofString t).parts = (segments t.toList).map String.ofList := by
  unfold ofString
  cases h : segments t.toList with
  | nil => exact absurd h (segments_ne_nil _)
  | cons s ss => rfl

/-- The segments of a text hold no slashes. -/
theorem slash_notMem_parts {t s : String} (hs : s ∈ (ofString t).parts) : '/' ∉ s.toList := by
  rw [parts_ofString] at hs
  obtain ⟨x, hx, rfl⟩ := List.mem_map.mp hs
  rw [String.toList_ofList]
  exact slash_notMem_segments t.toList x hx

theorem segments_text : ∀ (f : List Char) (rest : List String), '/' ∉ f →
    (∀ s ∈ rest, '/' ∉ s.toList) →
      segments (f ++ (textOf rest).toList) = f :: rest.map String.toList
  | [], [], _, _ => rfl
  | [], s :: ss, _, h => by
      have ih := segments_text s.toList ss (h s List.mem_cons_self)
        (fun x hx => h x (List.mem_cons_of_mem s hx))
      simpa [textOf, segments] using ih
  | c :: f, rest, hf, h => by
      rw [List.mem_cons, not_or] at hf
      rw [List.cons_append, segments, if_neg (Ne.symm hf.1), segments_text f rest hf.2 h]
termination_by f rest => (rest.length, f.length)

/-- **A text has the segments that it is written with.** -/
theorem ofString_text {p : Path} (h : ∀ s ∈ p.parts, '/' ∉ s.toList) : ofString p.text = p := by
  have hsegments := segments_text p.first.toList p.rest (h _ List.mem_cons_self)
    (fun s hs => h s (List.mem_cons_of_mem _ hs))
  have hofList : String.ofList ∘ String.toList = id := by
    funext s
    exact String.ofList_toList
  simp [ofString, text, hsegments, hofList]

theorem ofString_inj {t u : String} : ofString t = ofString u ↔ t = u := by
  constructor
  · intro h
    rw [← text_ofString t, h, text_ofString]
  · rintro rfl
    rfl

theorem ofString_eq_empty_iff {t : String} : ofString t = empty ↔ t = "" :=
  ofString_inj (u := "")

/-- A text goes on in its last segment. -/
theorem parts_append {u w x y : String} {us ws : List String}
    (hu : (ofString u).parts = us ++ [x]) (hw : (ofString w).parts = y :: ws) :
    (ofString (u ++ w)).parts = us ++ (x ++ y) :: ws := by
  obtain ⟨p, hp⟩ : ∃ p, us ++ (x ++ y) :: ws = parts p := by
    cases us with
    | nil => exact ⟨⟨_, _⟩, rfl⟩
    | cons f us => exact ⟨⟨_, _⟩, rfl⟩
  have htextU : "/" ++ u = textOf us ++ ("/" ++ x) := by
    have h := textOf_parts (ofString u)
    rw [text_ofString, hu, textOf_append] at h
    simpa [textOf] using h.symm
  have htextW : w = y ++ textOf ws := by
    have h := textOf_parts (ofString w)
    rw [text_ofString, hw, textOf, String.append_assoc, String.append_right_inj] at h
    exact h.symm
  have htext : p.text = u ++ w := by
    rw [← String.append_right_inj "/"]
    calc "/" ++ p.text = textOf us ++ ("/" ++ (x ++ y) ++ textOf ws) := by
          rw [← textOf_parts, ← hp, textOf_append, textOf]
      _ = "/" ++ u ++ w := by
          rw [htextU, htextW]
          simp only [String.append_assoc]
      _ = "/" ++ (u ++ w) := String.append_assoc
  have hplain : ∀ s ∈ p.parts, '/' ∉ s.toList := by
    intro s hs
    rw [← hp, List.mem_append, List.mem_cons] at hs
    rcases hs with hs | rfl | hs
    · exact slash_notMem_parts (hu ▸ List.mem_append_left [x] hs)
    · rw [String.toList_append, List.mem_append, not_or]
      exact ⟨slash_notMem_parts (hu ▸ List.mem_append_right us (List.mem_singleton_self x)),
        slash_notMem_parts (hw ▸ List.mem_cons_self)⟩
    · exact slash_notMem_parts (hw ▸ List.mem_cons_of_mem y hs)
  rw [hp, ← ofString_text hplain, htext]

/-! ## 3. Beginnings with the same components -/

theorem steps_append (a b : List String) : steps (a ++ b) = steps a ++ steps b :=
  List.filter_append a b

theorem steps_cons_of_idle {s : String} (h : isIdle s = true) (ss : List String) :
    steps (s :: ss) = steps ss := by
  simp [steps, h]

theorem steps_cons_of_step {s : String} (h : isIdle s = false) (ss : List String) :
    steps (s :: ss) = s :: steps ss := by
  simp [steps, h]

theorem length_steps_singleton_le (s : String) : (steps [s]).length ≤ 1 :=
  List.length_filter_le _ [s]

theorem anchor_of_ne_nil {f : String} {r : List String} (hr : r ≠ []) :
    anchor ⟨f, r⟩ = if f = "" then ["/"] else [f] := by
  by_cases hf : f = "" <;> simp [anchor, isAbsolute, hf, hr]

theorem anchor_nil (f : String) : anchor ⟨f, []⟩ = if f = "" then [] else [f] := by
  by_cases hf : f = "" <;> simp [anchor, isAbsolute, hf]

theorem isIdle_of_append {x y : String} (h : isIdle (x ++ y) = true) : isIdle x = true := by
  simp only [isIdle, Bool.or_eq_true, decide_eq_true_eq] at h ⊢
  rcases h with h | h
  · exact .inl (String.append_eq_empty_iff.mp h).1
  · have hlist : x.toList ++ y.toList = ['.'] := by
      rw [← String.toList_append, h]
      rfl
    rcases List.append_eq_singleton_iff.mp hlist with ⟨hx, -⟩ | ⟨hx, -⟩
    · exact .inl (String.toList_injective hx)
    · exact .inr (String.toList_injective hx)

/-- A path whose text ends with its last component. -/
def IsTrim (p : Path) : Prop := p = root ∨ ∀ s ∈ p.rest.getLast?, isIdle s = false

/-- The last segment of a beginning, where the segment goes on and steps come after it. -/
theorem eq_of_steps_eq {x y : String} {ws : List String}
    (hlast : ∀ s ∈ ((x ++ y) :: ws).getLast?, isIdle s = false)
    (h : steps [x] = steps ((x ++ y) :: ws)) : y = "" ∧ ws = [] := by
  rcases List.eq_nil_or_concat' ws with rfl | ⟨ws, z, rfl⟩
  · have hstep : isIdle (x ++ y) = false := hlast _ rfl
    have hx : isIdle x = false := by
      by_contra hx
      rw [Bool.not_eq_false] at hx
      rw [steps_cons_of_idle hx, steps_cons_of_step hstep] at h
      cases h
    rw [steps_cons_of_step hx, steps_cons_of_step hstep] at h
    have hxy : x ++ "" = x ++ y := by
      rw [String.append_empty]
      exact (List.cons.inj h).1
    exact ⟨((String.append_right_inj x).mp hxy).symm, rfl⟩
  · -- one step is too few, unless the segment is idle with what it goes on with
    exfalso
    rw [← List.cons_append] at h hlast
    have hz : isIdle z = false := hlast z List.getLast?_concat
    rw [steps_append, steps_cons_of_step hz] at h
    cases hxy : isIdle (x ++ y) with
    | true =>
        rw [steps_cons_of_idle (isIdle_of_append hxy)] at h
        exact List.append_ne_nil_of_right_ne_nil _ (List.cons_ne_nil z _) h.symm
    | false =>
        have hlen := congrArg List.length h
        have hle := length_steps_singleton_le x
        rw [steps_cons_of_step hxy, List.length_append, List.length_cons, List.length_cons] at hlen
        omega

theorem eq_of_components_later {f x y : String} {r ws : List String}
    (htrim : IsTrim ⟨f, r ++ (x ++ y) :: ws⟩)
    (h : components ⟨f, r ++ [x]⟩ = components ⟨f, r ++ (x ++ y) :: ws⟩) : y = "" ∧ ws = [] := by
  rcases htrim with hroot | hlast
  · -- the only segment of the root after the first is empty, so nothing was added to it
    injection hroot with _ hrest
    rcases List.append_eq_singleton_iff.mp hrest with ⟨-, hxy⟩ | ⟨-, hxy⟩
    · injection hxy with hxy hws
      exact ⟨(String.append_eq_empty_iff.mp hxy).2, hws⟩
    · cases hxy
  · rw [components, components, anchor_of_ne_nil (by simp), anchor_of_ne_nil (by simp),
      List.append_right_inj, steps_append, steps_append, List.append_right_inj] at h
    refine eq_of_steps_eq (fun s hs => hlast s ?_) h
    rw [List.getLast?_append, hs]
    rfl

theorem eq_of_components_first {f y : String} {ws : List String}
    (htrim : IsTrim ⟨f ++ y, ws⟩) (h : components ⟨f, []⟩ = components ⟨f ++ y, ws⟩) :
    y = "" ∧ ws = [] := by
  rw [components, components, anchor_nil] at h
  rcases List.eq_nil_or_concat' ws with rfl | ⟨ws, z, rfl⟩
  · rw [anchor_nil] at h
    refine ⟨?_, rfl⟩
    by_cases hf : f = ""
    · by_contra hy
      simp [hf, hy] at h
    · have hfy : f ++ "" = f ++ y := by simpa [hf, steps] using h
      exact ((String.append_right_inj f).mp hfy).symm
  · exfalso
    rw [anchor_of_ne_nil (by simp)] at h
    by_cases hfy : f ++ y = ""
    · rw [if_pos hfy, if_pos (String.append_eq_empty_iff.mp hfy).1] at h
      cases h
    · have hz : isIdle z = false := by
        rcases htrim with hroot | hlast
        · injection hroot with hfirst
          exact absurd hfirst hfy
        · exact hlast z List.getLast?_concat
      have hlen := congrArg List.length h
      rw [steps_append, steps_cons_of_step hz] at hlen
      by_cases hf : f = "" <;> simp [hfy, hf, steps] at hlen

/-- **No shorter beginning has the same components** as a path that ends with its last one. -/
theorem eq_of_beginning {u v : String} (hbegin : u.toList <+: v.toList)
    (htrim : (ofString v).IsTrim) (h : (ofString u).components = (ofString v).components) :
    u = v := by
  obtain ⟨tail, htail⟩ := hbegin
  obtain ⟨w, rfl⟩ : ∃ w, v = u ++ w := by
    refine ⟨String.ofList tail, String.toList_injective ?_⟩
    rw [String.toList_append, String.toList_ofList, htail]
  suffices hw : ofString w = empty by
    rw [ofString_eq_empty_iff.mp hw, String.append_empty]
  cases hw : ofString w with
  | mk y ws =>
  have hpw : (ofString w).parts = y :: ws := by rw [hw]; rfl
  cases hu : ofString u with
  | mk f r =>
  -- the text goes on either in its first segment or in a later one
  obtain ⟨rfl, rfl⟩ : y = "" ∧ ws = [] := by
    rcases List.eq_nil_or_concat' r with rfl | ⟨r, x, rfl⟩
    · have hpu : (ofString u).parts = [] ++ [f] := by rw [hu]; rfl
      have hv : ofString (u ++ w) = ⟨f ++ y, ws⟩ := eq_of_parts (parts_append hpu hpw)
      rw [hv] at htrim
      rw [hu, hv] at h
      exact eq_of_components_first htrim h
    · have hpu : (ofString u).parts = (f :: r) ++ [x] := by rw [hu]; rfl
      have hv : ofString (u ++ w) = ⟨f, r ++ (x ++ y) :: ws⟩ :=
        eq_of_parts (parts_append hpu hpw)
      rw [hv] at htrim
      rw [hu, hv] at h
      exact eq_of_components_later htrim h
  rfl

/-! ## 4. The parent of a path -/

theorem parentsOf_dropWhile (f : String) : ∀ ss : List String,
    parentsOf f (ss.dropWhile isIdle) = parentsOf f ss
  | [] => rfl
  | s :: ss => by
      cases hs : isIdle s with
      | true =>
          rw [List.dropWhile_cons_of_pos hs, parentsOf_dropWhile f ss, parentsOf, if_pos hs]
      | false => rw [List.dropWhile_cons_of_neg (by simp [hs])]

/-- The parents of the nearest parent are those further up. -/
theorem parents_upTo (f : String) (ss : List String) : (upTo f ss).parents = parentsOf f ss := by
  rw [← parentsOf_dropWhile, upTo]
  cases ss.dropWhile isIdle with
  | nil =>
      by_cases hf : f = ""
      · rw [if_pos hf, hf]
        rfl
      · rw [if_neg hf]
        rfl
  | cons s ss => rw [parents, List.reverse_reverse]

/-- What `upTo` leaves out are no steps. -/
theorem exists_idle_tail (ss : List String) :
    ∃ ds, steps ds = [] ∧ ss.reverse = (ss.dropWhile isIdle).reverse ++ ds := by
  refine ⟨(ss.takeWhile isIdle).reverse, ?_, ?_⟩
  · refine List.filter_eq_nil_iff.mpr (fun s hs => ?_)
    simp [List.all_eq_true.mp List.all_takeWhile s (List.mem_reverse.mp hs)]
  · rw [← List.reverse_append, List.takeWhile_append_dropWhile]

theorem components_upTo (f : String) (ss : List String) :
    (upTo f ss).components = (if f = "" then ["/"] else [f]) ++ steps ss.reverse := by
  obtain ⟨ds, hds, hss⟩ := exists_idle_tail ss
  rw [hss, steps_append, hds, List.append_nil, upTo]
  cases ss.dropWhile isIdle with
  | nil => by_cases hf : f = "" <;> simp [hf, components, anchor, isAbsolute, root, steps, isIdle]
  | cons s ss =>
      show anchor ⟨f, (s :: ss).reverse⟩ ++ _ = _
      rw [anchor_of_ne_nil (by simp)]

theorem isTrim_upTo (f : String) (ss : List String) : (upTo f ss).IsTrim := by
  have hhead := List.head?_dropWhile_not isIdle ss
  rw [upTo]
  cases hss : ss.dropWhile isIdle with
  | nil =>
      by_cases hf : f = ""
      · rw [if_pos hf]
        exact .inl rfl
      · rw [if_neg hf]
        exact .inr (fun s hs => nomatch hs)
  | cons s ss =>
      rw [hss] at hhead
      refine .inr (fun t ht => ?_)
      rw [List.getLast?_reverse] at ht
      cases ht
      exact hhead

/-- The text of a parent is a beginning of the text. -/
theorem text_upTo (f : String) (ss : List String) (s : String) (ds : List String) :
    (upTo f ss).text.toList <+: (Path.mk f (ss.reverse ++ s :: ds)).text.toList := by
  obtain ⟨idle, -, hss⟩ := exists_idle_tail ss
  rw [hss, upTo]
  cases ss.dropWhile isIdle with
  | nil =>
      by_cases hf : f = ""
      · rw [if_pos hf, hf]
        cases idle <;> simp [text, textOf, root]
      · rw [if_neg hf]
        simp [text, textOf]
  | cons t ts =>
      have htext : (Path.mk f ((t :: ts).reverse ++ idle ++ s :: ds)).text =
          (f ++ textOf (t :: ts).reverse) ++ (textOf idle ++ textOf (s :: ds)) := by
        rw [text, textOf_append, textOf_append]
        simp only [String.append_assoc]
      rw [htext, String.toList_append]
      exact List.prefix_append _ _

theorem mem_parts_upTo {f : String} {ss : List String} {s : String}
    (hs : s ∈ (upTo f ss).parts) : s = "" ∨ s ∈ f :: ss.reverse := by
  obtain ⟨idle, -, hss⟩ := exists_idle_tail ss
  rw [hss]
  rw [upTo] at hs
  cases hdrop : ss.dropWhile isIdle with
  | nil =>
      rw [hdrop] at hs
      by_cases hf : f = ""
      · rw [if_pos hf] at hs
        simp_all [parts, root]
      · rw [if_neg hf] at hs
        exact .inr (by simp_all [parts])
  | cons t ts =>
      rw [hdrop] at hs
      refine .inr ?_
      rcases List.mem_cons.mp hs with rfl | hs
      · exact List.mem_cons_self
      · exact List.mem_cons_of_mem f (List.mem_append_left idle hs)

/-- What the parents of a path are. -/
theorem parents_cases (p : Path) :
    (p.parents = [] ∧ (p = empty ∨ p.components = ["/"])) ∨
    ∃ (q : Path) (last : String), p.parents = q.upward ∧ last ∈ p.parts ∧
      p.components = q.components ++ [last] ∧ q.IsTrim ∧ q.text.toList <+: p.text.toList ∧
      ∀ s ∈ q.parts, s = "" ∨ s ∈ p.parts := by
  obtain ⟨f, r⟩ := p
  obtain ⟨ds, hds, hr⟩ := exists_idle_tail r.reverse
  rw [List.reverse_reverse] at hr
  have hparents : parents ⟨f, r⟩ = parentsOf f (r.reverse.dropWhile isIdle) :=
    (parentsOf_dropWhile f r.reverse).symm
  rw [hparents]
  cases hss : r.reverse.dropWhile isIdle with
  | nil =>
      rw [hss, List.reverse_nil, List.nil_append] at hr
      subst hr
      by_cases hf : f = ""
      · refine .inl ⟨by rw [parentsOf, if_pos hf], ?_⟩
        cases r with
        | nil => exact .inl (by rw [hf]; rfl)
        | cons s ss =>
            refine .inr ?_
            rw [components, hds, anchor_of_ne_nil (List.cons_ne_nil s ss), if_pos hf,
              List.append_nil]
      · refine .inr ⟨empty, f, ?_, List.mem_cons_self, ?_, .inr nofun, List.nil_prefix, ?_⟩
        · rw [parentsOf, if_neg hf]
          rfl
        · rw [components, hds, anchor, if_neg (by simp [isAbsolute, hf]), if_neg hf]
          rfl
        · intro s hs
          exact .inl (List.mem_singleton.mp hs)
  | cons s ss =>
      rw [hss, List.reverse_cons, List.append_assoc, List.singleton_append] at hr
      subst hr
      have hs : isIdle s = false := by
        have hhead := List.head?_dropWhile_not isIdle (ss.reverse ++ s :: ds).reverse
        rw [hss] at hhead
        exact hhead
      refine .inr ⟨upTo f ss, s, ?_, ?_, ?_, isTrim_upTo f ss, text_upTo f ss s ds, ?_⟩
      · rw [parentsOf, if_neg (by simp [hs]), upward, parents_upTo]
      · simp [parts]
      · rw [components_upTo, components, anchor_of_ne_nil (by simp), steps_append,
          steps_cons_of_step hs, hds, List.append_assoc]
      · intro t ht
        refine (mem_parts_upTo ht).imp_right (fun ht => ?_)
        simp only [parts, List.mem_cons, List.mem_append] at ht ⊢
        tauto

theorem IsParent.unique {u v t : String} (hu : IsParent u t) (hv : IsParent v t) : u = v := by
  obtain ⟨a, -, ha⟩ := hu.components
  obtain ⟨b, -, hb⟩ := hv.components
  have hcomponents := (List.append_inj' (ha.symm.trans hb) rfl).1
  have huv := hu.shortest v hv.beginning hcomponents.symm
  have hvu := hv.shortest u hu.beginning hcomponents
  have hlength : u.toList.length = v.toList.length := by
    rw [String.length_toList, String.length_toList]
    exact Nat.le_antisymm huv hvu
  have hbegin := List.prefix_of_prefix_length_le hu.beginning hv.beginning (Nat.le_of_eq hlength)
  exact String.toList_injective (hbegin.eq_of_length hlength)

/-- **The parents of a path are its parent and the parents of that**, and a path without a parent is
    the empty path or has the root as its only component. -/
theorem parents_ofString (t : String) :
    ((ofString t).parents = [] ∧ (∀ u, ¬ IsParent u t) ∧
      (t = "" ∨ (ofString t).components = ["/"])) ∨
    ∃ u, IsParent u t ∧ (ofString t).parents = (ofString u).upward := by
  rcases parents_cases (ofString t) with ⟨hparents, htop⟩ |
    ⟨q, last, hparents, hlast, hcomponents, htrim, hbegin, hparts⟩
  · refine .inl ⟨hparents, fun u hu => ?_, htop.imp_left ofString_eq_empty_iff.mp⟩
    obtain ⟨last, hlast, hcomponents⟩ := hu.components
    rcases htop with h | h
    · rw [h] at hcomponents
      exact List.append_ne_nil_of_right_ne_nil _ (List.cons_ne_nil last []) hcomponents.symm
    · rw [h] at hcomponents
      rcases List.append_eq_singleton_iff.mp hcomponents.symm with ⟨-, h⟩ | ⟨-, h⟩
      · exact hlast (List.cons.inj h).1
      · cases h
  · have hq : ofString q.text = q := by
      refine ofString_text (fun s hs => ?_)
      rcases hparts s hs with rfl | hs
      · exact List.not_mem_nil
      · exact slash_notMem_parts hs
    refine .inr ⟨q.text, ⟨⟨last, ?_, by rw [hcomponents, hq]⟩, ?_, ?_⟩, by rw [hparents, hq]⟩
    · rintro rfl
      exact slash_notMem_parts hlast (by decide)
    · rwa [text_ofString] at hbegin
    · intro other hother hsame
      rw [text_ofString] at hbegin
      rcases List.prefix_or_prefix_of_prefix hbegin hother with h | h
      · simpa only [String.length_toList] using h.length_le
      · rw [← hq] at htrim
        exact Nat.le_of_eq (congrArg String.length (eq_of_beginning h htrim hsame)).symm

/-! ## 5. All the way up -/

/-- **The paths on the way up are those that are reached by taking away components.** -/
theorem getElem?_upward_eq_some {t : String} {n : Nat} {p : Path} :
    (ofString t).upward[n]? = some p ↔ ∃ v, Rises t n v ∧ p = ofString v := by
  induction n generalizing t with
  | zero =>
      rw [upward, List.getElem?_cons_zero, Option.some_inj]
      constructor
      · rintro rfl
        exact ⟨t, .here t, rfl⟩
      · rintro ⟨_, ⟨⟩, rfl⟩
        rfl
  | succ n ih =>
      rw [upward, List.getElem?_cons_succ]
      rcases parents_ofString t with ⟨hparents, hnone, -⟩ | ⟨u, hu, hparents⟩
      · rw [hparents]
        constructor
        · intro h
          cases h
        · rintro ⟨_, _ | ⟨hparent, _⟩, _⟩
          exact absurd hparent (hnone _)
      · rw [hparents, ih]
        constructor
        · rintro ⟨v, hrises, hp⟩
          exact ⟨v, .up hu hrises, hp⟩
        · rintro ⟨v, _ | ⟨hparent, hrises⟩, hp⟩
          rw [hu.unique hparent]
          exact ⟨v, hrises, hp⟩

/-- The way up ends, at the empty path or at the root. -/
theorem exists_rises_top (t : String) :
    ∃ n top, Rises t n top ∧ (∀ u, ¬ IsParent u top) ∧
      (top = "" ∨ (ofString top).components = ["/"]) := by
  induction h : (ofString t).parents.length generalizing t with
  | zero =>
      rcases parents_ofString t with ⟨-, htop⟩ | ⟨u, -, hparents⟩
      · exact ⟨0, t, .here t, htop⟩
      · rw [hparents] at h
        cases h
  | succ n ih =>
      rcases parents_ofString t with ⟨hparents, -⟩ | ⟨u, hu, hparents⟩
      · rw [hparents] at h
        cases h
      · rw [hparents] at h
        obtain ⟨m, top, hrises, htop⟩ := ih u (Nat.succ.inj h)
        exact ⟨m + 1, top, .up hu hrises, htop⟩

/-! ## 6. Names inside a directory -/

/-- The text of a name inside a directory: with a slash between them, unless the text of the
    directory is empty or ends with one. -/
def joined (directory name : String) : String :=
  if directory = "" ∨ directory.toList.getLast? = some '/' then directory ++ name
  else directory ++ "/" ++ name

theorem text_concat (f x : String) (r : List String) :
    (Path.mk f (r ++ [x])).text = (Path.mk f r).text ++ "/" ++ x := by
  simp [text, textOf, textOf_append, String.append_assoc]

theorem text_child (p : Path) (name : String) :
    (p.child name).text =
      if p = empty ∨ p.rest.getLast? = some "" then p.text ++ name else p.text ++ "/" ++ name := by
  obtain ⟨f, r⟩ := p
  by_cases hempty : Path.mk f r = empty
  · rw [if_pos (.inl hempty), child, if_pos hempty, hempty]
    simp [text, textOf, empty]
  · by_cases hlast : r.getLast? = some ""
    · obtain ⟨r, rfl⟩ := List.getLast?_eq_some_iff.mp hlast
      simp [child, hempty, text_concat]
    · have hchild : child ⟨f, r⟩ name = ⟨f, r ++ [name]⟩ := by
        rw [child, if_neg hempty]
        split
        · contradiction
        · rfl
      rw [hchild, text_concat, if_neg (not_or.mpr ⟨hempty, hlast⟩)]

theorem mem_parts_child {p : Path} {name s : String} (hs : s ∈ (p.child name).parts) :
    s = name ∨ s ∈ p.parts := by
  unfold child at hs
  split at hs
  · exact .inl (List.mem_singleton.mp hs)
  · split at hs
    · simp only [parts, List.mem_cons, List.mem_append, List.not_mem_nil, or_false] at hs ⊢
      rcases hs with rfl | hs | rfl
      · exact .inr (.inl rfl)
      · exact .inr (.inr (List.dropLast_subset _ hs))
      · exact .inl rfl
    · simp only [parts, List.mem_cons, List.mem_append, List.not_mem_nil, or_false] at hs ⊢
      tauto

/-- The last segment is empty exactly when the text ends with a slash. -/
theorem getLast?_rest_eq_empty_iff (t : String) :
    (ofString t).rest.getLast? = some "" ↔ t.toList.getLast? = some '/' := by
  have hplain : ∀ s ∈ (ofString t).parts, '/' ∉ s.toList := fun s hs => slash_notMem_parts hs
  have htext := text_ofString t
  revert hplain htext
  obtain ⟨f, r⟩ := ofString t
  rintro hplain rfl
  rcases List.eq_nil_or_concat' r with rfl | ⟨r, x, rfl⟩
  · have hf : '/' ∉ f.toList := hplain f List.mem_cons_self
    simp only [text, textOf, String.append_empty]
    constructor
    · intro h
      cases h
    · intro h
      exact absurd (List.mem_of_getLast? h) hf
  · have hx : '/' ∉ x.toList := hplain x (by simp [parts])
    have hlist : (Path.mk f (r ++ [x])).text.toList =
        (Path.mk f r).text.toList ++ ['/'] ++ x.toList := by
      rw [text_concat, String.toList_append, String.toList_append]
      rfl
    rw [hlist, List.getLast?_concat, Option.some_inj, List.getLast?_append]
    constructor
    · rintro rfl
      simp
    · intro h
      cases hlast : x.toList.getLast? with
      | none => exact String.toList_injective (List.getLast?_eq_none_iff.mp hlast)
      | some c =>
          rw [hlast] at h
          cases h
          exact absurd (List.mem_of_getLast? hlast) hx

/-- A name inside a directory is found by joining the texts. -/
theorem child_ofString {directory name : String} (hname : '/' ∉ name.toList) :
    (ofString directory).child name = ofString (joined directory name) := by
  have htext : ((ofString directory).child name).text = joined directory name := by
    simp only [text_child, text_ofString, getLast?_rest_eq_empty_iff, ofString_eq_empty_iff, joined]
  rw [← htext, ofString_text]
  intro s hs
  rcases mem_parts_child hs with rfl | hs
  · exact hname
  · exact slash_notMem_parts hs

end Sema.Path
