import Mathlib.Data.List.Basic
import Mathlib.Order.MinMax
import Sema.Toml.Quote
import Sema.Toml.Text

/-!
# Written strings are read back

For each of the four forms of a string, what the writer puts between the marks is read as the text
it was made from, and the reader stops at the closing marks. All forms together give `string_write`:
a string is read back whichever form its traits choose, provided that no further mark follows.

Two facts carry this:

* an escape is one that the reader knows, or the character stands for itself (`escaped_cases`), and
  both readers of basic strings treat escapes alike (`ReadsEscapes`);
* three marks in a row end a string on several lines, but up to two more before them still belong to
  it. So nothing that is written may show three in a row before the end, and a text that ends with
  marks has to be read to its last one (`closing?_append`).

How many marks stand in a row is tallied by `longestRun`; that it exceeds a bound says that so many
marks stand together somewhere (`lt_longestRun`). Hence a string has a written form exactly when no
256 of one kind stand together (`quote?_eq`).
-/

namespace Sema.Toml

/-! ## 1. Marks in a row -/

theorem replicate_prefix_iff {m c : Char} (hc : c ≠ m) (r : List Char) : ∀ n run : Nat,
    List.replicate n m <+: List.replicate run m ++ c :: r ↔ n ≤ run
  | 0, run => by simp
  | n + 1, 0 => by simp [List.replicate_succ, Ne.symm hc]
  | n + 1, run + 1 => by
      rw [List.replicate_succ, List.replicate_succ, List.cons_append, List.cons_prefix_cons,
        replicate_prefix_iff hc r n run, Nat.succ_le_succ_iff]
      exact and_iff_right rfl

/-- Another character ends a run of marks. -/
theorem replicate_infix_iff {m c : Char} (hc : c ≠ m) (r : List Char) (n : Nat) : ∀ run : Nat,
    List.replicate (n + 1) m <:+: List.replicate run m ++ c :: r ↔
      n < run ∨ List.replicate (n + 1) m <:+: r
  | 0 => by
      rw [List.replicate_zero, List.nil_append, List.infix_cons_iff]
      simp [List.replicate_succ, Ne.symm hc]
  | run + 1 => by
      have hbegins := replicate_prefix_iff hc r (n + 1) (run + 1)
      rw [List.replicate_succ (n := run), List.cons_append] at hbegins ⊢
      rw [List.infix_cons_iff, hbegins, replicate_infix_iff hc r n run, ← or_assoc,
        Nat.succ_le_iff, or_iff_left_of_imp Nat.lt_succ_of_lt]

theorem lt_longestRun_iff (m : Char) (n : Nat) : ∀ (cs : List Char) (run best : Nat),
    n < longestRun m run best cs ↔
      n < best ∨ List.replicate (n + 1) m <:+: List.replicate run m ++ cs
  | [], run, best => by
      rw [longestRun, List.append_nil, List.infix_replicate_iff, List.length_replicate, lt_max_iff,
        or_comm, Nat.succ_le_iff, and_iff_left rfl]
  | c :: cs, run, best => by
      rw [longestRun]
      by_cases hc : c = m
      · have hrun : List.replicate run m ++ c :: cs = List.replicate (run + 1) m ++ cs := by
          rw [List.replicate_succ', List.append_assoc, List.singleton_append, hc]
        rw [if_pos hc, lt_longestRun_iff m n cs, hrun]
      · rw [if_neg hc, lt_longestRun_iff m n cs, replicate_infix_iff hc, max_comm, lt_max_iff,
          or_assoc]
        rfl

/-- **A run of marks is longer than `n` exactly when so many stand together somewhere.** -/
theorem lt_longestRun {m : Char} {n : Nat} {cs : List Char} :
    n < longestRun m 0 0 cs ↔ List.replicate (n + 1) m <:+: cs := by
  rw [lt_longestRun_iff, or_iff_right (Nat.not_lt_zero n)]
  rfl

/-! ## 2. Escapes -/

/-- A reader of strings that knows the escapes of a letter or of four digits. -/
structure ReadsEscapes (read : Mode → Reader (List Char)) : Prop where
  letter : ∀ {c e : Char}, escape? c = some e → ∀ r,
    read .escape (c :: r) = push e (read (.text false) r)
  digits : ∀ r, read .escape ('u' :: r) = read (.code 3 0) r
  digit : ∀ {c : Char} {d : Nat}, hexDigit? c = some d → ∀ n value r,
    read (.code (n + 1) value) (c :: r) = read (.code n (value * 16 + d)) r
  lastDigit : ∀ {c e : Char} {d value : Nat}, hexDigit? c = some d →
    scalar? (value * 16 + d) = some e → ∀ r,
      read (.code 0 value) (c :: r) = push e (read (.text false) r)

theorem ne_of_escape?_eq_some {c e : Char} (h : escape? c = some e) : c ≠ 'u' ∧ c ≠ 'U' := by
  constructor
  · rintro rfl
    cases h
  · rintro rfl
    cases h

theorem readsEscapes_basicRest : ReadsEscapes basicRest where
  letter h r := by
    obtain ⟨hu, hU⟩ := ne_of_escape?_eq_some h
    rw [basicRest, if_neg hu, if_neg hU, h]
  digits r := rfl
  digit h n value r := by rw [basicRest, h]
  lastDigit h hscalar r := by rw [basicRest, h]; simp only [hscalar]

theorem readsEscapes_basicLinesRest : ReadsEscapes basicLinesRest where
  letter h r := by
    obtain ⟨hu, hU⟩ := ne_of_escape?_eq_some h
    rw [basicLinesRest, if_neg hu, if_neg hU, h]
  digits r := rfl
  digit h n value r := by rw [basicLinesRest, h]
  lastDigit h hscalar r := by rw [basicLinesRest, h]; simp only [hscalar]

theorem hexDigit?_upperHex : ∀ d : Nat, d < 16 → hexDigit? (upperHex d) = some d := by
  decide

theorem toNat_lt_of_isControl {c : Char} (h : isControl c = true) : c.toNat < 0x80 := by
  simp only [isControl, Bool.or_eq_true, Bool.and_eq_true, decide_eq_true_eq] at h
  omega

theorem scalar?_toNat {c : Char} (h : c.toNat < 0x80) : scalar? c.toNat = some c := by
  rw [scalar?, if_pos (.inl (by omega)), Char.ofNat_toNat]

/-- The four digits of a code are read as the character. -/
theorem ReadsEscapes.code {read : Mode → Reader (List Char)} (h : ReadsEscapes read) {c : Char}
    (hc : isControl c = true) (r : List Char) :
    read .escape ((codeEscape c).tail ++ r) = push c (read (.text false) r) := by
  have hlt := toNat_lt_of_isControl hc
  have hdigit : ∀ n, hexDigit? (upperHex (n % 16)) = some (n % 16) := fun n =>
    hexDigit?_upperHex _ (Nat.mod_lt n (by decide))
  have hvalue : (((0 * 16 + c.toNat / 4096 % 16) * 16 + c.toNat / 256 % 16) * 16 +
      c.toNat / 16 % 16) * 16 + c.toNat % 16 = c.toNat := by omega
  show read .escape ('u' :: upperHex _ :: upperHex _ :: upperHex _ :: upperHex _ :: r) = _
  rw [h.digits, h.digit (hdigit _), h.digit (hdigit _), h.digit (hdigit _)]
  refine h.lastDigit (hdigit _) ?_ r
  rw [hvalue]
  exact scalar?_toNat hlt

theorem isPrintable_of_not_isControl {c : Char} (hc : isControl c = false) (hfeed : c ≠ '\n') :
    isPrintable c = true := by
  by_cases htab : c = '\t'
  · rw [htab]
    rfl
  · simp only [isControl, Bool.or_eq_false_iff, Bool.and_eq_false_iff, decide_eq_false_iff_not,
      bne_eq_false_iff_eq, htab, hfeed, or_false] at hc
    simp only [isPrintable, Bool.or_eq_true, Bool.and_eq_true, decide_eq_true_eq]
    exact .inr ⟨by omega, hc.2⟩

/-- A character of a basic string stands for itself, or an escape after a backslash stands for
    it. -/
theorem escaped_cases {c : Char} (hfeed : c ≠ '\n') :
    (escaped c = [c] ∧ isPrintable c = true ∧ c ≠ '\\') ∨
    ∃ body, escaped c = '\\' :: body ∧
      (∀ r, startsWithLineEnd (dropBlanks (body ++ r)) = false) ∧
      ∀ {read}, ReadsEscapes read → ∀ r,
        read .escape (body ++ r) = push c (read (.text false) r) := by
  unfold escaped
  split_ifs with hb ht hf hr hs hc
  · exact .inr ⟨['b'], rfl, fun _ => rfl, fun h r => hb ▸ h.letter rfl r⟩
  · exact .inr ⟨['t'], rfl, fun _ => rfl, fun h r => ht ▸ h.letter rfl r⟩
  · exact .inr ⟨['f'], rfl, fun _ => rfl, fun h r => hf ▸ h.letter rfl r⟩
  · exact .inr ⟨['r'], rfl, fun _ => rfl, fun h r => hr ▸ h.letter rfl r⟩
  · subst hs
    exact .inr ⟨['\\'], rfl, fun _ => rfl, fun h r => h.letter rfl r⟩
  · exact .inr ⟨_, rfl, fun _ => rfl, fun h r => h.code hc r⟩
  · exact .inl ⟨rfl, isPrintable_of_not_isControl (by simpa using hc) hfeed, hs⟩

/-! ## 3. Strings on one line -/

theorem basicRest_escaped {c : Char} (hquote : c ≠ '\x22') (hfeed : c ≠ '\n') (r : List Char) :
    basicRest (.text false) (escaped c ++ r) = push c (basicRest (.text false) r) := by
  rcases escaped_cases hfeed with ⟨hself, hprint, hslash⟩ | ⟨body, hescape, -, hread⟩
  · rw [hself, List.singleton_append, basicRest, if_neg hquote, if_neg hslash, if_pos hprint]
  · rw [hescape]
    exact hread readsEscapes_basicRest r

theorem basicRest_letter {c e : Char} (h : escape? c = some e) (r : List Char) :
    basicRest (.text false) ('\\' :: c :: r) = push e (basicRest (.text false) r) :=
  readsEscapes_basicRest.letter h r

/-- **A basic string on one line is read as its characters.** -/
theorem basicRest_basicChars (rest : List Char) : ∀ cs : List Char,
    basicRest (.text false) (basicChars cs ++ '\x22' :: rest) = some (cs, rest)
  | [] => rfl
  | c :: cs => by
      have ih := basicRest_basicChars rest cs
      rw [basicChars]
      split_ifs with hquote hfeed
      · rw [hquote, List.cons_append, List.cons_append, basicRest_letter rfl, ih]
        rfl
      · rw [hfeed, List.cons_append, List.cons_append, basicRest_letter rfl, ih]
        rfl
      · rw [List.append_assoc, basicRest_escaped hquote hfeed, ih]
        rfl

/-- **A literal string on one line is read as its characters.** -/
theorem literalRest_append (rest : List Char) : ∀ cs : List Char,
    (∀ c ∈ cs, c ≠ '\x27' ∧ isPrintable c = true) →
      literalRest (cs ++ '\x27' :: rest) = some (cs, rest)
  | [], _ => rfl
  | c :: cs, h => by
      rw [List.forall_mem_cons] at h
      rw [List.cons_append, literalRest, if_neg h.1.1, if_pos h.1.2, literalRest_append rest cs h.2]
      rfl

/-! ## 4. Strings on several lines -/

/-- Where a mark stands in a string on several lines, the string ends there only if nothing but
    marks comes before its end. -/
theorem closing?_append {m : Char} {w rest : List Char} (hw : ¬ [m, m] <+: w)
    (hrest : rest.head? ≠ some m) :
    closing? m (w ++ m :: m :: m :: rest) =
      if w.all (· == m) then some (m :: w, rest) else none := by
  match w, hw with
  | [], _ =>
      cases rest with
      | nil => simp [closing?]
      | cons d r =>
          have hd : d ≠ m := fun h => hrest (congrArg some h)
          simp [closing?, hd]
  | [a], _ =>
      by_cases ha : a = m
      · simp [closing?, ha]
      · simp [closing?, ha]
  | a :: b :: w, hw =>
      have hab : ¬ (a = m ∧ b = m) := by
        rintro ⟨rfl, rfl⟩
        exact hw (List.prefix_append [_, _] w)
      have hall : ¬ (a :: b :: w).all (· == m) = true := by
        intro h
        simp only [List.all_cons, Bool.and_eq_true, beq_iff_eq] at h
        exact hab ⟨h.1, h.2.1⟩
      rw [if_neg hall]
      show (if a = m ∧ b = m then _ else none) = none
      rw [if_neg hab]

theorem closing?_marks {m : Char} {rest : List Char} (hrest : rest.head? ≠ some m) :
    closing? m (m :: m :: rest) = some ([], rest) := by
  match rest, hrest with
  | [], _ => simp [closing?]
  | [c], hrest =>
      have hc : c ≠ m := fun h => hrest (congrArg some h)
      simp [closing?, hc]
  | c :: d :: r, hrest =>
      have hc : c ≠ m := fun h => hrest (congrArg some h)
      simp [closing?, hc]

/-- **A literal string on several lines is read as its characters.** -/
theorem literalLinesRest_append {rest : List Char} (hrest : rest.head? ≠ some '\x27') :
    ∀ cs : List Char, (∀ c ∈ cs, c = '\n' ∨ isPrintable c = true) →
      ¬ List.replicate 3 '\x27' <:+: cs →
      literalLinesRest (cs ++ '\x27' :: '\x27' :: '\x27' :: rest) = some (cs, rest)
  | [], _, _ => by rw [List.nil_append, literalLinesRest, if_pos rfl, closing?_marks hrest]
  | c :: cs, hchars, hmarks => by
      rw [List.forall_mem_cons] at hchars
      have ih := literalLinesRest_append hrest cs hchars.2
        (fun h => hmarks (h.trans (List.suffix_cons c cs).isInfix))
      rw [List.cons_append, literalLinesRest]
      by_cases hmark : c = '\x27'
      · subst hmark
        have htwo : ¬ ['\x27', '\x27'] <+: cs := fun h =>
          hmarks (List.cons_prefix_cons.mpr ⟨rfl, h⟩).isInfix
        rw [if_pos rfl, closing?_append htwo hrest, ih]
        split_ifs <;> rfl
      rw [if_neg hmark]
      by_cases hfeed : c = '\n'
      · rw [if_pos hfeed, ih]
        rfl
      · have hprint := hchars.1.resolve_left hfeed
        have hreturn : c ≠ '\r' := by
          rintro rfl
          cases hprint
        rw [if_neg hfeed, if_neg (by simp [hreturn]), if_pos hprint, ih]
        rfl

theorem head?_escaped {c : Char} (hquote : c ≠ '\x22') (hfeed : c ≠ '\n') (r : List Char) :
    (escaped c ++ r).head? ≠ some '\x22' := by
  rcases escaped_cases hfeed with ⟨hself, -⟩ | ⟨body, hescape, -⟩
  · rw [hself]
    exact fun h => hquote (Option.some.inj h)
  · rw [hescape]
    exact fun h => nomatch h

theorem basicLinesChars_other {c : Char} (hquote : c ≠ '\x22') (hfeed : c ≠ '\n') (run : Nat)
    (cs : List Char) : basicLinesChars run (c :: cs) = escaped c ++ basicLinesChars 0 cs := by
  rw [basicLinesChars, if_neg hquote, if_neg hfeed]

theorem basicLinesChars_quote {run : Nat} (hrun : run ≠ 2) (cs : List Char) :
    basicLinesChars run ('\x22' :: cs) = '\x22' :: basicLinesChars (run + 1) cs := by
  rw [basicLinesChars, if_pos rfl, if_neg hrun]

/-- What is written begins with a quotation mark only if the text does, and not after two of
    them. -/
theorem head?_basicLinesChars {run : Nat} {cs : List Char}
    (h : (basicLinesChars run cs).head? = some '\x22') : cs.head? = some '\x22' ∧ run ≠ 2 := by
  cases cs with
  | nil => cases h
  | cons c cs =>
      by_cases hquote : c = '\x22'
      · subst hquote
        refine ⟨rfl, ?_⟩
        rintro rfl
        cases h
      · by_cases hfeed : c = '\n'
        · subst hfeed
          cases h
        · rw [basicLinesChars_other hquote hfeed] at h
          exact absurd h (head?_escaped hquote hfeed _)

/-- After one or two quotation marks no two more are written without an escape. -/
theorem not_two_marks_basicLinesChars {run : Nat} (hrun : run = 1 ∨ run = 2) (cs : List Char) :
    ¬ ['\x22', '\x22'] <+: basicLinesChars run cs := by
  rintro ⟨r, hr⟩
  have hhead : (basicLinesChars run cs).head? = some '\x22' := by
    rw [← hr]
    rfl
  obtain ⟨hcs, htwo⟩ := head?_basicLinesChars hhead
  obtain rfl := hrun.resolve_right htwo
  cases cs with
  | nil => cases hcs
  | cons c cs =>
      cases hcs
      rw [basicLinesChars_quote htwo] at hr
      have hnext : (basicLinesChars 2 cs).head? = some '\x22' := by
        rw [← (List.cons.inj hr).2]
        rfl
      exact (head?_basicLinesChars hnext).2 rfl

theorem basicLinesChars_cons_ne_nil (run : Nat) (c : Char) (cs : List Char) :
    basicLinesChars run (c :: cs) ≠ [] := by
  rw [basicLinesChars]
  split_ifs with hquote hrun hfeed
  · exact List.cons_ne_nil _ _
  · exact List.cons_ne_nil _ _
  · exact List.cons_ne_nil _ _
  · rcases escaped_cases hfeed with ⟨hself, -⟩ | ⟨body, hescape, -⟩
    · rw [hself]
      exact List.cons_ne_nil _ _
    · rw [hescape]
      exact List.cons_ne_nil _ _

/-- What is written with nothing but quotation marks is the text itself. -/
theorem basicLinesChars_of_marks {run : Nat} {cs : List Char}
    (h : (basicLinesChars run cs).all (· == '\x22') = true) : basicLinesChars run cs = cs := by
  induction cs generalizing run with
  | nil => rfl
  | cons c cs ih =>
      obtain ⟨x, w, hw⟩ := List.exists_cons_of_ne_nil (basicLinesChars_cons_ne_nil run c cs)
      have hhead : (basicLinesChars run (c :: cs)).head? = some '\x22' := by
        rw [hw] at h ⊢
        exact congrArg some (beq_iff_eq.mp (List.all_eq_true.mp h x List.mem_cons_self))
      obtain ⟨hc, hrun⟩ := head?_basicLinesChars hhead
      cases hc
      rw [basicLinesChars_quote hrun] at h ⊢
      rw [List.all_cons, Bool.and_eq_true] at h
      rw [ih h.2]

theorem basicLinesRest_escape {body : List Char}
    (hbody : ∀ r, startsWithLineEnd (dropBlanks (body ++ r)) = false) (r : List Char) :
    basicLinesRest (.text false) ('\\' :: (body ++ r)) = basicLinesRest .escape (body ++ r) := by
  show (if startsWithLineEnd (dropBlanks (body ++ r)) then _ else _) = _
  rw [hbody, if_neg Bool.false_ne_true]

theorem basicLinesRest_plain {c : Char} (hquote : c ≠ '\x22') (hslash : c ≠ '\\')
    (hprint : isPrintable c = true) (r : List Char) :
    basicLinesRest (.text false) (c :: r) = push c (basicLinesRest (.text false) r) := by
  have hfeed : c ≠ '\n' := by
    rintro rfl
    cases hprint
  have hreturn : c ≠ '\r' := by
    rintro rfl
    cases hprint
  simp [basicLinesRest, hquote, hslash, hfeed, hreturn, hprint]

theorem basicLinesRest_escaped {c : Char} (hquote : c ≠ '\x22') (hfeed : c ≠ '\n') (r : List Char) :
    basicLinesRest (.text false) (escaped c ++ r) = push c (basicLinesRest (.text false) r) := by
  rcases escaped_cases hfeed with ⟨hself, hprint, hslash⟩ | ⟨body, hescape, hbody, hread⟩
  · rw [hself]
    exact basicLinesRest_plain hquote hslash hprint r
  · rw [hescape, List.cons_append, basicLinesRest_escape hbody]
    exact hread readsEscapes_basicLinesRest r

theorem basicLinesRest_quote (r : List Char) :
    basicLinesRest (.text false) ('\x22' :: r) =
      (closing? '\x22' r).or (push '\x22' (basicLinesRest (.text false) r)) := by
  rw [basicLinesRest, if_neg (by simp), if_pos rfl]
  cases closing? '\x22' r <;> rfl

/-- **A basic string on several lines is read as its characters.** -/
theorem basicLinesRest_basicLinesChars {rest : List Char} (hrest : rest.head? ≠ some '\x22')
    (cs : List Char) : ∀ run, run ≤ 2 →
      basicLinesRest (.text false)
        (basicLinesChars run cs ++ '\x22' :: '\x22' :: '\x22' :: rest) = some (cs, rest) := by
  induction cs with
  | nil =>
      intro run _
      show basicLinesRest (.text false) ('\x22' :: '\x22' :: '\x22' :: rest) = _
      rw [basicLinesRest_quote, closing?_marks hrest]
      rfl
  | cons c cs ih =>
      intro run hrun
      by_cases hquote : c = '\x22'
      · subst hquote
        by_cases htwo : run = 2
        · subst htwo
          show push _ (basicLinesRest (.text false) (basicLinesChars 0 cs ++ _)) = _
          rw [ih 0 (by decide)]
          rfl
        · have hnext : run + 1 = 1 ∨ run + 1 = 2 := by omega
          have hclosing := closing?_append (not_two_marks_basicLinesChars hnext cs) hrest
          rw [basicLinesChars_quote htwo, List.cons_append, basicLinesRest_quote, hclosing,
            ih (run + 1) (by omega)]
          -- the string ends here only if all that is left are marks, which are the text itself
          split_ifs with hmarks
          · rw [basicLinesChars_of_marks hmarks]
            rfl
          · rfl
      · by_cases hfeed : c = '\n'
        · subst hfeed
          show push _ (basicLinesRest (.text false) (basicLinesChars 0 cs ++ _)) = _
          rw [ih 0 (by decide)]
          rfl
        · rw [basicLinesChars_other hquote hfeed, List.append_assoc,
            basicLinesRest_escaped hquote hfeed, ih 0 (by decide)]
          rfl

/-! ## 5. All forms -/

theorem string_eq_lineString {cs : List Char} (hquotes : ¬ List.replicate 3 '\x22' <+: cs)
    (hapostrophes : ¬ List.replicate 3 '\x27' <+: cs) : string cs = lineString cs := by
  unfold string
  split
  · exact absurd (List.prefix_append (List.replicate 3 _) _) hquotes
  · exact absurd (List.prefix_append (List.replicate 3 _) _) hapostrophes
  · rfl

theorem head?_of_begins {c : Char} {l cs : List Char} (h : c :: l <+: cs) : cs.head? = some c := by
  obtain ⟨r, rfl⟩ := h
  rfl

theorem head?_basicChars_cons (c : Char) (cs r : List Char) :
    (basicChars (c :: cs) ++ r).head? ≠ some '\x22' := by
  rw [basicChars]
  split_ifs with hquote hfeed
  · nofun
  · nofun
  · rw [List.append_assoc]
    exact head?_escaped hquote hfeed _

theorem string_basic {rest : List Char} (hrest : rest.head? ≠ some '\x22') (cs : List Char) :
    string ('\x22' :: (basicChars cs ++ '\x22' :: rest)) = some (String.ofList cs, rest) := by
  rw [string_eq_lineString]
  · show (basicRest (.text false) _).map _ = _
    rw [basicRest_basicChars]
    rfl
  · intro h
    have h := (List.cons_prefix_cons.mp h).2
    cases cs with
    | nil => exact hrest (head?_of_begins (List.cons_prefix_cons.mp h).2)
    | cons c cs => exact head?_basicChars_cons c cs _ (head?_of_begins h)
  · exact fun h => nomatch head?_of_begins h

theorem string_literal {rest : List Char} (hrest : rest.head? ≠ some '\x27') {cs : List Char}
    (hcs : ∀ c ∈ cs, c ≠ '\x27' ∧ isPrintable c = true) :
    string ('\x27' :: (cs ++ '\x27' :: rest)) = some (String.ofList cs, rest) := by
  rw [string_eq_lineString]
  · show (literalRest _).map _ = _
    rw [literalRest_append rest cs hcs]
    rfl
  · exact fun h => nomatch head?_of_begins h
  · intro h
    have h := (List.cons_prefix_cons.mp h).2
    cases cs with
    | nil => exact hrest (head?_of_begins (List.cons_prefix_cons.mp h).2)
    | cons c cs => exact (hcs c List.mem_cons_self).1 (Option.some.inj (head?_of_begins h))

theorem dropLineEnd_of_head? {cs : List Char} (hfeed : cs.head? ≠ some '\n')
    (hreturn : cs.head? ≠ some '\r') : dropLineEnd cs = cs := by
  unfold dropLineEnd
  split
  · exact absurd rfl hfeed
  · exact absurd rfl hreturn
  · rfl

theorem dropLineEnd_opening {t : Traits} {cs : List Char}
    (h : t.feed = false → cs.head? ≠ some '\n' ∧ cs.head? ≠ some '\r') :
    dropLineEnd (opening t ++ cs) = cs := by
  cases hfeed : t.feed with
  | true =>
      rw [opening, if_pos hfeed]
      rfl
  | false =>
      rw [opening, if_neg (by simp [hfeed])]
      exact dropLineEnd_of_head? (h hfeed).1 (h hfeed).2

theorem string_basicLines {rest : List Char} (hrest : rest.head? ≠ some '\x22') {t : Traits}
    {cs : List Char} (hfeed : t.feed = false → '\n' ∉ cs) :
    string ('\x22' :: '\x22' :: '\x22' ::
      (opening t ++ (basicLinesChars 0 cs ++ '\x22' :: '\x22' :: '\x22' :: rest))) =
        some (String.ofList cs, rest) := by
  show (basicLinesRest (.text false) (dropLineEnd _)).map _ = _
  rw [dropLineEnd_opening, basicLinesRest_basicLinesChars hrest cs 0 (Nat.zero_le 2)]
  · rfl
  · intro ht
    have hfeed := hfeed ht
    cases cs with
    | nil => exact ⟨nofun, nofun⟩
    | cons c cs =>
        have hc : c ≠ '\n' := fun h => hfeed (h ▸ List.mem_cons_self)
        by_cases hquote : c = '\x22'
        · subst hquote
          exact ⟨nofun, nofun⟩
        · rw [basicLinesChars_other hquote hc]
          rcases escaped_cases hc with ⟨hself, hprint, -⟩ | ⟨body, hescape, -⟩
          · rw [hself]
            refine ⟨fun h => hc (Option.some.inj h), fun h => ?_⟩
            rw [Option.some.inj h] at hprint
            cases hprint
          · rw [hescape]
            exact ⟨nofun, nofun⟩

theorem string_literalLines {rest : List Char} (hrest : rest.head? ≠ some '\x27') {t : Traits}
    {cs : List Char} (hcs : ∀ c ∈ cs, c = '\n' ∨ isPrintable c = true)
    (hmarks : ¬ List.replicate 3 '\x27' <:+: cs) (hfeed : t.feed = false → '\n' ∉ cs) :
    string ('\x27' :: '\x27' :: '\x27' ::
      (opening t ++ (cs ++ '\x27' :: '\x27' :: '\x27' :: rest))) =
        some (String.ofList cs, rest) := by
  show (literalLinesRest (dropLineEnd _)).map _ = _
  rw [dropLineEnd_opening, literalLinesRest_append hrest cs hcs hmarks]
  · rfl
  · intro ht
    have hfeed := hfeed ht
    cases cs with
    | nil => exact ⟨nofun, nofun⟩
    | cons c cs =>
        have hc : c ≠ '\n' := fun h => hfeed (h ▸ List.mem_cons_self)
        have hprint := (hcs c List.mem_cons_self).resolve_left hc
        refine ⟨fun h => hc (Option.some.inj h), fun h => ?_⟩
        rw [Option.some.inj h] at hprint
        cases hprint

theorem Traits.style_eq_literal {t : Traits} (h : t.style = .literal) :
    t.control = false ∧ t.apostrophes = 0 ∧ t.feed = false := by
  unfold style at h
  split_ifs at h with hbasic hliteral
  simpa [and_assoc] using hliteral

theorem Traits.style_eq_literalLines {t : Traits} (h : t.style = .literalLines) :
    t.control = false ∧ t.apostrophes ≤ 2 := by
  unfold style at h
  split_ifs at h with _ _ _ hliteral
  simpa using hliteral

theorem printable_of_control {cs : List Char} (h : (Traits.of cs).control = false) :
    ∀ c ∈ cs, c = '\n' ∨ isPrintable c = true := by
  intro c hc
  have hcontrol := List.any_eq_false.mp h c hc
  by_cases hfeed : c = '\n'
  · exact .inl hfeed
  · exact .inr (isPrintable_of_not_isControl (by simpa using hcontrol) hfeed)

theorem feed_notMem {cs : List Char} (h : (Traits.of cs).feed = false) : '\n' ∉ cs :=
  fun hmem => List.any_eq_false.mp h '\n' hmem rfl

/-- **A written string is read as the text**, whatever comes after it, if only no mark follows. -/
theorem string_write {rest : List Char} (hquote : rest.head? ≠ some '\x22')
    (hapostrophe : rest.head? ≠ some '\x27') (cs : List Char) :
    string ((Traits.of cs).write cs ++ rest) = some (String.ofList cs, rest) := by
  unfold Traits.write
  cases hstyle : (Traits.of cs).style with
  | basic =>
      simp only [List.cons_append, List.append_assoc, List.nil_append]
      exact string_basic hquote cs
  | literal =>
      obtain ⟨hcontrol, happ, hfeed⟩ := Traits.style_eq_literal hstyle
      simp only [List.cons_append, List.append_assoc, List.nil_append]
      refine string_literal hapostrophe (fun c hc => ⟨?_, ?_⟩)
      · rintro rfl
        obtain ⟨before, after, hsplit⟩ := List.append_of_mem hc
        have hlt : 0 < (Traits.of cs).apostrophes :=
          lt_longestRun.mpr ⟨before, after, by rw [hsplit]; simp⟩
        omega
      · refine (printable_of_control hcontrol c hc).resolve_left ?_
        rintro rfl
        exact feed_notMem hfeed hc
  | basicLines =>
      simp only [List.cons_append, List.append_assoc, List.nil_append]
      exact string_basicLines hquote feed_notMem
  | literalLines =>
      obtain ⟨hcontrol, happ⟩ := Traits.style_eq_literalLines hstyle
      simp only [List.cons_append, List.append_assoc, List.nil_append]
      have hprintable := printable_of_control hcontrol
      refine string_literalLines hapostrophe hprintable (fun h => ?_) feed_notMem
      have hlt : 2 < (Traits.of cs).apostrophes := lt_longestRun.mpr h
      omega

/-! ## 6. Texts that have a written form -/

/-- A text in which no 256 quotation marks and no 256 apostrophes stand together. -/
def IsWritable (s : String) : Prop :=
  ¬ List.replicate 256 '\x22' <:+: s.toList ∧ ¬ List.replicate 256 '\x27' <:+: s.toList

instance (s : String) : Decidable (IsWritable s) := inferInstanceAs (Decidable (_ ∧ _))

/-- A short text has a written form. -/
theorem isWritable_of_length_lt {s : String} (h : s.toList.length < 256) : IsWritable s := by
  constructor
  all_goals
    intro hmarks
    have hlength := hmarks.length_le
    rw [List.length_replicate] at hlength
    omega

theorem isTallied_iff {s : String} : (Traits.of s.toList).isTallied = true ↔ IsWritable s := by
  rw [← Bool.not_eq_false, Traits.isTallied_eq_false_iff, not_or]
  exact and_congr (not_congr lt_longestRun) (not_congr lt_longestRun)

theorem quote?_eq (s : String) :
    quote? s =
      if IsWritable s then some (String.ofList ((Traits.of s.toList).write s.toList)) else none :=
  if_congr isTallied_iff rfl rfl

end Sema.Toml
