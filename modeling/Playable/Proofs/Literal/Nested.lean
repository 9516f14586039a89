import Mathlib.Logic.Relation
import Playable.Proofs.Literal.Acceptance

/-!
# Literals inside a literal

A scan can be followed character by character: at every moment some contexts are open. Only the
innermost of them decides what the next character does, so a scan that starts at a nested opener
goes through the same moments as the scan around it, with fewer contexts below. So the literal at
a nested opener ends where the scan around it closes that opener.
-/

namespace Playable.Literal

/-- A moment of a scan over a text. -/
structure Moment where
  /-- The open contexts, innermost first. -/
  stack : List Context
  /-- The last character that is not blank. -/
  last : Char
  /-- How many characters of the text are passed. -/
  place : Nat

variable {t literal rest : Text} {context inner : Context} {outer below above : List Context}
  {last c closer : Char} {place offset : Nat} {m m' n start finish : Moment}

/-- One step of a scan. It looks at the next character and at the innermost context. -/
inductive Step (t : Text) : Moment → Moment → Prop where
  /-- The closer of the innermost context closes it. -/
  | close {context : Context} {outer : List Context} {last : Char} {place : Nat}
      (hc : t[place]? = some context.closer) :
      Step t ⟨context :: outer, last, place⟩ ⟨outer, context.closer, place + 1⟩
  /-- In a verbatim context a backslash is passed with the character behind it. -/
  | escape {context : Context} {outer : List Context} {last : Char} {place : Nat}
      (hv : context.isVerbatim = true) (hc : t[place]? = some '\\') :
      Step t ⟨context :: outer, last, place⟩ ⟨context :: outer, last, place + 2⟩
  /-- Any other character of a verbatim context is passed. -/
  | verbatim {context : Context} {outer : List Context} {last c : Char} {place : Nat}
      (hv : context.isVerbatim = true) (hc : t[place]? = some c) (hcloser : c ≠ context.closer)
      (hescape : c ≠ '\\') :
      Step t ⟨context :: outer, last, place⟩
        ⟨context :: outer, if Text.isBlank c then last else c, place + 1⟩
  /-- Between braces and brackets a character may open a context. -/
  | opener {context inner : Context} {outer : List Context} {last c : Char} {place : Nat}
      (hv : context.isVerbatim = false) (hc : t[place]? = some c) (hcloser : c ≠ context.closer)
      (ho : Context.openedBy? last c = some inner) :
      Step t ⟨context :: outer, last, place⟩ ⟨inner :: context :: outer, c, place + 1⟩
  /-- Any other character between braces and brackets is passed. -/
  | plain {context : Context} {outer : List Context} {last c : Char} {place : Nat}
      (hv : context.isVerbatim = false) (hc : t[place]? = some c) (hcloser : c ≠ context.closer)
      (ho : Context.openedBy? last c = none) :
      Step t ⟨context :: outer, last, place⟩
        ⟨context :: outer, if Text.isBlank c then last else c, place + 1⟩

/-- A scan comes from one moment to another. -/
def Runs (t : Text) : Moment → Moment → Prop :=
  Relation.ReflTransGen (Step t)

/-- A scan from an offset comes to a moment. It starts behind an opener, with one open context. -/
def ScanComesTo (t : Text) (offset : Nat) (m : Moment) : Prop :=
  ∃ opener context, Paired opener context.closer ∧ t[offset]? = some opener ∧
    Runs t ⟨[context], opener, offset + 1⟩ m

/-- The innermost context of a moment is closed by the step to another one: in between all of its
contexts stay open, and there the innermost one is gone. -/
def ClosesAt (t : Text) (m n : Moment) : Prop :=
  ∃ k, Relation.ReflTransGen (fun a b => Step t a b ∧ m.stack <:+ b.stack) m k ∧ Step t k n ∧
    n.stack = m.stack.tail

/-! ## Steps -/

/-- The text behind a place begins with the character there. -/
theorem drop_of_getElem? (h : t[place]? = some c) : t.drop place = c :: t.drop (place + 1) := by
  obtain ⟨hlt, rfl⟩ := List.getElem?_eq_some_iff.mp h
  exact List.drop_eq_getElem_cons hlt

/-- A step goes forward. -/
theorem Step.place_lt (h : Step t m m') : m.place < m'.place := by
  cases h <;> simp

/-- Only a closer inside the text closes the last context. -/
theorem Step.place_le (h : Step t m m') (hnil : m'.stack = []) : m'.place ≤ t.length := by
  cases h with
  | close hc => exact (List.getElem?_eq_some_iff.mp hc).1
  | escape | verbatim | opener | plain => cases hnil

/-- A step keeps the open contexts, opens one more or closes the innermost one. -/
theorem Step.stack_cases (h : Step t m m') :
    m.stack <:+ m'.stack ∨ m'.stack = m.stack.tail := by
  cases h with
  | close => exact .inr rfl
  | opener => exact .inl (List.suffix_cons _ _)
  | escape | verbatim | plain => exact .inl (List.suffix_refl _)

/-- As long as a context is open and the text goes on, so does the scan. -/
theorem exists_step (hstack : m.stack ≠ []) (hplace : m.place < t.length) :
    ∃ m', Step t m m' := by
  obtain ⟨stack, last, place⟩ := m
  obtain ⟨context, outer, rfl⟩ := List.exists_cons_of_ne_nil hstack
  have hc : t[place]? = some t[place] := List.getElem?_eq_getElem hplace
  by_cases hcloser : t[place] = context.closer
  · exact ⟨_, .close (hcloser ▸ hc)⟩
  cases hv : context.isVerbatim with
  | true =>
    by_cases hescape : t[place] = '\\'
    · exact ⟨_, .escape hv (hescape ▸ hc)⟩
    · exact ⟨_, .verbatim hv hc hcloser hescape⟩
  | false =>
    cases ho : Context.openedBy? last t[place] with
    | some inner => exact ⟨_, .opener hv hc hcloser ho⟩
    | none => exact ⟨_, .plain hv hc hcloser ho⟩

/-! ## Following a scan -/

/-- What a scan ends with that goes on from a moment. -/
def Moment.outcome (t : Text) (m : Moment) : Except Nat Text :=
  match m.stack with
  | [] => .ok (t.drop m.place)
  | context :: outer => behind outer context m.last (t.drop m.place)

/-- A scan that has come to the end of the text with open contexts fails. -/
theorem outcome_of_length_le (hstack : m.stack ≠ []) (hplace : t.length ≤ m.place) :
    m.outcome t = .error m.stack.length := by
  obtain ⟨stack, last, place⟩ := m
  obtain ⟨context, outer, rfl⟩ := List.exists_cons_of_ne_nil hstack
  simp only [Moment.outcome, List.drop_eq_nil_of_le hplace]
  rfl

/-- A backslash in a verbatim context protects nothing at the end of the text, and the scan
fails. -/
theorem behind_escape_nil (hv : context.isVerbatim = true) :
    behind outer context last ['\\'] = .error (outer.length + 1) := by
  have hne : '\\' ≠ context.closer := by cases context <;> decide
  rw [behind.eq_def]
  simp only [if_neg hne, if_pos hv, if_true]

/-- A step does not change what the scan ends with. -/
theorem Step.outcome_eq (h : Step t m m') : m.outcome t = m'.outcome t := by
  cases h with
  | @close context outer last place hc =>
    have hread : (Moment.mk (context :: outer) last place).outcome t =
        afterCloser outer context.closer (t.drop (place + 1)) := by
      simp only [Moment.outcome]
      rw [drop_of_getElem? hc, behind_closer]
    rw [hread]
    cases outer <;> rfl
  | @escape context outer last place hv hc =>
    by_cases hend : place + 1 < t.length
    · have hnext := drop_of_getElem? (List.getElem?_eq_getElem hend)
      simp only [Moment.outcome]
      rw [drop_of_getElem? hc, hnext, behind_escape hv]
    · have hnone : t.drop (place + 1) = [] := List.drop_eq_nil_of_le (by omega)
      have hfail : (Moment.mk (context :: outer) last (place + 2)).outcome t =
          .error (outer.length + 1) :=
        outcome_of_length_le (List.cons_ne_nil context outer) (by simp only; omega)
      rw [hfail, ← behind_escape_nil hv, ← hnone]
      exact congrArg _ (drop_of_getElem? hc)
  | verbatim hv hc hcloser hescape =>
    exact (congrArg _ (drop_of_getElem? hc)).trans (behind_verbatim hv hcloser hescape)
  | opener hv hc hcloser ho =>
    exact (congrArg _ (drop_of_getElem? hc)).trans (behind_opener hv hcloser ho)
  | plain hv hc hcloser ho =>
    exact (congrArg _ (drop_of_getElem? hc)).trans (behind_plain hv hcloser ho)

/-- All moments of a scan end with the same. -/
theorem Runs.outcome_eq (h : Runs t m m') : m.outcome t = m'.outcome t := by
  induction h with
  | refl => rfl
  | tail _ hstep ih => exact ih.trans hstep.outcome_eq

/-- A scan goes forward. -/
theorem Runs.place_le (h : Runs t m m') : m.place ≤ m'.place := by
  induction h with
  | refl => exact Nat.le_refl _
  | tail _ hstep ih => exact Nat.le_trans ih (Nat.le_of_lt hstep.place_lt)

/-- A scan that succeeds comes to a moment at which every context is closed. -/
theorem exists_runs_of_outcome (h : m.outcome t = .ok rest) :
    ∃ finish, Runs t m finish ∧ finish.stack = [] := by
  induction hremaining : t.length - m.place using Nat.strongRecOn generalizing m with
  | ind remaining ih =>
    by_cases hstack : m.stack = []
    · exact ⟨m, .refl, hstack⟩
    by_cases hplace : m.place < t.length
    · obtain ⟨m', hstep⟩ := exists_step hstack hplace
      have hforward := hstep.place_lt
      obtain ⟨finish, hruns, hfinish⟩ := ih _ (by omega) (hstep.outcome_eq ▸ h) rfl
      exact ⟨finish, .head hstep hruns, hfinish⟩
    · rw [outcome_of_length_le hstack (Nat.le_of_not_lt hplace)] at h
      cases h

/-- The last closer lies inside the text. -/
theorem ScanComesTo.place_le (h : ScanComesTo t offset finish) (hfinish : finish.stack = []) :
    finish.place ≤ t.length := by
  obtain ⟨opener, context, -, -, hruns⟩ := h
  cases hruns with
  | refl => cases hfinish
  | tail _ hstep => exact hstep.place_le hfinish

/-- A scan passes its opener first. -/
theorem ScanComesTo.lt_place (h : ScanComesTo t offset m) : offset < m.place := by
  obtain ⟨opener, context, -, -, hruns⟩ := h
  exact hruns.place_le

/-- A scan goes on from the moments that it comes to. -/
theorem ScanComesTo.runs (h : ScanComesTo t offset m) (hruns : Runs t m m') :
    ScanComesTo t offset m' := by
  obtain ⟨opener, context, hpair, hc, hstart⟩ := h
  exact ⟨opener, context, hpair, hc, hstart.trans hruns⟩

/-- The closing character determines the context. -/
theorem Context.closer_injective : Function.Injective Context.closer := by
  intro context context' h
  cases context <;> cases context' <;> first | rfl | cases h

/-- The opener of a pair opens its context, whatever stands in front of it. -/
theorem Paired.openedBy?_eq (h : Paired c context.closer) :
    Context.openedBy? last c = some context := by
  cases context with
  | brace | bracket => cases h; rfl
  | quote | slash => cases h

/-- No opener of a pair closes a context. -/
theorem Paired.ne_closer (h : Paired c closer) (context : Context) : c ≠ context.closer := by
  cases h <;> cases context <;> decide

/-- Reading at an opener succeeds as the scan behind it does. -/
theorem Paired.readAt_eq (hpair : Paired c context.closer) (hc : t[offset]? = some c) :
    readAt t offset =
      match (Moment.mk [context] c (offset + 1)).outcome t with
      | .error n => .error ⟨offset, .unclosed n⟩
      | .ok after => .ok ((t.drop offset).take ((t.drop offset).length - after.length)) := by
  obtain ⟨context', hcloser, -, hread⟩ := hpair.exists_context
  obtain rfl := Context.closer_injective hcloser
  have hoffset : ¬ ((offset : Int) < 0) := by omega
  rw [readAt, if_neg hoffset, Int.toNat_natCast, drop_of_getElem? hc, hread]
  simp only [Moment.outcome]
  cases behind [] context' c (t.drop (offset + 1)) <;> rfl

/-- A scan that closes every context reads the text that it has passed. -/
theorem readAt_of_scan (h : ScanComesTo t offset finish) (hfinish : finish.stack = []) :
    readAt t offset = .ok ((t.drop offset).take (finish.place - offset)) := by
  have hend := h.place_le hfinish
  have hstart := h.lt_place
  obtain ⟨opener, context, hpair, hc, hruns⟩ := h
  have houtcome : finish.outcome t = .ok (t.drop finish.place) := by
    rw [Moment.outcome, hfinish]
  rw [hpair.readAt_eq hc, hruns.outcome_eq, houtcome]
  simp only [List.length_drop]
  congr 2
  omega

/-- Reading succeeds exactly if the scan comes to a moment at which every context is closed. -/
theorem readAt_eq_ok_iff_scan : readAt t offset = .ok literal ↔
    ∃ finish, ScanComesTo t offset finish ∧ finish.stack = [] ∧
      literal = (t.drop offset).take (finish.place - offset) := by
  constructor
  · intro h
    obtain ⟨⟨more, hmore⟩, hliteral⟩ := (readAt_eq_ok_iff t offset).mp h
    obtain ⟨opener, closer, items, hpair, -, rfl⟩ := hliteral
    obtain ⟨context, rfl, -⟩ := hpair.exists_context
    have hc : t[offset]? = some opener := by
      rw [← List.head?_drop, ← hmore]
      rfl
    obtain ⟨rest, houtcome⟩ :
        ∃ rest, (Moment.mk [context] opener (offset + 1)).outcome t = .ok rest := by
      have hread := hpair.readAt_eq hc
      rw [h] at hread
      split at hread
      · cases hread
      · exact ⟨_, ‹_›⟩
    obtain ⟨finish, hruns, hfinish⟩ := exists_runs_of_outcome houtcome
    have hscan : ScanComesTo t offset finish := ⟨opener, context, hpair, hc, hruns⟩
    exact ⟨finish, hscan, hfinish, Except.ok.inj (h.symm.trans (readAt_of_scan hscan hfinish))⟩
  · rintro ⟨finish, hscan, hfinish, rfl⟩
    exact readAt_of_scan hscan hfinish

/-! ## Fewer contexts below -/

/-- The contexts below do not take part in a step, as long as there are others above them. -/
theorem Step.of_append (h : Step t m m') (hm : m.stack = above ++ below) (hne : above ≠ []) :
    ∃ above', m'.stack = above' ++ below ∧
      Step t ⟨above, m.last, m.place⟩ ⟨above', m'.last, m'.place⟩ := by
  obtain ⟨context, more, rfl⟩ := List.exists_cons_of_ne_nil hne
  cases h with
  | close hc =>
    obtain ⟨rfl, rfl⟩ := List.cons.inj hm
    exact ⟨more, rfl, .close hc⟩
  | escape hv hc =>
    obtain ⟨rfl, rfl⟩ := List.cons.inj hm
    exact ⟨_ :: more, rfl, .escape hv hc⟩
  | verbatim hv hc hcloser hescape =>
    obtain ⟨rfl, rfl⟩ := List.cons.inj hm
    exact ⟨_ :: more, rfl, .verbatim hv hc hcloser hescape⟩
  | opener hv hc hcloser ho =>
    obtain ⟨rfl, rfl⟩ := List.cons.inj hm
    exact ⟨_ :: _ :: more, rfl, .opener hv hc hcloser ho⟩
  | plain hv hc hcloser ho =>
    obtain ⟨rfl, rfl⟩ := List.cons.inj hm
    exact ⟨_ :: more, rfl, .plain hv hc hcloser ho⟩

/-- As long as a context stays open, a scan goes on as if it were the outermost one. -/
theorem runs_alone (hm : m.stack = inner :: below)
    (h : Relation.ReflTransGen (fun a b => Step t a b ∧ m.stack <:+ b.stack) m n) :
    ∃ above, n.stack = above ++ [inner] ++ below ∧
      Runs t ⟨[inner], m.last, m.place⟩ ⟨above ++ [inner], n.last, n.place⟩ := by
  induction h with
  | refl => exact ⟨[], hm, .refl⟩
  | tail _ hstep ih =>
    obtain ⟨above, hstack, hruns⟩ := ih
    obtain ⟨hstep, more, hopen⟩ := hstep
    obtain ⟨above', hstack', hstep'⟩ := hstep.of_append hstack (by simp)
    obtain rfl : more ++ [inner] = above' := by
      rw [hm, hstack'] at hopen
      exact List.append_cancel_right (by simpa using hopen)
    exact ⟨more, hstack', hruns.tail hstep'⟩

/-- Closing a context is a part of the scan. -/
theorem ClosesAt.runs (h : ClosesAt t m n) : Runs t m n := by
  obtain ⟨k, hopen, hstep, -⟩ := h
  exact (hopen.lift id fun _ _ => And.left).tail hstep

/-- A scan from an opener closes it where the scan around it does. -/
theorem runs_of_closesAt (hm : m.stack = inner :: below) (h : ClosesAt t m n) :
    Runs t ⟨[inner], m.last, m.place⟩ ⟨[], n.last, n.place⟩ := by
  obtain ⟨k, hopen, hstep, hclosed⟩ := h
  obtain ⟨above, hstack, hruns⟩ := runs_alone hm hopen
  obtain ⟨above', hstack', hstep'⟩ := hstep.of_append hstack (by simp)
  obtain rfl : above' = [] := by
    rw [hclosed, hm, List.tail_cons] at hstack'
    exact List.self_eq_append_left.mp hstack'
  exact hruns.tail hstep'

/-- A scan that closes every context closes the innermost one of each of its moments. -/
theorem exists_closesAt (hstack : m.stack ≠ []) (h : Runs t m finish)
    (hfinish : finish.stack = []) : ∃ n, ClosesAt t m n := by
  -- from a moment up to which all contexts of `m` stay open
  have hlater : ∀ k, Relation.ReflTransGen (fun a b => Step t a b ∧ m.stack <:+ b.stack) m k →
      m.stack <:+ k.stack → Runs t k finish → ∃ n, ClosesAt t m n := by
    intro k hopen hbelow hruns
    induction hruns using Relation.ReflTransGen.head_induction_on with
    | refl =>
      rw [hfinish] at hbelow
      exact absurd (List.suffix_nil.mp hbelow) hstack
    | @head k k' hstep _ ih =>
      by_cases hkept : m.stack <:+ k'.stack
      · exact ih (hopen.tail ⟨hstep, hkept⟩) hkept
      · refine ⟨k', k, hopen, hstep, ?_⟩
        have htail := hstep.stack_cases.resolve_left fun hk => hkept (hbelow.trans hk)
        obtain ⟨above, habove⟩ := hbelow
        cases above with
        | nil => rw [htail, ← habove, List.nil_append]
        | cons context above =>
          refine absurd ⟨above, ?_⟩ hkept
          rw [htail, ← habove, List.cons_append, List.tail_cons]
  exact hlater m .refl (List.suffix_refl _) h

/-- All moments of a scan from one offset end with the same. -/
theorem ScanComesTo.outcome_eq (h : ScanComesTo t offset m) (h' : ScanComesTo t offset m') :
    m.outcome t = m'.outcome t := by
  obtain ⟨opener, context, hpair, hc, hruns⟩ := h
  obtain ⟨opener', context', hpair', hc', hruns'⟩ := h'
  obtain rfl : opener = opener' := Option.some.inj (hc.symm.trans hc')
  have hopened : Context.openedBy? opener opener = some context := hpair.openedBy?_eq
  obtain rfl : context = context' := Option.some.inj (hopened.symm.trans hpair'.openedBy?_eq)
  exact hruns.outcome_eq.symm.trans hruns'.outcome_eq

/-- From each of its moments a successful scan goes on to the end of the literal. -/
theorem ScanComesTo.exists_finish (h : ScanComesTo t offset m)
    (hread : readAt t offset = .ok literal) :
    ∃ finish, Runs t m finish ∧ finish.stack = [] ∧ finish.place = offset + literal.length := by
  obtain ⟨finish, hscan, hfinish, rfl⟩ := readAt_eq_ok_iff_scan.mp hread
  have houtcome : m.outcome t = .ok (t.drop finish.place) := by
    rw [h.outcome_eq hscan, Moment.outcome, hfinish]
  obtain ⟨finish', hruns, hfinish'⟩ := exists_runs_of_outcome houtcome
  have hscan' : ScanComesTo t offset finish' := h.runs hruns
  refine ⟨finish', hruns, hfinish', ?_⟩
  have hread' := readAt_of_scan hscan' hfinish'
  have hend := hscan'.place_le hfinish'
  have hstart := hscan'.lt_place
  rw [Except.ok.inj (hread.symm.trans hread'), List.length_take, List.length_drop]
  omega

/-- Reading at a nested opener agrees with the scan around it. Wherever a successful scan comes to
an opener between braces or brackets, it opens a context there and closes it later on, and reading
at the opener succeeds with the text up to where the scan closes this context, which ends before
the whole literal does. -/
theorem nested_scan_agrees (hread : readAt t offset = .ok literal) (hm : ScanComesTo t offset m)
    (hstack : m.stack = context :: outer) (hv : context.isVerbatim = false)
    (hc : t[m.place]? = some c) (hpair : Paired c closer) :
    ∃ inner, inner.closer = closer ∧ Step t m ⟨inner :: m.stack, c, m.place + 1⟩ ∧
      (∃ n, ClosesAt t ⟨inner :: m.stack, c, m.place + 1⟩ n) ∧
      ∀ n, ClosesAt t ⟨inner :: m.stack, c, m.place + 1⟩ n →
        readAt t m.place = .ok ((t.drop m.place).take (n.place - m.place)) ∧
        offset < m.place ∧ n.place < offset + literal.length := by
  obtain ⟨inner, rfl, -⟩ := hpair.exists_context
  have hstep : Step t m ⟨inner :: m.stack, c, m.place + 1⟩ := by
    obtain ⟨stack, last, place⟩ := m
    obtain rfl : stack = context :: outer := hstack
    exact .opener hv hc (hpair.ne_closer context) hpair.openedBy?_eq
  have hopened : ScanComesTo t offset ⟨inner :: m.stack, c, m.place + 1⟩ := hm.runs (.single hstep)
  refine ⟨inner, rfl, hstep, ?_, fun n hn => ⟨?_, hm.lt_place, ?_⟩⟩
  · obtain ⟨finish, hruns, hfinish, -⟩ := hopened.exists_finish hread
    exact exists_closesAt (List.cons_ne_nil _ _) hruns hfinish
  · have hinside : ScanComesTo t m.place ⟨[], n.last, n.place⟩ :=
      ⟨c, inner, hpair, hc, runs_of_closesAt rfl hn⟩
    have hnested := readAt_of_scan hinside rfl
    exact hnested
  · obtain ⟨finish, hruns, hfinish, hplace⟩ := (hopened.runs hn.runs).exists_finish hread
    have hkept : n.stack = m.stack := by
      obtain ⟨k, -, -, hclosed⟩ := hn
      exact hclosed
    cases hruns using Relation.ReflTransGen.head_induction_on with
    | refl => rw [hkept, hstack] at hfinish; cases hfinish
    | head hnext hlater _ =>
      have hforward := hnext.place_lt
      have hrest : _ ≤ finish.place := Runs.place_le hlater
      omega

/-- A list that holds its own closer in a regular expression and in a string ends behind both, in
the object around it and read alone. -/
theorem nested_scan_agrees_opaque_closers :
    let t : Text := "x(\x7ba:[/]/,\"]\"],b:1\x7d)".toList
    let m : Moment := ⟨[.brace], ':', 5⟩
    readAt t 2 = .ok "\x7ba:[/]/,\"]\"],b:1\x7d".toList ∧ ScanComesTo t 2 m ∧
      ∃ n, ClosesAt t ⟨[.bracket, .brace], '[', 6⟩ n ∧
        readAt t 5 = .ok ((t.drop 5).take (n.place - 5)) ∧ n.place < 19 := by
  intro t m
  have hread : readAt t 2 = .ok "\x7ba:[/]/,\"]\"],b:1\x7d".toList := by decide +kernel
  have hne : 'a' ≠ Context.brace.closer ∧ ':' ≠ Context.brace.closer := by decide
  have hname : Step t ⟨[.brace], '{', 3⟩ ⟨[.brace], 'a', 4⟩ := .plain rfl rfl hne.1 rfl
  have hcolon : Step t ⟨[.brace], 'a', 4⟩ m := .plain rfl rfl hne.2 rfl
  have hstack : m.stack = [.brace] := rfl
  have hbracket : t[m.place]? = some '[' := rfl
  have hm : ScanComesTo t 2 m := ⟨'{', .brace, .braces, rfl, .tail (.single hname) hcolon⟩
  obtain ⟨inner, hinner, -, ⟨n, hn⟩, hall⟩ :=
    nested_scan_agrees hread hm hstack rfl hbracket .brackets
  obtain rfl : inner = .bracket := Context.closer_injective hinner
  obtain ⟨hnested, -, hinside⟩ := hall n hn
  exact ⟨hread, hm, n, hn, hnested, hinside⟩

end Playable.Literal
