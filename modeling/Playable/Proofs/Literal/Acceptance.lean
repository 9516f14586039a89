import Playable.Proofs.Literal.Grammar

/-!
# Scanning accepts exactly the literals

A scan keeps a stack of open contexts and the last solid character. This module
relates it to the grammar. Forwards, the items of a derivation are passed one by
one and leave the stack as it was. Backwards, a scan that ends has closed every
context of its stack, and what it read while a context was innermost are items of
that context. Together they say that a text has at most one literal at a place,
and that scanning finds it.
-/

namespace Playable.Literal

variable {outer : List Context} {context : Context} {last c : Char}
  {before body rest t literal : Text}

/-! ## Single steps -/

/-- What is scanned next once the innermost context is closed by `c`. -/
def afterCloser (outer : List Context) (c : Char) (rest : Text) : Except Nat Text :=
  match outer with
  | [] => .ok rest
  | enclosing :: outer => behind outer enclosing c rest

/-- No closer is blank. -/
theorem Context.closer_solid (context : Context) : Text.isBlank context.closer = false := by
  cases context <;> decide

/-- The closer of the innermost context removes it from the stack. -/
theorem behind_closer :
    behind outer context last (context.closer :: rest) =
      afterCloser outer context.closer rest := by
  unfold behind
  simp only [context.closer_solid, if_true, Bool.false_eq_true, if_false]
  rfl

/-- A backslash in a verbatim context skips the next character. -/
theorem behind_escape (hv : context.isVerbatim = true) :
    behind outer context last ('\\' :: c :: rest) = behind outer context last rest := by
  have hne : '\\' ≠ context.closer := by cases context <;> decide
  rw [behind.eq_def]
  simp only [if_neg hne, if_pos hv, if_true]

/-- Any other character of a verbatim context is passed over. -/
theorem behind_verbatim (hv : context.isVerbatim = true) (hc : c ≠ context.closer)
    (he : c ≠ '\\') :
    behind outer context last (c :: rest) =
      behind outer context (if Text.isBlank c then last else c) rest := by
  rw [behind.eq_def]
  simp only [if_neg hc, if_pos hv, if_neg he]

/-- A character that opens a context is not blank. -/
theorem Context.openedBy?_solid {inner : Context} (h : Context.openedBy? last c = some inner) :
    Text.isBlank c = false := by
  unfold Context.openedBy? at h
  split_ifs at h with hbrace hbracket hquote hslash
  · rw [hbrace]; decide
  · rw [hbracket]; decide
  · rw [hquote]; decide
  · rw [hslash.1]; decide

/-- An opening character puts its context on the stack. -/
theorem behind_opener {inner : Context} (hv : context.isVerbatim = false)
    (hc : c ≠ context.closer) (ho : Context.openedBy? last c = some inner) :
    behind outer context last (c :: rest) = behind (context :: outer) inner c rest := by
  rw [behind.eq_def]
  simp only [if_neg hc, hv, Bool.false_eq_true, if_false, ho, Context.openedBy?_solid ho]

/-- A character that neither closes nor opens leaves the stack alone. -/
theorem behind_plain (hv : context.isVerbatim = false) (hc : c ≠ context.closer)
    (ho : Context.openedBy? last c = none) :
    behind outer context last (c :: rest) =
      behind outer context (if Text.isBlank c then last else c) rest := by
  rw [behind.eq_def]
  simp only [if_neg hc, hv, Bool.false_eq_true, if_false, ho]

/-- The openers are a fixed set of characters; a slash is one of them only where a
value may stand. -/
theorem openedBy?_of_not_mem (h : c ∉ ['{', '[', '"', '/']) :
    Context.openedBy? last c = none := by
  simp only [List.mem_cons, List.not_mem_nil, or_false, not_or] at h
  obtain ⟨hbrace, hbracket, hquote, hslash⟩ := h
  simp [Context.openedBy?, hbrace, hbracket, hquote, hslash]

/-- The marks of strings and regexes close no braces and no brackets. -/
theorem marks_ne_closer (hv : context.isVerbatim = false) :
    '"' ≠ context.closer ∧ '/' ≠ context.closer := by
  cases context with
  | brace => decide
  | bracket => decide
  | quote => cases hv
  | slash => cases hv

/-! ## Derivable items are passed over -/

/-- A verbatim body with its mark closes the context that it stands in. -/
theorem behind_of_verbatim (hv : context.isVerbatim = true)
    (hbody : Verbatim context.closer body) :
    behind outer context last (body ++ context.closer :: rest) =
      afterCloser outer context.closer rest := by
  induction hbody generalizing last with
  | nil => exact behind_closer
  | escape _ ih => exact (behind_escape hv).trans ih
  | plain hmark hescape _ ih => exact (behind_verbatim hv hmark hescape).trans ih

/-- Items are passed over without a trace on the stack, and the scan goes on with
the last solid character of what it has read. -/
theorem behind_of_items {closer : Char} (outer : List Context) (hitems : Items closer before body)
    (hcloser : context.closer = closer) (hv : context.isVerbatim = false)
    (hlast : lastSolid? before = some last) :
    ∃ last', lastSolid? (before ++ body) = some last' ∧
      ∀ rest, behind outer context last (body ++ rest) = behind outer context last' rest := by
  induction hitems generalizing outer context last with
  | nil => exact ⟨last, by simpa using hlast, fun _ => rfl⟩
  | @nested closer opener inner before body rest hpair _ _ ihbody ihrest =>
    -- the context that the opener puts on the stack
    obtain ⟨ctx, hctx, hverb, hopen⟩ : ∃ ctx : Context, ctx.closer = inner ∧
        ctx.isVerbatim = false ∧ Context.openedBy? last opener = some ctx := by
      cases hpair with
      | braces => exact ⟨.brace, rfl, rfl, rfl⟩
      | brackets => exact ⟨.bracket, rfl, rfl, rfl⟩
    have hne : opener ≠ context.closer := by
      cases hpair <;> cases context <;> simp [Context.closer]
    obtain ⟨_, _, hin⟩ := @ihbody ctx opener (context :: outer) hctx hverb
      (by rw [lastSolid?_append_singleton, hpair.opener_solid]; rfl)
    obtain ⟨last', hlast', hout⟩ := @ihrest context inner outer hcloser hv
      (by rw [← List.append_assoc, lastSolid?_append_singleton, hpair.closer_solid]; rfl)
    refine ⟨last', by simpa using hlast', fun more => ?_⟩
    rw [List.append_assoc, List.cons_append, List.cons_append, behind_opener hv hne hopen,
      hin, ← hctx, behind_closer]
    simpa only [afterCloser, hctx] using hout more
  | @quoted closer before body rest hbody _ ih =>
    have hne : '"' ≠ context.closer := (marks_ne_closer hv).1
    obtain ⟨last', hlast', hout⟩ := @ih context '"' outer hcloser hv
      (by rw [← List.append_assoc, lastSolid?_append_singleton]; rfl)
    refine ⟨last', by simpa using hlast', fun more => ?_⟩
    have hopen : Context.openedBy? last '"' = some .quote := rfl
    rw [List.append_assoc, List.cons_append, List.cons_append, behind_opener hv hne hopen]
    exact (behind_of_verbatim (show Context.quote.isVerbatim = true from rfl) hbody).trans
      (hout more)
  | @regex closer before body rest hvalue hbody _ ih =>
    have hne : '/' ≠ context.closer := (marks_ne_closer hv).2
    have hopen : Context.openedBy? last '/' = some .slash := by
      simp [Context.openedBy?, (expectsValue_iff hlast).mp hvalue]
    obtain ⟨last', hlast', hout⟩ := @ih context '/' outer hcloser hv
      (by rw [← List.append_assoc, lastSolid?_append_singleton]; rfl)
    refine ⟨last', by simpa using hlast', fun more => ?_⟩
    rw [List.append_assoc, List.cons_append, List.cons_append, behind_opener hv hne hopen]
    exact (behind_of_verbatim (show Context.slash.isVerbatim = true from rfl) hbody).trans
      (hout more)
  | @division closer before rest hvalue _ ih =>
    have hne : '/' ≠ context.closer := (marks_ne_closer hv).2
    have hopen : Context.openedBy? last '/' = none := by
      simp [Context.openedBy?, mt (expectsValue_iff hlast).mpr hvalue]
    obtain ⟨last', hlast', hout⟩ := @ih context '/' outer hcloser hv
      (by rw [lastSolid?_append_singleton]; rfl)
    refine ⟨last', by simpa using hlast', fun more => ?_⟩
    rw [List.cons_append, behind_plain hv hne hopen]
    exact hout more
  | @plain closer c before rest hc hopener _ ih =>
    obtain ⟨last', hlast', hout⟩ := @ih context
      (if Text.isBlank c then last else c) outer hcloser hv
      (by rw [lastSolid?_append_singleton]; split <;> simp [hlast])
    refine ⟨last', by simpa using hlast', fun more => ?_⟩
    rw [List.cons_append, behind_plain hv (hcloser ▸ hc) (openedBy?_of_not_mem hopener)]
    exact hout more

/-! ## A scan that ends has read items -/

/-- What a context may hold: items, or a verbatim body. -/
def Context.Holds (context : Context) (before body : Text) : Prop :=
  if context.isVerbatim then Verbatim context.closer body else Items context.closer before body

/-- A text closes a stack of contexts and leaves `rest`: it holds what the innermost
context still needs and its closer, and then the same for the contexts around it. -/
def Closes (rest : Text) : List Context → Context → Text → Text → Prop
  | [], context, before, t =>
    ∃ body, context.Holds before body ∧ t = body ++ context.closer :: rest
  | enclosing :: outer, context, before, t =>
    ∃ body more, context.Holds before body ∧ t = body ++ context.closer :: more ∧
      Closes rest outer enclosing (before ++ (body ++ [context.closer])) more

/-- A passed item is a part of what the innermost context holds. -/
theorem Closes.prepend (item : Text) (h : Closes rest outer context (before ++ item) t)
    (hold : ∀ body, context.Holds (before ++ item) body → context.Holds before (item ++ body)) :
    Closes rest outer context before (item ++ t) := by
  cases outer with
  | nil =>
    obtain ⟨body, hbody, rfl⟩ := h
    exact ⟨item ++ body, hold body hbody, (List.append_assoc ..).symm⟩
  | cons enclosing outer =>
    obtain ⟨body, more, hbody, rfl, hmore⟩ := h
    refine ⟨item ++ body, more, hold body hbody, (List.append_assoc ..).symm, ?_⟩
    simpa only [List.append_assoc] using hmore

/-- A closed inner context is one item of the context around it. -/
theorem Closes.enclose {inner : Context}
    (h : Closes rest (context :: outer) inner (before ++ [c]) t)
    (hold : ∀ body more, inner.Holds (before ++ [c]) body →
      context.Holds (before ++ (c :: body ++ [inner.closer])) more →
      context.Holds before ((c :: body ++ [inner.closer]) ++ more)) :
    Closes rest outer context before (c :: t) := by
  obtain ⟨body, more, hbody, rfl, hmore⟩ := h
  have hitem : c :: (body ++ inner.closer :: more) = (c :: body ++ [inner.closer]) ++ more := by
    simp
  rw [hitem]
  refine Closes.prepend _ ?_ fun rest' hrest' => hold body rest' hbody hrest'
  simpa using hmore

/-- A context that holds items, holds them. -/
theorem Context.holds_items (hv : context.isVerbatim = false) :
    context.Holds before body ↔ Items context.closer before body := by
  simp [Context.Holds, hv]

/-- A verbatim context holds a verbatim body. -/
theorem Context.holds_verbatim (hv : context.isVerbatim = true) :
    context.Holds before body ↔ Verbatim context.closer body := by
  simp [Context.Holds, hv]

/-- Every context may hold nothing. -/
theorem Context.holds_nil : context.Holds before [] := by
  unfold Context.Holds
  split
  · exact Verbatim.nil
  · exact Items.nil

/-- What a character opens is, together with what it holds and its closer, an item
of the context in which it was opened. -/
theorem Context.holds_opened {inner : Context} {more : Text} (hv : context.isVerbatim = false)
    (hlast : lastSolid? before = some last) (ho : Context.openedBy? last c = some inner)
    (hbody : inner.Holds (before ++ [c]) body)
    (hmore : context.Holds (before ++ (c :: body ++ [inner.closer])) more) :
    context.Holds before ((c :: body ++ [inner.closer]) ++ more) := by
  rw [Context.holds_items hv] at hmore ⊢
  rw [List.append_assoc]
  unfold Context.openedBy? at ho
  split_ifs at ho with hbrace hbracket hquote hslash
  · cases ho
    subst hbrace
    exact Items.nested .braces ((Context.holds_items rfl).mp hbody) hmore
  · cases ho
    subst hbracket
    exact Items.nested .brackets ((Context.holds_items rfl).mp hbody) hmore
  · cases ho
    subst hquote
    exact Items.quoted ((Context.holds_verbatim rfl).mp hbody) hmore
  · cases ho
    obtain ⟨rfl, hvalue⟩ := hslash
    exact Items.regex ((expectsValue_iff hlast).mpr hvalue)
      ((Context.holds_verbatim rfl).mp hbody) hmore

/-- A character that opens nothing is an item by itself. -/
theorem Context.holds_plain (hv : context.isVerbatim = false) (hc : c ≠ context.closer)
    (hlast : lastSolid? before = some last) (ho : Context.openedBy? last c = none)
    (hbody : context.Holds (before ++ [c]) body) : context.Holds before (c :: body) := by
  rw [Context.holds_items hv] at hbody ⊢
  unfold Context.openedBy? at ho
  split_ifs at ho with hbrace hbracket hquote hslash
  by_cases hdivide : c = '/'
  · subst hdivide
    exact Items.division (fun hvalue => hslash ⟨rfl, (expectsValue_iff hlast).mp hvalue⟩) hbody
  · exact Items.plain hc (by simp [hbrace, hbracket, hquote, hdivide]) hbody

/-- A scan that ends has closed its whole stack. The last solid character matters
only while the innermost context holds items; a closer restores it for the context
around. -/
theorem closes_of_behind (h : behind outer context last t = .ok rest)
    (hlast : context.isVerbatim = false → lastSolid? before = some last) :
    Closes rest outer context before t := by
  fun_induction behind outer context last t generalizing before with
  | case1 => cases h
  | case2 context last _ => cases h; exact ⟨[], Context.holds_nil, rfl⟩
  | case3 context last more enclosing outer last' =>
    rename_i ih
    refine ⟨[], more, Context.holds_nil, rfl, ih h fun _ => ?_⟩
    rw [List.nil_append, lastSolid?_append_singleton, context.closer_solid]
    simp [last', context.closer_solid]
  | case4 => cases h
  | case5 outer context last hv c more hc ih =>
    refine (ih h fun hn => absurd hv (by simp [hn])).prepend ['\\', c] fun body hbody => ?_
    rw [Context.holds_verbatim hv] at hbody ⊢
    exact Verbatim.escape hbody
  | case6 outer context last c more last' hc hv he =>
    rename_i ih
    refine (ih h fun hn => absurd hv (by simp [hn])).prepend [c] fun body hbody => ?_
    rw [Context.holds_verbatim hv] at hbody ⊢
    exact Verbatim.plain hc he hbody
  | case7 outer context last c more last' hc hv inner ho =>
    rename_i ih
    have hv := eq_false_of_ne_true hv
    refine (ih h fun _ => ?_).enclose fun body rest' hbody hrest' =>
      Context.holds_opened hv (hlast hv) ho hbody hrest'
    simp [last', Context.openedBy?_solid ho]
  | case8 outer context last c more last' hc hv ho =>
    rename_i ih
    have hv := eq_false_of_ne_true hv
    refine (ih h fun _ => ?_).prepend [c] fun body hbody =>
      Context.holds_plain hv hc (hlast hv) ho hbody
    simp only [last', lastSolid?_append_singleton, hlast hv]
    split <;> rfl

/-! ## Reading a literal -/

/-- Cutting the remaining text off a text leaves what stands in front of it. -/
theorem take_length_sub (t rest : Text) :
    (t ++ rest).take ((t ++ rest).length - rest.length) = t := by
  rw [List.length_append, Nat.add_sub_cancel, List.take_left]

/-- The context that an opening character of a literal stands for. -/
theorem Paired.exists_context {opener closer : Char} (h : Paired opener closer) :
    ∃ context : Context, context.closer = closer ∧ context.isVerbatim = false ∧
      ∀ t, read (opener :: t) = match behind [] context opener t with
        | .error n => .error (.unclosed n)
        | .ok after => .ok ((opener :: t).take ((opener :: t).length - after.length), after) := by
  cases h with
  | braces => exact ⟨.brace, rfl, rfl, fun _ => rfl⟩
  | brackets => exact ⟨.bracket, rfl, rfl, fun _ => rfl⟩

/-- A literal with any text behind it is read, and what follows is left. -/
theorem read_of_isLiteral (h : IsLiteral before literal) (rest : Text) :
    read (literal ++ rest) = .ok (literal, rest) := by
  obtain ⟨opener, closer, items, hpair, hitems, rfl⟩ := h
  obtain ⟨context, hcloser, hv, hread⟩ := hpair.exists_context
  obtain ⟨last, _, hbehind⟩ := behind_of_items [] hitems hcloser hv
    (show lastSolid? (before ++ [opener]) = some opener by simp [hpair.opener_solid])
  have hscan : behind [] context opener (items ++ closer :: rest) = .ok rest := by
    rw [hbehind, ← hcloser, behind_closer]
    rfl
  have hsplit : opener :: (items ++ closer :: rest) = (opener :: items ++ [closer]) ++ rest := by
    simp
  rw [← hsplit, hread, hscan]
  simp only [hsplit, take_length_sub]

/-- A text on which reading succeeds begins with an opening character. -/
theorem exists_paired_of_read (h : read t = .ok (literal, rest)) :
    ∃ opener closer more, Paired opener closer ∧ t = opener :: more := by
  unfold read at h
  split at h
  · cases h
  · rename_i opener more
    by_cases hbrace : opener = '{'
    · exact ⟨opener, '}', more, hbrace ▸ .braces, rfl⟩
    · by_cases hbracket : opener = '['
      · exact ⟨opener, ']', more, hbracket ▸ .brackets, rfl⟩
      · simp [hbrace, hbracket] at h

/-- What is read is a literal, whatever stands in front of it. -/
theorem isLiteral_of_read (before : Text) (h : read t = .ok (literal, rest)) :
    t = literal ++ rest ∧ IsLiteral before literal := by
  obtain ⟨opener, closer, more, hpair, rfl⟩ := exists_paired_of_read h
  obtain ⟨context, rfl, hv, hread⟩ := hpair.exists_context
  rw [hread] at h
  split at h
  · cases h
  · rename_i after hscan
    obtain ⟨items, hitems, rfl⟩ := closes_of_behind hscan
      (fun _ => show lastSolid? (before ++ [opener]) = some opener by simp [hpair.opener_solid])
    rw [Context.holds_items hv] at hitems
    have hsplit : opener :: (items ++ context.closer :: after) =
        (opener :: items ++ [context.closer]) ++ after := by simp
    rw [hsplit, take_length_sub] at h
    cases h
    exact ⟨hsplit, opener, context.closer, items, hpair, hitems, rfl⟩

/-- Reading succeeds exactly on a literal and the text behind it. -/
theorem read_eq_ok_iff (before : Text) :
    read t = .ok (literal, rest) ↔ t = literal ++ rest ∧ IsLiteral before literal :=
  ⟨isLiteral_of_read before, fun ⟨ht, hl⟩ => ht ▸ read_of_isLiteral hl rest⟩

/-- At an offset, reading finds exactly the literal that begins there. -/
theorem readAt_eq_ok_iff (t : Text) (offset : Nat) :
    readAt t offset = .ok literal ↔
      literal <+: t.drop offset ∧ IsLiteral (t.take offset) literal := by
  have hoffset : ¬ ((offset : Int) < 0) := by omega
  simp only [readAt, if_neg hoffset, Int.toNat_natCast]
  constructor
  · intro h
    split at h
    · rename_i literal' rest hread
      cases h
      obtain ⟨ht, hl⟩ := (read_eq_ok_iff (t.take offset)).mp hread
      exact ⟨⟨rest, ht.symm⟩, hl⟩
    · cases h
  · rintro ⟨⟨rest, ht⟩, hl⟩
    have hread : read (t.drop offset) = .ok (literal, rest) :=
      (read_eq_ok_iff (t.take offset)).mpr ⟨ht.symm, hl⟩
    rw [hread]

/-- Scanning accepts exactly the grammar. At every offset the scan returns a text if
and only if the text is a literal that begins there; there is at most one; where there
is none the scan fails and says at which offset; and what stands behind a literal has
no influence. -/
theorem readAt_accepts_exactly_literals (t : Text) (offset : Nat) :
    (∀ literal, readAt t offset = .ok literal ↔
      literal <+: t.drop offset ∧ IsLiteral (t.take offset) literal) ∧
    (∀ literal other, literal <+: t.drop offset → IsLiteral (t.take offset) literal →
      other <+: t.drop offset → IsLiteral (t.take offset) other → literal = other) ∧
    ((∀ literal, literal <+: t.drop offset → ¬ IsLiteral (t.take offset) literal) →
      ∃ fault, readAt t offset = .error ⟨offset, fault⟩) ∧
    (∀ literal, readAt t offset = .ok literal →
      ∀ rest, readAt (t.take offset ++ literal ++ rest) offset = .ok literal) := by
  refine ⟨fun literal => readAt_eq_ok_iff t offset, ?_, ?_, ?_⟩
  · intro literal other hp hl hp' hl'
    have h := (readAt_eq_ok_iff t offset).mpr ⟨hp, hl⟩
    have h' := (readAt_eq_ok_iff t offset).mpr ⟨hp', hl'⟩
    exact Except.ok.inj (h.symm.trans h')
  · intro hnone
    cases h : readAt t offset with
    | ok literal =>
      obtain ⟨hp, hl⟩ := (readAt_eq_ok_iff t offset).mp h
      exact absurd hl (hnone literal hp)
    | error e =>
      refine ⟨e.fault, ?_⟩
      have hoffset : ¬ ((offset : Int) < 0) := by omega
      simp only [readAt, if_neg hoffset] at h
      split at h
      · cases h
      · cases h; rfl
  · intro literal h rest
    obtain ⟨hp, hl⟩ := (readAt_eq_ok_iff t offset).mp h
    have hin : offset ≤ t.length := by
      by_contra hout
      have hnil : t.drop offset = [] := List.drop_eq_nil_of_le (by omega)
      obtain ⟨opener, closer, items, _, _, rfl⟩ := hl
      simp [hnil] at hp
    have hlen : (t.take offset).length = offset := by simp [hin]
    rw [readAt_eq_ok_iff, List.append_assoc, List.drop_left' hlen, List.take_left' hlen]
    exact ⟨List.prefix_append literal rest, hl⟩

end Playable.Literal
