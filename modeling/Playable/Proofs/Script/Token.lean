import Mathlib.Data.List.Chain
import Playable.Proofs.Script.Statement
import Playable.Script.Shape

/-!
# Statements and tokens

The layout of a body does not matter: two bodies with the same tokens have the same
statements. The statements are the tokens cut at the semicolons, written with a space
only where two words meet, and a body written from them has these statements again.
-/

namespace Playable.Script

variable {c d : Char} {s t u v : Text} {ts : List Token}

/-- A token of a function body. -/
inductive Token where
  /-- A run of word characters, as long as possible. -/
  | word (w : Text)
  /-- Any other character that is not blank. -/
  | symbol (c : Char)
  deriving DecidableEq, Repr

namespace Token

/-- Whether a token is a word. -/
def isWord : Token → Bool
  | word _ => true
  | symbol _ => false

/-- The characters of a token. -/
def text : Token → Text
  | word w => w
  | symbol c => [c]

/-- Tokens with one more character in the word that comes first. -/
def extend (c : Char) : List Token → List Token
  | word w :: ts => word (c :: w) :: ts
  | ts => word [c] :: ts

end Token

/-- The tokens of a text. Blanks separate them. -/
def tokens : Text → List Token
  | [] => []
  | c :: rest =>
    if Text.isWordOrDollar c then
      if rest.head?.any Text.isWordOrDollar then Token.extend c (tokens rest)
      else .word [c] :: tokens rest
    else if Text.isBlank c then tokens rest
    else .symbol c :: tokens rest

/-- Tokens in their normal layout: a space stands between two words, and nowhere else. -/
def layout : List Token → Text
  | [] => []
  | t :: ts =>
    t.text ++ (if t.isWord && ts.head?.any Token.isWord then [' '] else []) ++ layout ts

/-- Tokens without the braces around them, if both are there. -/
def unbraced (ts : List Token) : List Token :=
  if ts.head? = some (.symbol '{') ∧ ts.getLast? = some (.symbol '}') then ts.tail.dropLast else ts

/-- The pieces between the semicolons that hold a token, in their normal layout. -/
def written (ts : List Token) : List Text :=
  (((unbraced ts).splitOn (.symbol ';')).filter (· ≠ [])).map layout

/-! ## The tokens of a text -/

/-- A word character in front of a word makes it longer. -/
theorem tokens_cons_of_word (hc : Text.isWordOrDollar c = true)
    (h : t.head?.any Text.isWordOrDollar = true) :
    tokens (c :: t) = Token.extend c (tokens t) := by
  rw [tokens, if_pos hc, if_pos h]

/-- A word character begins a word if none follows. -/
theorem tokens_cons_of_not_word (hc : Text.isWordOrDollar c = true)
    (h : t.head?.any Text.isWordOrDollar = false) :
    tokens (c :: t) = .word [c] :: tokens t := by
  rw [tokens, if_pos hc, h, if_neg Bool.false_ne_true]

/-- A blank belongs to no token. -/
theorem tokens_cons_blank (hc : Text.isBlank c = true) : tokens (c :: t) = tokens t := by
  rw [tokens, Text.isWordOrDollar_of_isBlank hc, if_neg Bool.false_ne_true, if_pos hc]

/-- A symbol is a token of its own. -/
theorem tokens_cons_symbol (hc : isSymbol c = true) : tokens (c :: t) = .symbol c :: tokens t := by
  rw [tokens, isWordOrDollar_of_isSymbol hc, isBlank_of_isSymbol hc, if_neg Bool.false_ne_true,
    if_neg Bool.false_ne_true]

/-- The tokens behind a character and whether it touches a word are all that matters. -/
theorem tokens_cons_congr
    (hfirst : s.head?.any Text.isWordOrDollar = t.head?.any Text.isWordOrDollar)
    (h : tokens s = tokens t) : tokens (c :: s) = tokens (c :: t) := by
  rw [tokens, hfirst, h, tokens]

/-- A run of word characters is a single token, as far as it goes. -/
theorem tokens_word_append (hne : u ≠ []) (hu : ∀ c ∈ u, Text.isWordOrDollar c = true)
    (ht : t.head?.any Text.isWordOrDollar = false) : tokens (u ++ t) = .word u :: tokens t := by
  induction u with
  | nil => exact absurd rfl hne
  | cons c u ih =>
    obtain ⟨hc, hu⟩ := List.forall_mem_cons.mp hu
    cases u with
    | nil => exact tokens_cons_of_not_word hc ht
    | cons d u =>
      have hd : (d :: u ++ t).head?.any Text.isWordOrDollar = true := hu d List.mem_cons_self
      have htail : tokens (d :: u ++ t) = .word (d :: u) :: tokens t :=
        ih (List.cons_ne_nil d u) hu
      rw [List.cons_append, tokens_cons_of_word hc hd, htail]
      rfl

/-- The first character that is not blank tells the kind of the first token. -/
theorem head?_tokens (hc : Text.isBlank c = false) :
    (tokens (c :: t)).head?.any Token.isWord = Text.isWordOrDollar c := by
  rcases isBlank_or_isSymbol_or_isWordOrDollar c with hblank | hsymbol | hword
  · simp [hc] at hblank
  · rw [tokens_cons_symbol hsymbol, isWordOrDollar_of_isSymbol hsymbol]
    rfl
  · rw [hword]
    cases hfirst : t.head?.any Text.isWordOrDollar with
    | false =>
      rw [tokens_cons_of_not_word hword hfirst]
      rfl
    | true =>
      rw [tokens_cons_of_word hword hfirst]
      unfold Token.extend
      split <;> rfl

/-- Tokens behind the first one do not change how a character goes in front. -/
theorem extend_append (hne : ts ≠ []) (more : List Token) :
    Token.extend c (ts ++ more) = Token.extend c ts ++ more := by
  obtain ⟨t, ts, rfl⟩ := List.exists_cons_of_ne_nil hne
  cases t <;> rfl

/-- A text that begins with a word has a first token. -/
theorem tokens_ne_nil (h : t.head?.any Text.isWordOrDollar = true) : tokens t ≠ [] := by
  cases t with
  | nil => exact absurd h Bool.false_ne_true
  | cons c t =>
    have hfirst := head?_tokens (t := t) (Text.isBlank_of_isWordOrDollar h)
    intro hnil
    rw [hnil, show Text.isWordOrDollar c = true from h] at hfirst
    cases hfirst

/-- Tokens do not go on behind a text that no word follows. -/
theorem tokens_append (u : Text) (ht : t.head?.any Text.isWordOrDollar = false) :
    tokens (u ++ t) = tokens u ++ tokens t := by
  induction u with
  | nil => rfl
  | cons c u ih =>
    have hfirst : (u ++ t).head?.any Text.isWordOrDollar = u.head?.any Text.isWordOrDollar :=
      Text.any_head?_append ht
    rw [List.cons_append]
    rcases isBlank_or_isSymbol_or_isWordOrDollar c with hblank | hsymbol | hword
    · rw [tokens_cons_blank hblank, tokens_cons_blank hblank, ih]
    · rw [tokens_cons_symbol hsymbol, tokens_cons_symbol hsymbol, ih, List.cons_append]
    · cases hu : u.head?.any Text.isWordOrDollar with
      | false =>
        rw [tokens_cons_of_not_word hword (hfirst.trans hu), tokens_cons_of_not_word hword hu, ih,
          List.cons_append]
      | true =>
        rw [tokens_cons_of_word hword (hfirst.trans hu), tokens_cons_of_word hword hu, ih,
          extend_append (tokens_ne_nil hu)]

/-- A symbol separates the tokens on both sides of it. -/
theorem tokens_append_symbol (hc : isSymbol c = true) (u t : Text) :
    tokens (u ++ c :: t) = tokens u ++ .symbol c :: tokens t := by
  have hfirst : (c :: t).head?.any Text.isWordOrDollar = false := isWordOrDollar_of_isSymbol hc
  rw [tokens_append u hfirst, tokens_cons_symbol hc]

/-- Blanks in front of a text do not change its tokens. -/
theorem tokens_blank_append (hu : ∀ c ∈ u, Text.isBlank c = true) (t : Text) :
    tokens (u ++ t) = tokens t := by
  induction u with
  | nil => rfl
  | cons c u ih =>
    obtain ⟨hc, hu⟩ := List.forall_mem_cons.mp hu
    rw [List.cons_append, tokens_cons_blank hc, ih hu]

/-- A text that ends with a word character ends with a word. -/
theorem getLast?_tokens (hd : Text.isWordOrDollar d = true) (u : Text) :
    (tokens (u ++ [d])).getLast?.any Token.isWord = true := by
  induction u with
  | nil =>
    rw [List.nil_append, tokens_cons_of_not_word hd rfl]
    rfl
  | cons c u ih =>
    obtain ⟨first, more, hcons⟩ : ∃ first more, tokens (u ++ [d]) = first :: more :=
      List.exists_cons_of_ne_nil fun hnil => by simp [hnil] at ih
    rw [hcons] at ih
    rw [List.cons_append]
    rcases isBlank_or_isSymbol_or_isWordOrDollar c with hblank | hsymbol | hword
    · rwa [tokens_cons_blank hblank, hcons]
    · rwa [tokens_cons_symbol hsymbol, hcons, List.getLast?_cons_cons]
    · cases hfirst : (u ++ [d]).head?.any Text.isWordOrDollar with
      | false => rwa [tokens_cons_of_not_word hword hfirst, hcons, List.getLast?_cons_cons]
      | true =>
        rw [tokens_cons_of_word hword hfirst, hcons]
        cases first with
        | symbol e => simpa [Token.extend] using ih
        | word w =>
          cases more with
          | nil => rfl
          | cons next more => simpa [Token.extend] using ih

/-! ## Normalizing keeps the tokens -/

/-- Blanks around a text do not change its tokens. -/
theorem tokens_strip (t : Text) : tokens (Text.strip t) = tokens t := by
  obtain ⟨u, v, ht, hu, hv⟩ := Text.exists_append_trim Text.isBlank t
  have hfirst : v.head?.any Text.isWordOrDollar = false := by
    cases v with
    | nil => rfl
    | cons c v => exact Text.isWordOrDollar_of_isBlank (hv c List.mem_cons_self)
  have hnone : tokens v = [] := by simpa [tokens] using tokens_blank_append hv []
  conv_rhs => rw [ht, tokens_blank_append hu, tokens_append _ hfirst, hnone, List.append_nil]
  rfl

/-- A text begins with a word before its blanks are collapsed if it does so afterwards. -/
theorem any_head?_collapseBlanks (t : Text) :
    (collapseBlanks t).head?.any Text.isWordOrDollar = t.head?.any Text.isWordOrDollar := by
  induction t with
  | nil => rfl
  | cons c t ih =>
    cases hblank : Text.isBlank c with
    | false => simp [collapseBlanks, hblank]
    | true =>
      have hnone : (c :: t).head?.any Text.isWordOrDollar = false :=
        Text.isWordOrDollar_of_isBlank hblank
      rw [collapseBlanks, if_pos hblank, hnone]
      cases t with
      | nil => rfl
      | cons d t =>
        cases hd : Text.isBlank d with
        | false => simp [hd, show Text.isWordOrDollar ' ' = false from rfl]
        | true =>
          rw [List.head?_cons, Option.any_some, if_pos hd, ih]
          exact Text.isWordOrDollar_of_isBlank hd

/-- Collapsing blanks keeps the tokens. -/
theorem tokens_collapseBlanks (t : Text) : tokens (collapseBlanks t) = tokens t := by
  induction t with
  | nil => rfl
  | cons c t ih =>
    cases hblank : Text.isBlank c with
    | false =>
      have hkept : collapseBlanks (c :: t) = c :: collapseBlanks t := by
        simp [collapseBlanks, hblank]
      rw [hkept]
      exact tokens_cons_congr (any_head?_collapseBlanks t) ih
    | true =>
      rw [tokens_cons_blank hblank, collapseBlanks, if_pos hblank]
      split
      · exact ih
      · rw [tokens_cons_blank rfl, ih]

/-- A text begins with a word before its blanks are dropped if it does so afterwards. -/
theorem any_head?_tightenFrom (t : Text) :
    (tightenFrom false t).head?.any Text.isWordOrDollar = t.head?.any Text.isWordOrDollar := by
  cases t with
  | nil => rfl
  | cons c t =>
    cases hblank : Text.isBlank c with
    | false =>
      rw [tightenFrom_cons hblank]
      rfl
    | true =>
      have hnone : (c :: t).head?.any Text.isWordOrDollar = false :=
        Text.isWordOrDollar_of_isBlank hblank
      rw [tightenFrom, if_pos hblank, hnone]
      cases t with
      | nil => exact hnone
      | cons d t =>
        cases hd : isSymbol d with
        | false => simpa [hd] using hnone
        | true =>
          have hkept : tightenFrom false (d :: t) = d :: tightenFrom true t :=
            hd ▸ tightenFrom_cons (isBlank_of_isSymbol hd) false t
          simpa [hd, hkept] using isWordOrDollar_of_isSymbol hd

/-- Tightening keeps the tokens. -/
theorem tokens_tightenFrom (afterSymbol : Bool) (t : Text) :
    tokens (tightenFrom afterSymbol t) = tokens t := by
  induction t generalizing afterSymbol with
  | nil => rfl
  | cons c t ih =>
    rcases isBlank_or_isSymbol_or_isWordOrDollar c with hblank | hsymbol | hword
    · rw [tokens_cons_blank hblank, tightenFrom, if_pos hblank]
      split
      · exact ih afterSymbol
      · rw [tokens_cons_blank hblank, ih]
    · rw [tightenFrom_cons (isBlank_of_isSymbol hsymbol), tokens_cons_symbol hsymbol,
        tokens_cons_symbol hsymbol, ih]
    · rw [tightenFrom_cons (Text.isBlank_of_isWordOrDollar hword),
        isSymbol_of_isWordOrDollar hword]
      exact tokens_cons_congr (any_head?_tightenFrom t) (ih false)

/-- Normalizing keeps the tokens. -/
theorem tokens_normalize (t : Text) : tokens (normalize t) = tokens t := by
  rw [normalize, tokens_tightenFrom, tokens_strip, tokens_collapseBlanks]

/-! ## The normal layout is that of the tokens -/

/-- A character that makes the first word longer is written in front. -/
theorem layout_extend (h : ts.head?.any Token.isWord = true) :
    layout (Token.extend c ts) = c :: layout ts := by
  obtain ⟨t, ts, rfl⟩ : ∃ t more, ts = t :: more :=
    List.exists_cons_of_ne_nil fun hnil => by simp [hnil] at h
  cases t with
  | symbol d => cases h
  | word w => rfl

/-- A character that no blank separates from the next one is written in front of it. -/
theorem layout_tokens_cons_cons (hc : Text.isBlank c = false) (hd : Text.isBlank d = false) :
    layout (tokens (c :: d :: t)) = c :: layout (tokens (d :: t)) := by
  have hkind := head?_tokens (t := t) hd
  have hfirst : (d :: t).head?.any Text.isWordOrDollar = Text.isWordOrDollar d := rfl
  rcases isBlank_or_isSymbol_or_isWordOrDollar c with hblank | hsymbol | hword
  · simp [hc] at hblank
  · rw [tokens_cons_symbol hsymbol]
    rfl
  · cases hnext : Text.isWordOrDollar d with
    | true => rw [tokens_cons_of_word hword (hfirst.trans hnext), layout_extend (hkind.trans hnext)]
    | false =>
      rw [tokens_cons_of_not_word hword (hfirst.trans hnext), layout, hkind.trans hnext]
      rfl

/-- A space is kept between two words and dropped next to a symbol. -/
theorem layout_tokens_cons_space (hc : Text.isBlank c = false) (hd : Text.isBlank d = false) :
    layout (tokens (c :: ' ' :: d :: t)) =
      c :: (if isSymbol c || isSymbol d then [] else [' ']) ++ layout (tokens (d :: t)) := by
  have hspace : tokens (' ' :: d :: t) = tokens (d :: t) := tokens_cons_blank rfl
  rcases isBlank_or_isSymbol_or_isWordOrDollar c with hblank | hsymbol | hword
  · simp [hc] at hblank
  · rw [tokens_cons_symbol hsymbol, hspace, hsymbol]
    rfl
  · have hkind : isSymbol d = !Text.isWordOrDollar d := by simp [isSymbol, hd]
    rw [tokens_cons_of_not_word hword rfl, hspace, layout, head?_tokens hd,
      isSymbol_of_isWordOrDollar hword, hkind]
    cases Text.isWordOrDollar d <;> rfl

/-- The layout in which the only blanks are spaces that stand alone. -/
structure IsCollapsed (t : Text) : Prop where
  /-- No two blanks stand side by side. -/
  alone : t.IsChain fun c d => Text.isBlank c = false ∨ Text.isBlank d = false
  /-- Every blank is a space. -/
  space : ∀ c ∈ t, Text.isBlank c = true → c = ' '

/-- Parts of a collapsed text are collapsed. -/
theorem IsCollapsed.part (h : IsCollapsed t) (hs : s <:+: t) : IsCollapsed s where
  alone := List.IsChain.infix h.alone hs
  space c hc := h.space c (hs.subset hc)

/-- A text is collapsed together with the character in front of it unless both begin with a
blank. -/
theorem IsCollapsed.cons (h : IsCollapsed t) (hspace : Text.isBlank c = true → c = ' ')
    (halone : Text.isBlank c = false ∨ t.head?.any Text.isBlank = false) :
    IsCollapsed (c :: t) where
  alone := by
    refine List.isChain_cons.mpr ⟨fun d hd => halone.imp_right fun ht => ?_, h.alone⟩
    simpa [Option.mem_def.mp hd] using ht
  space := List.forall_mem_cons.mpr ⟨hspace, h.space⟩

/-- Collapsing adds no blank in front. -/
theorem any_isBlank_collapseBlanks (h : t.head?.any Text.isBlank = false) :
    (collapseBlanks t).head?.any Text.isBlank = false := by
  cases t with
  | nil => rfl
  | cons c t => simp [collapseBlanks, show Text.isBlank c = false from h]

/-- Collapsing the blanks of a text has the expected effect. -/
theorem isCollapsed_collapseBlanks (t : Text) : IsCollapsed (collapseBlanks t) := by
  induction t with
  | nil => exact ⟨.nil, nofun⟩
  | cons c t ih =>
    rw [collapseBlanks]
    cases hc : Text.isBlank c with
    | false => exact ih.cons (by simp [hc]) (.inl hc)
    | true =>
      cases ht : t.head?.any Text.isBlank with
      | true => exact ih
      | false => exact ih.cons (fun _ => rfl) (.inr (any_isBlank_collapseBlanks ht))

/-- Tightening a collapsed text without blanks at its ends writes its tokens. -/
theorem tightenFrom_eq_layout (h : IsCollapsed t) (hfirst : t.head?.any Text.isBlank = false)
    (hlast : t.getLast?.any Text.isBlank = false) (afterSymbol : Bool) :
    tightenFrom afterSymbol t = layout (tokens t) := by
  induction hlength : t.length using Nat.strongRecOn generalizing t afterSymbol with
  | ind n ih =>
    subst hlength
    match t with
    | [] => rfl
    | [c] =>
      have hc : Text.isBlank c = false := hfirst
      rw [tightenFrom_cons hc]
      rcases isBlank_or_isSymbol_or_isWordOrDollar c with hblank | hsymbol | hword
      · simp [hc] at hblank
      · rw [tokens_cons_symbol hsymbol]
        rfl
      · rw [tokens_cons_of_not_word hword rfl]
        rfl
    | c :: d :: more =>
      have hc : Text.isBlank c = false := hfirst
      rw [tightenFrom_cons hc]
      cases hd : Text.isBlank d with
      | false =>
        rw [layout_tokens_cons_cons hc hd,
          ih _ (by simp) (h.part (List.suffix_cons c _).isInfix) hd (by simpa using hlast) _ rfl]
      | true =>
        obtain rfl : d = ' ' := h.space d (by simp) hd
        -- a blank is not the last character
        obtain ⟨e, behind, rfl⟩ : ∃ e behind, more = e :: behind :=
          List.exists_cons_of_ne_nil fun hnil => by simp [hnil, hd] at hlast
        have he : Text.isBlank e = false := by
          have hpair := (List.isChain_cons_cons.mp (List.isChain_cons_cons.mp h.alone).2).1
          exact hpair.resolve_left (by simp [hd])
        have hstart : (e :: behind).head?.any Text.isBlank = false := he
        have htail (after : Bool) :
            tightenFrom after (e :: behind) = layout (tokens (e :: behind)) :=
          ih _ (by simp) (h.part ⟨[c, ' '], [], by simp⟩) hstart (by simpa using hlast) _ rfl
        rw [layout_tokens_cons_space hc he, tightenFrom, if_pos hd, List.head?_cons,
          Option.any_some, htail, htail]
        cases isSymbol c || isSymbol e <;> rfl

/-- A statement in its normal layout is the layout of its tokens. -/
theorem normalize_eq_layout (t : Text) : normalize t = layout (tokens t) := by
  obtain ⟨u, v, ht, -⟩ := Text.exists_append_trim Text.isBlank (collapseBlanks t)
  have hcollapsed : IsCollapsed (Text.strip (collapseBlanks t)) :=
    (isCollapsed_collapseBlanks t).part ⟨u, v, by rw [List.append_assoc]; exact ht.symm⟩
  rw [normalize, tightenFrom_eq_layout hcollapsed (Text.head?_trim _ _) (Text.getLast?_trim _ _),
    tokens_strip, tokens_collapseBlanks]

/-- Normalizing twice is normalizing once. -/
theorem normalize_normalize (t : Text) : normalize (normalize t) = normalize t := by
  rw [normalize_eq_layout (normalize t), tokens_normalize, ← normalize_eq_layout]

/-- A token that can be written. -/
def Token.IsWellFormed : Token → Prop
  | word w => w ≠ [] ∧ ∀ c ∈ w, Text.isWordOrDollar c = true
  | symbol c => isSymbol c = true

instance : DecidablePred Token.IsWellFormed
  | .word w => decidable_of_iff (w ≠ [] ∧ w.all Text.isWordOrDollar = true)
      (and_congr_right fun _ => List.all_eq_true)
  | .symbol c => inferInstanceAs (Decidable (isSymbol c = true))

/-- What is written in the normal layout has the tokens that it is written from. -/
theorem tokens_layout (h : ∀ t ∈ ts, t.IsWellFormed) : tokens (layout ts) = ts := by
  induction ts with
  | nil => rfl
  | cons t ts ih =>
    obtain ⟨ht, hts⟩ := List.forall_mem_cons.mp h
    cases t with
    | symbol c =>
      change tokens (c :: layout ts) = _
      rw [tokens_cons_symbol ht, ih hts]
    | word w =>
      cases ts with
      | nil =>
        rw [layout, List.append_assoc]
        exact tokens_word_append ht.1 ht.2 rfl
      | cons next ts =>
        cases next with
        | symbol d =>
          have hd : isSymbol d = true := (List.forall_mem_cons.mp hts).1
          have hfirst : (layout (.symbol d :: ts)).head?.any Text.isWordOrDollar = false :=
            isWordOrDollar_of_isSymbol hd
          rw [layout, List.append_assoc]
          exact (tokens_word_append ht.1 ht.2 hfirst).trans (congrArg _ (ih hts))
        | word v =>
          rw [layout, List.append_assoc]
          refine (tokens_word_append ht.1 ht.2 rfl).trans (congrArg _ ?_)
          exact (tokens_cons_blank rfl).trans (ih hts)

/-! ## Braces and semicolons -/

/-- The character in front of a word changes no symbol. -/
theorem symbol_mem_of_mem_extend (h : .symbol c ∈ Token.extend d ts) : .symbol c ∈ ts := by
  cases ts with
  | nil => simp [Token.extend] at h
  | cons t ts => cases t <;> simpa [Token.extend] using h

/-- The symbols among the tokens are those of the text. -/
theorem symbol_mem_tokens (hc : isSymbol c = true) : .symbol c ∈ tokens t ↔ c ∈ t := by
  constructor
  · intro hmem
    induction t with
    | nil => cases hmem
    | cons d t ih =>
      rcases isBlank_or_isSymbol_or_isWordOrDollar d with hblank | hsymbol | hword
      · rw [tokens_cons_blank hblank] at hmem
        exact List.mem_cons_of_mem d (ih hmem)
      · rw [tokens_cons_symbol hsymbol, List.mem_cons, Token.symbol.injEq] at hmem
        exact List.mem_cons.mpr (hmem.imp_right ih)
      · refine List.mem_cons_of_mem d (ih ?_)
        cases hfirst : t.head?.any Text.isWordOrDollar with
        | false => simpa [tokens_cons_of_not_word hword hfirst] using hmem
        | true =>
          rw [tokens_cons_of_word hword hfirst] at hmem
          exact symbol_mem_of_mem_extend hmem
  · intro hmem
    obtain ⟨u, v, rfl⟩ := List.append_of_mem hmem
    rw [tokens_append_symbol hc]
    exact List.mem_append_right _ List.mem_cons_self

/-- The pieces of a text between symbols of one kind have the tokens between these symbols. -/
theorem map_tokens_split (hc : isSymbol c = true) (t : Text) :
    (Text.split c t).map tokens = (tokens t).splitOn (.symbol c) := by
  induction hlength : t.length using Nat.strongRecOn generalizing t with
  | ind n ih =>
    by_cases hmem : c ∈ t
    · obtain ⟨first, more, rfl, hfirst⟩ := List.eq_append_cons_of_mem hmem
      have hshort : more.length < n := by
        rw [← hlength, List.length_append, List.length_cons]
        omega
      rw [Text.split_append_cons hfirst, List.map_cons, ih _ hshort more rfl,
        tokens_append_symbol hc, List.splitOn_append_cons_self,
        List.splitOn_eq_singleton (mt (symbol_mem_tokens hc).mp hfirst), List.singleton_append]
    · rw [Text.split_of_not_mem hmem, List.map_singleton,
        List.splitOn_eq_singleton (mt (symbol_mem_tokens hc).mp hmem)]

/-- A text without a blank in front begins with a symbol if its tokens do. -/
theorem head?_tokens_eq_symbol (hc : isSymbol c = true) (ht : t.head?.any Text.isBlank = false) :
    (tokens t).head? = some (.symbol c) ↔ t.head? = some c := by
  cases t with
  | nil => simp [tokens]
  | cons d t =>
    have hd : Text.isBlank d = false := ht
    rcases isBlank_or_isSymbol_or_isWordOrDollar d with hblank | hsymbol | hword
    · simp [hd] at hblank
    · simp [tokens_cons_symbol hsymbol]
    · have hkind := (head?_tokens (t := t) hd).trans hword
      constructor
      · intro hfirst
        simp [hfirst, Token.isWord] at hkind
      · intro hfirst
        obtain rfl : d = c := by simpa using hfirst
        simp [isSymbol_of_isWordOrDollar hword] at hc

/-- A text without a blank at its end ends with a symbol if its tokens do. -/
theorem getLast?_tokens_eq_symbol (hc : isSymbol c = true)
    (ht : t.getLast?.any Text.isBlank = false) :
    (tokens t).getLast? = some (.symbol c) ↔ t.getLast? = some c := by
  rcases List.eq_nil_or_concat' t with rfl | ⟨u, d, rfl⟩
  · simp [tokens]
  · have hd : Text.isBlank d = false := by simpa using ht
    rw [List.getLast?_concat]
    rcases isBlank_or_isSymbol_or_isWordOrDollar d with hblank | hsymbol | hword
    · simp [hd] at hblank
    · rw [tokens_append_symbol hsymbol]
      simp [tokens]
    · have hkind := getLast?_tokens hword u
      constructor
      · intro hlast
        simp [hlast, Token.isWord] at hkind
      · intro hlast
        obtain rfl : d = c := by simpa using hlast
        simp [isSymbol_of_isWordOrDollar hword] at hc

/-- The braces around a body are the outer ones of its tokens. -/
theorem tokens_unbrace (body : Text) : tokens (unbrace body) = unbraced (tokens body) := by
  have hbraces : (tokens body).head? = some (.symbol '{') ∧
      (tokens body).getLast? = some (.symbol '}') ↔
        (Text.strip body).head? = some '{' ∧ (Text.strip body).getLast? = some '}' := by
    have hopen : isSymbol '{' = true := rfl
    have hclose : isSymbol '}' = true := rfl
    rw [← tokens_strip body, Text.strip, head?_tokens_eq_symbol hopen (Text.head?_trim _ body),
      getLast?_tokens_eq_symbol hclose (Text.getLast?_trim _ body)]
  simp only [unbrace, unbraced, hbraces]
  split
  · next h =>
    obtain ⟨rest, hrest⟩ : ∃ rest, Text.strip body = '{' :: rest := List.head?_eq_some_iff.mp h.1
    obtain ⟨front, hfront⟩ : ∃ front, Text.strip body = front ++ ['}'] :=
      List.getLast?_eq_some_iff.mp h.2
    obtain ⟨inner, rfl⟩ : ∃ inner, rest = inner ++ ['}'] := by
      rw [hrest] at hfront
      cases front with
      | nil => simp at hfront
      | cons c inner => exact ⟨inner, (List.cons.inj hfront).2⟩
    have hinner : tokens body = .symbol '{' :: (tokens inner ++ [.symbol '}']) := by
      rw [← tokens_strip body, hrest, tokens_cons_symbol rfl, tokens_append_symbol rfl]
      rfl
    rw [hrest, hinner, List.tail_cons, List.tail_cons, List.dropLast_concat, List.dropLast_concat]
  · exact tokens_strip body

/-! ## Statements -/

/-- Nothing is left of a statement exactly if it has no tokens. -/
theorem normalize_eq_nil_iff : normalize t = [] ↔ tokens t = [] := by
  constructor
  · intro hnil
    rw [← tokens_normalize, hnil]
    rfl
  · intro hnil
    rw [normalize_eq_layout, hnil]
    rfl

/-- The statements of a body are its tokens between the semicolons in their normal layout. -/
theorem statements_eq_written (body : Text) : statements body = written (tokens body) := by
  have hkept (t : Text) : (!(normalize t).isEmpty) = decide (tokens t ≠ []) := by
    rw [Bool.eq_iff_iff]
    simp [normalize_eq_nil_iff]
  calc statements body
      = ((Text.split ';' (unbrace body)).filter fun t => tokens t ≠ []).map normalize := by
        rw [statements, List.filter_map]
        exact congrArg _ (List.filter_congr fun t _ => hkept t)
    _ = (((Text.split ';' (unbrace body)).map tokens).filter (· ≠ [])).map layout := by
        rw [List.filter_map, List.map_map]
        exact List.map_congr_left fun t _ => normalize_eq_layout t
    _ = written (tokens body) := by rw [map_tokens_split rfl, tokens_unbrace, written]

/-- What a body is split into are statements that a body can be written with. -/
theorem isStatement_of_mem_statements (h : s ∈ statements t) : IsStatement s := by
  rw [statements, List.mem_filter, List.mem_map] at h
  obtain ⟨⟨piece, hpiece, rfl⟩, hne⟩ := h
  have hsemicolon : ';' ∉ normalize piece := by
    have hsymbol : isSymbol ';' = true := rfl
    rw [← symbol_mem_tokens hsymbol, tokens_normalize, symbol_mem_tokens hsymbol]
    exact Text.not_mem_of_mem_split hpiece
  exact ⟨by simpa using hne, hsemicolon, normalize_normalize piece⟩

/-- A body that is written from the statements of a body has the same statements. -/
theorem statements_bodyText_statements (body : Text) :
    statements (bodyText (statements body)) = statements body := by
  by_cases hnil : statements body = []
  · rw [hnil]
    rfl
  · exact statements_bodyText hnil fun s hs => isStatement_of_mem_statements hs

/-- The layout of a body does not matter. Its statements are its tokens without the braces
around them, cut at the semicolons, each piece that is not empty with one space between two
words and none elsewhere. So bodies with the same tokens have the same statements and the same
operation, and a body written from statements has these statements. -/
theorem statements_follow_tokens :
    (∀ body, statements body = written (tokens body)) ∧
      (∀ x y, tokens x = tokens y → statements x = statements y ∧
        ∀ shapes params, classify shapes params x = classify shapes params y) ∧
      ∀ body, statements (bodyText (statements body)) = statements body := by
  refine ⟨statements_eq_written, fun x y hxy => ?_, statements_bodyText_statements⟩
  have hstatements : statements x = statements y := by
    rw [statements_eq_written, hxy, ← statements_eq_written]
  exact ⟨hstatements, fun shapes params => by rw [classify, hstatements, classify]⟩

/-- An exchange of two elements in the layout of an editor. -/
def beautifiedBody : Text :=
  "\x7b\n  var c = a[0] ;\n\ta [0] = a[b % a.length] ; a[b % a.length]=c;\n\x7d".toList

/-- The same exchange without blanks, except for the one that it needs. -/
def minifiedBody : Text :=
  "\x7bvar c=a[0];a[0]=a[b%a.length];a[b%a.length]=c;\x7d".toList

/-- Both layouts of an exchange have the same statements and the same operation. -/
theorem statements_follow_tokens_beautified :
    tokens beautifiedBody = tokens minifiedBody ∧
      statements beautifiedBody = statements minifiedBody ∧
      classify standardShapes [['a'], ['b']] beautifiedBody =
        classify standardShapes [['a'], ['b']] minifiedBody := by
  have htokens : tokens beautifiedBody = tokens minifiedBody := by decide +kernel
  obtain ⟨hstatements, hclassify⟩ := statements_follow_tokens.2.1 _ _ htokens
  exact ⟨htokens, hstatements, hclassify standardShapes [['a'], ['b']]⟩

end Playable.Script
