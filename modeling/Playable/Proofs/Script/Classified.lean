import Playable.Cipher.Catalog
import Playable.Proofs.Pattern.Take
import Playable.Proofs.Script.ArrayProgram

/-!
# What a recognised member does

The shape of a member body tells the operation that its program performs: whatever the names
are, running the program on an array of characters gives what the catalog gives. Only an
exchange that stores the saved character without taking the remainder differs for a number
that lies behind the array.
-/

namespace Playable.Script

open Pattern ArrayProgram

variable {a b saved op body : Text} {params others : List Text} {before w rest : Text}
  {labels labels' : List (String × Text)}

/-- The name that a statement declares. -/
def declared? (statement : Text) : Option Text :=
  (Text.after? "var ".toList statement).map fun t => (Text.cutFirst '=' t).1

/-- The parameters that an operation works with: the array, and a number unless the array is only
turned around. -/
def operands (op : Text) (params : List Text) : List Text :=
  params.take (if op = "reverse".toList then 1 else 2)

/-- The names in a body do not get into each other's way: there is a first parameter, the
parameters that the operation works with are names, none of them is bound again by another
parameter, and every variable that is declared has a name of its own. -/
structure IsNamedApart (op : Text) (params : List Text) (body : Text) : Prop where
  /-- There is a parameter. -/
  ne_nil : params ≠ []
  /-- The parameters that the array and the number are bound to are names. -/
  names : ∀ p ∈ operands op params, IsName p
  /-- Each of them is bound once. -/
  once : ∀ p ∈ operands op params, params.count p = 1
  /-- Every variable has a name, and hides neither the array nor the number. -/
  declared : ∀ s ∈ statements body, ∀ n ∈ declared? s, IsName n ∧ n ∉ operands op params

/-! ## Reading a shape -/

/-- A shape that fits has a pattern for the parameters, which reads the statements. -/
theorem Shape.exists_reads {shape : Shape} {ss : List Text} (h : shape.fits params ss = true) :
    ss.length = shape.statementCount ∧
      ∃ pattern labels, shape.template.instantiate? params = some pattern ∧
        pattern.Reads [] (Text.join [';'] ss) [] [] labels := by
  simp only [Shape.fits, Bool.and_eq_true, decide_eq_true_eq] at h
  obtain ⟨hcount, hmatch⟩ := h
  split at hmatch
  · next pattern hpattern =>
    obtain ⟨labels, hreads⟩ := exists_reads_of_matchesAll hmatch
    exact ⟨hcount, pattern, labels, hpattern, hreads⟩
  · cases hmatch

/-- The word in front of a value is there or not. -/
theorem eq_of_reads_returned (h : returned.Reads before w rest labels labels') :
    ∃ returns : Bool, w = if returns then "return ".toList else [] := by
  rcases h with ⟨rfl, -⟩ | ⟨rfl, -⟩
  · exact ⟨true, rfl⟩
  · exact ⟨false, rfl⟩

/-- The text of a call with the word in front of it. -/
theorem toText_call (returns : Bool) (a : Text) (method : Method) :
    (Statement.call returns a method).toText =
      (if returns then "return ".toList else []) ++ (a ++ '.' :: layout method.tokens) := by
  cases returns <;> simp [Statement.toText, Statement.tokens, layout, Token.text, Token.isWord]

/-- The shape of a turning member reads such a call. -/
theorem eq_of_reads_reverse
    (h : (returned ++ text a ++ lit ".reverse()").Reads before w rest labels labels') :
    ∃ returns, w = (Statement.call returns a .reverse).toText := by
  obtain ⟨_, rfl, _, rfl, hfront⟩ := by simpa only [reads_append_lit, reads_append_text] using h
  obtain ⟨returns, rfl⟩ := eq_of_reads_returned hfront
  have hmethod : ".reverse()".toList = '.' :: layout Method.reverse.tokens := by
    simp [layout, Method.tokens, Token.text, Token.isWord]
  exact ⟨returns, by rw [toText_call, hmethod, List.append_assoc]⟩

/-- The shape of a cutting member reads such a call. -/
theorem eq_of_reads_splice
    (h : (returned ++ text a ++ lit ".splice(0," ++ text b ++ lit ")").Reads before w rest labels
      labels') :
    ∃ returns, w = (Statement.call returns a (.splice b)).toText := by
  obtain ⟨_, rfl, _, rfl, _, rfl, _, rfl, hfront⟩ := by
    simpa only [reads_append_lit, reads_append_text] using h
  obtain ⟨returns, rfl⟩ := eq_of_reads_returned hfront
  have hmethod : ".splice(0,".toList ++ b ++ ")".toList =
      '.' :: layout (Method.splice b).tokens := by
    simp [layout, Method.tokens, Token.text, Token.isWord]
  refine ⟨returns, ?_⟩
  rw [toText_call, ← hmethod]
  simp only [List.append_assoc]

/-- What the shapes of an exchange begin with reads the saved name. -/
theorem eq_of_reads_saveFirst (h : (saveFirst a b).Reads before w rest labels labels') :
    ∃ saved, (Token.word saved).IsWellFormed ∧ labels' = ("saved", saved) :: labels ∧
      w = "var ".toList ++ saved ++ "=".toList ++ a ++ "[0];".toList ++ a ++ "[0]=".toList ++ a
        ++ "[".toList ++ b ++ "%".toList ++ a ++ ".length];".toList := by
  rw [saveFirst] at h
  simp only [reads_append_lit, reads_append_text] at h
  obtain ⟨_, rfl, _, rfl, _, rfl, _, rfl, _, rfl, _, rfl, _, rfl, _, rfl, _, rfl, _, rfl, _, rfl,
    hname⟩ := h
  obtain ⟨_, saved, _, rfl, ⟨rfl, rfl⟩, _, hsaved, rfl⟩ := hname
  obtain ⟨_, more, _, rfl, ⟨⟨c, hc, rfl⟩, rfl⟩, hmore, rfl⟩ := hsaved
  exact ⟨[c] ++ more, ⟨by simp, List.forall_mem_cons.mpr ⟨hc, hmore⟩⟩, rfl, rfl⟩

/-- The statements of an exchange with semicolons in between. -/
theorem join_exchange (a b saved : Text) (last : Place) :
    Text.join [';'] ((exchange a b saved last).map Statement.toText) =
      "var ".toList ++ saved ++ "=".toList ++ a ++ "[0];".toList ++ a ++ "[0]=".toList ++ a
        ++ "[".toList ++ b ++ "%".toList ++ a ++ ".length];".toList ++ a ++ "[".toList
        ++ layout (last.tokens ++ [.symbol ']', .symbol '=', .word saved]) := by
  simp [exchange, Text.join, Statement.toText, Statement.tokens, Source.tokens, Element.tokens,
    Place.tokens, layout, Token.text, Token.isWord]

/-- The shape of an exchange that takes the remainder twice reads such a program. -/
theorem eq_of_reads_swap
    (h : (saveFirst a b ++ text a ++ lit "[" ++ text b ++ lit "%" ++ text a ++ lit ".length]="
      ++ same "saved").Reads before w rest labels labels') :
    ∃ saved, (Token.word saved).IsWellFormed ∧
      w = Text.join [';'] ((exchange a b saved (.remainder b a)).map Statement.toText) := by
  obtain ⟨_, last, middle, rfl, hfront, hlast, rfl⟩ := h
  simp only [reads_append_lit, reads_append_text] at hfront
  obtain ⟨_, rfl, _, rfl, _, rfl, _, rfl, _, rfl, _, rfl, hsave⟩ := hfront
  obtain ⟨saved, hsaved, rfl, rfl⟩ := eq_of_reads_saveFirst hsave
  obtain rfl : saved = last := by simpa using hlast
  have hplace : b ++ "%".toList ++ a ++ ".length]=".toList ++ saved =
      layout ((Place.remainder b a).tokens ++ [.symbol ']', .symbol '=', .word saved]) := by
    simp [Place.tokens, layout, Token.text, Token.isWord]
  refine ⟨saved, hsaved, ?_⟩
  rw [join_exchange, ← hplace]
  simp only [List.append_assoc]

/-- The shape of an exchange that takes the remainder once reads such a program. -/
theorem eq_of_reads_swap_plain
    (h : (saveFirst a b ++ text a ++ lit "[" ++ text b ++ lit "]=" ++ same "saved").Reads before w
      rest labels labels') :
    ∃ saved, (Token.word saved).IsWellFormed ∧
      w = Text.join [';'] ((exchange a b saved (.named b)).map Statement.toText) := by
  obtain ⟨_, last, middle, rfl, hfront, hlast, rfl⟩ := h
  simp only [reads_append_lit, reads_append_text] at hfront
  obtain ⟨_, rfl, _, rfl, _, rfl, _, rfl, hsave⟩ := hfront
  obtain ⟨saved, hsaved, rfl, rfl⟩ := eq_of_reads_saveFirst hsave
  obtain rfl : saved = last := by simpa using hlast
  have hplace : b ++ "]=".toList ++ saved =
      layout ((Place.named b).tokens ++ [.symbol ']', .symbol '=', .word saved]) := by
    simp [Place.tokens, layout, Token.text, Token.isWord]
  refine ⟨saved, hsaved, ?_⟩
  rw [join_exchange, ← hplace]
  simp only [List.append_assoc]

/-! ## Recognised programs -/

/-- The programs that the standard shapes recognise, with the parameters and the operation. -/
inductive Recognised : List Text → Text → List Statement → Prop
  /-- Turning the array around. -/
  | reverse (returns : Bool) {a : Text} {others : List Text} (ha : a ∉ others) :
    Recognised (a :: others) "reverse".toList [.call returns a .reverse]
  /-- Removing elements from the front. -/
  | splice (returns : Bool) {a b : Text} {others : List Text} (ha : a ∉ b :: others)
    (hb : b ∉ others) :
    Recognised (a :: b :: others) "splice".toList [.call returns a (.splice b)]
  /-- Exchanging the first element with another one, which is stored in the last place. -/
  | swap {a b saved : Text} {others : List Text} {last : Place} (ha : a ∉ b :: others)
    (hb : b ∉ others) (hsa : saved ≠ a) (hsb : saved ≠ b)
    (hlast : last = .remainder b a ∨ last = .named b) :
    Recognised (a :: b :: others) "swap".toList (exchange a b saved last)

/-- A declaration declares its name. -/
theorem declared?_toText (hn : (Token.word saved).IsWellFormed) (value : Source) :
    declared? (Statement.declare saved value).toText = some saved := by
  have htext : (Statement.declare saved value).toText =
      "var ".toList ++ (saved ++ '=' :: layout value.tokens) := by
    simp [Statement.toText, Statement.tokens, layout, Token.text, Token.isWord]
  have hequals : '=' ∉ saved := fun hmem => absurd (hn.2 '=' hmem) (by decide)
  rw [declared?, htext, Text.after?_append, Option.map_some, Text.cutFirst_append_cons hequals]

/-- The array is bound to a name once. -/
theorem IsNamedApart.first (h : IsNamedApart op (a :: others) body) : IsName a ∧ a ∉ others := by
  have hmem : a ∈ operands op (a :: others) := by
    unfold operands
    split <;> simp
  exact ⟨h.names a hmem, by simpa [List.count_eq_zero] using h.once a hmem⟩

/-- So is the number, if the operation works with one. -/
theorem IsNamedApart.second (h : IsNamedApart op (a :: b :: others) body)
    (hop : op ≠ "reverse".toList) : IsName b ∧ b ∉ others := by
  have hmem : b ∈ operands op (a :: b :: others) := by
    rw [operands, if_neg hop]
    simp
  have hne : a ≠ b := fun heq => h.first.2 (heq ▸ List.mem_cons_self)
  exact ⟨h.names b hmem, by
    simpa [List.count_cons, hne, List.count_eq_zero] using h.once b hmem⟩

/-- What the shape of an exchange reads is a program if the names are apart. -/
theorem spells_exchange {last : Place}
    (hnames : IsNamedApart "swap".toList (a :: b :: others) body)
    (hsaved : (Token.word saved).IsWellFormed) (hne : statements body ≠ [])
    (hlast : last = .remainder b a ∨ last = .named b)
    (h : Text.join [';'] (statements body) =
      Text.join [';'] ((exchange a b saved last).map Statement.toText)) :
    Recognised (a :: b :: others) "swap".toList (exchange a b saved last) ∧
      Spells body (exchange a b saved last) := by
  obtain ⟨ha, haonce⟩ := hnames.first
  obtain ⟨hb, hbonce⟩ := hnames.second (by decide)
  have hall (p : Text → Prop) (hpa : p a) (hpb : p b) (hps : p saved) :
      ∀ s ∈ exchange a b saved last, ∀ n ∈ s.names, p n := by
    rcases hlast with rfl | rfl <;>
      simp [exchange, Statement.names, Source.names, Element.names, Place.names, hpa, hpb, hps]
  have hstatements := statements_eq_of_join (by simp [exchange])
    (hall _ ha.isWellFormed hb.isWellFormed hsaved) hne h
  obtain ⟨hname, hapart⟩ := hnames.declared _ (by rw [hstatements]; exact List.mem_cons_self) _
    (declared?_toText hsaved _)
  have hdifferent : saved ≠ a ∧ saved ≠ b := by simpa [operands] using hapart
  exact ⟨.swap haonce hbonce hdifferent.1 hdifferent.2 hlast, hall _ ha hb hname, hstatements⟩

/-- A statement list that reads like a method call is one. -/
theorem spells_call {returns : Bool} {method : Method} (ha : IsName a)
    (hmethod : ∀ n ∈ method.names, IsName n) (hne : statements body ≠ [])
    (h : Text.join [';'] (statements body) = (Statement.call returns a method).toText) :
    Spells body [.call returns a method] := by
  have hnames : ∀ s ∈ [Statement.call returns a method], ∀ n ∈ s.names, IsName n := by
    simpa [Statement.names] using ⟨ha, hmethod⟩
  exact ⟨hnames, statements_eq_of_join (List.cons_ne_nil _ _)
    (fun s hs n hn => (hnames s hs n hn).isWellFormed) hne h⟩

/-- A body that is classified spells a program that is recognised. -/
theorem exists_recognised (h : classify standardShapes params body = some op)
    (hnames : IsNamedApart op params body) :
    ∃ program, Recognised params op program ∧ Spells body program := by
  obtain ⟨shape, hfind, rfl⟩ := Option.map_eq_some_iff.mp h
  have hfits : shape.fits params (statements body) = true := by simpa using List.find?_some hfind
  obtain ⟨hcount, pattern, labels, hpattern, hreads⟩ := Shape.exists_reads hfits
  have hmem := List.mem_of_find?_eq_some hfind
  have hne : shape.statementCount ≠ 0 → statements body ≠ [] := fun hcount' hnil =>
    hcount' (by rw [← hcount, hnil, List.length_nil])
  obtain ⟨a, others, rfl⟩ := List.exists_cons_of_ne_nil hnames.ne_nil
  obtain ⟨ha, haonce⟩ := hnames.first
  simp only [standardShapes, List.mem_cons, List.not_mem_nil, or_false] at hmem
  rcases hmem with rfl | rfl | rfl | rfl
  · obtain rfl := Option.some.inj hpattern
    obtain ⟨returns, hw⟩ := eq_of_reads_reverse hreads
    exact ⟨_, .reverse returns haonce, spells_call ha (by simp [Method.names]) (hne (by simp)) hw⟩
  · cases others with
    | nil => cases hpattern
    | cons b others =>
      obtain ⟨hb, hbonce⟩ := hnames.second (by decide)
      obtain rfl := Option.some.inj hpattern
      obtain ⟨returns, hw⟩ := eq_of_reads_splice hreads
      exact ⟨_, .splice returns haonce hbonce,
        spells_call ha (by simpa [Method.names] using hb) (hne (by simp)) hw⟩
  · cases others with
    | nil => cases hpattern
    | cons b others =>
      obtain rfl := Option.some.inj hpattern
      obtain ⟨saved, hsaved, hw⟩ := eq_of_reads_swap hreads
      exact ⟨_, spells_exchange hnames hsaved (hne (by simp)) (.inl rfl) hw⟩
  · cases others with
    | nil => cases hpattern
    | cons b others =>
      obtain rfl := Option.some.inj hpattern
      obtain ⟨saved, hsaved, hw⟩ := eq_of_reads_swap_plain hreads
      exact ⟨_, spells_exchange hnames hsaved (hne (by simp)) (.inr rfl) hw⟩

/-! ## What recognised programs do -/

/-- A program stores an element in a place that a variable tells without the remainder. -/
def StoresUnreduced (program : List Statement) : Prop :=
  ∃ array n value, Statement.store ⟨array, .named n⟩ value ∈ program

/-- The exchange of the catalog for a number. -/
theorem swap_natCast {first : CodePoint} {chars : RawText} (hfirst : chars.head? = some first)
    (k : ℕ) :
    Cipher.swap k chars = (chars.set 0 (chars.getD (k % chars.length) first)).set
      (k % chars.length) first := by
  obtain ⟨more, rfl⟩ : ∃ more, chars = first :: more := List.head?_eq_some_iff.mp hfirst
  have hindex : ((k : ℤ) % ((first :: more).length : ℤ)).toNat = k % (first :: more).length := by
    rw [← Int.natCast_emod, Int.toNat_natCast]
  simp only [Cipher.swap, hindex]

/-- Removing elements behind the last one removes all. -/
theorem splice_natCast (chars : RawText) (k : ℕ) : Cipher.splice k chars = chars.drop k := by
  rw [Cipher.splice, Cipher.cutPoint, if_neg (by omega), Int.toNat_natCast]
  rcases Nat.le_total k chars.length with hle | hle
  · rw [Nat.min_eq_left hle]
  · rw [Nat.min_eq_right hle, List.drop_length, List.drop_eq_nil_of_le hle]

section Exchange

variable {chars : RawText} {k : ℕ} (ha : a ∉ b :: others) (hb : b ∉ others) (hsa : saved ≠ a)
  (hsb : saved ≠ b)

include ha hb hsa hsb

/-- Storing the saved character at the remainder is the exchange of the catalog. -/
theorem result?_exchange_remainder (hne : chars ≠ []) (k : ℕ) :
    result? (exchange a b saved (.remainder b a)) (a :: b :: others) chars k =
      some (Cipher.swap k chars) := by
  have hfirst : chars.head? = some (chars.head hne) := List.head?_eq_some_head hne
  have hlt : k % chars.length < chars.length := Nat.mod_lt _ (List.length_pos_of_ne_nil hne)
  rw [result?_exchange ha hb hsa hsb hfirst (.inl ⟨rfl, rfl⟩), if_pos hlt, swap_natCast hfirst]

/-- So is storing it at the number itself, if that is a place in the array. -/
theorem result?_exchange_named_of_lt (hk : k < chars.length) :
    result? (exchange a b saved (.named b)) (a :: b :: others) chars k =
      some (Cipher.swap k chars) := by
  have hne : chars ≠ [] := List.ne_nil_of_length_pos (Nat.zero_lt_of_lt hk)
  have hfirst : chars.head? = some (chars.head hne) := List.head?_eq_some_head hne
  rw [result?_exchange ha hb hsa hsb hfirst (.inr ⟨rfl, rfl⟩), if_pos hk, swap_natCast hfirst,
    Nat.mod_eq_of_lt hk]

/-- Behind the array the saved character extends it. -/
theorem result?_exchange_named_of_le (hne : chars ≠ []) (hk : chars.length ≤ k) :
    result? (exchange a b saved (.named b)) (a :: b :: others) chars k =
      some (chars.set 0 (chars.getD (k % chars.length) (.char ' ')) ++ chars.take 1) := by
  have hfirst : chars.head? = some (chars.head hne) := List.head?_eq_some_head hne
  have hlt : k % chars.length < chars.length := Nat.mod_lt _ (List.length_pos_of_ne_nil hne)
  have hget (d : CodePoint) : chars.getD (k % chars.length) d = chars[k % chars.length] := by
    simp [List.getD_eq_getElem?_getD, hlt]
  have hfront : [chars.head hne] = chars.take 1 := by
    rw [List.take_one, hfirst, Option.toList_some]
  rw [result?_exchange ha hb hsa hsb hfirst (.inr ⟨rfl, rfl⟩), if_neg (Nat.not_lt.mpr hk), hget,
    hget, hfront]

end Exchange

/-- A recognised program ends, and with what its operation gives unless it stores an element
behind the array. -/
theorem Recognised.exists_result {program : List Statement} {chars : RawText}
    (h : Recognised params op program) (hne : chars ≠ []) (k : ℕ) :
    ∃ answer, result? program params chars k = some answer ∧
      (¬ (StoresUnreduced program ∧ chars.length ≤ k) →
        Cipher.Catalog.standard.apply op (some k) chars = .ok answer) ∧
      (StoresUnreduced program → chars.length ≤ k → op = "swap".toList ∧
        answer = chars.set 0 (chars.getD (k % chars.length) (.char ' ')) ++ chars.take 1) := by
  cases h with
  | reverse returns ha =>
    refine ⟨chars.reverse, result?_reverse returns ha, fun _ => rfl, ?_⟩
    rintro ⟨array, n, value, hmem⟩
    simp at hmem
  | splice returns ha hb =>
    refine ⟨chars.drop k, result?_splice returns ha hb, fun _ => ?_, ?_⟩
    · rw [← splice_natCast]
      rfl
    · rintro ⟨array, n, value, hmem⟩
      simp at hmem
  | @swap a b saved others last ha hb hsa hsb hlast =>
    rcases hlast with rfl | rfl
    · refine ⟨_, result?_exchange_remainder ha hb hsa hsb hne k, fun _ => rfl, ?_⟩
      rintro ⟨array, n, value, hmem⟩
      simp [exchange] at hmem
    · have hstores : StoresUnreduced (exchange a b saved (.named b)) :=
        ⟨a, b, .named saved, by simp [exchange]⟩
      rcases Nat.lt_or_ge k chars.length with hk | hk
      · exact ⟨_, result?_exchange_named_of_lt ha hb hsa hsb hk, fun _ => rfl,
          fun _ hle => absurd hle (Nat.not_le.mpr hk)⟩
      · exact ⟨_, result?_exchange_named_of_le ha hb hsa hsb hne hk,
          fun hinside => absurd ⟨hstores, hk⟩ hinside, fun _ _ => ⟨rfl, rfl⟩⟩

/-- A member that is recognised does what its operation does. Its body spells one program, and
running it on an array of characters with a number ends with what the catalog gives for the
operation, unless it is an exchange that stores the saved character at the number itself, and
the number lies behind the array: then the array is extended by this character. -/
theorem runs_as_classified (h : classify standardShapes params body = some op)
    (hnames : IsNamedApart op params body) :
    (∃ program, Spells body program) ∧
      ∀ program chars (k : ℕ), Spells body program → chars ≠ [] →
        ∃ answer, result? program params chars k = some answer ∧
          (¬ (StoresUnreduced program ∧ chars.length ≤ k) →
            Cipher.Catalog.standard.apply op (some k) chars = .ok answer) ∧
          (StoresUnreduced program → chars.length ≤ k → op = "swap".toList ∧
            answer = chars.set 0 (chars.getD (k % chars.length) (.char ' ')) ++ chars.take 1) := by
  obtain ⟨program, hrecognised, hspells⟩ := exists_recognised h hnames
  refine ⟨⟨program, hspells⟩, fun other chars k hother hne => ?_⟩
  obtain rfl : program = other := hspells.unique hother
  exact hrecognised.exists_result hne k

/-- The body of an exchange that stores the saved character at the number itself. -/
def plainExchange : Text :=
  "\x7bvar t=z[0];z[0]=z[n%z.length];z[n]=t\x7d".toList

/-- Inside of the array such an exchange is one. -/
theorem runs_as_classified_inside :
    let chars := Text.raw "abcd".toList
    (∃ program, Spells plainExchange program) ∧
      ∀ program, Spells plainExchange program →
        ∃ answer, result? program [['z'], ['n']] chars 2 = some answer ∧
          Cipher.Catalog.standard.apply "swap".toList (some 2) chars = .ok answer := by
  intro chars
  have hclassify : classify standardShapes [['z'], ['n']] plainExchange = some "swap".toList := by
    decide +kernel
  have hnames : IsNamedApart "swap".toList [['z'], ['n']] plainExchange :=
    ⟨by decide, by decide, by decide, by decide +kernel⟩
  obtain ⟨hspells, hruns⟩ := runs_as_classified hclassify hnames
  refine ⟨hspells, fun program hprogram => ?_⟩
  obtain ⟨answer, hresult, hinside, -⟩ := hruns program chars 2 hprogram (by decide)
  exact ⟨answer, hresult, hinside fun hbehind => absurd hbehind.2 (by decide)⟩

/-- The body of an exchange that saves the first character under the name of the array. -/
def hidingExchange : Text :=
  "\x7bvar z=z[0];z[0]=z[n%z.length];z[n%z.length]=z\x7d".toList

/-- Two exchanges that are recognised and do not do what the catalog does. The first one is asked
for a character behind the last one: it stores the first character there, and not in the place
that the catalog exchanges it with. The second one has no array left to store a character in. -/
theorem exchanges_unlike_catalog :
    let chars := Text.raw "abc".toList
    (classify standardShapes [['z'], ['n']] plainExchange = some "swap".toList ∧
      Spells plainExchange (exchange ['z'] ['n'] ['t'] (.named ['n'])) ∧
      result? (exchange ['z'] ['n'] ['t'] (.named ['n'])) [['z'], ['n']] chars 4 =
        some (Text.raw "bbca".toList) ∧
      Cipher.Catalog.standard.apply "swap".toList (some 4) chars =
        .ok (Text.raw "bac".toList)) ∧
    classify standardShapes [['z'], ['n']] hidingExchange = some "swap".toList ∧
      Spells hidingExchange (exchange ['z'] ['n'] ['z'] (.remainder ['n'] ['z'])) ∧
      result? (exchange ['z'] ['n'] ['z'] (.remainder ['n'] ['z'])) [['z'], ['n']] chars 1 =
        none ∧
      Cipher.Catalog.standard.apply "swap".toList (some 1) chars =
        .ok (Text.raw "bac".toList) := by
  intro chars
  refine ⟨⟨by decide +kernel, ⟨?_, by decide +kernel⟩, by decide, by decide⟩,
    by decide +kernel, ⟨?_, by decide +kernel⟩, by decide, by decide⟩
  · decide
  · decide

end Playable.Script
