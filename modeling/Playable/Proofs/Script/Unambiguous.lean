import Playable.Proofs.Script.Classified

/-!
# Classification is unambiguous

No body has the shapes of two different operations, whatever its parameters are: a call that turns
the array around and one that cuts its front differ in what follows the array, and an exchange has
more statements than either. So the order of the shapes does not matter, and a shape that is added
behind the others takes no body away from them.
-/

namespace Playable.Script

open Pattern ArrayProgram

variable {shapes table : List Shape} {shape other : Shape} {params ss : List Text} {body op : Text}

/-- A turning call is no cutting call, even if the name of the array begins like the word in front
of it. -/
theorem toText_reverse_ne_splice (returns returns' : Bool) (a b : Text) :
    (Statement.call returns a .reverse).toText ≠
      (Statement.call returns' a (.splice b)).toText := by
  have hreverse : '.' :: layout Method.reverse.tokens = ".reverse()".toList := by
    simp [layout, Method.tokens, Token.text, Token.isWord]
  have hsplice : '.' :: layout (Method.splice b).tokens = ".splice(0,".toList ++ (b ++ [')']) := by
    simp [layout, Method.tokens, Token.text, Token.isWord]
  have hmethod (t : Text) : ".reverse()".toList ≠ ".splice(0,".toList ++ t := by simp
  rw [toText_call, toText_call, hreverse, hsplice]
  intro h
  cases returns with
  | false =>
    cases returns' with
    | false => exact hmethod _ (List.append_cancel_left h)
    | true =>
      -- the word only makes the cutting call longer still
      have hlength := congrArg List.length h
      simp at hlength
  | true =>
    cases returns' with
    | false =>
      -- behind equally many characters one call has a point and the other one a parenthesis
      have hsplit : ("return ".toList ++ a) ++ ".reverse()".toList =
          (a ++ ".splice".toList) ++ ("(0,".toList ++ (b ++ [')'])) := by simpa using h
      have hlength : ("return ".toList ++ a).length = (a ++ ".splice".toList).length := by
        rw [List.length_append, List.length_append, Nat.add_comm]
        rfl
      exact absurd (List.append_inj_right hsplit hlength) (by simp)
    | true => exact hmethod _ (List.append_cancel_left (List.append_cancel_left h))

/-- What a body with a standard shape looks like: which operation it has is seen from the number of
its statements and from the call that a single one is. -/
theorem cases_of_fits (hshape : shape ∈ standardShapes) (h : shape.fits params ss = true) :
    (shape.operation = "reverse".toList ∧ ss.length = 1 ∧ ∃ returns,
      Text.join [';'] ss = (Statement.call returns (params.head?.getD []) .reverse).toText) ∨
    (shape.operation = "splice".toList ∧ ss.length = 1 ∧ ∃ returns b,
      Text.join [';'] ss = (Statement.call returns (params.head?.getD []) (.splice b)).toText) ∨
    (shape.operation = "swap".toList ∧ ss.length = 3) := by
  obtain ⟨hcount, pattern, labels, hpattern, hreads⟩ := Shape.exists_reads h
  simp only [standardShapes, List.mem_cons, List.not_mem_nil, or_false] at hshape
  rcases hshape with rfl | rfl | rfl | rfl
  · obtain rfl := Option.some.inj hpattern
    exact .inl ⟨rfl, hcount, eq_of_reads_reverse hreads⟩
  · obtain ⟨a, b, others, rfl⟩ : ∃ a b others, params = a :: b :: others := by
      rcases params with _ | ⟨a, _ | ⟨b, others⟩⟩
      · cases hpattern
      · cases hpattern
      · exact ⟨a, b, others, rfl⟩
    obtain rfl := Option.some.inj hpattern
    obtain ⟨returns, hw⟩ := eq_of_reads_splice hreads
    exact .inr (.inl ⟨rfl, hcount, returns, b, hw⟩)
  · exact .inr (.inr ⟨rfl, hcount⟩)
  · exact .inr (.inr ⟨rfl, hcount⟩)

/-- All standard shapes that a body has name one operation. -/
theorem operation_eq_of_fits (hshape : shape ∈ standardShapes) (hother : other ∈ standardShapes)
    (h : shape.fits params ss = true) (h' : other.fits params ss = true) :
    shape.operation = other.operation := by
  rcases cases_of_fits hshape h with ⟨hop, hcount, returns, hw⟩ | ⟨hop, hcount, returns, b, hw⟩ |
    ⟨hop, hcount⟩
  · rcases cases_of_fits hother h' with ⟨hop', -⟩ | ⟨-, -, returns', b, hw'⟩ | ⟨-, hcount'⟩
    · rw [hop, hop']
    · exact absurd (hw.symm.trans hw') (toText_reverse_ne_splice _ _ _ _)
    · omega
  · rcases cases_of_fits hother h' with ⟨-, -, returns', hw'⟩ | ⟨hop', -⟩ | ⟨-, hcount'⟩
    · exact absurd (hw'.symm.trans hw) (toText_reverse_ne_splice _ _ _ _)
    · rw [hop, hop']
    · omega
  · rcases cases_of_fits hother h' with ⟨-, hcount', -⟩ | ⟨-, hcount', -⟩ | ⟨hop', -⟩
    · omega
    · omega
    · rw [hop, hop']

/-- If all shapes that a body has name one operation, it is classified by any of them. -/
theorem classify_eq_some_iff
    (hsame : ∀ shape ∈ table, ∀ other ∈ table, shape.fits params (statements body) = true →
      other.fits params (statements body) = true → shape.operation = other.operation) :
    classify table params body = some op ↔
      ∃ shape ∈ table, shape.fits params (statements body) = true ∧ shape.operation = op := by
  rw [classify, Option.map_eq_some_iff]
  constructor
  · rintro ⟨shape, hfound, hop⟩
    have hfits : shape.fits params (statements body) = true := by simpa using List.find?_some hfound
    exact ⟨shape, List.mem_of_find?_eq_some hfound, hfits, hop⟩
  · rintro ⟨shape, hshape, hfits, rfl⟩
    cases hfound : table.find? (·.fits params (statements body)) with
    | none => exact absurd hfits (List.find?_eq_none.mp hfound shape hshape)
    | some first =>
      have hfirst : first.fits params (statements body) = true := by
        simpa using List.find?_some hfound
      exact ⟨first, rfl, hsame first (List.mem_of_find?_eq_some hfound) shape hshape hfirst hfits⟩

/-- Then the order of the shapes does not matter. -/
theorem classify_eq_of_perm (hperm : table.Perm shapes)
    (hsame : ∀ shape ∈ shapes, ∀ other ∈ shapes, shape.fits params (statements body) = true →
      other.fits params (statements body) = true → shape.operation = other.operation) :
    classify table params body = classify shapes params body := by
  refine Option.ext fun op => ?_
  rw [classify_eq_some_iff hsame, classify_eq_some_iff fun shape hshape other hother =>
    hsame shape (hperm.mem_iff.mp hshape) other (hperm.mem_iff.mp hother)]
  simp only [hperm.mem_iff]

/-- A classified body is classified alike with more shapes behind the others. -/
theorem classify_append (h : classify table params body = some op) (more : List Shape) :
    classify (table ++ more) params body = some op := by
  obtain ⟨shape, hfound, rfl⟩ := Option.map_eq_some_iff.mp h
  rw [classify, List.find?_append, hfound]
  rfl

/-- Classification is unambiguous. For all parameters and every body, the standard shapes that the
body has name one operation, so it is classified alike in every order of the shapes; and a body
that is classified by a table of shapes is classified alike with any shapes behind them. -/
theorem classification_unambiguous (params : List Text) (body : Text) :
    (∀ shape ∈ standardShapes, ∀ other ∈ standardShapes,
      shape.fits params (statements body) = true → other.fits params (statements body) = true →
        shape.operation = other.operation) ∧
    (∀ table : List Shape, table.Perm standardShapes →
      classify table params body = classify standardShapes params body) ∧
    ∀ (table more : List Shape) (op : Text), classify table params body = some op →
      classify (table ++ more) params body = some op :=
  ⟨fun _ hshape _ hother => operation_eq_of_fits hshape hother,
    fun _ hperm => classify_eq_of_perm hperm fun _ hshape _ hother =>
      operation_eq_of_fits hshape hother,
    fun _ more _ h => classify_append h more⟩

/-- A returned call that cuts the array has one shape only, so it is classified by it in the
opposite order too, and with another shape behind the others. -/
theorem classification_unambiguous_returned_call :
    let params : List Text := [['a'], ['b']]
    let body : Text := "\x7breturn a.splice(0, b)\x7d".toList
    standardShapes.reverse.Perm standardShapes ∧
      (∀ other ∈ standardShapes, other.fits params (statements body) = true →
        other.operation = "splice".toList) ∧
      classify standardShapes.reverse params body = some "splice".toList ∧
      classify (standardShapes.reverse ++ [rotateShape]) params body = some "splice".toList := by
  intro params body
  obtain ⟨hsame, horder, hmore⟩ := classification_unambiguous params body
  have hclassify : classify standardShapes params body = some "splice".toList := by decide +kernel
  obtain ⟨shape, hfound, hop⟩ := Option.map_eq_some_iff.mp hclassify
  have hfits : shape.fits params (statements body) = true := by simpa using List.find?_some hfound
  have hperm : standardShapes.reverse.Perm standardShapes := List.reverse_perm standardShapes
  have hreverse : classify standardShapes.reverse params body = some "splice".toList :=
    (horder _ hperm).trans hclassify
  refine ⟨hperm, fun other hother h => ?_, hreverse, hmore _ [rotateShape] _ hreverse⟩
  rw [← hop, hsame shape (List.mem_of_find?_eq_some hfound) other hother hfits h]

end Playable.Script
