import Playable.Proofs.Register
import Playable.Proofs.Script.Member

/-!
# The members of a helper object, one by one

A helper object is written as a list of function members. Whatever stands inside their bodies,
reading the script enumerates exactly these members: every name once, in the order in which
names occur first, with what the last member of that name does. Of a body nothing is assumed but
that it is read whole from its own beginning.
-/

namespace Playable.Script

variable {m : Member} {ms : List Member} {shapes : List Shape} {helper name t : Text}

/-- The name of an object: a letter, an underscore or a dollar sign, and then word characters of
any script and dollar signs. -/
def IsObjectName (t : Text) : Prop :=
  t.head?.any isIdentifierStart = true ∧ ∀ c ∈ t, Text.isWordOrDollar c = true

/-- A member as it may be written: names are identifiers, and the body in braces is read whole
from its own beginning. -/
structure Member.IsWritten (m : Member) : Prop where
  /-- The name is an identifier. -/
  name : IsIdentifier m.name
  /-- The parameters are identifiers. -/
  params : ∀ p ∈ m.params, IsIdentifier p
  /-- The body begins with a brace. -/
  brace : m.body.head? = some '{'
  /-- The body is read whole. -/
  body : Literal.readAt m.body 0 = .ok m.body

/-- The last member of a name. -/
def lastNamed? (ms : List Member) (name : Text) : Option Member :=
  ms.reverse.find? (·.name = name)

/-- The definition of a helper object with the given members, and what follows it. -/
def definitionText (helper : Text) (ms : List Member) (suffix : Text) : Text :=
  "var ".toList ++ (helper ++ "=".toList ++ (objectText ms ++ ';' :: suffix))

/-- A text that is read whole from its own beginning is a literal, whatever stands in front of
it. -/
theorem isLiteral_of_readAt_zero (h : Literal.readAt t 0 = .ok t) (before : Text) :
    Literal.IsLiteral before t := by
  rw [Literal.readAt, if_neg (by decide)] at h
  split at h
  · rename_i literal rest hread
    obtain rfl := Except.ok.inj h
    exact (Literal.isLiteral_of_read before hread).2
  · cases h

/-- A member whose body is read whole can stand in an object. -/
theorem Member.IsWritten.isWellFormed (h : m.IsWritten) : m.IsWellFormed where
  name := h.name
  params := h.params
  body := isLiteral_of_readAt_zero h.body
  brace := h.brace

/-- The object is found under its name. -/
theorem readObject?_definitionText (hhelper : IsObjectName helper)
    (hms : ∀ m ∈ ms, m.IsWellFormed) (suffix : Text) :
    readObject? (definitionText helper ms suffix) helper = some (objectText ms) := by
  have hne : helper ≠ [] := by
    rintro rfl
    cases hhelper.1
  have hsolid : ∀ c ∈ helper, Text.isBlank c = false := fun c hc =>
    Text.isBlank_of_isWordOrDollar (hhelper.2 c hc)
  have hequals : '=' ∉ helper := fun hc => absurd (hhelper.2 _ hc) (by decide)
  exact readObject?_eq_some hne hsolid hequals (isLiteral_objectText hms) rfl _

/-- Members that are entered one after the other stand once under each name, with what the last
one of that name does. -/
theorem ofPairs_members {α : Type} (f : Member → Option α) :
    Register.ofPairs (ms.map fun m => (m.name, f m)) =
      (ms.map (·.name)).eraseDups.map fun name => (name, (lastNamed? ms name).bind f) := by
  have hnames : Register.names (ms.map fun m => (m.name, f m)) = ms.map (·.name) := by
    rw [Register.names, List.map_map]
    rfl
  have hvalue : ∀ name ∈ Register.names (Register.ofPairs (ms.map fun m => (m.name, f m))),
      Register.get? (Register.ofPairs (ms.map fun m => (m.name, f m))) name =
        some ((lastNamed? ms name).bind f) := by
    intro name hname
    rw [Register.names_ofPairs, List.mem_eraseDups, hnames] at hname
    obtain ⟨last, hlast⟩ : ∃ last, lastNamed? ms name = some last := by
      obtain ⟨m, hm, hmname⟩ := List.mem_map.mp hname
      refine Option.isSome_iff_exists.mp (List.find?_isSome.mpr ⟨m, List.mem_reverse.mpr hm, ?_⟩)
      simpa using hmname
    have hfound : ms.reverse.find? ((fun pair : Text × Option α => pair.1 = name) ∘
        fun m => (m.name, f m)) = some last := hlast
    rw [Register.get?_ofPairs, ← List.map_reverse, Register.get?, List.find?_map, hfound, hlast]
    rfl
  rw [Register.eq_map_names (Register.nodup_ofPairs _) hvalue, Register.names_ofPairs, hnames]

/-- The members of a written helper object are enumerated exactly: every name once, in the order
of first occurrence, with what the last member of that name does. Neither what the bodies hold
nor what follows the object makes a difference. -/
theorem enumerates_members (shapes : List Shape) (hhelper : IsObjectName helper)
    (hms : ∀ m ∈ ms, m.IsWritten) (suffix : Text) :
    findMembers shapes (definitionText helper ms suffix) helper =
      .ok ((ms.map (·.name)).eraseDups.map fun name =>
        (name, (lastNamed? ms name).bind fun m => classify shapes m.params m.body)) := by
  have hwell : ∀ m ∈ ms, m.IsWellFormed := fun m hm => (hms m hm).isWellFormed
  simp only [findMembers, readObject?_definitionText hhelper hwell, readMembers_objectText hwell]
  rw [ofPairs_members]

/-- Members whose bodies hold a function, a regular expression with a closing brace, and a quoted
text that looks like a member; the first name comes twice. -/
def nestedMembers : List Member :=
  [⟨"m".toList, ["a".toList, "b".toList],
      "\x7bx(\x7by:function(q)\x7bq.reverse()\x7d\x7d);return/[\x7d]/\x7d".toList⟩,
    ⟨"n".toList, ["a".toList], "\x7b\",k:function(c)\x7bc.reverse()\x7d\";a.reverse()\x7d".toList⟩,
    ⟨"m".toList, ["p".toList, "q".toList], "\x7b p.splice( 0, q ); \x7d".toList⟩]

/-- Members with such bodies are enumerated, also in front of another object of the same name. -/
theorem enumerates_members_nested :
    let helper := "$é".toList
    let suffix := "\n$é=\x7bk:function(a)\x7ba.reverse()\x7d\x7d".toList
    IsObjectName helper ∧ (∀ m ∈ nestedMembers, m.IsWritten) ∧
      findMembers standardShapes (definitionText helper nestedMembers suffix) helper =
        .ok [("m".toList, some "splice".toList), ("n".toList, none)] := by
  intro helper suffix
  have hhelper : IsObjectName helper := ⟨rfl, Text.forall_mem_of_all rfl⟩
  have hmembers : ∀ m ∈ nestedMembers, m.IsWritten := by
    rintro m (_ | ⟨_, _ | ⟨_, _ | ⟨_, ⟨⟩⟩⟩⟩)
    · exact ⟨by decide, by decide, rfl, by decide +kernel⟩
    · exact ⟨by decide, by decide, rfl, by decide +kernel⟩
    · exact ⟨by decide, by decide, rfl, by decide +kernel⟩
  refine ⟨hhelper, hmembers, (enumerates_members standardShapes hhelper hmembers suffix).trans ?_⟩
  decide +kernel

end Playable.Script
