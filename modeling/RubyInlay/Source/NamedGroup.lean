/-! Named groups of a regular expression: the places where its text reads `(?<`, a name that could
be a local variable's, `>`. -/

namespace RubyInlay.Source.NamedGroup

def isNameStart (c : Char) : Bool :=
  c.isLower || c == '_'

def isNamePart (c : Char) : Bool :=
  c.isAlphanum || c == '_'

/-- The name of the group whose text a list begins with, and what follows the group. -/
def group? : List Char → Option (List Char × List Char)
  | '(' :: '?' :: '<' :: c :: rest =>
    if isNameStart c then
      match rest.dropWhile isNamePart with
      | '>' :: after => some (c :: rest.takeWhile isNamePart, after)
      | _ => none
    else none
  | _ => none

theorem length_of_group? {text name after : List Char} (h : group? text = some (name, after)) :
    after.length < text.length := by
  unfold group? at h
  split at h
  · rename_i c rest
    split at h
    · split at h
      · rename_i rest' hd
        have := (List.dropWhile_suffix isNamePart (l := rest)).length_le
        simp only [Option.some.injEq, Prod.mk.injEq] at h
        obtain ⟨-, rfl⟩ := h
        simp only [hd, List.length_cons] at this ⊢
        omega
      · simp at h
    · simp at h
  · simp at h

/-- The names of the groups from left to right. The search goes on behind each group it finds. -/
def names (text : List Char) : List (List Char) :=
  match text with
  | [] => []
  | c :: rest =>
    match h : group? (c :: rest) with
    | some (name, after) =>
      have := length_of_group? h
      name :: names after
    | none => names rest
termination_by text.length
decreasing_by
  · exact this
  · exact Nat.lt_succ_self _

end RubyInlay.Source.NamedGroup
