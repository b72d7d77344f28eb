import Mathlib.Data.List.Infix
import RubyInlay.Proofs.Source.Place
import RubyInlay.Source.Scope

/-! The scopes in sight of a place. A scope goes by the place of the node that opens it, and by
`none` at the top level. From a place outward the chain of scopes runs through all openings up to
the first closed one; only if there is none does it reach the top level. -/

namespace RubyInlay.Source

/-- The scopes in sight behind a list of openings, the innermost first. -/
def sight : List (Place × Opening) → List (Option Place)
  | [] => [none]
  | (s, .closed) :: _ => [some s]
  | (s, .nested) :: outer => some s :: sight outer

namespace Tree

variable {t b c : Tree} {i j : Nat} {d p : Place} {x : Option Place}

/-- The openings on the way to a place, the innermost first. -/
def openings (t : Tree) (p : Place) : List (Place × Opening) :=
  p.inits.reverse.filterMap fun s =>
    (t.nodeAt? s).bind fun u => (Opening.ofKind? u.kind).map (s, ·)

/-- The innermost scope around a place. -/
def scopeOf (t : Tree) (p : Place) : Option Place :=
  (t.openings p).head?.map (·.1)

def scopeChain (t : Tree) (p : Place) : List (Option Place) :=
  sight (t.openings p)

/-! ### One step down -/

theorem openings_nil (t : Tree) :
    t.openings [] = (Opening.ofKind? t.kind).toList.map ([], ·) := by
  cases h : Opening.ofKind? t.kind <;> simp [openings, h]

theorem openings_cons (hc : t.namedChildren[i]? = some c) :
    t.openings (i :: p) = (c.openings p).map (fun (s, o) => (i :: s, o)) ++ t.openings [] := by
  have h (s : Place) : t.nodeAt? (i :: s) = c.nodeAt? s := by simp [nodeAt?, hc]
  simp [openings, List.filterMap_append, List.filterMap_reverse, List.filterMap_map,
    List.map_filterMap, Function.comp_def, h, Option.map_bind]

theorem mem_sight_append {os rest : List (Place × Opening)} :
    x ∈ sight (os.map (fun (s, o) => (i :: s, o)) ++ rest) ↔
      (∃ s, some s ∈ sight os ∧ x = some (i :: s)) ∨ none ∈ sight os ∧ x ∈ sight rest := by
  induction os with
  | nil => simp [sight]
  | cons o os ih =>
    obtain ⟨s, o⟩ := o
    cases o with
    | closed => simp [sight]
    | nested =>
      simp only [List.map_cons, List.cons_append, sight, List.mem_cons, ih]
      aesop

theorem mem_scopeChain_cons (hc : t.namedChildren[i]? = some c) :
    x ∈ t.scopeChain (i :: p) ↔
      (∃ s, some s ∈ c.scopeChain p ∧ x = some (i :: s)) ∨
        none ∈ c.scopeChain p ∧ x ∈ t.scopeChain [] := by
  rw [scopeChain, openings_cons hc, mem_sight_append]
  rfl

theorem scopeOf_cons (hc : t.namedChildren[i]? = some c) :
    t.scopeOf (i :: p) = (c.scopeOf p).elim (t.scopeOf []) (some <| i :: ·) := by
  rw [scopeOf, scopeOf, openings_cons hc]
  cases h : c.openings p <;> simp [scopeOf]

/-! ### At the root -/

theorem scopeOf_nil (t : Tree) : t.scopeOf [] = (Opening.ofKind? t.kind).map fun _ => [] := by
  cases h : Opening.ofKind? t.kind <;> simp [scopeOf, openings_nil, h]

theorem scopeOf_nil_mem (t : Tree) : t.scopeOf [] ∈ t.scopeChain [] := by
  rw [scopeOf, scopeChain, openings_nil]
  cases h : Opening.ofKind? t.kind with
  | none => simp [sight]
  | some o => cases o <;> simp [sight]

theorem some_cons_notMem_scopeChain_nil (t : Tree) : some (i :: d) ∉ t.scopeChain [] := by
  rw [scopeChain, openings_nil]
  cases h : Opening.ofKind? t.kind with
  | none => simp [sight]
  | some o => cases o <;> simp [sight]

theorem none_mem_scopeChain_nil :
    none ∈ t.scopeChain [] ↔ Opening.ofKind? t.kind ≠ some .closed := by
  rw [scopeChain, openings_nil]
  cases h : Opening.ofKind? t.kind with
  | none => simp [sight]
  | some o => cases o <;> simp [sight]

/-! ### What is in sight -/

theorem none_mem_scopeChain_cons (hc : t.namedChildren[i]? = some c) :
    none ∈ t.scopeChain (i :: p) ↔ none ∈ c.scopeChain p ∧ none ∈ t.scopeChain [] := by
  simp [mem_scopeChain_cons hc]

/-- The scope of the root is in sight of a place below if nothing closed stands between. -/
theorem scopeOf_nil_mem_cons (hc : t.namedChildren[i]? = some c) :
    t.scopeOf [] ∈ t.scopeChain (i :: p) ↔ none ∈ c.scopeChain p := by
  have hs (s : Place) : t.scopeOf [] ≠ some (i :: s) := by simp [scopeOf_nil]
  simp [mem_scopeChain_cons hc, hs, scopeOf_nil_mem]

/-- Two places below the same child see each other as they do in the child. -/
theorem scopeOf_cons_mem_cons (hc : t.namedChildren[i]? = some c) :
    t.scopeOf (i :: d) ∈ t.scopeChain (i :: p) ↔ c.scopeOf d ∈ c.scopeChain p := by
  rw [scopeOf_cons hc]
  cases hd : c.scopeOf d with
  | none => exact scopeOf_nil_mem_cons hc
  | some s => simp [mem_scopeChain_cons hc, some_cons_notMem_scopeChain_nil]

/-- A place below another child is in sight if its scope is the root's. -/
theorem scopeOf_cons_mem_cons_of_ne (hb : t.namedChildren[j]? = some b)
    (hc : t.namedChildren[i]? = some c) (hne : j ≠ i) :
    t.scopeOf (j :: d) ∈ t.scopeChain (i :: p) ↔ b.scopeOf d = none ∧ none ∈ c.scopeChain p := by
  rw [scopeOf_cons hb]
  cases hd : b.scopeOf d with
  | none => simpa using scopeOf_nil_mem_cons hc
  | some s => simp [mem_scopeChain_cons hc, some_cons_notMem_scopeChain_nil, hne]

/-- From the root, the places in its own scope are in sight. -/
theorem scopeOf_cons_mem_nil (hb : t.namedChildren[j]? = some b) :
    t.scopeOf (j :: d) ∈ t.scopeChain [] ↔ b.scopeOf d = none := by
  rw [scopeOf_cons hb]
  cases hd : b.scopeOf d with
  | none => simpa using scopeOf_nil_mem t
  | some s => simp [some_cons_notMem_scopeChain_nil]

theorem scopeOf_eq_none_cons (hc : t.namedChildren[i]? = some c) :
    t.scopeOf (i :: d) = none ↔ Opening.ofKind? t.kind = none ∧ c.scopeOf d = none := by
  rw [scopeOf_cons hc, scopeOf_nil]
  cases c.scopeOf d <;> simp

/-! ### One step up -/

theorem openings_concat (h : t.nodeAt? (p ++ [i]) = some c) :
    t.openings (p ++ [i]) =
      (Opening.ofKind? c.kind).toList.map (p ++ [i], ·) ++ t.openings p := by
  have hinits : (p ++ [i]).inits = p.inits ++ [p ++ [i]] := by
    simp [List.inits_append]
  rw [openings, hinits, List.reverse_append, List.reverse_singleton, List.singleton_append,
    openings]
  cases ho : Opening.ofKind? c.kind <;> simp [h, ho]

/-- A node that opens a scope stands in its own, and any other in that of the node around it. -/
theorem scopeOf_concat (h : t.nodeAt? (p ++ [i]) = some c) :
    t.scopeOf (p ++ [i]) =
      if (Opening.ofKind? c.kind).isSome then some (p ++ [i]) else t.scopeOf p := by
  rw [scopeOf, openings_concat h]
  cases Opening.ofKind? c.kind <;> rfl

theorem prefix_of_scopeOf (h : t.scopeOf p = some d) : d <+: p := by
  rw [scopeOf, Option.map_eq_some_iff] at h
  obtain ⟨o, ho, rfl⟩ := h
  have hmem := List.mem_of_head? ho
  rw [openings, List.mem_filterMap] at hmem
  obtain ⟨s, hs, hso⟩ := hmem
  rw [List.mem_reverse, List.mem_inits] at hs
  simp only [Option.bind_eq_some_iff, Option.map_eq_some_iff] at hso
  obtain ⟨_, -, _, -, rfl⟩ := hso
  exact hs

end Tree

end RubyInlay.Source
