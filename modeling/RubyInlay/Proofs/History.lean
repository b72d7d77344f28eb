import Mathlib.Data.List.Induction

/-! What came last. A history is the list of the steps taken so far, the latest at its end. What a
step leaves behind holds until a later one of its sort, so the state after a history is read off the
latest steps of each sort. -/

namespace RubyInlay

variable {α β : Type}

/-- What the latest step says that says anything under `f`. -/
def latest? (f : α → Option β) (before : List α) : Option β :=
  before.reverse.findSome? f

@[simp] theorem latest?_concat (f : α → Option β) (before : List α) (x : α) :
    latest? f (before ++ [x]) = (f x).or (latest? f before) := by
  rw [latest?, List.reverse_append, List.reverse_singleton, List.singleton_append,
    List.findSome?_cons]
  cases f x <;> rfl

theorem latest?_cons (f : α → Option β) (x : α) (later : List α) :
    latest? f (x :: later) = (latest? f later).or (f x) := by
  rw [latest?, List.reverse_cons, List.findSome?_append, List.findSome?_singleton, latest?]

/-- `x` is the latest step of a history with the property `P`; it follows `earlier`, and `since`
follows it. -/
structure Latest (P : α → Prop) (before earlier : List α) (x : α) (since : List α) : Prop where
  split : before = earlier ++ x :: since
  holds : P x
  last : ∀ y ∈ since, ¬ P y

namespace Latest

variable {P : α → Prop} {before earlier since later : List α} {x y : α}

theorem not_nil (h : Latest P [] earlier x since) : False := by
  simpa using h.split

theorem append (h : Latest P before earlier x since) (hl : ∀ y ∈ later, ¬ P y) :
    Latest P (before ++ later) earlier x (since ++ later) where
  split := by rw [h.split, List.append_assoc, List.cons_append]
  holds := h.holds
  last y hy := (List.mem_append.1 hy).elim (h.last y) (hl y)

theorem self (hx : P x) : Latest P (before ++ [x]) before x [] where
  split := rfl
  holds := hx
  last _ hy := absurd hy List.not_mem_nil

/-- The latest step is the last one, or it was the latest before that one. -/
theorem concat_iff : Latest P (before ++ [y]) earlier x since ↔
    (earlier = before ∧ x = y ∧ since = [] ∧ P y) ∨
      ∃ since', since = since' ++ [y] ∧ ¬ P y ∧ Latest P before earlier x since' := by
  constructor
  · intro h
    rcases List.eq_nil_or_concat since with rfl | ⟨since', z, rfl⟩
    · obtain ⟨rfl, hxy⟩ := List.append_inj' h.split rfl
      obtain rfl : y = x := by simpa using hxy
      exact .inl ⟨rfl, rfl, rfl, h.holds⟩
    · have hs : before ++ [y] = (earlier ++ x :: since') ++ [z] := by simpa using h.split
      obtain ⟨hb, hyz⟩ := List.append_inj' hs rfl
      obtain rfl : y = z := by simpa using hyz
      refine .inr ⟨since', by simp, h.last y (by simp), hb, h.holds, fun w hw => ?_⟩
      exact h.last w (by simp [hw])
  · rintro (⟨rfl, rfl, rfl, hy⟩ | ⟨since', rfl, hy, h⟩)
    · exact self hy
    · exact h.append (by simpa using hy)

end Latest

theorem exists_latest {P : α → Prop} {before : List α} (h : ∃ x ∈ before, P x) :
    ∃ earlier x since, Latest P before earlier x since := by
  induction before using List.reverseRecOn with
  | nil => simp at h
  | append_singleton before y ih =>
    by_cases hy : P y
    · exact ⟨before, y, [], Latest.self hy⟩
    · obtain ⟨x, hx, hP⟩ := h
      rcases List.mem_append.1 hx with hb | hl
      · obtain ⟨earlier, x, since, hs⟩ := ih ⟨x, hb, hP⟩
        exact ⟨earlier, x, since ++ [y], hs.append (by simpa using hy)⟩
      · obtain rfl : x = y := by simpa using hl
        exact absurd hP hy

end RubyInlay
