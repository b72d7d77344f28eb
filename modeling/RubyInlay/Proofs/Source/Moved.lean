import RubyInlay.Proofs.Source.Revision
import RubyInlay.Proofs.Source.Slice

/-! Trees of moved sources. With a text in front of a source, its tree stands some rows further down
and as many bytes further on as the text has. Main statement: the constructs of the moved tree
introduce the variables that they introduce where they were. -/

namespace RubyInlay.Source

variable {rows bytes : Nat} {front source : String}

/-! ### Moved trees -/

def Point.moved (rows : Nat) (p : Point) : Point :=
  { p with row := p.row + rows }

def Info.moved (rows bytes : Nat) (i : Info) : Info :=
  { i with
    startByte := i.startByte + bytes
    stopByte := i.stopByte + bytes
    start := i.start.moved rows
    stop := i.stop.moved rows }

namespace Tree

mutual

/-- The tree with all its nodes some rows and bytes further on. -/
def moved (rows bytes : Nat) : Tree → Tree
  | node info children => node (info.moved rows bytes) (movedAll rows bytes children)

def movedAll (rows bytes : Nat) : List Tree → List Tree
  | [] => []
  | t :: ts => moved rows bytes t :: movedAll rows bytes ts

end

theorem movedAll_eq (ts : List Tree) : movedAll rows bytes ts = ts.map (moved rows bytes) := by
  induction ts with
  | nil => simp [movedAll]
  | cons t ts ih => simp [movedAll, ih]

@[simp] theorem info_moved (t : Tree) : (t.moved rows bytes).info = t.info.moved rows bytes := by
  cases t; simp [moved]

@[simp] theorem children_moved (t : Tree) :
    (t.moved rows bytes).children = t.children.map (moved rows bytes) := by
  cases t; simp [moved, movedAll_eq]

@[simp] theorem kind_moved (t : Tree) : (t.moved rows bytes).kind = t.kind := by
  simp [kind, Info.moved]

@[simp] theorem namedChildren_moved (t : Tree) :
    (t.moved rows bytes).namedChildren = t.namedChildren.map (moved rows bytes) := by
  simp [namedChildren, List.filter_map, Function.comp_def, Info.moved]

@[simp] theorem child?_moved (t : Tree) (f : Field) :
    (t.moved rows bytes).child? f = (t.child? f).map (moved rows bytes) := by
  simp only [child?, children_moved, List.find?_map, Function.comp_def, info_moved, Info.moved]

/-- A node has the same text in the source behind `front` as in the source. -/
@[simp] theorem chars_moved (t : Tree) :
    (t.moved rows front.utf8ByteSize).chars (.ofString (front ++ source)) =
      t.chars (.ofString source) := by
  simp [chars, Info.moved, Bytes.text_append]

@[simp] theorem text_moved (t : Tree) :
    (t.moved rows front.utf8ByteSize).text (.ofString (front ++ source)) =
      t.text (.ofString source) := by
  simp [text]

end Tree

open RubyInlay.Source.Tree

/-! ### Searches -/

/-- A search finds the same in a moved tree, if it finds the same at each node and looks into the
same parts. -/
theorem bound_moved {role role' : (t : Tree) → Role t}
    (hnames : ∀ t : Tree, (role' (t.moved rows bytes)).names = (role t).names)
    (hparts : ∀ t : Tree,
      (role' (t.moved rows bytes)).parts = (role t).parts.map (moved rows bytes)) (t : Tree) :
    bound role' (t.moved rows bytes) = bound role t := by
  induction t using bound.induct role with
  | case1 t ns h =>
    rw [bound_eq, hnames, hparts, bound_eq t, h]
    simp
  | case2 t ps inside h ih =>
    rw [bound_eq, hnames, hparts, bound_eq t, h, List.flatMap_map]
    have hflat : ps.flatMap (fun p => bound role' (p.moved rows bytes)) = ps.flatMap (bound role) :=
      List.flatMap_congr fun p hp => ih p hp
    simp [Role.parts, hflat]

theorem bound_targetRole_moved (t : Tree) :
    bound (targetRole (.ofString (front ++ source))) (t.moved rows front.utf8ByteSize) =
      bound (targetRole (.ofString source)) t := by
  refine bound_moved (fun t => ?_) (fun t => ?_) t <;> simp only [targetRole, kind_moved]
  · split_ifs <;> simp
  · split_ifs <;> simp

theorem keyVariable_moved (t : Tree) :
    keyVariable (.ofString (front ++ source)) (t.moved rows front.utf8ByteSize) =
      keyVariable (.ofString source) t := by
  simp [keyVariable]

theorem bound_patternRole_moved (t : Tree) :
    bound (patternRole (.ofString (front ++ source))) (t.moved rows front.utf8ByteSize) =
      bound (patternRole (.ofString source)) t := by
  refine bound_moved (fun t => ?_) (fun t => ?_) t <;> simp only [patternRole, kind_moved]
  · split_ifs
    · simp
    · simp [names_entryRole, Function.comp_def, keyVariable_moved]
    all_goals simp
  · split_ifs
    · simp
    · simp [parts_entryRole, Option.toList_map]
    all_goals simp [List.map_filterMap]

theorem parameterName_moved (t : Tree) :
    parameterName (.ofString (front ++ source)) (t.moved rows front.utf8ByteSize) =
      parameterName (.ofString source) t := by
  simp only [parameterName, child?_moved]
  cases t.child? .name <;> simp

theorem bound_parameterRole_moved (t : Tree) :
    bound (parameterRole (.ofString (front ++ source))) (t.moved rows front.utf8ByteSize) =
      bound (parameterRole (.ofString source)) t := by
  refine bound_moved (fun t => ?_) (fun t => ?_) t <;> simp only [parameterRole, kind_moved]
  · split_ifs <;> simp [parameterName_moved]
  · split_ifs <;> simp

theorem captures_moved (t : Tree) :
    captures (.ofString (front ++ source)) (t.moved rows front.utf8ByteSize) =
      captures (.ofString source) t := by
  simp only [captures, child?_moved]
  cases t.child? .operator <;> cases t.child? .left <;> simp [List.any_map, Function.comp_def]

/-- A construct of the moved tree introduces the variables that it introduces where it was. -/
theorem introduced_moved (t : Tree) :
    introduced (.ofString (front ++ source)) (t.moved rows front.utf8ByteSize) =
      introduced (.ofString source) t := by
  simp only [introduced, kind_moved]
  cases Binder.ofKind? t.kind with
  | none => rfl
  | some b =>
    cases b with
    | assignment | loop =>
      simp [Binder.names, Option.toList_map, List.flatMap_map, bound_targetRole_moved]
    | parameters => simp [Binder.names, List.flatMap_map, bound_parameterRole_moved]
    | exceptionVariable => simp [Binder.names, List.flatMap_map, bound_targetRole_moved]
    | pattern => simp [Binder.names, Option.toList_map, List.flatMap_map, bound_patternRole_moved]
    | binary => exact captures_moved t

end RubyInlay.Source
