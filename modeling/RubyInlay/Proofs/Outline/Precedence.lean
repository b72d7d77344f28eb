import RubyInlay.Proofs.Outline.Resolution
import RubyInlay.Proofs.Source.Layout

/-! Variables and the text before a key. A construct introduces all its variables when it is
entered, so a key inside a construct can read a variable whose first mention comes behind the key.
Main statement: in a well placed tree this happens only inside such a construct. A key that reads a
variable has a mention of it in sight before itself, unless every construct in sight that introduces
the variable by then is around the entry or in it. -/

namespace RubyInlay

open Source Relation

variable {source : Bytes} {root t b l o u key : Tree} {d p : Place} {name : String}

/-! ### Mentions -/

theorem below_of_targetSteps (h : ReflTransGen TargetStep t u) : t.Below u :=
  ReflTransGen.mono (fun _ _ h => Tree.mem_of_mem_namedChildren h.2) _ _ h

theorem below_of_parameterSteps (h : ReflTransGen ParameterStep t u) : t.Below u :=
  ReflTransGen.mono (fun _ _ h => Tree.mem_of_mem_namedChildren h.2) _ _ h

theorem below_of_patternSteps (h : ReflTransGen PatternStep t u) : t.Below u := by
  refine ReflTransGen.mono (fun t c h => ?_) _ _ h
  rcases h with ⟨-, h⟩ | ⟨-, h | h⟩ | ⟨-, h⟩ | ⟨-, h⟩
  · exact Tree.mem_of_mem_namedChildren h
  all_goals exact Tree.mem_of_child? h

theorem below_of_assignsTo (h : AssignsTo t l) : t.Below l := by
  rcases h with ⟨-, h⟩ | ⟨-, h⟩ | ⟨-, h⟩
  · exact Tree.below_of_mem (Tree.mem_of_child? h)
  · exact Tree.below_of_mem (Tree.mem_of_mem_namedChildren h)
  · exact Tree.below_of_mem (Tree.mem_of_child? h)

theorem below_of_parameterName (h : ParameterName t o) : t.Below o := by
  rcases h with ⟨-, rfl⟩ | ⟨-, -, h, -⟩
  · exact .refl
  · exact Tree.below_of_mem (Tree.mem_of_child? h)

theorem below_of_patternName (h : PatternName source t o name) : t.Below o := by
  rcases h with ⟨-, rfl, -⟩ | ⟨-, -, h, -⟩
  · exact .refl
  · exact Tree.below_of_mem (Tree.mem_of_child? h)

/-- The part by which a construct introduces a variable lies in the construct. -/
theorem below_of_introduces (h : Introduces source t o name) : t.Below o := by
  cases h with
  | target hl h _ => exact (below_of_assignsTo hl).trans (below_of_targetSteps h)
  | parameter _ hl h ho =>
    exact (Tree.below_of_mem (Tree.mem_of_mem_namedChildren hl)).trans
      ((below_of_parameterSteps h).trans (below_of_parameterName ho))
  | pattern _ hl h ho =>
    exact (Tree.below_of_mem (Tree.mem_of_child? hl)).trans
      ((below_of_patternSteps h).trans (below_of_patternName ho))
  | group ho _ => exact Tree.below_of_mem (Tree.mem_of_child? ho.2.2.1)

/-- The part of the text that introduces a variable has its name, unless it is a regular
expression. -/
theorem name_of_introduces (h : Introduces source t o name) :
    name = o.text source ∨ name = keyVariable source o ∨ o.kind = "regex" := by
  cases h with
  | target _ _ _ => exact .inl rfl
  | parameter _ _ _ _ => exact .inl rfl
  | pattern _ _ _ ho =>
    rcases ho with ⟨-, -, hn⟩ | ⟨-, -, -, hn⟩
    · exact .inl hn
    · exact .inr (.inl hn)
  | group ho _ => exact .inr (.inr ho.2.2.2.1)

/-- `name` is introduced in a scope in sight of `p` by a part of the text that ends at `byte` or
before. -/
def IntroducedBefore (source : Bytes) (root : Tree) (p : Place) (name : String) (byte : Nat) :
    Prop :=
  ∃ d b o, root.nodeAt? d = some b ∧ root.scopeOf d ∈ root.scopeChain p ∧
    Introduces source b o name ∧ o.info.stopByte ≤ byte

/-- `name` is introduced in a scope in sight of `p` by a construct around `p` or below it. -/
def IntroducedAround (source : Bytes) (root : Tree) (p : Place) (name : String) : Prop :=
  ∃ d b o, root.nodeAt? d = some b ∧ root.scopeOf d ∈ root.scopeChain p ∧
    Introduces source b o name ∧ (d <+: p ∨ p <+: d)

/-! ### Keys -/

/-- What the entry at the end of a node refers to. -/
def Node.entryReferent? (n : Node) : Option Referent :=
  match n.children.getLast? with
  | some (.omittedValue _ value) => some value.referent
  | _ => none

theorem entryReferent?_ofTree (ht : root.nodeAt? p = some t) (hk : shorthandKey? t = some key) :
    ((Node.ofTree source root).nodeAt? p).bind Node.entryReferent? =
      some (.ofName (scopeLeft source (scopeBefore source .empty root p) t)
        (keyName source key)) := by
  rw [Node.ofTree_eq_outline, nodeAt?_outline ht, outline, assemble_of_shorthand hk]
  simp [Node.entryReferent?, Node.children, entryValue]

theorem ofName_eq_localVariable {scope : Scope} {w : List Char} :
    Referent.ofName scope w = .localVariable name ↔
      name = String.ofList w ∧ ¬ ConstantForm w ∧ String.ofList w ∈ scope := by
  unfold Referent.ofName
  rw [← isConstantName_iff]
  split_ifs with hc hs
  · simp [hc]
  · simp [hc, hs, eq_comm]
  · simp [hs]

/-- A key reads a variable if it is declared for its entry. -/
theorem entryReferent?_eq_localVariable (ht : root.nodeAt? p = some t)
    (hk : shorthandKey? t = some key) :
    ((Node.ofTree source root).nodeAt? p).bind Node.entryReferent? = some (.localVariable name) ↔
      name = String.ofList (keyName source key) ∧ ¬ ConstantForm (keyName source key) ∧
        Declared source root p (String.ofList (keyName source key)) := by
  rw [entryReferent?_ofTree ht hk, Option.some.injEq, ofName_eq_localVariable, declared_iff ht]

/-- A variable that is declared for an entry is mentioned before its key, or a construct around the
entry or in it introduces the variable. -/
theorem introducedBefore_or_around (hw : root.WellPlaced) (ht : root.nodeAt? p = some t)
    (hk : shorthandKey? t = some key) (hd : Declared source root p name) :
    IntroducedBefore source root p name key.info.startByte ∨
      IntroducedAround source root p name := by
  obtain ⟨d, b, ⟨hb, he, hs⟩, o, ho⟩ := hd
  by_cases hdp : d <+: p ∨ p <+: d
  · exact .inr ⟨d, b, o, hb, hs, ho, hdp⟩
  · obtain ⟨hdp, hpd⟩ := not_or.1 hdp
    have hlt : d < p := he.resolve_right hpd
    have hbt := hw.stop_le_start_of_lt hb ht hlt hdp
    have hob := ((hw.of_below (Tree.below_of_nodeAt? hb)).inside (below_of_introduces ho)).2
    have hmem := Tree.mem_of_child? (shorthandKey?_eq_some.1 hk).2.2
    have hkt := ((hw t (Tree.below_of_nodeAt? ht)).inside key hmem).1
    exact .inl ⟨d, b, o, hb, hs, ho, by omega⟩

theorem enteredBy_of_around (h : d <+: p ∨ p <+: d) : d.EnteredBy p := by
  induction p generalizing d with
  | nil => simp
  | cons i p ih =>
    cases d with
    | nil => simp
    | cons j d =>
      rcases h with h | h
      · obtain ⟨rfl, hd⟩ := List.cons_prefix_cons.1 h
        exact Place.cons_enteredBy_cons.2 (.inr ⟨rfl, ih (.inl hd)⟩)
      · obtain ⟨rfl, hp⟩ := List.cons_prefix_cons.1 h
        exact Place.cons_enteredBy_cons.2 (.inr ⟨rfl, ih (.inr hp)⟩)

theorem declared_of_around (h : IntroducedAround source root p name) :
    Declared source root p name := by
  obtain ⟨d, b, o, hb, hs, ho, hdp⟩ := h
  exact ⟨d, b, ⟨hb, enteredBy_of_around hdp, hs⟩, o, ho⟩

/-- A key reads a variable only if the variable has been mentioned before: this holds of an entry
exactly if it holds of the variables that the constructs around the entry or in it introduce. -/
theorem localVariable_mentioned_iff (hw : root.WellPlaced) (ht : root.nodeAt? p = some t)
    (hk : t.kind = "pair") (hv : t.child? .value = none) (hkey : t.child? .key = some key) :
    (∀ name, ((Node.ofTree source root).nodeAt? p).bind Node.entryReferent? =
        some (.localVariable name) → IntroducedBefore source root p name key.info.startByte) ↔
      (¬ ConstantForm (keyName source key) →
        IntroducedAround source root p (String.ofList (keyName source key)) →
        IntroducedBefore source root p (String.ofList (keyName source key))
          key.info.startByte) := by
  have hs := shorthandKey?_eq_some.2 ⟨hk, hv, hkey⟩
  constructor
  · intro h hc ha
    exact h _ ((entryReferent?_eq_localVariable ht hs).2 ⟨rfl, hc, declared_of_around ha⟩)
  · intro h name hn
    obtain ⟨rfl, hc, hd⟩ := (entryReferent?_eq_localVariable ht hs).1 hn
    rcases introducedBefore_or_around hw ht hs hd with hb | ha
    · exact hb
    · exact h hc ha

/-! In `f { |a = {b:}, b| {a:, b:} }` the first key `b` stands before the parameter `b` and reads
it, since the parameter list introduces both variables when it is entered. The keys of the body
come behind all parameters. -/

def defaultsSource : Bytes := .ofString "f { |a = {b:}, b| {a:, b:} }\n"

def defaultKey : Tree := .onFirstLine "hash_key_symbol" (some .key) 10 11 []

def bodyKey : Tree := .onFirstLine "hash_key_symbol" (some .key) 23 24 []

def bodyEntry : Tree := .onFirstLine "pair" none 23 25 [bodyKey]

def laterParameter : Tree := .onFirstLine "identifier" none 15 16 []

def parameterDefaults : Tree :=
  .onFirstLine "block_parameters" none 4 17
    [.onFirstLine "optional_parameter" none 5 13
      [.onFirstLine "identifier" (some .name) 5 6 [],
       .onFirstLine "hash" (some .value) 9 13 [.onFirstLine "pair" none 10 12 [defaultKey]]],
     laterParameter]

def blockWithDefaults : Tree :=
  .node ⟨"program", true, none, 0, 29, ⟨0, 0⟩, ⟨1, 0⟩⟩
    [.onFirstLine "call" none 0 28
      [.onFirstLine "identifier" none 0 1 [],
       .onFirstLine "block" none 2 28
        [parameterDefaults,
         .onFirstLine "block_body" none 18 26
          [.onFirstLine "hash" none 18 26
            [.onFirstLine "pair" none 19 21 [.onFirstLine "hash_key_symbol" (some .key) 19 20 []],
             bodyEntry]]]]]

theorem wellPlaced_blockWithDefaults : blockWithDefaults.WellPlaced := by
  simp [blockWithDefaults, parameterDefaults, laterParameter, defaultKey, bodyKey,
    bodyEntry, Tree.onFirstLine, Tree.wellPlaced_node, Tree.inOrder_iff]

theorem introduces_laterParameter :
    Introduces defaultsSource parameterDefaults laterParameter "b" := by
  have htext : laterParameter.text defaultsSource = "b" := by decide +kernel
  rw [← htext]
  exact .parameter (l := laterParameter) (by decide)
    (List.mem_of_getElem? (i := 1) rfl) .refl (.inl ⟨rfl, rfl⟩)

/-- The key of the body reads no parameter that has not been mentioned. -/
theorem body_reads_mentioned_parameter :
    blockWithDefaults.WellPlaced ∧
      ∀ name, ((Node.ofTree defaultsSource blockWithDefaults).nodeAt? [0, 1, 1, 0, 1]).bind
        Node.entryReferent? = some (.localVariable name) →
          IntroducedBefore defaultsSource blockWithDefaults [0, 1, 1, 0, 1] name
            bodyKey.info.startByte := by
  refine ⟨wellPlaced_blockWithDefaults, (localVariable_mentioned_iff wellPlaced_blockWithDefaults
    (show blockWithDefaults.nodeAt? [0, 1, 1, 0, 1] = some bodyEntry from rfl) rfl rfl
    (show bodyEntry.child? .key = some bodyKey from rfl)).2 fun _ _ => ?_⟩
  have hname : keyName defaultsSource bodyKey = ['b'] := by decide +kernel
  rw [hname]
  exact ⟨[0, 1, 0], parameterDefaults, laterParameter, rfl, by decide +kernel,
    introduces_laterParameter, by decide⟩

/-- The key of the default reads the parameter behind it. -/
theorem default_reads_later_parameter :
    blockWithDefaults.WellPlaced ∧
      ((Node.ofTree defaultsSource blockWithDefaults).nodeAt? [0, 1, 0, 0, 1, 0]).bind
        Node.entryReferent? = some (.localVariable "b") ∧
      ¬ IntroducedBefore defaultsSource blockWithDefaults [0, 1, 0, 0, 1, 0] "b"
        defaultKey.info.startByte := by
  have hname : keyName defaultsSource defaultKey = ['b'] := by decide +kernel
  have hc : ¬ ConstantForm ['b'] := by rw [← isConstantName_iff]; decide +kernel
  refine ⟨wellPlaced_blockWithDefaults, ?_, ?_⟩
  · have ht : blockWithDefaults.nodeAt? [0, 1, 0, 0, 1, 0] =
        some (.onFirstLine "pair" none 10 12 [defaultKey]) := rfl
    have hk : shorthandKey? (.onFirstLine "pair" none 10 12 [defaultKey]) = some defaultKey := rfl
    rw [entryReferent?_eq_localVariable ht hk, hname]
    exact ⟨rfl, hc, [0, 1, 0], parameterDefaults, ⟨rfl, by decide, by decide +kernel⟩,
      laterParameter, introduces_laterParameter⟩
  · rintro ⟨d, b, o, hb, -, ho, hs⟩
    have hbelow := (Tree.below_of_nodeAt? hb).trans (below_of_introduces ho)
    have early : ∀ o, blockWithDefaults.Below o → o.info.stopByte ≤ 10 →
        o = .onFirstLine "identifier" none 0 1 [] ∨
          o = .onFirstLine "identifier" (some .name) 5 6 [] := by
      simp [blockWithDefaults, parameterDefaults, laterParameter, defaultKey, bodyKey,
        bodyEntry, Tree.onFirstLine, Tree.forall_below_node]
    rcases early o hbelow hs with rfl | rfl
    · rcases name_of_introduces ho with h | h | h <;> revert h <;> decide +kernel
    · rcases name_of_introduces ho with h | h | h <;> revert h <;> decide +kernel

end RubyInlay
