import GStore.Parser.JsonLd

/-! # Blank nodes in JSON-LD

Which blank nodes a JSON-LD document has: the values that expand to a `_:` label, and the anonymous
nodes and lists. -/

namespace GStore.Parser.JsonLd

open Reason Turtle

/-! ## What a document names -/

/-- The blank node that an expanded value names. -/
def namedBy (expanded : Text) : List (Option Text) :=
  if "_:".toList.isPrefixOf expanded then [some (expanded.drop 2)] else []

def subjectIdentities (ctx : Active) (pairs : List (Text × Json)) : List (Option Text) :=
  match getString pairs "@id" with
  | some id => namedBy (ctx.expandId id)
  | none => [none]

def typeIdentities (ctx : Active) : Json → List (Option Text)
  | .str text => namedBy (ctx.expandVocab text)
  | _ => []

def stringIdentities (ctx : Active) (definition : TermDef) (text : Text) : List (Option Text) :=
  match definition.type_ with
  | some type_ =>
    if type_ = "@id".toList then namedBy (ctx.expandId text)
    else if type_ = "@vocab".toList then namedBy (ctx.expandVocab text)
    else []
  | none => []

/-- A node of the chain for each item. -/
def listIdentities (item : Json → List (Option Text)) (items : List Json) : List (Option Text) :=
  items.flatMap fun json => none :: item json

def memberIdentities (ctx : Active) (ofGraph : Json → List (Option Text))
    (ofValues : Json → TermDef → List (Option Text)) (member : Text × Json) :
    List (Option Text) :=
  let (key, json) := member
  if isKeyword key then if key = "@graph".toList then ofGraph json else []
  else if isAbsoluteIri (ctx.expandVocab key) then
    ofValues json ((ctx.terms.lookup key).getD .empty)
  else []

mutual

def nodeIdentities : Nat → List (Text × Json) → Active → List (Option Text)
  | 0, _, _ => []
  | depth + 1, pairs, parent =>
    match activeContext depth parent pairs with
    | .error _ => []
    | .ok ctx =>
      subjectIdentities ctx pairs ++
        ((get pairs "@type").elim [] itemRefs).flatMap (typeIdentities ctx) ++
        pairs.flatMap (memberIdentities ctx (fun json => graphIdentities depth json ctx)
          fun json definition => valuesIdentities depth json ctx definition)

def graphIdentities : Nat → Json → Active → List (Option Text)
  | 0, _, _ => []
  | depth + 1, json, ctx =>
    (graphNodes json).flatMap fun pairs => nodeIdentities depth pairs ctx

def valuesIdentities : Nat → Json → Active → TermDef → List (Option Text)
  | 0, _, _, _ => []
  | depth + 1, json, ctx, definition =>
    if definition.container = some "@list".toList ∧ isList json = false then
      listIdentities (fun item => itemIdentities depth item ctx definition) (itemRefs json)
    else
      (valuesOf json).flatMap fun item => singleIdentities depth item ctx definition

def singleIdentities : Nat → Json → Active → TermDef → List (Option Text)
  | 0, _, _, _ => []
  | depth + 1, json, ctx, definition =>
    match json with
    | .obj pairs =>
      match valueObject pairs with
      | .value _ => []
      | .list list =>
        listIdentities (fun item => itemIdentities depth item ctx definition) (itemRefs list)
      | .node => nodeIdentities depth pairs ctx
    | .str text => stringIdentities ctx definition text
    | .arr items => valuesIdentities depth (.arr items) ctx definition
    | _ => []

def itemIdentities : Nat → Json → Active → TermDef → List (Option Text)
  | 0, _, _, _ => []
  | depth + 1, json, ctx, definition =>
    match json with
    | .obj pairs =>
      match valueObject pairs with
      | .value _ => []
      | .list list =>
        listIdentities (fun item => itemIdentities depth item ctx definition) (itemRefs list)
      | .node => nodeIdentities depth pairs ctx
    | .str text => stringIdentities ctx definition text
    | _ => []

end

/-- The blank nodes of a document, in the order of `process_top`. -/
def topIdentities : Nat → Json → List (Option Text)
  | 0, _ => []
  | depth + 1, json =>
    match json with
    | .arr items => items.flatMap (topIdentities depth)
    | .obj pairs =>
      match activeContext depth .empty pairs with
      | .error _ => []
      | .ok ctx => nodeIdentities depth pairs ctx
    | _ => []

/-! ## Following -/

section Following

variable {rename : Text → Text} {all : List (Option Text)} {last : Nat} {labels other : Labels}

theorem count_namedBy (text : Text) : (namedBy text).count none = 0 := by
  rw [namedBy]
  split_ifs <;> rfl

theorem count_typeIdentities (ctx : Active) (items : List Json) :
    (items.flatMap (typeIdentities ctx)).count none = 0 := by
  induction items with
  | nil => rfl
  | cons item rest induction =>
    rw [List.flatMap_cons, List.count_append, induction]
    cases item with
    | str text => exact count_namedBy _
    | _ => rfl

theorem count_stringIdentities (ctx : Active) (definition : TermDef) (text : Text) :
    (stringIdentities ctx definition text).count none = 0 := by
  rw [stringIdentities]
  cases definition.type_ with
  | none => rfl
  | some type_ =>
    dsimp only
    split_ifs
    · exact count_namedBy _
    · exact count_namedBy _
    · rfl

theorem typeTriples_bnode (ctx : Active) (subject : Term) (items : List Json) (s : Extractor) :
    (items.foldl (typeTriple labels ctx subject) s).bnode = s.bnode := by
  induction items generalizing s with
  | nil => rfl
  | cons item rest induction =>
    rw [List.foldl_cons, induction]
    cases item with
    | str text =>
      rw [typeTriple]
      split_ifs <;> rfl
    | _ => rfl

theorem literal_relabel {ctx : Active} {definition : TermDef} {pairs : List (Text × Json)}
    {json : Json} {literal : Term}
    (isLiteral : valueObjectToLiteral ctx definition pairs json = .ok literal) :
    literal.relabel rename = literal := by
  rw [valueObjectToLiteral] at isLiteral
  cases isValue : scalarText json with
  | none =>
    rw [isValue] at isLiteral
    cases isLiteral
  | some value =>
    rw [isValue] at isLiteral
    dsimp only at isLiteral
    split at isLiteral
    · cases isLiteral
      rfl
    · cases isLiteral
      rfl
    · split at isLiteral
      all_goals
        cases isLiteral
        rfl

section Terms

variable (agree : Agree rename all last labels other)

include agree

theorem toTerm_renamed {text : Text} (inside : namedBy text ⊆ all) :
    toTerm other text = (toTerm labels text).relabel rename := by
  rw [namedBy] at inside
  rw [toTerm, toTerm]
  split_ifs at inside ⊢
  · exact congrArg Term.blank (agree.named _ (inside List.mem_cons_self))
  · rfl

theorem stringToTerm_renamed {ctx : Active} {definition : TermDef} {text : Text}
    (inside : stringIdentities ctx definition text ⊆ all) :
    stringToTerm other ctx definition text =
      (stringToTerm labels ctx definition text).relabel rename := by
  rw [stringIdentities] at inside
  rw [stringToTerm, stringToTerm]
  cases kind : definition.type_ with
  | none => rfl
  | some type_ =>
    rw [kind] at inside
    dsimp only at inside ⊢
    split_ifs at inside ⊢
    · exact toTerm_renamed agree inside
    · exact toTerm_renamed agree inside
    · rfl

theorem typeTriples_renamed {ctx : Active} {subject : Term} {items : List Json} :
    ∀ {s : Extractor}, items.flatMap (typeIdentities ctx) ⊆ all →
      items.foldl (typeTriple other ctx (subject.relabel rename)) (s.relabel rename) =
        (items.foldl (typeTriple labels ctx subject) s).relabel rename := by
  induction items with
  | nil => exact fun _ => rfl
  | cons item rest induction =>
    intro s inside
    obtain ⟨front, back⟩ := List.append_subset.mp (List.flatMap_cons ▸ inside)
    rw [List.foldl_cons, List.foldl_cons, ← induction back]
    cases item with
    | str text =>
      rw [typeTriple, typeTriple, toTerm_renamed agree front]
      split_ifs
      · exact congrArg (rest.foldl (typeTriple other ctx (subject.relabel rename)))
          (s.relabel_push rename subject iriType (toTerm labels (ctx.expandVocab text))).symm
      · rfl
    | _ => rfl

theorem subjectOf_renamed {ctx : Active} {pairs : List (Text × Json)} {s : Extractor}
    (foreseen : Foreseen all last (subjectIdentities ctx pairs) s) :
    subjectOf other ctx pairs (s.relabel rename) =
        relabelRead rename (subjectOf labels ctx pairs s) ∧
      (subjectOf labels ctx pairs s).2.bnode = s.bnode + (subjectIdentities ctx pairs).count none := by
  rw [subjectIdentities] at foreseen ⊢
  rw [subjectOf, subjectOf]
  cases isId : getString pairs "@id" with
  | some id =>
    rw [isId] at foreseen
    refine ⟨congrArg (·, s.relabel rename) (toTerm_renamed agree foreseen.names), ?_⟩
    rw [count_namedBy]
    rfl
  | none =>
    rw [isId] at foreseen
    exact ⟨agree.freshBlank foreseen.mint, rfl⟩

end Terms

section Lists

variable {read readOther : Json → Extractor → Except Problem (Term × Extractor)}
  {item : Json → List (Option Text)}

theorem chain_follows (agree : Agree rename all last labels other) {first : Json} {rest : List Json}
    (step : ∀ json ∈ first :: rest, ∀ s, Foreseen all last (item json) s →
      Follows Prod.snd (relabelRead rename) (item json) s (read json s)
        (readOther json (s.relabel rename))) :
    ∀ {current : Term} {s : Extractor},
      Foreseen all last (item first ++ listIdentities item rest) s →
      Follows id (Extractor.relabel rename) (item first ++ listIdentities item rest) s
        (chain labels read (first :: rest) current s)
        (chain other readOther (first :: rest) (current.relabel rename) (s.relabel rename)) := by
  induction rest generalizing first with
  | nil =>
    intro current s foreseen
    rw [chain, chain]
    refine (step first List.mem_cons_self s foreseen.left).bind fun (object, s) _ => .ok rfl ?_
    rw [Extractor.relabel_push, Extractor.relabel_push]
    rfl
  | cons second rest induction =>
    intro current s foreseen
    change Follows _ _ _ _ (read first s >>= _) (readOther first (s.relabel rename) >>= _)
    refine (step first List.mem_cons_self s foreseen.left).bind fun (object, s) count => ?_
    have below : Foreseen all last (none :: (item second ++ listIdentities item rest)) s :=
      foreseen.right count
    have renamed := @Agree.freshBlank _ _ _ _ _ (s.push current iriFirst object) agree below.mint
    rw [Extractor.relabel_push] at renamed
    have onward := @induction second (fun json member => step json (List.mem_cons_of_mem _ member))
      ((s.push current iriFirst object).freshBlank labels).1
      (((s.push current iriFirst object).freshBlank labels).2.push current iriRest
        ((s.push current iriFirst object).freshBlank labels).1)
      (@Foreseen.right _ [none] _ _ _ _ below rfl)
    rw [Extractor.relabel_push] at onward
    change Follows _ _ (none :: _) s _ (chain other readOther (second :: rest)
      (((s.relabel rename).push (current.relabel rename) iriFirst
        (object.relabel rename)).freshBlank other).1
      ((((s.relabel rename).push (current.relabel rename) iriFirst
        (object.relabel rename)).freshBlank other).2.push (current.relabel rename) iriRest
        (((s.relabel rename).push (current.relabel rename) iriFirst
          (object.relabel rename)).freshBlank other).1))
    rw [show iriFirst = iriFirst.relabel rename from rfl, renamed]
    exact onward.minted rfl

theorem buildList_follows (agree : Agree rename all last labels other) {items : List Json}
    (step : ∀ json ∈ items, ∀ s, Foreseen all last (item json) s →
      Follows Prod.snd (relabelRead rename) (item json) s (read json s)
        (readOther json (s.relabel rename)))
    {s : Extractor} (foreseen : Foreseen all last (listIdentities item items) s) :
    Follows Prod.snd (relabelRead rename) (listIdentities item items) s
      (buildList labels read items s) (buildList other readOther items (s.relabel rename)) := by
  cases items with
  | nil => exact .ok rfl rfl
  | cons first rest =>
    have onward := @chain_follows _ _ _ _ _ _ _ _ agree first rest step (s.freshBlank labels).1
      (s.freshBlank labels).2 (@Foreseen.right _ [none] _ _ _ _ foreseen rfl)
    change Follows _ _ (none :: _) s
      (chain labels read (first :: rest) (s.freshBlank labels).1 (s.freshBlank labels).2 >>=
        fun after => .ok ((s.freshBlank labels).1, after))
      (chain other readOther (first :: rest) ((s.relabel rename).freshBlank other).1
          ((s.relabel rename).freshBlank other).2 >>=
        fun after => .ok (((s.relabel rename).freshBlank other).1, after))
    rw [agree.freshBlank foreseen.mint]
    refine @Follows.minted _ _ _ _ s (s.freshBlank labels).2 _ _ _ _ ?_ rfl
    exact onward.closing fun after => .ok rfl rfl

end Lists

/-- Up to a depth the walk mints for the anonymous nodes, names the others, and follows its
labels. -/
structure FollowsAt (rename : Text → Text) (all : List (Option Text)) (last : Nat)
    (labels other : Labels) (depth : Nat) : Prop where
  node : ∀ pairs parent s, Foreseen all last (nodeIdentities depth pairs parent) s →
    Follows Prod.snd (relabelRead rename) (nodeIdentities depth pairs parent) s
      (node labels depth pairs parent s) (node other depth pairs parent (s.relabel rename))
  graph : ∀ json ctx s, Foreseen all last (graphIdentities depth json ctx) s →
    Follows id (Extractor.relabel rename) (graphIdentities depth json ctx) s
      (graph labels depth json ctx s) (graph other depth json ctx (s.relabel rename))
  values : ∀ subject predicate json ctx definition s,
    Foreseen all last (valuesIdentities depth json ctx definition) s →
    Follows id (Extractor.relabel rename) (valuesIdentities depth json ctx definition) s
      (emitValues labels depth subject predicate json ctx definition s)
      (emitValues other depth (subject.relabel rename) (predicate.relabel rename) json ctx
        definition (s.relabel rename))
  single : ∀ subject predicate json ctx definition s,
    Foreseen all last (singleIdentities depth json ctx definition) s →
    Follows id (Extractor.relabel rename) (singleIdentities depth json ctx definition) s
      (emitSingle labels depth subject predicate json ctx definition s)
      (emitSingle other depth (subject.relabel rename) (predicate.relabel rename) json ctx
        definition (s.relabel rename))
  item : ∀ json ctx definition s, Foreseen all last (itemIdentities depth json ctx definition) s →
    Follows Prod.snd (relabelRead rename) (itemIdentities depth json ctx definition) s
      (listItemTerm labels depth json ctx definition s)
      (listItemTerm other depth json ctx definition (s.relabel rename))

variable {depth : Nat}

/-- The triple of a value that was read. -/
theorem pushed_follows {identities : List (Option Text)} {s : Extractor}
    {first second : Except Problem (Term × Extractor)} (subject predicate : Term)
    (follows : Follows Prod.snd (relabelRead rename) identities s first second) :
    Follows id (Extractor.relabel rename) identities s
      (do
        let (object, s) ← first
        return s.push subject predicate object)
      (do
        let (object, s) ← second
        return s.push (subject.relabel rename) (predicate.relabel rename) object) :=
  follows.closing fun (object, s) =>
    .ok rfl (congrArg Except.ok (s.relabel_push rename subject predicate object).symm)

theorem readMember_follows {ctx : Active} {member : Text × Json} {s : Extractor}
    {readGraph graphOther : Json → Extractor → Except Problem Extractor}
    {readValues valuesOther : Term → Json → TermDef → Extractor → Except Problem Extractor}
    {ofGraph : Json → List (Option Text)} {ofValues : Json → TermDef → List (Option Text)}
    (graph : Foreseen all last (ofGraph member.2) s → Follows id (Extractor.relabel rename)
      (ofGraph member.2) s (readGraph member.2 s) (graphOther member.2 (s.relabel rename)))
    (values : ∀ text definition, Foreseen all last (ofValues member.2 definition) s →
      Follows id (Extractor.relabel rename) (ofValues member.2 definition) s
        (readValues (.iri text) member.2 definition s)
        (valuesOther (.iri text) member.2 definition (s.relabel rename)))
    (foreseen : Foreseen all last (memberIdentities ctx ofGraph ofValues member) s) :
    Follows id (Extractor.relabel rename) (memberIdentities ctx ofGraph ofValues member) s
      (readMember ctx readGraph readValues s member)
      (readMember ctx graphOther valuesOther (s.relabel rename) member) := by
  rw [readMember, readMember]
  rw [memberIdentities] at foreseen ⊢
  dsimp only at foreseen ⊢
  split_ifs at foreseen ⊢
  · exact graph foreseen
  · exact .ok rfl rfl
  · exact values _ _ foreseen
  · exact .ok rfl rfl

section Steps

variable (agree : Agree rename all last labels other)
  (follows : FollowsAt rename all last labels other depth)

include agree follows

theorem list_follows {ctx : Active} {definition : TermDef} {items : List Json} {s : Extractor}
    (foreseen : Foreseen all last
      (listIdentities (fun item => itemIdentities depth item ctx definition) items) s) :
    Follows Prod.snd (relabelRead rename)
      (listIdentities (fun item => itemIdentities depth item ctx definition) items) s
      (buildList labels (fun item s => listItemTerm labels depth item ctx definition s) items s)
      (buildList other (fun item s => listItemTerm other depth item ctx definition s) items
        (s.relabel rename)) :=
  buildList_follows agree (fun json _ s => follows.item json ctx definition s) foreseen

theorem node_follows (pairs : List (Text × Json)) (parent : Active) (s : Extractor)
    (foreseen : Foreseen all last (nodeIdentities (depth + 1) pairs parent) s) :
    Follows Prod.snd (relabelRead rename) (nodeIdentities (depth + 1) pairs parent) s
      (node labels (depth + 1) pairs parent s)
      (node other (depth + 1) pairs parent (s.relabel rename)) := by
  rw [node, node]
  refine .given fun ctx isCtx => ?_
  rw [nodeIdentities, isCtx] at foreseen ⊢
  dsimp only at foreseen ⊢
  obtain ⟨subject, count⟩ := subjectOf_renamed agree foreseen.left.left
  have types := (List.append_subset.mp foreseen.left.names).2
  let after := ((get pairs "@type").elim [] itemRefs).foldl
    (typeTriple labels ctx (subjectOf labels ctx pairs s).1) (subjectOf labels ctx pairs s).2
  have later : after.bnode = s.bnode + (subjectIdentities ctx pairs ++
      ((get pairs "@type").elim [] itemRefs).flatMap (typeIdentities ctx)).count none := by
    rw [typeTriples_bnode, count, List.count_append, count_typeIdentities, Nat.add_zero]
  rw [subject, relabelRead]
  dsimp only [Prod.map]
  rw [typeTriples_renamed agree types]
  refine Follows.behind (Follows.closing (each_follows (fun member _ s foreseen => ?_)
    (foreseen.right later)) fun _ => .ok rfl rfl) later
  exact readMember_follows (follows.graph member.2 ctx s)
    (fun text definition => follows.values _ (.iri text) member.2 ctx definition s) foreseen

omit agree in
theorem graph_follows (json : Json) (ctx : Active) (s : Extractor)
    (foreseen : Foreseen all last (graphIdentities (depth + 1) json ctx) s) :
    Follows id (Extractor.relabel rename) (graphIdentities (depth + 1) json ctx) s
      (graph labels (depth + 1) json ctx s) (graph other (depth + 1) json ctx (s.relabel rename)) := by
  rw [graphIdentities] at foreseen ⊢
  rw [graph, graph]
  exact each_follows (fun pairs _ s foreseen => (follows.node pairs ctx s foreseen).snd) foreseen

theorem values_follows (subject predicate : Term) (json : Json) (ctx : Active)
    (definition : TermDef) (s : Extractor)
    (foreseen : Foreseen all last (valuesIdentities (depth + 1) json ctx definition) s) :
    Follows id (Extractor.relabel rename) (valuesIdentities (depth + 1) json ctx definition) s
      (emitValues labels (depth + 1) subject predicate json ctx definition s)
      (emitValues other (depth + 1) (subject.relabel rename) (predicate.relabel rename) json ctx
        definition (s.relabel rename)) := by
  rw [valuesIdentities] at foreseen ⊢
  rw [emitValues, emitValues]
  split_ifs at foreseen ⊢
  · exact pushed_follows subject predicate (list_follows agree follows foreseen)
  · exact each_follows (fun item _ s =>
      follows.single subject predicate item ctx definition s) foreseen

theorem single_follows (subject predicate : Term) (json : Json) (ctx : Active)
    (definition : TermDef) (s : Extractor)
    (foreseen : Foreseen all last (singleIdentities (depth + 1) json ctx definition) s) :
    Follows id (Extractor.relabel rename) (singleIdentities (depth + 1) json ctx definition) s
      (emitSingle labels (depth + 1) subject predicate json ctx definition s)
      (emitSingle other (depth + 1) (subject.relabel rename) (predicate.relabel rename) json ctx
        definition (s.relabel rename)) := by
  have pushed (object : Term) : Except.ok ((s.relabel rename).push (subject.relabel rename)
      (predicate.relabel rename) (object.relabel rename)) =
      Except.ok (ε := Problem) ((s.push subject predicate object).relabel rename) :=
    congrArg Except.ok (s.relabel_push rename subject predicate object).symm
  cases json with
  | obj pairs =>
    rw [singleIdentities] at foreseen ⊢
    rw [emitSingle, emitSingle]
    cases kind : valueObject pairs with
    | value value =>
      refine .given fun literal isLiteral => .ok rfl ?_
      rw [← pushed, literal_relabel isLiteral]
      rfl
    | list list =>
      rw [kind] at foreseen
      exact pushed_follows subject predicate (list_follows agree follows foreseen)
    | node =>
      rw [kind] at foreseen
      exact pushed_follows subject predicate (follows.node pairs ctx s foreseen)
  | str text =>
    have renamed := stringToTerm_renamed agree foreseen.names
    refine .ok (congrArg (s.bnode + ·) (count_stringIdentities ctx definition text)).symm ?_
    rw [← pushed, ← renamed]
    rfl
  | num text => exact .ok rfl (pushed (numberToLiteral text))
  | bool value => exact .ok rfl (pushed (boolToLiteral value))
  | null => exact .ok rfl rfl
  | arr items => exact follows.values subject predicate (.arr items) ctx definition s foreseen

theorem item_follows (json : Json) (ctx : Active) (definition : TermDef) (s : Extractor)
    (foreseen : Foreseen all last (itemIdentities (depth + 1) json ctx definition) s) :
    Follows Prod.snd (relabelRead rename) (itemIdentities (depth + 1) json ctx definition) s
      (listItemTerm labels (depth + 1) json ctx definition s)
      (listItemTerm other (depth + 1) json ctx definition (s.relabel rename)) := by
  cases json with
  | obj pairs =>
    rw [itemIdentities] at foreseen ⊢
    rw [listItemTerm, listItemTerm]
    cases kind : valueObject pairs with
    | value value =>
      refine .given fun literal isLiteral => .ok rfl ?_
      rw [relabelRead, Prod.map, literal_relabel isLiteral]
      rfl
    | list list =>
      rw [kind] at foreseen
      exact list_follows agree follows foreseen
    | node =>
      rw [kind] at foreseen
      exact follows.node pairs ctx s foreseen
  | str text =>
    have renamed := stringToTerm_renamed agree foreseen.names
    refine .ok (congrArg (s.bnode + ·) (count_stringIdentities ctx definition text)).symm ?_
    exact congrArg (fun term => Except.ok (term, s.relabel rename)) renamed
  | arr items => exact .error
  | _ => exact .ok rfl rfl

end Steps

theorem followsAt (agree : Agree rename all last labels other) (depth : Nat) :
    FollowsAt rename all last labels other depth := by
  induction depth with
  | zero =>
    exact ⟨fun _ _ _ _ => .error, fun _ _ _ _ => .error, fun _ _ _ _ _ _ _ => .error,
      fun _ _ _ _ _ _ _ => .error, fun _ _ _ _ _ => .error⟩
  | succ depth follows =>
    exact ⟨node_follows agree follows, graph_follows follows, values_follows agree follows,
      single_follows agree follows, item_follows agree follows⟩

theorem processTop_follows (agree : Agree rename all last labels other) (depth : Nat) :
    ∀ json s, Foreseen all last (topIdentities depth json) s →
      Follows id (Extractor.relabel rename) (topIdentities depth json) s
        (processTop labels depth json s) (processTop other depth json (s.relabel rename)) := by
  induction depth with
  | zero => exact fun _ _ _ => .error
  | succ depth induction =>
    intro json s foreseen
    cases json with
    | arr items => exact each_follows (fun item _ s => induction item s) foreseen
    | obj pairs =>
      rw [topIdentities] at foreseen ⊢
      rw [processTop, processTop]
      refine .given fun ctx isCtx => ?_
      rw [isCtx] at foreseen ⊢
      exact ((followsAt agree depth).node pairs ctx s foreseen).closing fun _ => .ok rfl rfl
    | _ => exact .error

theorem processTop_explains {depth : Nat} {json : Json} {source : Extractor}
    (ran : processTop sourceLabels depth json .new = .ok source) :
    ∃ stated, processTop .apart depth json .new = .ok stated ∧
      Explains "jld~" (topIdentities depth json) source stated :=
  @explains_of_follows _ _ _ (fun labels => processTop labels depth json .new) _
    (fun agree => processTop_follows agree depth json .new foreseen_new) ran

end Following

end GStore.Parser.JsonLd
