import GStore.Parser.RdfXml

/-! # Blank nodes in RDF/XML

Which blank nodes an RDF/XML document has: those of `rdf:nodeID`, and the anonymous ones. -/

namespace GStore.Parser.RdfXml

open Reason Turtle Xml

/-! ## What a document names -/

/-- An attribute that is found before anything stands in its way. -/
def found (ns : List (Text × Text)) (want : String) (attrs : List (Text × Text)) : Option Text :=
  (attrValue ns want attrs).toOption.join

def subjectIdentities (ns attrs : List (Text × Text)) : List (Option Text) :=
  if (found ns "about" attrs).isSome || (found ns "ID" attrs).isSome then []
  else [found ns "nodeID" attrs]

mutual

def nodeIdentities (parent : Ctx) : Child → List (Option Text)
  | .element _ attrs children =>
    subjectIdentities (parent.child attrs).ns attrs ++
      propertiesIdentities (parent.child attrs) children
  | .text _ => []

def propertyIdentities (parent : Ctx) : Child → List (Option Text)
  | .element _ attrs children =>
    let ctx := parent.child attrs
    let parseType := found ctx.ns "parseType" attrs
    if (found ctx.ns "resource" attrs).isSome then []
    else if (found ctx.ns "nodeID" attrs).isSome then [found ctx.ns "nodeID" attrs]
    else if parseType = some "Resource".toList then none :: propertiesIdentities ctx children
    else if parseType = some "Literal".toList then []
    else nodesIdentities ctx children
  | .text _ => []

def nodesIdentities (ctx : Ctx) : List Child → List (Option Text)
  | [] => []
  | child :: rest => nodeIdentities ctx child ++ nodesIdentities ctx rest

def propertiesIdentities (ctx : Ctx) : List Child → List (Option Text)
  | [] => []
  | child :: rest => propertyIdentities ctx child ++ propertiesIdentities ctx rest

end

/-- The blank nodes of a document, in the order of `run`. -/
def identities (root : Element) : List (Option Text) :=
  let ctx := Ctx.root.child root.attrs
  if (expandName ctx.ns root.name).toOption = some (rdfNs, "RDF".toList) then
    nodesIdentities ctx root.children
  else nodeIdentities ctx root.child

theorem nodesIdentities_eq (ctx : Ctx) (children : List Child) :
    nodesIdentities ctx children =
      (elements children).flatMap fun el => nodeIdentities ctx el.child := by
  induction children with
  | nil => rfl
  | cons child rest induction =>
    cases child with
    | text value => exact induction
    | element name attrs inner => exact congrArg (nodeIdentities ctx _ ++ ·) induction

theorem propertiesIdentities_eq (ctx : Ctx) (children : List Child) :
    propertiesIdentities ctx children =
      (elements children).flatMap fun el => propertyIdentities ctx el.child := by
  induction children with
  | nil => rfl
  | cons child rest induction =>
    cases child with
    | text value => exact induction
    | element name attrs inner => exact congrArg (propertyIdentities ctx _ ++ ·) induction

/-! ## Following -/

section Following

variable {rename : Text → Text} {all : List (Option Text)} {last : Nat} {labels other : Labels}

theorem found_eq {ns attrs : List (Text × Text)} {want : String} {value : Option Text}
    (isValue : attrValue ns want attrs = .ok value) : found ns want attrs = value := by
  rw [found, isValue]
  rfl

theorem subjectOf_follows (agree : Agree rename all last labels other) {attrs : List (Text × Text)}
    {ctx : Ctx} {s : Extractor} (foreseen : Foreseen all last (subjectIdentities ctx.ns attrs) s) :
    Follows Prod.snd (relabelRead rename) (subjectIdentities ctx.ns attrs) s
      (subjectOf labels attrs ctx s) (subjectOf other attrs ctx (s.relabel rename)) := by
  rw [subjectOf, subjectOf]
  refine .given fun about isAbout => ?_
  rw [subjectIdentities, found_eq isAbout] at foreseen ⊢
  cases about with
  | some about => exact .ok rfl rfl
  | none =>
    refine .given fun id isId => ?_
    rw [found_eq isId] at foreseen ⊢
    cases id with
    | some id => exact .ok rfl rfl
    | none =>
      refine .given fun label isLabel => ?_
      rw [found_eq isLabel] at foreseen ⊢
      cases label with
      | some label =>
        refine .ok rfl (congrArg (fun label => Except.ok (Term.blank label, s.relabel rename)) ?_)
        exact agree.named label (foreseen.names List.mem_cons_self)
      | none => exact .ok rfl (congrArg Except.ok (agree.freshBlank foreseen.mint))

theorem propertyAttr_follows (typed : Bool) (subject : Term) (ctx : Ctx) (s : Extractor)
    (attr : Text × Text) :
    Follows id (Extractor.relabel rename) [] s (propertyAttr typed subject ctx s attr)
      (propertyAttr typed (subject.relabel rename) ctx (s.relabel rename) attr) := by
  rw [propertyAttr, propertyAttr]
  refine .given fun name _ => ?_
  split_ifs
  · exact .ok rfl (congrArg Except.ok (s.relabel_push rename subject iriType (.iri _)).symm)
  · exact .ok rfl rfl
  · exact .ok rfl (congrArg Except.ok (s.relabel_push rename subject (.iri _) (.literal ..)).symm)

theorem propertyAttrs_follows (typed : Bool) (subject : Term) (ctx : Ctx) (s : Extractor)
    (attrs : List (Text × Text)) :
    Follows id (Extractor.relabel rename) [] s (attrs.foldlM (propertyAttr typed subject ctx) s)
      (attrs.foldlM (propertyAttr typed (subject.relabel rename) ctx) (s.relabel rename)) := by
  have none : attrs.flatMap (fun _ => ([] : List (Option Text))) = [] :=
    List.flatMap_eq_nil_iff.mpr fun _ _ => rfl
  have follows := @each_follows _ _ rename [] s.bnode s (fun _ => [])
    (propertyAttr typed subject ctx) (propertyAttr typed (subject.relabel rename) ctx) attrs
    (fun attr _ s _ => propertyAttr_follows typed subject ctx s attr)
    (by rw [none]; exact ⟨List.Subset.refl _, le_rfl⟩)
  rwa [none] at follows

theorem relabel_predicateOf (name : Text × Text) (li : Nat) :
    (predicateOf name li).1.relabel rename = (predicateOf name li).1 := by
  rw [predicateOf]
  split_ifs <;> rfl

/-- Up to a depth the walk mints for the anonymous nodes, names the others, and follows its
labels. -/
structure FollowsAt (rename : Text → Text) (all : List (Option Text)) (last : Nat)
    (labels other : Labels) (depth : Nat) : Prop where
  node : ∀ (el : Element) (parent : Ctx) (s : Extractor),
    Foreseen all last (nodeIdentities parent el.child) s →
    Follows Prod.snd (relabelRead rename) (nodeIdentities parent el.child) s
      (node labels depth el parent s) (node other depth el parent (s.relabel rename))
  property : ∀ (subject : Term) (pe : Element) (parent : Ctx) (li : Nat) (s : Extractor),
    Foreseen all last (propertyIdentities parent pe.child) s →
    Follows Prod.fst (Prod.map (Extractor.relabel rename) id) (propertyIdentities parent pe.child)
      s (property labels depth subject pe parent li s)
      (property other depth (subject.relabel rename) pe parent li (s.relabel rename))

variable {depth : Nat}

theorem properties_follows (follows : FollowsAt rename all last labels other depth)
    {ctx : Ctx} {children : List Child} (subject : Term) (start : Extractor × Nat)
    (foreseen : Foreseen all last (propertiesIdentities ctx children) start.1) :
    Follows Prod.fst (Prod.map (Extractor.relabel rename) id) (propertiesIdentities ctx children)
      start.1
      ((elements children).foldlM (fun (s, li) pe => property labels depth subject pe ctx li s)
        start)
      ((elements children).foldlM (fun (s, li) pe => property other depth (subject.relabel rename)
        pe ctx li s) (Prod.map (Extractor.relabel rename) id start)) := by
  rw [propertiesIdentities_eq] at foreseen ⊢
  exact foldlM_follows (fun pe _ s => follows.property subject pe ctx s.2 s.1) start foreseen

theorem nodes_follows (follows : FollowsAt rename all last labels other depth) {ctx : Ctx}
    {children : List Child} (subject predicate : Term)
    (same : predicate.relabel rename = predicate) {s : Extractor}
    (foreseen : Foreseen all last (nodesIdentities ctx children) s) :
    Follows id (Extractor.relabel rename) (nodesIdentities ctx children) s
      ((elements children).foldlM (fun s child => do
        let (object, s) ← node labels depth child ctx s
        return s.push subject predicate object) s)
      ((elements children).foldlM (fun s child => do
        let (object, s) ← node other depth child ctx s
        return s.push (subject.relabel rename) predicate object) (s.relabel rename)) := by
  rw [nodesIdentities_eq] at foreseen ⊢
  refine each_follows (fun el _ s foreseen => ?_) foreseen
  refine (follows.node el ctx s foreseen).closing fun (object, s) => .ok rfl ?_
  have pushed := s.relabel_push rename subject predicate object
  rw [same] at pushed
  exact congrArg Except.ok pushed.symm

section Steps

variable (agree : Agree rename all last labels other)
  (follows : FollowsAt rename all last labels other depth)

include agree follows

theorem node_follows (el : Element) (parent : Ctx) (s : Extractor)
    (foreseen : Foreseen all last (nodeIdentities parent el.child) s) :
    Follows Prod.snd (relabelRead rename) (nodeIdentities parent el.child) s
      (node labels (depth + 1) el parent s)
      (node other (depth + 1) el parent (s.relabel rename)) := by
  have whole : Foreseen all last (subjectIdentities (parent.child el.attrs).ns el.attrs ++
      propertiesIdentities (parent.child el.attrs) el.children) s := foreseen
  rw [node, node]
  refine .given fun name _ => ?_
  refine (subjectOf_follows agree whole.left).bind fun (subject, s) count => ?_
  have below := whole.right count
  have typed : (if name = (rdfNs, "Description".toList) then s.relabel rename
      else (s.relabel rename).push (subject.relabel rename) iriType (.iri (name.1 ++ name.2))) =
      (if name = (rdfNs, "Description".toList) then s
        else s.push subject iriType (.iri (name.1 ++ name.2))).relabel rename := by
    split_ifs
    · rfl
    · rw [Extractor.relabel_push]
      rfl
  have minted : (if name = (rdfNs, "Description".toList) then s
      else s.push subject iriType (.iri (name.1 ++ name.2))).bnode = s.bnode := by
    split_ifs <;> rfl
  dsimp only [relabelRead, Prod.map]
  rw [typed]
  refine Follows.silent ((propertyAttrs_follows true subject _ _ _).opening fun s count => ?_)
    minted
  refine Follows.closing (properties_follows follows subject (s, 1) ?_) fun _ => .ok rfl rfl
  exact below.later (count.trans minted)

theorem property_follows (subject : Term) (pe : Element) (parent : Ctx) (li : Nat) (s : Extractor)
    (foreseen : Foreseen all last (propertyIdentities parent pe.child) s) :
    Follows Prod.fst (Prod.map (Extractor.relabel rename) id) (propertyIdentities parent pe.child)
      s (property labels (depth + 1) subject pe parent li s)
      (property other (depth + 1) (subject.relabel rename) pe parent li (s.relabel rename)) := by
  have identities : propertyIdentities parent pe.child =
      let ctx := parent.child pe.attrs
      if (found ctx.ns "resource" pe.attrs).isSome then []
      else if (found ctx.ns "nodeID" pe.attrs).isSome then [found ctx.ns "nodeID" pe.attrs]
      else if found ctx.ns "parseType" pe.attrs = some "Resource".toList then
        none :: propertiesIdentities ctx pe.children
      else if found ctx.ns "parseType" pe.attrs = some "Literal".toList then []
      else nodesIdentities ctx pe.children := rfl
  rw [identities] at foreseen ⊢
  dsimp only at foreseen ⊢
  rw [property, property]
  refine .given fun name _ => ?_
  have push (s : Extractor) (subject object : Term) :
      (s.relabel rename).push (subject.relabel rename) (predicateOf name li).1
        (object.relabel rename) =
        (s.push subject (predicateOf name li).1 object).relabel rename := by
    rw [Extractor.relabel_push, relabel_predicateOf]
  dsimp only
  refine .given fun resource isResource => ?_
  rw [found_eq isResource] at foreseen ⊢
  cases resource with
  | some resource => exact .ok rfl (congrArg (fun s => Except.ok (s, _)) (push s subject (.iri _)))
  | none =>
    refine .given fun label isLabel => ?_
    rw [found_eq isLabel] at foreseen ⊢
    cases label with
    | some label =>
      have named := agree.named label (foreseen.names List.mem_cons_self)
      refine .ok rfl ?_
      dsimp only
      rw [named]
      exact congrArg (fun s => Except.ok (s, _)) (push s subject (.blank (labels.named label)))
    | none =>
      refine .given fun parseType isParseType => ?_
      rw [found_eq isParseType] at foreseen ⊢
      have missing : ¬ (none : Option Text).isSome = true := Bool.false_ne_true
      rw [if_neg missing, if_neg missing] at foreseen ⊢
      by_cases asResource : parseType = some "Resource".toList
      · rw [if_pos asResource] at foreseen
        rw [if_pos asResource, if_pos asResource, if_pos asResource,
          agree.freshBlank foreseen.mint]
        dsimp only [relabelRead, Prod.map]
        rw [push]
        refine Follows.minted ((propertyAttrs_follows false _ _ _ _).opening fun s count => ?_) rfl
        refine Follows.closing (properties_follows follows _ (s, 1) ?_) fun _ => .ok rfl rfl
        exact @Foreseen.right _ [none] _ _ _ _ foreseen count
      · rw [if_neg asResource] at foreseen
        rw [if_neg asResource, if_neg asResource, if_neg asResource]
        by_cases asLiteral : parseType = some "Literal".toList
        · rw [if_pos asLiteral, if_pos asLiteral, if_pos asLiteral]
          exact .ok rfl (congrArg (fun s => Except.ok (s, _)) (push s subject (.literal _ _ _)))
        · rw [if_neg asLiteral] at foreseen
          rw [if_neg asLiteral, if_neg asLiteral, if_neg asLiteral]
          by_cases nested : hasElementChildren pe.children = true
          · rw [if_pos nested, if_pos nested]
            exact (nodes_follows follows subject _ (relabel_predicateOf name li)
              foreseen).closing fun _ => .ok rfl rfl
          · have empty : elements pe.children = [] := by
              rw [hasElementChildren, Bool.not_eq_true', Bool.not_eq_false,
                List.isEmpty_iff] at nested
              exact nested
            rw [if_neg nested, if_neg nested, nodesIdentities_eq, empty]
            exact .given fun datatype _ => .ok rfl
              (congrArg (fun s => Except.ok (s, _)) (push s subject (.literal _ _ _)))

end Steps

theorem followsAt (agree : Agree rename all last labels other) (depth : Nat) :
    FollowsAt rename all last labels other depth := by
  induction depth with
  | zero => exact ⟨fun _ _ _ _ => .error, fun _ _ _ _ _ _ => .error⟩
  | succ depth follows => exact ⟨node_follows agree follows, property_follows agree follows⟩

theorem run_follows (agree : Agree rename all last labels other) (root : Element)
    (foreseen : Foreseen all last (identities root) .new) :
    Follows id (Extractor.relabel rename) (identities root) .new (run labels root)
      (run other root) := by
  rw [run, run]
  refine .given fun name isName => ?_
  have isRoot : identities root = if name = (rdfNs, "RDF".toList) then
      nodesIdentities (Ctx.root.child root.attrs) root.children
      else nodeIdentities (Ctx.root.child root.attrs) root.child := by
    rw [identities, isName]
    exact if_congr Option.some_inj rfl rfl
  rw [isRoot] at foreseen ⊢
  split_ifs at foreseen ⊢
  · rw [nodesIdentities_eq] at foreseen ⊢
    exact each_follows (fun el _ s foreseen =>
      ((followsAt agree root.height).node el _ s foreseen).snd) foreseen
  · exact ((followsAt agree (root.height + 1)).node root _ .new foreseen).snd

theorem run_explains {root : Element} {source : Extractor}
    (ran : run sourceLabels root = .ok source) :
    ∃ stated, run .apart root = .ok stated ∧ Explains "rx" (identities root) source stated :=
  @explains_of_follows _ _ _ (fun labels => run labels root) _
    (fun agree => run_follows agree root foreseen_new) ran

end Following

end GStore.Parser.RdfXml
