import GStore.Parser.Rdfa

/-! # Blank nodes in RDFa

Which blank nodes an RDFa document has: those of its `_:` CURIEs, and the ones minted for elements
without a resource. -/

namespace GStore.Parser.Rdfa

open Reason Turtle Xml

/-! ## What a document names -/

/-- Names are what they are. -/
def verbatim : Labels := .marked ""

def termNames : Term → List (Option Text)
  | .blank label => [some label]
  | .iri _ => []
  | .literal _ _ _ => []

def namesIn (term : Option Term) : List (Option Text) := term.toList.flatMap termNames

/-- The `_:` CURIEs of an element. -/
def curies (scope : Local) (attrs : List (Text × Text)) : List (Option Text) :=
  namesIn (aboutOf verbatim scope attrs).join ++
    (namesIn ((attr attrs "resource").bind (resolveResource verbatim scope)) ++
      ["typeof", "rel", "rev", "property"].flatMap fun name =>
        (termsOf verbatim scope (attr attrs name)).flatMap termNames)

/-- Whether a blank node is minted for an element. -/
def mints (scope : Local) (attrs : List (Text × Text)) (isRoot : Bool) : Bool :=
  if hasLink attrs then
    (((attr attrs "resource").bind (resolveResource verbatim scope)) <|>
      (linked scope attrs)).isNone
  else
    has attrs "typeof" && !has attrs "about" && (pointed verbatim scope attrs).isNone &&
      (!isRoot || has attrs "property" && !has attrs "content" && !has attrs "datatype")

def elementIdentities (scope : Local) (attrs : List (Text × Text)) (isRoot : Bool) :
    List (Option Text) :=
  curies scope attrs ++ if mints scope attrs isRoot then [none] else []

mutual

def identitiesOf (scope : Local) (isRoot : Bool) : Child → List (Option Text)
  | .element _ attrs children =>
    elementIdentities (scope.child attrs) attrs isRoot ++
      identitiesOfAll (scope.child attrs) false children
  | .text _ => []

def identitiesOfAll (scope : Local) (isRoot : Bool) : List Child → List (Option Text)
  | [] => []
  | child :: rest => identitiesOf scope isRoot child ++ identitiesOfAll scope isRoot rest

end

theorem identitiesOfAll_eq (scope : Local) (isRoot : Bool) (children : List Child) :
    identitiesOfAll scope isRoot children =
      (elements children).flatMap fun el => identitiesOf scope isRoot el.child := by
  induction children with
  | nil => rfl
  | cons child rest induction =>
    cases child with
    | text value => exact induction
    | element name attrs inner => exact congrArg (identitiesOf scope isRoot _ ++ ·) induction

/-! ## Renaming -/

def Subjects.relabel (rename : Text → Text) (subjects : Subjects) : Subjects where
  newSubject := subjects.newSubject.map (Term.relabel rename)
  currentObject := subjects.currentObject.map (Term.relabel rename)
  typedResource := subjects.typedResource.map (Term.relabel rename)
  skip := subjects.skip

def relabelIncomplete (rename : Text → Text) (incomplete : List (Term × Bool)) :
    List (Term × Bool) :=
  incomplete.map fun (predicate, reverse) => (predicate.relabel rename, reverse)

def EvalContext.relabel (rename : Text → Text) (ctx : EvalContext) : EvalContext where
  scope := ctx.scope
  parentSubject := ctx.parentSubject.relabel rename
  parentObject := ctx.parentObject.map (Term.relabel rename)
  lang := ctx.lang
  incomplete := relabelIncomplete rename ctx.incomplete

section Names

variable {labels other : Labels} {rename : Text → Text}
  (named : ∀ name, other.named name = rename (labels.named name))

include named

theorem resolveCurie_renamed (scope : Local) (inner : Text) :
    resolveCurie other scope inner =
      (resolveCurie labels scope inner).map (Term.relabel rename) := by
  rw [resolveCurie, resolveCurie]
  by_cases empty : trim inner = []
  · rw [if_pos empty, if_pos empty]
    rfl
  · rw [if_neg empty, if_neg empty]
    cases splitFirst ':' (trim inner) with
    | none => cases scope.vocab <;> rfl
    | some parts =>
      obtain ⟨head, tail⟩ := parts
      dsimp only
      by_cases blank : head = ['_']
      · rw [if_pos blank, if_pos blank, named]
        rfl
      · rw [if_neg blank, if_neg blank]
        cases scope.prefixes.lookup head with
        | some ns => rfl
        | none => cases RdfXml.isAbsolute (trim inner) <;> rfl

theorem resolveResource_renamed (scope : Local) (value : Text) :
    resolveResource other scope value =
      (resolveResource labels scope value).map (Term.relabel rename) := by
  rw [resolveResource, resolveResource]
  by_cases empty : trim value = []
  · rw [if_pos empty, if_pos empty]
    rfl
  · rw [if_neg empty, if_neg empty]
    cases bracketed (trim value) with
    | some inner => exact resolveCurie_renamed named scope inner
    | none =>
      cases splitFirst ':' (trim value) with
      | none => rfl
      | some parts =>
        obtain ⟨head, tail⟩ := parts
        dsimp only
        by_cases blank : head = ['_']
        · rw [if_pos blank, if_pos blank, named]
          rfl
        · rw [if_neg blank, if_neg blank]
          cases "//".toList.isPrefixOf tail with
          | true => rfl
          | false =>
            cases scope.prefixes.lookup head with
            | some ns => rfl
            | none => cases RdfXml.isAbsolute (trim value) <;> rfl

theorem resolveTermOrCurie_renamed (scope : Local) (value : Text) :
    resolveTermOrCurie other scope value =
      (resolveTermOrCurie labels scope value).map (Term.relabel rename) := by
  rw [resolveTermOrCurie, resolveTermOrCurie]
  by_cases empty : trim value = []
  · rw [if_pos empty, if_pos empty]
    rfl
  · rw [if_neg empty, if_neg empty]
    cases bracketed (trim value) with
    | some inner => exact resolveCurie_renamed named scope inner
    | none =>
      cases splitFirst ':' (trim value) with
      | none =>
        cases scope.vocab with
        | some vocab => rfl
        | none => cases defaultTerm (trim value) <;> rfl
      | some parts =>
        obtain ⟨head, tail⟩ := parts
        dsimp only
        cases "//".toList.isPrefixOf tail with
        | true => rfl
        | false =>
          cases scope.prefixes.lookup head with
          | some ns => rfl
          | none => cases RdfXml.isAbsolute (trim value) <;> rfl

theorem termsOf_renamed (scope : Local) (value : Option Text) :
    termsOf other scope value = (termsOf labels scope value).map (Term.relabel rename) := by
  rw [termsOf, termsOf, List.map_filterMap]
  exact congrArg (List.filterMap · _) (funext (resolveTermOrCurie_renamed named scope))

theorem aboutOf_renamed (scope : Local) (attrs : List (Text × Text)) :
    aboutOf other scope attrs =
      (aboutOf labels scope attrs).map (Option.map (Term.relabel rename)) := by
  rw [aboutOf, aboutOf, Option.map_map]
  exact congrArg (Option.map · _) (funext (resolveResource_renamed named scope))

theorem datatypeIri_renamed (scope : Local) (value : Text) :
    datatypeIri other scope value = datatypeIri labels scope value := by
  rw [datatypeIri, datatypeIri, resolveTermOrCurie_renamed named]
  split_ifs
  · rfl
  · rcases resolveTermOrCurie labels scope (trim value) with _ | term
    · rfl
    · cases term <;> rfl

theorem pointed_renamed (scope : Local) (attrs : List (Text × Text)) :
    pointed other scope attrs =
      (pointed labels scope attrs).map (Option.map (Term.relabel rename)) := by
  rw [pointed, pointed]
  cases attr attrs "resource" with
  | some resource => exact congrArg some (resolveResource_renamed named scope resource)
  | none =>
    rw [linked]
    cases (attr attrs "href") <|> (attr attrs "src") <;> rfl

theorem resourceOf_renamed (scope : Local) (attrs : List (Text × Text)) :
    (attr attrs "resource").bind (resolveResource other scope) =
      ((attr attrs "resource").bind (resolveResource labels scope)).map (Term.relabel rename) := by
  cases attr attrs "resource" with
  | some resource => exact resolveResource_renamed named scope resource
  | none => rfl

end Names

section Unnamed

variable {labels : Labels} {rename : Text → Text}

theorem verbatim_named (name : Text) : labels.named name = labels.named (verbatim.named name) := rfl

theorem linked_relabel (scope : Local) (attrs : List (Text × Text)) :
    (linked scope attrs).map (Term.relabel rename) = linked scope attrs := by
  rw [linked]
  cases (attr attrs "href") <|> (attr attrs "src") <;> rfl

theorem map_orElse {α β : Type} (change : α → β) (first second : Option α) :
    ((first <|> second).map change) = (first.map change <|> second.map change) := by
  cases first <;> rfl

theorem datatypeIri_verbatim (scope : Local) :
    datatypeIri labels scope = datatypeIri verbatim scope :=
  funext (datatypeIri_renamed verbatim_named scope)

end Unnamed

/-! ## Counting -/

section Counting

variable {labels : Labels} {scope : Local} {attrs : List (Text × Text)} {isRoot : Bool}

theorem pushAll_bnode (subject object : Term) (predicates : List Term) (s : Extractor) :
    (pushAll subject object predicates s).bnode = s.bnode := by
  induction predicates generalizing s with
  | nil => rfl
  | cons predicate rest induction => exact induction (s.push subject predicate object)

theorem emitTypes_bnode (typedResource : Option Term) (s : Extractor) :
    (emitTypes labels scope attrs typedResource s).bnode = s.bnode := by
  cases typedResource with
  | none => rfl
  | some subject =>
    rw [emitTypes]
    induction termsOf labels scope (attr attrs "typeof") generalizing s with
    | nil => rfl
    | cons object rest induction => exact induction (s.push subject iriType object)

theorem completeTriples_bnode (ctx : EvalContext) (subject : Term) (s : Extractor) :
    (completeTriples ctx subject s).bnode = s.bnode := by
  rw [completeTriples]
  induction ctx.incomplete generalizing s with
  | nil => rfl
  | cons waiting rest induction =>
    obtain ⟨predicate, reverse⟩ := waiting
    cases reverse
    · exact induction (s.push ctx.parentSubject predicate subject)
    · exact induction (s.push subject predicate ctx.parentSubject)

theorem emitProperty_bnode (lang : Option Text) (subjects : Subjects) (text : Text)
    (s : Extractor) : (emitProperty labels scope attrs lang subjects text s).bnode = s.bnode := by
  rw [emitProperty]
  cases subjects.newSubject with
  | none => rfl
  | some subject =>
    cases propertyObject labels scope attrs lang subjects.typedResource text with
    | none => rfl
    | some object => exact pushAll_bnode ..

/-- How many blank nodes there are, one more if it was minted. -/
def withMint (minted : Bool) (bnode : Nat) : Nat := if minted then bnode + 1 else bnode

theorem isNone_pointed : (pointed labels scope attrs).isNone = (pointed verbatim scope attrs).isNone := by
  rw [pointed_renamed verbatim_named, Option.isNone_map]

/-- The object of a link, as far as its element says. -/
def objectOf (labels : Labels) (scope : Local) (attrs : List (Text × Text)) : Option Term :=
  ((attr attrs "resource").bind (resolveResource labels scope)) <|> (linked scope attrs)

theorem objectOf_eq :
    objectOf labels scope attrs = (objectOf verbatim scope attrs).map (Term.relabel labels.named) := by
  rw [objectOf, objectOf, map_orElse, linked_relabel, resourceOf_renamed verbatim_named]

theorem about_isSome : (aboutOf labels scope attrs).isSome = has attrs "about" := Option.isSome_map ..

theorem establishProperty_bnode (ctx : EvalContext) (s : Extractor) :
    (establishProperty labels scope ctx attrs isRoot s).2.bnode =
      withMint (has attrs "typeof" && !has attrs "about" && (pointed verbatim scope attrs).isNone)
        s.bnode := by
  rw [establishProperty, ← @isNone_pointed labels, ← @about_isSome labels scope]
  cases has attrs "typeof" with
  | false => rfl
  | true =>
    cases aboutOf labels scope attrs with
    | some about => rfl
    | none => cases pointed labels scope attrs <;> rfl

theorem establishResource_bnode (ctx : EvalContext) (s : Extractor) :
    (establishResource labels scope ctx attrs isRoot s).2.bnode =
      withMint (has attrs "typeof" && !has attrs "about" && (pointed verbatim scope attrs).isNone &&
        !isRoot) s.bnode := by
  rw [establishResource, ← @isNone_pointed labels, ← @about_isSome labels scope]
  cases aboutOf labels scope attrs with
  | some about => cases has attrs "typeof" <;> rfl
  | none =>
    cases pointed labels scope attrs with
    | some object => cases has attrs "typeof" <;> rfl
    | none => cases isRoot <;> cases has attrs "typeof" <;> rfl

/-- A link mints at most once, for its type or for its object. -/
theorem links_bnode (ctx : EvalContext) (s after : Extractor)
    (same : after.bnode = (establishLink labels scope ctx attrs isRoot s).2.bnode)
    (link : hasLink attrs = true) :
    (emitLinks labels scope attrs (establishLink labels scope ctx attrs isRoot s).1.newSubject
      (establishLink labels scope ctx attrs isRoot s).1.currentObject after).2.bnode =
      withMint (objectOf verbatim scope attrs).isNone s.bnode := by
  have object : (objectOf verbatim scope attrs).isNone = (objectOf labels scope attrs).isNone := by
    rw [@objectOf_eq labels, Option.isNone_map]
  have emitted (newSubject currentObject : Option Term) :
      (emitLinks labels scope attrs newSubject currentObject after).2.bnode =
        withMint currentObject.isNone after.bnode := by
    unfold emitLinks
    rw [if_pos link]
    cases currentObject with
    | none => rfl
    | some object =>
      cases newSubject with
      | none => rfl
      | some subject => exact (pushAll_bnode ..).trans (pushAll_bnode ..)
  rw [emitted, same, object, establishLink]
  change withMint _ _ = withMint (((attr attrs "resource").bind (resolveResource labels scope)) <|>
    (linked scope attrs)).isNone _
  cases has attrs "typeof" with
  | false => rfl
  | true =>
    cases has attrs "about" with
    | true => rfl
    | false =>
      cases ((attr attrs "resource").bind (resolveResource labels scope)) <|>
        (linked scope attrs) <;> rfl

theorem completed_bnode (ctx : EvalContext) (skip : Bool) (newSubject : Option Term)
    (s : Extractor) :
    (if skip then s else newSubject.elim s fun subject => completeTriples ctx subject s).bnode =
      s.bnode := by
  cases skip with
  | true => rfl
  | false =>
    cases newSubject with
    | none => rfl
    | some subject => exact completeTriples_bnode ctx subject s

theorem head_bnode (ctx : EvalContext) (s : Extractor) :
    (head labels scope ctx attrs isRoot s).2.bnode =
      withMint (mints scope attrs isRoot) s.bnode := by
  rw [head]
  dsimp only
  rw [completed_bnode, establish, mints]
  cases link : hasLink attrs with
  | true => exact links_bnode ctx s _ (emitTypes_bnode _ _) link
  | false =>
    have unlinked (newSubject currentObject : Option Term) (s : Extractor) :
        (emitLinks labels scope attrs newSubject currentObject s).2.bnode = s.bnode := by
      unfold emitLinks
      rw [link]
      rfl
    rw [unlinked, emitTypes_bnode, if_neg Bool.false_ne_true, if_neg Bool.false_ne_true]
    cases has attrs "property" && !has attrs "content" && !has attrs "datatype" with
    | true =>
      rw [if_pos rfl, establishProperty_bnode, Bool.or_true, Bool.and_true]
    | false =>
      rw [if_neg Bool.false_ne_true, establishResource_bnode, Bool.or_false]

theorem none_not_mem_termNames (term : Term) : none ∉ termNames term := by
  cases term <;> simp [termNames]

/-- An element mints exactly for what has no name. -/
theorem count_head (ctx : EvalContext) (s : Extractor) :
    (head labels scope ctx attrs isRoot s).2.bnode =
      s.bnode + (elementIdentities scope attrs isRoot).count none := by
  have absent : none ∉ curies scope attrs := by
    intro member
    rcases List.mem_append.mp member with about | member
    · obtain ⟨term, -, isName⟩ := List.mem_flatMap.mp about
      exact none_not_mem_termNames term isName
    · rcases List.mem_append.mp member with resource | terms
      · obtain ⟨term, -, isName⟩ := List.mem_flatMap.mp resource
        exact none_not_mem_termNames term isName
      · obtain ⟨name, -, terms⟩ := List.mem_flatMap.mp terms
        obtain ⟨term, -, isName⟩ := List.mem_flatMap.mp terms
        exact none_not_mem_termNames term isName
  rw [head_bnode, elementIdentities, List.count_append, List.count_eq_zero_of_not_mem absent,
    withMint]
  split_ifs <;> rfl

theorem le_emitLinks_bnode (newSubject currentObject : Option Term) (s : Extractor) :
    s.bnode ≤ (emitLinks labels scope attrs newSubject currentObject s).2.bnode := by
  unfold emitLinks
  cases hasLink attrs with
  | false => exact le_rfl
  | true =>
    cases currentObject with
    | none => exact Nat.le_succ _
    | some object =>
      cases newSubject with
      | none => exact le_rfl
      | some subject => exact ((pushAll_bnode ..).trans (pushAll_bnode ..)).ge

end Counting

/-! ## Following -/

/-- Over the other labels the terms of an element are renamed. -/
structure SameTerms (rename : Text → Text) (labels other : Labels) (scope : Local)
    (attrs : List (Text × Text)) : Prop where
  about : aboutOf other scope attrs =
    (aboutOf labels scope attrs).map (Option.map (Term.relabel rename))
  resource : (attr attrs "resource").bind (resolveResource other scope) =
    ((attr attrs "resource").bind (resolveResource labels scope)).map (Term.relabel rename)
  terms : ∀ name ∈ ["typeof", "rel", "rev", "property"], termsOf other scope (attr attrs name) =
    (termsOf labels scope (attr attrs name)).map (Term.relabel rename)

section Renaming

variable {rename : Text → Text} {all : List (Option Text)} {last : Nat} {labels other : Labels}
  {scope : Local} {attrs : List (Text × Text)} {isRoot : Bool}

section Terms

variable (agree : Agree rename all last labels other)

include agree

/-- A term is renamed if its own name is. -/
theorem relabel_agree {term : Term} (names : termNames term ⊆ all) :
    term.relabel other.named = (term.relabel labels.named).relabel rename := by
  cases term with
  | blank name => exact congrArg Term.blank (agree.named name (names List.mem_cons_self))
  | _ => rfl

theorem map_relabel_agree {term : Option Term} (names : namesIn term ⊆ all) :
    term.map (Term.relabel other.named) =
      (term.map (Term.relabel labels.named)).map (Term.relabel rename) := by
  cases term with
  | none => rfl
  | some term =>
    refine congrArg some (relabel_agree agree fun name isName => names ?_)
    exact List.mem_flatMap.mpr ⟨term, List.mem_cons_self, isName⟩

theorem sameTerms (inside : curies scope attrs ⊆ all) :
    SameTerms rename labels other scope attrs where
  about := by
    rw [@aboutOf_renamed _ other _ verbatim_named, @aboutOf_renamed _ labels _ verbatim_named]
    cases isAbout : aboutOf verbatim scope attrs with
    | none => rfl
    | some about =>
      refine congrArg some (map_relabel_agree agree fun name isName => inside ?_)
      refine List.mem_append_left _ ?_
      rw [isAbout]
      exact isName
  resource := by
    rw [@resourceOf_renamed _ other _ verbatim_named, @resourceOf_renamed _ labels _ verbatim_named]
    exact map_relabel_agree agree fun name isName =>
      inside (List.mem_append_right _ (List.mem_append_left _ isName))
  terms name isName := by
    rw [@termsOf_renamed _ other _ verbatim_named, @termsOf_renamed _ labels _ verbatim_named,
      List.map_map]
    refine List.map_congr_left fun term member => relabel_agree agree fun label isLabel => ?_
    refine inside (List.mem_append_right _ (List.mem_append_right _ ?_))
    exact List.mem_flatMap.mpr ⟨name, isName, List.mem_flatMap.mpr ⟨term, member, isLabel⟩⟩

end Terms

theorem SameTerms.pointed (same : SameTerms rename labels other scope attrs) :
    pointed other scope attrs =
      (pointed labels scope attrs).map (Option.map (Term.relabel rename)) := by
  have resource := same.resource
  rw [Rdfa.pointed, Rdfa.pointed]
  cases isResource : attr attrs "resource" with
  | some value =>
    rw [isResource] at resource
    exact congrArg some resource
  | none =>
    rw [linked]
    cases (attr attrs "href") <|> (attr attrs "src") <;> rfl

theorem inherited_relabel (ctx : EvalContext) :
    (ctx.relabel rename).inherited = ctx.inherited.relabel rename := by
  rw [EvalContext.inherited, EvalContext.inherited, EvalContext.relabel]
  cases ctx.parentObject <;> rfl

theorem pushAll_renamed (subject : Term) (object : Term) (predicates : List Term)
    (s : Extractor) :
    pushAll (subject.relabel rename) (object.relabel rename)
        (predicates.map (Term.relabel rename)) (s.relabel rename) =
      (pushAll subject object predicates s).relabel rename := by
  rw [pushAll, pushAll, List.foldl_map]
  exact List.foldl_hom (Extractor.relabel rename)
    fun s predicate => (s.relabel_push rename subject predicate object).symm

theorem completeTriples_renamed (ctx : EvalContext) (subject : Term) (s : Extractor) :
    completeTriples (ctx.relabel rename) (subject.relabel rename) (s.relabel rename) =
      (completeTriples ctx subject s).relabel rename := by
  rw [completeTriples, completeTriples, EvalContext.relabel, relabelIncomplete, List.foldl_map]
  refine List.foldl_hom (Extractor.relabel rename) fun s waiting => ?_
  obtain ⟨predicate, reverse⟩ := waiting
  cases reverse
  · exact (s.relabel_push rename ctx.parentSubject predicate subject).symm
  · exact (s.relabel_push rename subject predicate ctx.parentSubject).symm

theorem makeLiteral_relabel (value : Text) (datatype lang : Option Text) :
    (makeLiteral value datatype lang).relabel rename = makeLiteral value datatype lang := by
  rw [makeLiteral]
  cases datatype.filter (· ≠ []) <;> rfl

theorem child_renamed (ctx : EvalContext) (scope : Local) (lang : Option Text)
    (subjects : Subjects) (object : Option Term) (incomplete : List (Term × Bool)) :
    (ctx.relabel rename).child scope lang (subjects.relabel rename)
        (object.map (Term.relabel rename)) (relabelIncomplete rename incomplete) =
      (ctx.child scope lang subjects object incomplete).relabel rename := by
  obtain ⟨newSubject, currentObject, typedResource, skip⟩ := subjects
  cases skip with
  | true => rfl
  | false => cases newSubject <;> cases object <;> rfl

section Elements

variable (agree : Agree rename all last labels other)
  (same : SameTerms rename labels other scope attrs)

include same

theorem newSubject_renamed (ctx : EvalContext) (isRoot : Bool) :
    (aboutOf other scope attrs).getD
        (some (if isRoot then .iri scope.base else (ctx.relabel rename).inherited)) =
      ((aboutOf labels scope attrs).getD
        (some (if isRoot then .iri scope.base else ctx.inherited))).map (Term.relabel rename) := by
  rw [same.about, inherited_relabel]
  cases aboutOf labels scope attrs with
  | some about => rfl
  | none => cases isRoot <;> rfl

include agree

theorem establishProperty_renamed (ctx : EvalContext) (s : Extractor)
    (room : (establishProperty labels scope ctx attrs isRoot s).2.bnode ≤ last) :
    establishProperty other scope (ctx.relabel rename) attrs isRoot (s.relabel rename) =
      Prod.map (Subjects.relabel rename) (Extractor.relabel rename)
        (establishProperty labels scope ctx attrs isRoot s) := by
  rw [establishProperty] at room
  rw [establishProperty, establishProperty, newSubject_renamed same, same.about, same.pointed,
    ← map_orElse]
  cases isTyped : has attrs "typeof" with
  | true =>
    rw [isTyped] at room
    cases isFirst : (aboutOf labels scope attrs) <|> (pointed labels scope attrs) with
    | some typed => rfl
    | none =>
      rw [isFirst] at room
      dsimp only [Option.map_none]
      rw [agree.freshBlank room]
      rfl
  | false => rfl

theorem establishResource_renamed (ctx : EvalContext) (s : Extractor)
    (room : (establishResource labels scope ctx attrs isRoot s).2.bnode ≤ last) :
    establishResource other scope (ctx.relabel rename) attrs isRoot (s.relabel rename) =
      Prod.map (Subjects.relabel rename) (Extractor.relabel rename)
        (establishResource labels scope ctx attrs isRoot s) := by
  rw [establishResource] at room
  rw [establishResource, establishResource, inherited_relabel, same.about, same.pointed,
    ← map_orElse]
  cases isFirst : (aboutOf labels scope attrs) <|> (pointed labels scope attrs) with
  | some newSubject => cases has attrs "typeof" <;> rfl
  | none =>
    rw [isFirst] at room
    cases isRoot with
    | true => cases has attrs "typeof" <;> rfl
    | false =>
      cases isTyped : has attrs "typeof" with
      | false => rfl
      | true =>
        rw [isTyped] at room
        dsimp only [Option.map_none]
        rw [agree.freshBlank room]
        rfl

theorem establishLink_renamed (ctx : EvalContext) (s : Extractor)
    (room : (establishLink labels scope ctx attrs isRoot s).2.bnode ≤ last) :
    establishLink other scope (ctx.relabel rename) attrs isRoot (s.relabel rename) =
      Prod.map (Subjects.relabel rename) (Extractor.relabel rename)
        (establishLink labels scope ctx attrs isRoot s) := by
  rw [establishLink] at room
  rw [establishLink, establishLink, newSubject_renamed same, same.resource]
  have object := map_orElse (Term.relabel rename)
    ((attr attrs "resource").bind (resolveResource labels scope)) (linked scope attrs)
  rw [linked_relabel] at object
  dsimp only at room ⊢
  rw [← object]
  cases isTyped : has attrs "typeof" with
  | false => rfl
  | true =>
    rw [isTyped] at room
    cases isAbout : has attrs "about" with
    | true => rfl
    | false =>
      rw [isAbout] at room
      cases isObject : ((attr attrs "resource").bind (resolveResource labels scope)) <|>
          (linked scope attrs) with
      | some found => rfl
      | none =>
        rw [isObject] at room
        dsimp only [Option.map_none]
        rw [agree.freshBlank room]
        rfl

theorem establish_renamed (ctx : EvalContext) (s : Extractor)
    (room : (establish labels scope ctx attrs isRoot s).2.bnode ≤ last) :
    establish other scope (ctx.relabel rename) attrs isRoot (s.relabel rename) =
      Prod.map (Subjects.relabel rename) (Extractor.relabel rename)
        (establish labels scope ctx attrs isRoot s) := by
  rw [establish] at room
  rw [establish, establish]
  split_ifs at room ⊢
  · exact establishLink_renamed agree same ctx s room
  · exact establishProperty_renamed agree same ctx s room
  · exact establishResource_renamed agree same ctx s room

omit agree in
theorem emitTypes_renamed (typedResource : Option Term) (s : Extractor) :
    emitTypes other scope attrs (typedResource.map (Term.relabel rename)) (s.relabel rename) =
      (emitTypes labels scope attrs typedResource s).relabel rename := by
  cases typedResource with
  | none => rfl
  | some subject =>
    rw [Option.map_some, emitTypes, emitTypes, same.terms _ (by decide), List.foldl_map]
    exact List.foldl_hom (Extractor.relabel rename)
      fun s object => (s.relabel_push rename subject iriType object).symm

theorem emitLinks_renamed (newSubject currentObject : Option Term) (s : Extractor)
    (room : (emitLinks labels scope attrs newSubject currentObject s).2.bnode ≤ last) :
    emitLinks other scope attrs (newSubject.map (Term.relabel rename))
        (currentObject.map (Term.relabel rename)) (s.relabel rename) =
      Prod.map (Prod.map (Option.map (Term.relabel rename)) (relabelIncomplete rename))
        (Extractor.relabel rename) (emitLinks labels scope attrs newSubject currentObject s) := by
  unfold emitLinks at room ⊢
  rw [same.terms "rel" (by decide), same.terms "rev" (by decide)]
  cases isLink : hasLink attrs with
  | false => rfl
  | true =>
    rw [isLink] at room
    cases currentObject with
    | some object =>
      cases newSubject with
      | none => rfl
      | some subject =>
        have forward := @pushAll_renamed rename subject object
          (termsOf labels scope (attr attrs "rel")) s
        have backward := @pushAll_renamed rename object subject
          (termsOf labels scope (attr attrs "rev"))
          (pushAll subject object (termsOf labels scope (attr attrs "rel")) s)
        rw [← forward] at backward
        exact congrArg (fun s => ((some (object.relabel rename), []), s)) backward
    | none =>
      have waiting : ((termsOf labels scope (attr attrs "rel")).map
            (Term.relabel rename)).map (·, false) ++
          ((termsOf labels scope (attr attrs "rev")).map (Term.relabel rename)).map (·, true) =
          relabelIncomplete rename ((termsOf labels scope (attr attrs "rel")).map (·, false) ++
            (termsOf labels scope (attr attrs "rev")).map (·, true)) := by
        rw [relabelIncomplete, List.map_append, List.map_map, List.map_map, List.map_map,
          List.map_map]
        rfl
      dsimp only [Option.map_none]
      rw [agree.freshBlank room]
      exact congrArg (fun incomplete => ((some _, incomplete), _)) waiting

omit agree in
theorem propertyObject_renamed (lang : Option Text) (typedResource : Option Term) (text : Text) :
    propertyObject other scope attrs lang (typedResource.map (Term.relabel rename)) text =
      (propertyObject labels scope attrs lang typedResource text).map (Term.relabel rename) := by
  have object : (if hasLink attrs then none else pointed other scope attrs) =
      (if hasLink attrs then none else pointed labels scope attrs).map
        (Option.map (Term.relabel rename)) := by
    rw [same.pointed]
    split_ifs <;> rfl
  rw [propertyObject, propertyObject, @datatypeIri_verbatim other, @datatypeIri_verbatim labels,
    object]
  cases attr attrs "content" with
  | some content => exact congrArg some (makeLiteral_relabel content _ lang).symm
  | none =>
    dsimp only
    split_ifs
    · exact congrArg some (makeLiteral_relabel text _ lang).symm
    all_goals
      cases pointed labels scope attrs <;> rfl

omit agree in
theorem emitProperty_renamed (lang : Option Text) (subjects : Subjects) (text : Text)
    (s : Extractor) :
    emitProperty other scope attrs lang (subjects.relabel rename) text (s.relabel rename) =
      (emitProperty labels scope attrs lang subjects text s).relabel rename := by
  have object := propertyObject_renamed same lang subjects.typedResource text
  rw [emitProperty, emitProperty, Subjects.relabel]
  dsimp only
  rw [object, same.terms _ (by decide)]
  cases subjects.newSubject with
  | none => rfl
  | some subject =>
    cases propertyObject labels scope attrs lang subjects.typedResource text with
    | none => rfl
    | some object => exact pushAll_renamed subject object _ s

theorem head_renamed (ctx : EvalContext) (s : Extractor)
    (room : (head labels scope ctx attrs isRoot s).2.bnode ≤ last) :
    head other scope (ctx.relabel rename) attrs isRoot (s.relabel rename) =
      Prod.map (Prod.map (Subjects.relabel rename) (Prod.map (Option.map (Term.relabel rename))
        (relabelIncomplete rename))) (Extractor.relabel rename)
        (head labels scope ctx attrs isRoot s) := by
  rw [head] at room
  dsimp only at room
  rw [completed_bnode] at room
  have first := (le_emitLinks_bnode _ _ _).trans room
  rw [emitTypes_bnode] at first
  rw [head, head, establish_renamed agree same ctx s first]
  rcases established : establish labels scope ctx attrs isRoot s with ⟨subjects, s⟩
  rw [established] at room
  dsimp only [Prod.map, Subjects.relabel]
  rw [emitTypes_renamed same, emitLinks_renamed agree same _ _ _ room]
  obtain ⟨⟨object, incomplete⟩, s⟩ := emitLinks labels scope attrs subjects.newSubject
    subjects.currentObject (emitTypes labels scope attrs subjects.typedResource s)
  dsimp only [Prod.map]
  obtain ⟨newSubject, currentObject, typedResource, skip⟩ := subjects
  cases skip with
  | true => rfl
  | false =>
    cases newSubject with
    | none => rfl
    | some subject =>
      exact congrArg (fun s => ((_, _, _), s)) (completeTriples_renamed ctx subject s)

end Elements

theorem child_scope (ctx : EvalContext) (scope : Local) (lang : Option Text) (subjects : Subjects)
    (object : Option Term) (incomplete : List (Term × Bool)) :
    (ctx.child scope lang subjects object incomplete).scope = scope := by
  rw [EvalContext.child]
  split_ifs <;> rfl

/-- The walk mints for the elements that need it, names what the CURIEs do, and follows its
labels. -/
theorem process_follows (agree : Agree rename all last labels other) (depth : Nat) :
    ∀ el ctx isRoot s, Foreseen all last (identitiesOf ctx.scope isRoot el.child) s →
      Follows id (Extractor.relabel rename) (identitiesOf ctx.scope isRoot el.child) s
        (process labels depth el ctx isRoot s)
        (process other depth el (ctx.relabel rename) isRoot (s.relabel rename)) := by
  induction depth with
  | zero => exact fun _ _ _ _ _ => .error
  | succ depth induction =>
    intro el ctx isRoot s foreseen
    have whole : Foreseen all last
        (elementIdentities (ctx.scope.child el.attrs) el.attrs isRoot ++
          identitiesOfAll (ctx.scope.child el.attrs) false el.children) s := foreseen
    have count := @count_head labels (ctx.scope.child el.attrs) el.attrs isRoot ctx s
    have same := sameTerms agree
      (List.append_subset.mp whole.left.names).1
    have below := whole.right count
    rw [process, process, show (ctx.relabel rename).scope = ctx.scope from rfl,
      show (ctx.relabel rename).lang = ctx.lang from rfl,
      head_renamed agree same ctx s (count.trans_le whole.left.room)]
    rcases isHead : head labels (ctx.scope.child el.attrs) ctx el.attrs isRoot s with
      ⟨⟨subjects, object, incomplete⟩, middle⟩
    rw [isHead] at count below
    dsimp only [Prod.map]
    refine @Follows.behind _ _ _ _ _ s middle _ _ _ _ (.given fun text _ => ?_) count
    have property : (if has el.attrs "property" then
        emitProperty other (ctx.scope.child el.attrs) el.attrs (childLang ctx.lang el.attrs)
          (subjects.relabel rename) text (middle.relabel rename)
        else middle.relabel rename) =
        (if has el.attrs "property" then
          emitProperty labels (ctx.scope.child el.attrs) el.attrs (childLang ctx.lang el.attrs)
            subjects text middle
        else middle).relabel rename := by
      rw [emitProperty_renamed same]
      split_ifs <;> rfl
    have silent : (if has el.attrs "property" then
        emitProperty labels (ctx.scope.child el.attrs) el.attrs (childLang ctx.lang el.attrs)
          subjects text middle
        else middle).bnode = middle.bnode := by
      split_ifs
      · exact emitProperty_bnode ..
      · rfl
    rw [child_renamed, property, identitiesOfAll_eq]
    rw [identitiesOfAll_eq] at below
    refine Follows.silent (each_follows (fun child _ s foreseen => ?_) (below.later silent)) silent
    have inner := induction child (ctx.child (ctx.scope.child el.attrs)
      (childLang ctx.lang el.attrs) subjects object incomplete) false s
    rw [child_scope] at inner
    exact inner foreseen

/-- The blank nodes of a document, in the order of the walk. -/
def identities (depth : Nat) (root : Element) : List (Option Text) :=
  let base := (findBase depth root).toOption.join.getD []
  identitiesOfAll (EvalContext.root base).scope true root.children

theorem run_follows (agree : Agree rename all last labels other) (depth : Nat) (root : Element)
    (foreseen : Foreseen all last (identities depth root) .new) :
    Follows id (Extractor.relabel rename) (identities depth root) .new (run labels depth root)
      (run other depth root) := by
  rw [run, run]
  refine .given fun base isBase => ?_
  rw [identities, isBase, identitiesOfAll_eq] at foreseen ⊢
  exact each_follows (fun child _ s => process_follows agree depth child
    (.root (base.getD [])) true s) foreseen

end Renaming

theorem run_explains {depth : Nat} {root : Element} {source : Extractor}
    (ran : run sourceLabels depth root = .ok source) :
    ∃ stated, run .apart depth root = .ok stated ∧
      Explains "rdfa~" (identities depth root) source stated :=
  @explains_of_follows _ _ _ (fun labels => run labels depth root) _
    (fun agree => run_follows agree depth root foreseen_new) ran

end GStore.Parser.Rdfa
