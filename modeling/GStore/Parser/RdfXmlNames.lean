import GStore.Parser.RdfXml

/-! # Names in RDF/XML

What an RDF/XML document says by its expanded names alone: prefixes are declared wherever they are,
and a declaration is nothing else. The reader of `rdfxml.rs` says the same, or stops at a prefix
that is declared below the root. -/

namespace GStore.Parser.RdfXml

open Reason Turtle Xml

/-! ## Expanded trees -/

/-- An element with the names that it has in the namespaces in force; a name is missing if its
prefix is not declared. -/
inductive Expanded where
  | element (name : Option (Text × Text)) (attrs : List (Option (Text × Text) × Text))
      (base : Option Text) (lang : Option (Option Text)) (children : List Expanded)
  | text (value : Text)

def isDeclaration (name : Text) : Bool := name == "xmlns".toList || declaresPrefix name

/-- The namespaces of `child_ctx`. -/
def declareNs (ns : List (Text × Text)) (attr : Text × Text) : List (Text × Text) :=
  if attr.1 = "xmlns".toList then assocInsert [] attr.2 ns
  else if declaresPrefix attr.1 then assocInsert (attr.1.drop 6) attr.2 ns
  else ns

def declared (ns attrs : List (Text × Text)) : List (Text × Text) := attrs.foldl declareNs ns

/-- The attributes other than declarations. -/
def expandAttrs (ns attrs : List (Text × Text)) : List (Option (Text × Text) × Text) :=
  (attrs.filter (!isDeclaration ·.1)).map fun attr => ((expandAttrName ns attr.1).toOption, attr.2)

def baseOf (attrs : List (Text × Text)) : Option Text := attrs.reverse.lookup "xml:base".toList

/-- An empty language takes an inherited one away. -/
def langOf (attrs : List (Text × Text)) : Option (Option Text) :=
  (attrs.reverse.lookup "xml:lang".toList).map fun lang => if lang = [] then none else some lang

mutual

def expand (ns : List (Text × Text)) : Child → Expanded
  | .element name attrs children =>
    .element (expandName (declared ns attrs) name).toOption
      (expandAttrs (declared ns attrs) attrs) (baseOf attrs) (langOf attrs)
      (expands (declared ns attrs) children)
  | .text value => .text value

def expands (ns : List (Text × Text)) : List Child → List Expanded
  | [] => []
  | child :: rest => expand ns child :: expands ns rest

end

/-! ## Meaning -/

namespace Expanded

/-- What an expanded element inherits. -/
structure Scope where
  lang : Option Text
  base : Text

def Scope.child (scope : Scope) (base : Option Text) (lang : Option (Option Text)) : Scope where
  lang := lang.getD scope.lang
  base := base.getD scope.base

def attrValue (want : String) : List (Option (Text × Text) × Text) → Option (Option Text)
  | [] => some none
  | (name, value) :: rest => do
    if matchesRdf want (← name) then return some value else attrValue want rest

def propertyAttr (typed : Bool) (subject : Term) (scope : Scope) (s : Extractor)
    (attr : Option (Text × Text) × Text) : Option Extractor := do
  let name ← attr.1
  if isSyntaxName name then
    if typed && name == (rdfNs, "type".toList) then
      return s.push subject iriType (.iri (resolve scope.base attr.2))
    else return s
  else return s.push subject (.iri (name.1 ++ name.2)) (.literal attr.2 none scope.lang)

def subjectOf (labels : Labels) (attrs : List (Option (Text × Text) × Text)) (scope : Scope)
    (s : Extractor) : Option (Term × Extractor) := do
  if let some about ← attrValue "about" attrs then
    return (.iri (resolve scope.base about), s)
  if let some id ← attrValue "ID" attrs then
    return (.iri (resolve scope.base ('#' :: id)), s)
  if let some label ← attrValue "nodeID" attrs then
    return (.blank (labels.named label), s)
  return s.freshBlank labels

def isElement : Expanded → Bool
  | .element .. => true
  | .text _ => false

def texts (children : List Expanded) : Text :=
  children.flatMap fun
    | .element .. => []
    | .text value => value

mutual

def node (labels : Labels) : Nat → Expanded → Scope → Extractor → Option (Term × Extractor)
  | depth + 1, .element name attrs base lang children, parent, s => do
    let scope := parent.child base lang
    let name ← name
    let (subject, s) ← subjectOf labels attrs scope s
    let s := if name = (rdfNs, "Description".toList) then s
      else s.push subject iriType (.iri (name.1 ++ name.2))
    let s ← attrs.foldlM (propertyAttr true subject scope) s
    let (s, _) ← (children.filter isElement).foldlM
      (fun (s, li) pe => property labels depth subject pe scope li s) (s, 1)
    return (subject, s)
  | _, _, _, _ => none

def property (labels : Labels) :
    Nat → Term → Expanded → Scope → Nat → Extractor → Option (Extractor × Nat)
  | depth + 1, subject, .element name attrs base lang children, parent, li, s => do
    let scope := parent.child base lang
    let name ← name
    let (predicate, li) := predicateOf name li
    if let some resource ← attrValue "resource" attrs then
      return (s.push subject predicate (.iri (resolve scope.base resource)), li)
    if let some label ← attrValue "nodeID" attrs then
      return (s.push subject predicate (.blank (labels.named label)), li)
    let parseType ← attrValue "parseType" attrs
    if parseType = some "Resource".toList then
      let (object, s) := s.freshBlank labels
      let s := s.push subject predicate object
      let s ← attrs.foldlM (propertyAttr false object scope) s
      let (s, _) ← (children.filter isElement).foldlM
        (fun (s, li) inner => property labels depth object inner scope li s) (s, 1)
      return (s, li)
    if parseType = some "Literal".toList then
      return (s.push subject predicate
        (.literal (texts children) (some (rdf "XMLLiteral")) none), li)
    if children.any isElement then
      let s ← (children.filter isElement).foldlM (fun s child => do
        let (object, s) ← node labels depth child scope s
        return s.push subject predicate object) s
      return (s, li)
    let datatype ← attrValue "datatype" attrs
    let lang := if datatype.isSome then none else scope.lang
    return (s.push subject predicate (.literal (trim (texts children)) datatype lang), li)
  | _, _, _, _, _, _ => none

end

end Expanded

/-! ## Where a declaration is met -/

/-- No prefix is declared in front of the attribute that is sought, or at all if there is none. -/
def unmet (ns : List (Text × Text)) (want : String) : List (Text × Text) → Bool
  | [] => true
  | (raw, _) :: rest =>
    !declaresPrefix raw &&
      ((expandAttrName ns raw).toOption.any (matchesRdf want) || unmet ns want rest)

def hasRdf (ns : List (Text × Text)) (want : String) (attrs : List (Text × Text)) : Bool :=
  (Expanded.attrValue want (expandAttrs ns attrs)).join.isSome

mutual

/-- The walk meets no declaration of a prefix on a node element or below it. -/
def quietNode (ns : List (Text × Text)) : Child → Bool
  | .element _ attrs children =>
    !attrs.any (declaresPrefix ·.1) && quietProperties (declared ns attrs) children
  | .text _ => true

/-- On a property element the walk ends at `rdf:resource`. -/
def quietProperty (ns : List (Text × Text)) : Child → Bool
  | .element _ attrs children =>
    let parseType := (Expanded.attrValue "parseType" (expandAttrs (declared ns attrs) attrs)).join
    unmet (declared ns attrs) "resource" attrs &&
      (hasRdf (declared ns attrs) "resource" attrs || hasRdf (declared ns attrs) "nodeID" attrs ||
        if parseType = some "Resource".toList then quietProperties (declared ns attrs) children
        else parseType == some "Literal".toList || quietNodes (declared ns attrs) children)
  | .text _ => true

def quietNodes (ns : List (Text × Text)) : List Child → Bool
  | [] => true
  | child :: rest => quietNode ns child && quietNodes ns rest

def quietProperties (ns : List (Text × Text)) : List Child → Bool
  | [] => true
  | child :: rest => quietProperty ns child && quietProperties ns rest

end

mutual

/-- No element declares the prefix `xmlns`, which is reserved. -/
def reserved : Child → Bool
  | .element _ attrs children =>
    !attrs.any (·.1 == "xmlns:xmlns".toList) && reservedAll children
  | .text _ => true

def reservedAll : List Child → Bool
  | [] => true
  | child :: rest => reserved child && reservedAll rest

end

/-! ## Contexts -/

section Contexts

variable {ns attrs : List (Text × Text)}

def Ctx.scope (ctx : Ctx) : Expanded.Scope := ⟨ctx.lang, ctx.base⟩

theorem ns_child (parent : Ctx) (attrs : List (Text × Text)) :
    (parent.child attrs).ns = declared parent.ns attrs := by
  induction attrs generalizing parent with
  | nil => rfl
  | cons attr rest induction =>
    have step : (parent.declare attr).ns = declareNs parent.ns attr := by
      rw [Ctx.declare, declareNs]
      split_ifs <;> rfl
    change ((parent.declare attr).child rest).ns = declared (declareNs parent.ns attr) rest
    rw [induction, step]

theorem base_plain : "xml:base".toList ≠ "xmlns".toList ∧
    ¬ declaresPrefix "xml:base".toList = true ∧ "xml:base".toList ≠ "xml:lang".toList := by
  decide

theorem lang_plain : "xml:lang".toList ≠ "xmlns".toList ∧
    ¬ declaresPrefix "xml:lang".toList = true := by
  decide

theorem declare_base {name : Text} (isBase : name = "xml:base".toList) (ctx : Ctx) (value : Text) :
    ctx.declare (name, value) = { ctx with base := value } := by
  obtain ⟨notXmlns, plain, _⟩ := isBase ▸ base_plain
  rw [Ctx.declare, if_neg notXmlns, if_neg plain, if_pos isBase]

theorem declare_lang {name : Text} (isLang : name = "xml:lang".toList) (ctx : Ctx) (value : Text) :
    ctx.declare (name, value) =
      { ctx with lang := if value = [] then none else some value } := by
  have notBase : name ≠ "xml:base".toList := fun same => base_plain.2.2 (same.symm.trans isLang)
  obtain ⟨notXmlns, plain⟩ := isLang ▸ lang_plain
  rw [Ctx.declare, if_neg notXmlns, if_neg plain, if_neg notBase, if_pos isLang]

theorem scope_declare {name : Text} (notBase : name ≠ "xml:base".toList)
    (notLang : name ≠ "xml:lang".toList) (ctx : Ctx) (value : Text) :
    (ctx.declare (name, value)).scope = ctx.scope := by
  rw [Ctx.declare, if_neg notBase, if_neg notLang]
  split_ifs <;> rfl

theorem scope_child (parent : Ctx) (attrs : List (Text × Text)) :
    (parent.child attrs).scope = parent.scope.child (baseOf attrs) (langOf attrs) := by
  induction attrs using List.reverseRecOn with
  | nil => rfl
  | append_singleton front attr induction =>
    obtain ⟨name, value⟩ := attr
    have last : parent.child (front ++ [(name, value)]) =
        (parent.child front).declare (name, value) := List.foldl_concat ..
    rw [baseOf, langOf] at induction
    rw [last, baseOf, langOf, List.reverse_concat, lookup_cons_eq_ite, lookup_cons_eq_ite]
    by_cases base : name = "xml:base".toList
    · have notLang : ¬ ("xml:lang".toList == name) = true :=
        fun same => base_plain.2.2 (base.symm.trans (beq_iff_eq.mp same).symm)
      rw [if_pos (beq_iff_eq.mpr base.symm), if_neg notLang, declare_base base]
      exact congrArg (fun scope : Expanded.Scope => { scope with base := value }) induction
    · rw [if_neg (fun same => base (beq_iff_eq.mp same).symm)]
      by_cases lang : name = "xml:lang".toList
      · rw [if_pos (beq_iff_eq.mpr lang.symm), declare_lang lang]
        exact congrArg (fun scope : Expanded.Scope =>
          { scope with lang := if value = [] then none else some value }) induction
      · rw [if_neg (fun same => lang (beq_iff_eq.mp same).symm), ← induction,
          scope_declare base lang]

end Contexts

/-! ## Attributes -/

section Attributes

variable {ns : List (Text × Text)}

theorem exists_of_declaresPrefix {raw : Text} (declares : declaresPrefix raw = true) :
    ∃ name, raw = "xmlns".toList ++ ':' :: name := by
  obtain ⟨name, same⟩ := List.isPrefixOf_iff_prefix.mp declares
  exact ⟨name, same.symm⟩

theorem expandAttrName_declares (unreserved : ns.lookup "xmlns".toList = none) {raw : Text}
    (declares : declaresPrefix raw = true) :
    expandAttrName ns raw = .error (.undefinedPrefix "xmlns".toList) := by
  obtain ⟨name, rfl⟩ := exists_of_declaresPrefix declares
  have split : splitFirst ':' ("xmlns".toList ++ ':' :: name) = some ("xmlns".toList, name) :=
    splitFirst_append (by decide)
  rw [expandAttrName, expandQName, split]
  dsimp only
  rw [unreserved]

theorem colon_not_mem_xmlns : ':' ∉ "xmlns".toList := by decide

theorem expandAttrName_default {raw : Text} (isDefault : raw = "xmlns".toList) :
    expandAttrName ns raw = .ok ([], raw) := by
  have split : splitFirst ':' raw = none := if_neg (isDefault ▸ colon_not_mem_xmlns)
  rw [expandAttrName, expandQName, split]

theorem expandAttrs_cons (raw value : Text) (rest : List (Text × Text)) :
    expandAttrs ns ((raw, value) :: rest) =
      if isDeclaration raw then expandAttrs ns rest
      else ((expandAttrName ns raw).toOption, value) :: expandAttrs ns rest := by
  rw [expandAttrs, List.filter_cons]
  cases isDeclaration raw <;> rfl

theorem matchesRdf_default {want : String} {raw : Text} (sought : want.toList ≠ raw) :
    matchesRdf want ([], raw) = false := by
  have differs : (raw == want.toList) = false := beq_eq_false_iff_ne.mpr sought.symm
  rw [matchesRdf, differs, Bool.and_false, Bool.and_false, Bool.or_false]

section Steps

variable {want : String} {raw value : Text} {rest : List (Text × Text)} {name : Text × Text}

theorem attrValue_cons (expanded : expandAttrName ns raw = .ok name) :
    attrValue ns want ((raw, value) :: rest) =
      if matchesRdf want name then .ok (some value) else attrValue ns want rest := by
  rw [attrValue, expanded]
  rfl

theorem unmet_cons (plain : declaresPrefix raw = false)
    (expanded : expandAttrName ns raw = .ok name) :
    unmet ns want ((raw, value) :: rest) = (matchesRdf want name || unmet ns want rest) := by
  rw [unmet, plain, expanded]
  rfl

theorem expandedAttrValue_cons {attrs : List (Option (Text × Text) × Text)} :
    Expanded.attrValue want ((some name, value) :: attrs) =
      if matchesRdf want name then some (some value) else Expanded.attrValue want attrs := rfl

theorem isDeclaration_of_default (isDefault : raw = "xmlns".toList) : isDeclaration raw = true := by
  rw [isDeclaration, beq_iff_eq.mpr isDefault, Bool.true_or]

theorem isDeclaration_eq_false (plain : declaresPrefix raw = false)
    (other : raw ≠ "xmlns".toList) : isDeclaration raw = false := by
  rw [isDeclaration, plain, beq_eq_false_iff_ne.mpr other, Bool.false_or]

end Steps

theorem toOption_attrValue (unreserved : ns.lookup "xmlns".toList = none) {want : String}
    (sought : want.toList ≠ "xmlns".toList) (attrs : List (Text × Text)) :
    (attrValue ns want attrs).toOption =
      if unmet ns want attrs then Expanded.attrValue want (expandAttrs ns attrs) else none := by
  induction attrs with
  | nil => rfl
  | cons attr rest induction =>
    obtain ⟨raw, value⟩ := attr
    rw [expandAttrs_cons]
    cases declares : declaresPrefix raw with
    | true =>
      rw [attrValue, unmet, expandAttrName_declares unreserved declares, declares]
      rfl
    | false =>
      by_cases isDefault : raw = "xmlns".toList
      · have expanded := @expandAttrName_default ns raw isDefault
        rw [if_pos (isDeclaration_of_default isDefault), attrValue_cons expanded,
          unmet_cons declares expanded, matchesRdf_default (isDefault ▸ sought)]
        exact induction
      · rw [isDeclaration_eq_false declares isDefault]
        cases expanded : expandAttrName ns raw with
        | error problem =>
          rw [attrValue, expanded]
          exact (ite_self none).symm
        | ok name =>
          rw [attrValue_cons expanded, unmet_cons declares expanded]
          change _ = if _ then Expanded.attrValue want ((some name, value) :: _) else none
          rw [expandedAttrValue_cons]
          cases matchesRdf want name with
          | true => rfl
          | false => exact induction

theorem propertyAttr_of_ok {ctx : Ctx} {raw value : Text} {name : Text × Text} (typed : Bool)
    (subject : Term) (s : Extractor) (expanded : expandAttrName ctx.ns raw = .ok name)
    (plain : isDeclaration raw = false) :
    (propertyAttr typed subject ctx s (raw, value)).toOption =
      Expanded.propertyAttr typed subject ctx.scope s (some name, value) := by
  rw [isDeclaration] at plain
  rw [propertyAttr, expanded]
  dsimp only [bind, Except.bind]
  rw [isSyntaxAttr, plain, Expanded.propertyAttr]
  dsimp only [bind, Option.bind]
  rw [Bool.false_or]
  split_ifs <;> rfl

theorem propertyAttr_default {ctx : Ctx} {raw value : Text} (typed : Bool) (subject : Term)
    (s : Extractor) (isDefault : raw = "xmlns".toList) :
    propertyAttr typed subject ctx s (raw, value) = .ok s := by
  have declares := isDeclaration_of_default isDefault
  rw [isDeclaration] at declares
  have other : (([], raw) == (rdfNs, "type".toList)) = false := by
    rw [isDefault]
    decide
  rw [propertyAttr, expandAttrName_default isDefault]
  dsimp only [bind, Except.bind]
  rw [isSyntaxAttr, declares, Bool.true_or, if_pos rfl, other, Bool.and_false]
  rfl

theorem toOption_foldlM_propertyAttr {ctx : Ctx}
    (unreserved : ctx.ns.lookup "xmlns".toList = none)
    (typed : Bool) (subject : Term) (attrs : List (Text × Text)) : ∀ s : Extractor,
    (attrs.foldlM (propertyAttr typed subject ctx) s).toOption =
      if attrs.any (declaresPrefix ·.1) then none
      else (expandAttrs ctx.ns attrs).foldlM
        (Expanded.propertyAttr typed subject ctx.scope) s := by
  induction attrs with
  | nil => exact fun _ => rfl
  | cons attr rest induction =>
    intro s
    obtain ⟨raw, value⟩ := attr
    rw [List.foldlM_cons, List.any_cons, expandAttrs_cons]
    cases declares : declaresPrefix raw with
    | true =>
      rw [propertyAttr, expandAttrName_declares unreserved declares]
      rfl
    | false =>
      rw [Bool.false_or]
      by_cases isDefault : raw = "xmlns".toList
      · rw [propertyAttr_default typed subject s isDefault,
          if_pos (isDeclaration_of_default isDefault)]
        exact induction s
      · have plain := isDeclaration_eq_false declares isDefault
        rw [plain, toOption_bind]
        cases expanded : expandAttrName ctx.ns raw with
        | error problem =>
          rw [propertyAttr, expanded]
          exact (ite_self none).symm
        | ok name =>
          rw [propertyAttr_of_ok typed subject s expanded plain, if_neg Bool.false_ne_true,
            List.foldlM_cons]
          change _ = if _ then none
            else (Expanded.propertyAttr typed subject ctx.scope s (some name, value)).bind _
          cases Expanded.propertyAttr typed subject ctx.scope s (some name, value) with
          | none => exact (ite_self none).symm
          | some after => exact induction after

theorem unmet_of_plain {attrs : List (Text × Text)} (want : String)
    (plain : attrs.any (declaresPrefix ·.1) = false) : unmet ns want attrs = true := by
  induction attrs with
  | nil => rfl
  | cons attr rest induction =>
    obtain ⟨here, later⟩ := Bool.or_eq_false_iff.mp (List.any_cons.symm.trans plain)
    rw [unmet, here, induction later, Bool.or_true]
    rfl

theorem toOption_attrValue_plain (unreserved : ns.lookup "xmlns".toList = none) {want : String}
    (sought : want.toList ≠ "xmlns".toList) {attrs : List (Text × Text)}
    (plain : attrs.any (declaresPrefix ·.1) = false) :
    (attrValue ns want attrs).toOption = Expanded.attrValue want (expandAttrs ns attrs) := by
  rw [toOption_attrValue unreserved sought, if_pos (unmet_of_plain want plain)]

theorem sought_names : "about".toList ≠ "xmlns".toList ∧ "ID".toList ≠ "xmlns".toList ∧
    "nodeID".toList ≠ "xmlns".toList ∧ "resource".toList ≠ "xmlns".toList ∧
    "parseType".toList ≠ "xmlns".toList ∧ "datatype".toList ≠ "xmlns".toList := by
  decide

theorem toOption_subjectOf (labels : Labels) {ctx : Ctx}
    (unreserved : ctx.ns.lookup "xmlns".toList = none) {attrs : List (Text × Text)}
    (plain : attrs.any (declaresPrefix ·.1) = false) (s : Extractor) :
    (subjectOf labels attrs ctx s).toOption =
      Expanded.subjectOf labels (expandAttrs ctx.ns attrs) ctx.scope s := by
  obtain ⟨about, id, nodeId, _⟩ := sought_names
  rw [subjectOf, toOption_bind, toOption_attrValue_plain unreserved about plain,
    Expanded.subjectOf]
  refine Option.bind_congr fun found _ => ?_
  cases found with
  | some about => rfl
  | none =>
    dsimp only
    rw [toOption_bind, toOption_attrValue_plain unreserved id plain]
    refine Option.bind_congr fun found _ => ?_
    cases found with
    | some id => rfl
    | none =>
      dsimp only
      rw [toOption_bind, toOption_attrValue_plain unreserved nodeId plain]
      refine Option.bind_congr fun found _ => ?_
      cases found <;> rfl

end Attributes

/-! ## Children -/

section Children

variable {ns : List (Text × Text)}

theorem filter_expands (children : List Child) :
    (expands ns children).filter Expanded.isElement =
      (elements children).map fun el => expand ns el.child := by
  induction children with
  | nil => rfl
  | cons child rest induction =>
    cases child with
    | text value => exact induction
    | element name attrs inner => exact congrArg (List.cons _) induction

theorem quietNodes_eq (children : List Child) :
    quietNodes ns children = (elements children).all fun el => quietNode ns el.child := by
  induction children with
  | nil => rfl
  | cons child rest induction =>
    cases child with
    | text value => exact induction
    | element name attrs inner => exact congrArg (quietNode ns _ && ·) induction

theorem quietProperties_eq (children : List Child) :
    quietProperties ns children = (elements children).all fun el => quietProperty ns el.child := by
  induction children with
  | nil => rfl
  | cons child rest induction =>
    cases child with
    | text value => exact induction
    | element name attrs inner => exact congrArg (quietProperty ns _ && ·) induction

theorem reserved_of_mem {children : List Child} (all : reservedAll children = true) :
    ∀ el ∈ elements children, reserved el.child = true := by
  induction children with
  | nil => exact fun el member => nomatch member
  | cons child rest induction =>
    obtain ⟨here, later⟩ := Bool.and_eq_true_iff.mp all
    cases child with
    | text value => exact induction later
    | element name attrs inner => exact List.forall_mem_cons.mpr ⟨here, induction later⟩

theorem texts_expands (children : List Child) :
    Expanded.texts (expands ns children) = texts children := by
  induction children with
  | nil => rfl
  | cons child rest induction =>
    cases child with
    | text value => exact congrArg (value ++ ·) induction
    | element name attrs inner => exact induction

theorem any_isElement (children : List Child) :
    (expands ns children).any Expanded.isElement = hasElementChildren children := by
  induction children with
  | nil => rfl
  | cons child rest induction =>
    cases child with
    | text value => exact induction
    | element name attrs inner => rfl

theorem drop_eq_xmlns {raw : Text} (declares : declaresPrefix raw = true)
    (same : raw.drop 6 = "xmlns".toList) : raw = "xmlns:xmlns".toList := by
  obtain ⟨name, rfl⟩ := exists_of_declaresPrefix declares
  have rest : name = "xmlns".toList := same
  rw [rest]
  decide

/-- The reserved prefix stays undeclared. -/
theorem lookup_declared {attrs : List (Text × Text)}
    (fine : attrs.any (·.1 == "xmlns:xmlns".toList) = false)
    (unreserved : ns.lookup "xmlns".toList = none) :
    (declared ns attrs).lookup "xmlns".toList = none := by
  induction attrs generalizing ns with
  | nil => exact unreserved
  | cons attr rest induction =>
    obtain ⟨raw, value⟩ := attr
    obtain ⟨here, later⟩ := Bool.or_eq_false_iff.mp (List.any_cons.symm.trans fine)
    refine induction later ?_
    rw [declareNs]
    dsimp only
    split_ifs with isDefault declares
    · rw [lookup_assocInsert, unreserved]
      rfl
    · rw [lookup_assocInsert, unreserved, if_neg]
      intro same
      have whole := drop_eq_xmlns declares (beq_iff_eq.mp same).symm
      exact beq_eq_false_iff_ne.mp here whole
    · exact unreserved

end Children

theorem toOption_map {ε α β : Type} (change : α → β) (result : Except ε α) :
    (result.map change).toOption = result.toOption.map change := by
  cases result <;> rfl

/-- A fold that fails where an item is not quiet, and else does what another does. -/
theorem toOption_foldlM_map {α β γ ε : Type} {read : β → α → Except ε β} {means : β → γ → Option β}
    {expanded : α → γ} {quiet : α → Bool} (items : List α)
    (each : ∀ s, ∀ item ∈ items, (read s item).toOption =
      if quiet item then means s (expanded item) else none) : ∀ s,
    (items.foldlM read s).toOption =
      if items.all quiet then (items.map expanded).foldlM means s else none := by
  induction items with
  | nil => exact fun _ => rfl
  | cons item rest induction =>
    intro s
    have later := induction fun s other member => each s other (List.mem_cons_of_mem _ member)
    rw [List.foldlM_cons, toOption_bind, each s item List.mem_cons_self, List.all_cons,
      List.map_cons, List.foldlM_cons]
    cases quiet item with
    | false => rfl
    | true =>
      rw [if_pos rfl, Bool.true_and]
      change _ = if _ then (means s (expanded item)).bind _ else none
      cases means s (expanded item) with
      | none => exact (ite_self none).symm
      | some after => exact later after

/-! ## The walk -/

/-- Up to a depth the two walks agree where the one meets no declaration, and the one stops where it
does. -/
structure AgreesAt (labels : Labels) (depth : Nat) : Prop where
  node : ∀ (el : Element) (parent : Ctx) (s : Extractor),
    parent.ns.lookup "xmlns".toList = none → reserved el.child = true →
    (node labels depth el parent s).toOption =
      if quietNode parent.ns el.child then
        Expanded.node labels depth (expand parent.ns el.child) parent.scope s
      else none
  property : ∀ (subject : Term) (pe : Element) (parent : Ctx) (li : Nat) (s : Extractor),
    parent.ns.lookup "xmlns".toList = none → reserved pe.child = true →
    (property labels depth subject pe parent li s).toOption =
      if quietProperty parent.ns pe.child then
        Expanded.property labels depth subject (expand parent.ns pe.child) parent.scope li s
      else none

variable {labels : Labels} {depth : Nat}

theorem AgreesAt.properties (agrees : AgreesAt labels depth) (subject : Term) {ctx : Ctx}
    (unreserved : ctx.ns.lookup "xmlns".toList = none) {children : List Child}
    (fine : reservedAll children = true) (start : Extractor × Nat) :
    ((elements children).foldlM
      (fun (s, li) pe => RdfXml.property labels depth subject pe ctx li s) start).toOption =
      if quietProperties ctx.ns children then
        ((expands ctx.ns children).filter Expanded.isElement).foldlM
          (fun (s, li) pe => Expanded.property labels depth subject pe ctx.scope li s) start
      else none := by
  rw [quietProperties_eq, filter_expands]
  exact toOption_foldlM_map _ (fun s el member =>
    agrees.property subject el ctx s.2 s.1 unreserved (reserved_of_mem fine el member)) start

theorem AgreesAt.nodes (agrees : AgreesAt labels depth) (subject predicate : Term) {ctx : Ctx}
    (unreserved : ctx.ns.lookup "xmlns".toList = none) {children : List Child}
    (fine : reservedAll children = true) (start : Extractor) :
    ((elements children).foldlM (fun s child => do
        let (object, s) ← RdfXml.node labels depth child ctx s
        return s.push subject predicate object) start).toOption =
      if quietNodes ctx.ns children then
        ((expands ctx.ns children).filter Expanded.isElement).foldlM (fun s child => do
          let (object, s) ← Expanded.node labels depth child ctx.scope s
          return s.push subject predicate object) start
      else none := by
  rw [quietNodes_eq, filter_expands]
  refine toOption_foldlM_map _ (fun s el member => ?_) start
  rw [toOption_bind, agrees.node el ctx s unreserved (reserved_of_mem fine el member)]
  split_ifs
  · exact Option.bind_congr fun found _ => rfl
  · rfl

theorem agreesAt_zero (labels : Labels) : AgreesAt labels 0 where
  node el parent s _ _ := by
    have nothing : Expanded.node labels 0 (expand parent.ns el.child) parent.scope s = none := rfl
    rw [nothing]
    exact (ite_self none).symm
  property subject pe parent li s _ _ := by
    have nothing : Expanded.property labels 0 subject (expand parent.ns pe.child) parent.scope li s =
        none := rfl
    rw [nothing]
    exact (ite_self none).symm

theorem AgreesAt.succ_node (agrees : AgreesAt labels depth) (el : Element) (parent : Ctx)
    (s : Extractor) (unreserved : parent.ns.lookup "xmlns".toList = none)
    (fine : reserved el.child = true) :
    (RdfXml.node labels (depth + 1) el parent s).toOption =
      if quietNode parent.ns el.child then
        Expanded.node labels (depth + 1) (expand parent.ns el.child) parent.scope s
      else none := by
  obtain ⟨name, attrs, children⟩ := el
  obtain ⟨reservedHere, reservedBelow⟩ := Bool.and_eq_true_iff.mp fine
  have unreserved := lookup_declared (Bool.not_eq_true' _ |>.mp reservedHere) unreserved
  rw [← ns_child] at unreserved
  have quiet : quietNode parent.ns (Element.mk name attrs children).child =
      (!attrs.any (declaresPrefix ·.1) && quietProperties (parent.child attrs).ns children) := by
    rw [ns_child]
    rfl
  have means : Expanded.node labels (depth + 1) (expand parent.ns (Element.mk name attrs children).child)
      parent.scope s = (expandName (parent.child attrs).ns name).toOption.bind fun name =>
        (Expanded.subjectOf labels (expandAttrs (parent.child attrs).ns attrs)
          (parent.child attrs).scope s).bind fun found =>
          ((expandAttrs (parent.child attrs).ns attrs).foldlM
            (Expanded.propertyAttr true found.1 (parent.child attrs).scope)
            (if name = (rdfNs, "Description".toList) then found.2
              else found.2.push found.1 iriType (.iri (name.1 ++ name.2)))).bind fun s =>
            (((expands (parent.child attrs).ns children).filter Expanded.isElement).foldlM
              (fun (s, li) pe => Expanded.property labels depth found.1 pe
                (parent.child attrs).scope li s) (s, 1)).bind fun last =>
              some (found.1, last.1) := by
    rw [scope_child, ns_child]
    rfl
  rw [RdfXml.node, means, quiet, toOption_bind]
  cases (expandName (parent.child attrs).ns name).toOption with
  | none => exact (ite_self none).symm
  | some name =>
    rw [Option.bind_some, Option.bind_some, toOption_bind]
    cases declares : attrs.any (declaresPrefix ·.1) with
    | true =>
      -- Every attribute is looked at, if the subject is found at all.
      cases (subjectOf labels attrs (parent.child attrs) s).toOption with
      | none => rfl
      | some found =>
        rw [Option.bind_some, toOption_bind, toOption_foldlM_propertyAttr unreserved, declares]
        rfl
    | false =>
      rw [toOption_subjectOf labels unreserved declares, Bool.not_false, Bool.true_and]
      cases Expanded.subjectOf labels (expandAttrs (parent.child attrs).ns attrs)
          (parent.child attrs).scope s with
      | none => exact (ite_self none).symm
      | some found =>
        rw [Option.bind_some, Option.bind_some, toOption_bind,
          toOption_foldlM_propertyAttr unreserved, declares, if_neg Bool.false_ne_true]
        cases (expandAttrs (parent.child attrs).ns attrs).foldlM
            (Expanded.propertyAttr true found.1 (parent.child attrs).scope) _ with
        | none => exact (ite_self none).symm
        | some s =>
          rw [Option.bind_some, Option.bind_some, toOption_bind,
            agrees.properties found.1 unreserved reservedBelow]
          cases quietProperties (parent.child attrs).ns children <;> rfl

/-- A search that finds nothing has looked at every attribute. -/
theorem plain_of_unmet {ns : List (Text × Text)} {want : String}
    (sought : want.toList ≠ "xmlns".toList) {attrs : List (Text × Text)}
    (clear : unmet ns want attrs = true)
    (missing : Expanded.attrValue want (expandAttrs ns attrs) = some none) :
    attrs.any (declaresPrefix ·.1) = false := by
  induction attrs with
  | nil => rfl
  | cons attr rest induction =>
    obtain ⟨raw, value⟩ := attr
    obtain ⟨plain, goesOn⟩ := Bool.and_eq_true_iff.mp clear
    have plain := Bool.not_eq_true' _ |>.mp plain
    rw [expandAttrs_cons] at missing
    rw [List.any_cons, plain, Bool.false_or]
    by_cases isDefault : raw = "xmlns".toList
    · rw [if_pos (isDeclaration_of_default isDefault)] at missing
      rw [expandAttrName_default isDefault] at goesOn
      dsimp only [Except.toOption, Option.any_some] at goesOn
      rw [matchesRdf_default (isDefault ▸ sought), Bool.false_or] at goesOn
      exact induction goesOn missing
    · rw [isDeclaration_eq_false plain isDefault] at missing
      cases expanded : expandAttrName ns raw with
      | error problem =>
        rw [expanded] at missing
        cases missing
      | ok name =>
        rw [expanded] at missing goesOn
        change Expanded.attrValue want ((some name, value) :: expandAttrs ns rest) = _ at missing
        rw [expandedAttrValue_cons] at missing
        dsimp only [Except.toOption, Option.any_some] at goesOn
        cases hit : matchesRdf want name with
        | true =>
          rw [hit] at missing
          cases missing
        | false =>
          rw [hit] at missing goesOn
          exact induction goesOn missing

theorem AgreesAt.succ_property (agrees : AgreesAt labels depth) (subject : Term) (pe : Element)
    (parent : Ctx) (li : Nat) (s : Extractor) (unreserved : parent.ns.lookup "xmlns".toList = none)
    (fine : reserved pe.child = true) :
    (RdfXml.property labels (depth + 1) subject pe parent li s).toOption =
      if quietProperty parent.ns pe.child then
        Expanded.property labels (depth + 1) subject (expand parent.ns pe.child) parent.scope li s
      else none := by
  obtain ⟨name, attrs, children⟩ := pe
  obtain ⟨reservedHere, reservedBelow⟩ := Bool.and_eq_true_iff.mp fine
  have unreserved := lookup_declared (Bool.not_eq_true' _ |>.mp reservedHere) unreserved
  obtain ⟨-, -, nodeId, resource, parseType, datatype⟩ := sought_names
  have quiet : quietProperty parent.ns (Element.mk name attrs children).child =
      (unmet (declared parent.ns attrs) "resource" attrs &&
        (hasRdf (declared parent.ns attrs) "resource" attrs ||
          hasRdf (declared parent.ns attrs) "nodeID" attrs ||
          if (Expanded.attrValue "parseType" (expandAttrs (declared parent.ns attrs) attrs)).join =
              some "Resource".toList then quietProperties (declared parent.ns attrs) children
          else (Expanded.attrValue "parseType" (expandAttrs (declared parent.ns attrs) attrs)).join ==
              some "Literal".toList || quietNodes (declared parent.ns attrs) children)) := rfl
  change _ = if _ then Expanded.property labels (depth + 1) subject (.element
    (expandName (declared parent.ns attrs) name).toOption
        (expandAttrs (declared parent.ns attrs) attrs) (baseOf attrs) (langOf attrs)
        (expands (declared parent.ns attrs) children)) parent.scope li s else none
  rw [quiet, RdfXml.property, Expanded.property]
  dsimp only
  rw [← scope_child, ← ns_child] at *
  generalize parent.child attrs = ctx at *
  rw [toOption_bind]
  cases (expandName ctx.ns name).toOption with
  | none => exact (ite_self none).symm
  | some name =>
    dsimp only [Option.bind_some, Option.bind_eq_bind]
    rw [toOption_bind, toOption_attrValue unreserved resource]
    cases clear : unmet ctx.ns "resource" attrs with
    | false => rfl
    | true =>
      rw [if_pos rfl, Bool.true_and, hasRdf]
      rcases missing : Expanded.attrValue "resource" (expandAttrs ctx.ns attrs) with _ | _ | found
      · exact (ite_self none).symm
      · have plain := plain_of_unmet resource clear missing
        dsimp only [Option.bind_some]
        rw [toOption_bind, toOption_attrValue_plain unreserved nodeId plain, hasRdf]
        rcases Expanded.attrValue "nodeID" (expandAttrs ctx.ns attrs) with _ | _ | label
        · exact (ite_self none).symm
        · dsimp only [Option.bind_some]
          rw [toOption_bind, toOption_attrValue_plain unreserved parseType plain]
          cases Expanded.attrValue "parseType" (expandAttrs ctx.ns attrs) with
          | none => exact (ite_self none).symm
          | some parseType =>
            dsimp only [Option.bind_some]
            change _ = if (if parseType = some "Resource".toList then
                quietProperties ctx.ns children
              else parseType == some "Literal".toList || quietNodes ctx.ns children) then _
              else none
            by_cases isResource : parseType = some "Resource".toList
            · rw [if_pos isResource, if_pos isResource, if_pos isResource, toOption_bind,
                toOption_foldlM_propertyAttr unreserved, plain, if_neg Bool.false_ne_true]
              cases (expandAttrs ctx.ns attrs).foldlM (Expanded.propertyAttr false
                  (Extractor.freshBlank labels s).1 ctx.scope) _ with
              | none => exact (ite_self none).symm
              | some s =>
                dsimp only [Option.bind_some]
                rw [toOption_bind, agrees.properties _ unreserved reservedBelow]
                cases quietProperties ctx.ns children <;> rfl
            · rw [if_neg isResource, if_neg isResource, if_neg isResource]
              by_cases isLiteral : parseType = some "Literal".toList
              · rw [if_pos isLiteral, if_pos isLiteral, beq_iff_eq.mpr isLiteral,
                  texts_expands]
                rfl
              · rw [if_neg isLiteral, if_neg isLiteral, beq_eq_false_iff_ne.mpr isLiteral,
                  Bool.false_or, any_isElement]
                by_cases nested : hasElementChildren children = true
                · rw [if_pos nested, if_pos nested, toOption_bind,
                    agrees.nodes subject _ unreserved reservedBelow]
                  cases quietNodes ctx.ns children <;> rfl
                · have none : elements children = [] := by
                    rw [hasElementChildren, Bool.not_eq_true', Bool.not_eq_false,
                      List.isEmpty_iff] at nested
                    exact nested
                  rw [if_neg nested, if_neg nested, quietNodes_eq, none, toOption_bind,
                    toOption_attrValue_plain unreserved datatype plain, texts_expands]
                  cases Expanded.attrValue "datatype" (expandAttrs ctx.ns attrs) <;> rfl
        · rfl
      · rfl

theorem agreesAt (labels : Labels) (depth : Nat) : AgreesAt labels depth := by
  induction depth with
  | zero => exact agreesAt_zero labels
  | succ depth agrees => exact ⟨agrees.succ_node, agrees.succ_property⟩

end GStore.Parser.RdfXml
