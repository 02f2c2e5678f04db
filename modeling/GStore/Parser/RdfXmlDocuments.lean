import GStore.Parser.RdfXmlNames

/-! # RDF/XML documents by their names

What a whole document says by its expanded names, and when the reader says it. -/

namespace GStore.Parser.RdfXml

open Reason Turtle Xml

/-! ## Meaning of a document -/

namespace Expanded

mutual

def height : Expanded → Nat
  | .element _ _ _ _ children => heights children + 1
  | .text _ => 0

def heights : List Expanded → Nat
  | [] => 0
  | child :: rest => max child.height (heights rest)

end

def Scope.root : Scope where
  lang := none
  base := []

/-- The node elements of `rdf:RDF`, or a single one. -/
def run (labels : Labels) : Expanded → Option Extractor
  | .element name attrs base lang children => do
    if (← name) = (rdfNs, "RDF".toList) then
      (children.filter isElement).foldlM (fun s child =>
        (node labels (heights children + 1) child (Scope.root.child base lang) s).map Prod.snd)
        .new
    else (node labels (heights children + 2) (.element name attrs base lang children)
      .root .new).map Prod.snd
  | .text _ => none

mutual

/-- Every prefix that is used is declared. -/
def complete : Expanded → Bool
  | .element name attrs _ _ children =>
    name.isSome && attrs.all (·.1.isSome) && completeAll children
  | .text _ => true

def completeAll : List Expanded → Bool
  | [] => true
  | child :: rest => child.complete && completeAll rest

end

end Expanded

namespace Expanded

mutual

def decEq : (first second : Expanded) → Decidable (first = second)
  | .element name attrs base lang children, .element other others otherBase otherLang inner =>
    have := decEqs children inner
    decidable_of_iff (name = other ∧ attrs = others ∧ base = otherBase ∧ lang = otherLang ∧
      children = inner) (Expanded.element.injEq ..).to_iff.symm
  | .text value, .text other =>
    decidable_of_iff (value = other) ⟨congrArg Expanded.text, Expanded.text.inj⟩
  | .element .., .text _ => isFalse Expanded.noConfusion
  | .text _, .element .. => isFalse Expanded.noConfusion

def decEqs : (first second : List Expanded) → Decidable (first = second)
  | [], [] => isTrue rfl
  | [], child :: rest => isFalse (List.cons_ne_nil child rest).symm
  | child :: rest, [] => isFalse (List.cons_ne_nil child rest)
  | child :: rest, other :: others =>
    have := decEq child other
    have := decEqs rest others
    decidable_of_iff (child = other ∧ rest = others) (List.cons.injEq ..).to_iff.symm

end

end Expanded

instance : DecidableEq Expanded := Expanded.decEq

/-- A document by its expanded names. -/
def expandRoot (root : Element) : Expanded := expand Ctx.root.ns root.child

/-- The walk over a whole document meets no declaration of a prefix. -/
def quietRoot (root : Element) : Bool :=
  if (expandName (declared Ctx.root.ns root.attrs) root.name).toOption = some (rdfNs, "RDF".toList)
  then quietNodes (declared Ctx.root.ns root.attrs) root.children
  else quietNode Ctx.root.ns root.child

/-! ## Heights -/

mutual

theorem height_expand (ns : List (Text × Text)) : ∀ child : Child,
    (expand ns child).height = child.height
  | .element _ attrs children =>
    congrArg (· + 1) (heights_expands (declared ns attrs) children)
  | .text _ => rfl

theorem heights_expands (ns : List (Text × Text)) : ∀ children : List Child,
    Expanded.heights (expands ns children) = heights children
  | [] => rfl
  | child :: rest => congrArg₂ max (height_expand ns child) (heights_expands ns rest)

end

/-! ## Documents with a meaning -/

section Meaning

open Expanded

theorem foldlM_isSome {α β : Type} {read : β → α → Option β} {items : List α}
    (each : ∀ s, ∀ item ∈ items, (read s item).isSome) : ∀ s, (items.foldlM read s).isSome := by
  induction items with
  | nil => exact fun _ => rfl
  | cons item rest induction =>
    intro s
    obtain ⟨after, first⟩ := Option.isSome_iff_exists.mp (each s item List.mem_cons_self)
    rw [List.foldlM_cons, first]
    exact induction (fun s other member => each s other (List.mem_cons_of_mem _ member)) after

theorem bind_isSome {α β : Type} {first : Option α} {next : α → Option β}
    (found : first.isSome) (later : ∀ value, (next value).isSome) : (first.bind next).isSome := by
  obtain ⟨value, rfl⟩ := Option.isSome_iff_exists.mp found
  exact later value

variable {attrs : List (Option (Text × Text) × Text)} (named : attrs.all (·.1.isSome) = true)

include named

theorem Expanded.attrValue_isSome (want : String) :
    (Expanded.attrValue want attrs).isSome := by
  induction attrs with
  | nil => rfl
  | cons attr rest induction =>
    obtain ⟨here, later⟩ := Bool.and_eq_true_iff.mp named
    obtain ⟨_ | name, value⟩ := attr
    · cases here
    · rw [expandedAttrValue_cons]
      split_ifs
      · rfl
      · exact induction later

theorem Expanded.propertyAttrs_isSome (typed : Bool) (subject : Term) (scope : Scope)
    (s : Extractor) : (attrs.foldlM (Expanded.propertyAttr typed subject scope) s).isSome := by
  refine foldlM_isSome (fun s attr member => ?_) s
  obtain ⟨_ | name, value⟩ := attr
  · cases List.all_eq_true.mp named _ member
  · rw [Expanded.propertyAttr]
    dsimp only [bind, Option.bind]
    split_ifs <;> rfl

theorem Expanded.subjectOf_isSome (labels : Labels) (scope : Scope) (s : Extractor) :
    (Expanded.subjectOf labels attrs scope s).isSome := by
  refine bind_isSome (Expanded.attrValue_isSome named "about") fun about => ?_
  cases about with
  | some about => rfl
  | none =>
    refine bind_isSome (Expanded.attrValue_isSome named "ID") fun id => ?_
    cases id with
    | some id => rfl
    | none =>
      refine bind_isSome (Expanded.attrValue_isSome named "nodeID") fun label => ?_
      cases label <;> rfl

omit named

/-- Up to a height a tree in which every prefix is declared has a meaning. -/
structure MeansAt (labels : Labels) (depth : Nat) : Prop where
  node : ∀ tree : Expanded, tree.isElement = true → tree.complete = true → tree.height ≤ depth →
    ∀ scope s, (Expanded.node labels depth tree scope s).isSome
  property : ∀ tree : Expanded, tree.isElement = true → tree.complete = true →
    tree.height ≤ depth → ∀ subject scope li s,
      (Expanded.property labels depth subject tree scope li s).isSome

theorem of_mem_children {children : List Expanded} {depth : Nat}
    (all : Expanded.completeAll children = true) (low : Expanded.heights children ≤ depth) :
    ∀ tree ∈ children.filter Expanded.isElement,
      tree.isElement = true ∧ tree.complete = true ∧ tree.height ≤ depth := by
  induction children with
  | nil => exact fun tree member => absurd member List.not_mem_nil
  | cons child rest induction =>
    obtain ⟨here, later⟩ := Bool.and_eq_true_iff.mp all
    have rest := induction later ((Nat.le_max_right _ _).trans low)
    intro tree member
    rw [List.filter_cons] at member
    split_ifs at member with element
    · rcases List.mem_cons.mp member with rfl | inner
      · exact ⟨element, here, (Nat.le_max_left _ _).trans low⟩
      · exact rest tree inner
    · exact rest tree member

theorem MeansAt.succ_node {labels : Labels} {depth : Nat} (means : MeansAt labels depth)
    (tree : Expanded) (element : tree.isElement = true) (all : tree.complete = true)
    (low : tree.height ≤ depth + 1) (scope : Scope) (s : Extractor) :
    (Expanded.node labels (depth + 1) tree scope s).isSome := by
  cases tree with
  | text value => cases element
  | element name attrs base lang children =>
    obtain ⟨front, below⟩ := Bool.and_eq_true_iff.mp all
    obtain ⟨isName, named⟩ := Bool.and_eq_true_iff.mp front
    have inner := of_mem_children below (Nat.le_of_succ_le_succ low)
    rw [Expanded.node]
    refine bind_isSome isName fun name => ?_
    refine bind_isSome (Expanded.subjectOf_isSome named labels _ s) fun found => ?_
    refine bind_isSome (Expanded.propertyAttrs_isSome named true _ _ _) fun s => ?_
    refine bind_isSome (foldlM_isSome (fun start tree member => ?_) _) fun last => rfl
    obtain ⟨element, all, low⟩ := inner tree member
    exact means.property tree element all low ..

theorem MeansAt.succ_property {labels : Labels} {depth : Nat} (means : MeansAt labels depth)
    (tree : Expanded) (element : tree.isElement = true) (all : tree.complete = true)
    (low : tree.height ≤ depth + 1) (subject : Term) (scope : Scope) (li : Nat) (s : Extractor) :
    (Expanded.property labels (depth + 1) subject tree scope li s).isSome := by
  cases tree with
  | text value => cases element
  | element name attrs base lang children =>
    obtain ⟨front, below⟩ := Bool.and_eq_true_iff.mp all
    obtain ⟨isName, named⟩ := Bool.and_eq_true_iff.mp front
    have inner := of_mem_children below (Nat.le_of_succ_le_succ low)
    rw [Expanded.property]
    refine bind_isSome isName fun name => ?_
    refine bind_isSome (Expanded.attrValue_isSome named "resource") fun resource => ?_
    cases resource with
    | some resource => rfl
    | none =>
      refine bind_isSome (Expanded.attrValue_isSome named "nodeID") fun label => ?_
      cases label with
      | some label => rfl
      | none =>
        refine bind_isSome (Expanded.attrValue_isSome named "parseType") fun kind => ?_
        split_ifs
        · refine bind_isSome (Expanded.propertyAttrs_isSome named false _ _ _) fun s => ?_
          refine bind_isSome (foldlM_isSome (fun start tree member => ?_) _) fun last => rfl
          obtain ⟨element, all, low⟩ := inner tree member
          exact means.property tree element all low ..
        · rfl
        · refine bind_isSome (foldlM_isSome (fun start tree member => ?_) _) fun last => rfl
          obtain ⟨element, all, low⟩ := inner tree member
          exact bind_isSome (means.node tree element all low ..) fun found => rfl
        · exact bind_isSome (Expanded.attrValue_isSome named "datatype") fun found => rfl

theorem meansAt (labels : Labels) (depth : Nat) : MeansAt labels depth := by
  induction depth with
  | zero =>
    constructor
    all_goals
      intro tree element _ low
      cases tree with
      | text value => cases element
      | element name attrs base lang children => cases low
  | succ depth means => exact ⟨means.succ_node, means.succ_property⟩

/-- A document in which every prefix is declared says something. -/
theorem Expanded.run_isSome (labels : Labels) {root : Expanded} (element : root.isElement = true)
    (all : root.complete = true) : (root.run labels).isSome := by
  cases root with
  | text value => cases element
  | element name attrs base lang children =>
    obtain ⟨front, below⟩ := Bool.and_eq_true_iff.mp all
    obtain ⟨isName, named⟩ := Bool.and_eq_true_iff.mp front
    rw [Expanded.run]
    refine bind_isSome isName fun found => ?_
    split_ifs
    · refine foldlM_isSome (fun s child member => ?_) _
      obtain ⟨element, all, low⟩ := of_mem_children below (Nat.le_succ _) child member
      rw [Option.isSome_map]
      exact (meansAt labels _).node child element all low ..
    · rw [Option.isSome_map]
      exact (meansAt labels _).node _ element all (Nat.le_succ _) ..

end Meaning

/-! ## Where a declaration stands -/

/-! ## Declaring twice

The attributes of a root that is a node element itself are taken up twice. -/

section Twice

variable {ns attrs : List (Text × Text)}

/-- The prefix that an attribute declares. -/
def declaredPrefix (raw : Text) : Option Text :=
  if raw = "xmlns".toList then some []
  else if declaresPrefix raw then some (raw.drop 6) else none

theorem declareNs_eq (ns : List (Text × Text)) (attr : Text × Text) :
    declareNs ns attr =
      (declaredPrefix attr.1).elim ns fun head => assocInsert head attr.2 ns := by
  rw [declareNs, declaredPrefix]
  split_ifs <;> rfl

theorem lookup_declared_cases (attrs : List (Text × Text)) (head : Text) :
    (∀ ns other, (declared ns attrs).lookup head = (declared other attrs).lookup head) ∨
      ∀ ns, (declared ns attrs).lookup head = ns.lookup head := by
  induction attrs with
  | nil => exact .inr fun _ => rfl
  | cons attr rest induction =>
    rcases induction with same | kept
    · exact .inl fun ns other => same (declareNs ns attr) (declareNs other attr)
    · have step (ns : List (Text × Text)) : (declared ns (attr :: rest)).lookup head =
          (declareNs ns attr).lookup head := kept (declareNs ns attr)
      cases declares : declaredPrefix attr.1 with
      | none =>
        refine .inr fun ns => ?_
        rw [step, declareNs_eq, declares]
        rfl
      | some found =>
        have inserted (ns : List (Text × Text)) : (declared ns (attr :: rest)).lookup head =
            if head == found then some attr.2 else ns.lookup head := by
          rw [step, declareNs_eq, declares]
          exact lookup_assocInsert found head attr.2 ns
        by_cases isHead : head == found
        · refine .inl fun ns other => ?_
          rw [inserted, inserted, if_pos isHead, if_pos isHead]
        · refine .inr fun ns => ?_
          rw [inserted, if_neg isHead]

theorem keys_declared_of_mem (attrs : List (Text × Text)) {ns : List (Text × Text)}
    (known : ∀ attr ∈ attrs, ∀ head, declaredPrefix attr.1 = some head → head ∈ ns.map Prod.fst) :
    (declared ns attrs).map Prod.fst = ns.map Prod.fst := by
  induction attrs generalizing ns with
  | nil => rfl
  | cons attr rest induction =>
    have step : (declareNs ns attr).map Prod.fst = ns.map Prod.fst := by
      rw [declareNs_eq]
      cases isHead : declaredPrefix attr.1 with
      | none => rfl
      | some head =>
        exact keys_assocInsert_of_mem attr.2 (known attr List.mem_cons_self head isHead)
    change (declared (declareNs ns attr) rest).map Prod.fst = _
    rw [induction fun other member head isHead =>
      step ▸ known other (List.mem_cons_of_mem _ member) head isHead, step]

theorem mem_keys_declared (head : Text) (attrs : List (Text × Text)) {ns : List (Text × Text)}
    (known : head ∈ ns.map Prod.fst ∨ ∃ attr ∈ attrs, declaredPrefix attr.1 = some head) :
    head ∈ (declared ns attrs).map Prod.fst := by
  induction attrs generalizing ns with
  | nil => exact known.resolve_right fun found => by simp at found
  | cons attr rest induction =>
    refine @induction (declareNs ns attr) ?_
    rw [declareNs_eq]
    rcases known with old | ⟨other, member, isHead⟩
    · left
      cases declaredPrefix attr.1 with
      | none => exact old
      | some found => exact (mem_keys_assocInsert found head attr.2 ns).mpr (.inr old)
    · rcases List.mem_cons.mp member with rfl | later
      · left
        rw [isHead]
        exact (mem_keys_assocInsert head head other.2 ns).mpr (.inl rfl)
      · exact .inr ⟨other, later, isHead⟩

theorem nodup_declared (attrs : List (Text × Text)) {ns : List (Text × Text)}
    (nodup : (ns.map Prod.fst).Nodup) : ((declared ns attrs).map Prod.fst).Nodup := by
  induction attrs generalizing ns with
  | nil => exact nodup
  | cons attr rest induction =>
    refine @induction (declareNs ns attr) ?_
    rw [declareNs_eq]
    cases declaredPrefix attr.1 with
    | none => exact nodup
    | some head => exact nodup_keys_assocInsert head attr.2 nodup

theorem declared_declared (nodup : (ns.map Prod.fst).Nodup) :
    declared (declared ns attrs) attrs = declared ns attrs := by
  refine eq_of_keys_of_lookup (keys_declared_of_mem attrs fun attr member head isHead =>
    mem_keys_declared head attrs (.inr ⟨attr, member, isHead⟩)) (nodup_declared attrs nodup) ?_
  intro head
  rcases lookup_declared_cases attrs head with same | kept
  · exact same _ _
  · exact kept _

end Twice

theorem scope_child_child (scope : Expanded.Scope) (base : Option Text)
    (lang : Option (Option Text)) :
    (scope.child base lang).child base lang = scope.child base lang := by
  cases base <;> cases lang <;> rfl

theorem Ctx.child_child {ctx : Ctx} (nodup : (ctx.ns.map Prod.fst).Nodup)
    (attrs : List (Text × Text)) : (ctx.child attrs).child attrs = ctx.child attrs := by
  have ns : ((ctx.child attrs).child attrs).ns = (ctx.child attrs).ns := by
    rw [ns_child, ns_child, declared_declared nodup]
  have scope : ((ctx.child attrs).child attrs).scope = (ctx.child attrs).scope := by
    rw [scope_child, scope_child, scope_child_child]
  cases twice : (ctx.child attrs).child attrs
  cases once : ctx.child attrs
  rw [twice, once] at ns scope
  cases ns
  cases scope
  rfl

/-! ## A run -/

/-- A node looks at its own context only. -/
theorem node_child (labels : Labels) (depth : Nat) (el : Element) {ctx : Ctx}
    (nodup : (ctx.ns.map Prod.fst).Nodup) (s : Extractor) :
    node labels depth el (ctx.child el.attrs) s = node labels depth el ctx s := by
  cases depth with
  | zero => rw [node, node]
  | succ depth => rw [node, node, Ctx.child_child nodup]

theorem unreserved_root : Ctx.root.ns.lookup "xmlns".toList = none := by decide +kernel

/-- The reader says what a document says by its names, where the walk meets no declaration. -/
theorem toOption_run (labels : Labels) {root : Element} (fine : reserved root.child = true) :
    (run labels root).toOption =
      if quietRoot root then (expandRoot root).run labels else none := by
  obtain ⟨name, attrs, children⟩ := root
  obtain ⟨reservedHere, reservedBelow⟩ := Bool.and_eq_true_iff.mp fine
  have unreserved := lookup_declared (Bool.not_eq_true' _ |>.mp reservedHere) unreserved_root
  have whole := (agreesAt labels (heights children + 2)).node ⟨name, attrs, children⟩ Ctx.root Extractor.new
    unreserved_root fine
  have means : (expandRoot ⟨name, attrs, children⟩).run labels =
      (expandName (declared Ctx.root.ns attrs) name).toOption.bind fun found =>
        if found = (rdfNs, "RDF".toList) then
          ((expands (declared Ctx.root.ns attrs) children).filter Expanded.isElement).foldlM
            (fun s child => (Expanded.node labels (heights children + 1) child
              (Ctx.root.child attrs).scope s).map Prod.snd) .new
        else (Expanded.node labels (heights children + 2)
          (expand Ctx.root.ns (Element.mk name attrs children).child) Ctx.root.scope .new).map
            Prod.snd := by
    rw [scope_child, ← heights_expands (declared Ctx.root.ns attrs) children]
    rfl
  rw [means, run, quietRoot]
  dsimp only
  rw [toOption_bind, ns_child]
  cases (expandName (declared Ctx.root.ns attrs) name).toOption with
  | none => exact (ite_self none).symm
  | some found =>
    rw [Option.bind_some, Option.bind_some]
    by_cases isRdf : found = (rdfNs, "RDF".toList)
    · rw [if_pos isRdf, if_pos isRdf, if_pos (congrArg some isRdf), quietNodes_eq, filter_expands]
      refine toOption_foldlM_map _ (fun s el member => ?_) Extractor.new
      have unreserved : (Ctx.root.child attrs).ns.lookup "xmlns".toList = none :=
        ns_child Ctx.root attrs ▸ unreserved
      have each := (agreesAt labels (heights children + 1)).node el (Ctx.root.child attrs) s
        unreserved (reserved_of_mem reservedBelow el member)
      rw [ns_child] at each
      rw [toOption_map]
      change Option.map Prod.snd (node labels (heights children + 1) el _ s).toOption = _
      rw [each]
      split_ifs <;> rfl
    · have other : ¬ some found = some (rdfNs, "RDF".toList) :=
        fun same => isRdf (Option.some.inj same)
      rw [if_neg isRdf, if_neg isRdf, if_neg other, toOption_map]
      have once := @node_child labels (heights children + 2) ⟨name, attrs, children⟩ Ctx.root
        (List.nodup_singleton _) Extractor.new
      change Option.map Prod.snd (node labels (heights children + 2) _ _ .new).toOption = _
      rw [once, whole]
      split_ifs <;> rfl

/-! ## Documents -/

/-- What the expanded names of a document say. -/
def meaning (root : Element) : Option (List Triple) :=
  ((expandRoot root).run sourceLabels).map Extractor.triples

/-- A text that is the XML of an element, with the reserved prefix undeclared. -/
structure Spells (content : Text) (root : Element) : Prop where
  parsed : parseDocument (content.length + 1) content = .ok root
  fine : reserved root.child = true

theorem Spells.toOption_parseStr {content : Text} {root : Element} (spells : Spells content root) :
    (parseStr content).toOption = if quietRoot root then meaning root else none := by
  have document : (parseStr content).toOption =
      (run sourceLabels root).toOption.map Extractor.triples := by
    rw [parseStr, spells.parsed]
    dsimp only
    cases run sourceLabels root <;> rfl
  rw [document, toOption_run sourceLabels spells.fine, meaning]
  split_ifs <;> rfl

theorem meaning_isSome {root : Element} (all : (expandRoot root).complete = true) :
    (meaning root).isSome := by
  rw [meaning, Option.isSome_map]
  exact Expanded.run_isSome sourceLabels rfl all

/-- The reader depends on expanded names only, in documents whose walk meets no declaration. -/
theorem parseStr_iff_quietRoot {content : Text} {root : Element} (spells : Spells content root) :
    ((parseStr content).toOption = meaning root ↔ meaning root = none ∨ quietRoot root = true) ∧
      ((expandRoot root).complete = true → (meaning root).isSome) ∧
      ∀ triples, parseStr content = .ok triples → ∀ other otherRoot, Spells other otherRoot →
        expandRoot otherRoot = expandRoot root →
        (parseStr other = .ok triples ↔ quietRoot otherRoot = true) := by
  refine ⟨?_, meaning_isSome, ?_⟩
  · rw [spells.toOption_parseStr]
    cases quietRoot root with
    | true => simp
    | false => simp [eq_comm]
  · intro triples read other otherRoot spelled same
    have means : meaning otherRoot = some triples := by
      rw [← toOption_eq_some_iff, spells.toOption_parseStr] at read
      rw [meaning, same]
      exact (Option.ite_none_right_eq_some.mp read).2
    rw [← toOption_eq_some_iff, spelled.toOption_parseStr, means, Option.ite_none_right_eq_some]
    exact and_iff_left rfl

def declaredAbove : Text :=
  ("<r:RDF xmlns:r='http://www.w3.org/1999/02/22-rdf-syntax-ns#' xmlns:e='e:'><e:C/>"
    ++ "</r:RDF>").toList

def declaredBelow : Text :=
  ("<r:RDF xmlns:r='http://www.w3.org/1999/02/22-rdf-syntax-ns#'><e:C xmlns:e='e:'/>"
    ++ "</r:RDF>").toList

def aboveRoot : Element where
  name := "r:RDF".toList
  attrs := [("xmlns:r".toList, rdfNs), ("xmlns:e".toList, "e:".toList)]
  children := [.element "e:C".toList [] []]

def belowRoot : Element where
  name := "r:RDF".toList
  attrs := [("xmlns:r".toList, rdfNs)]
  children := [.element "e:C".toList [("xmlns:e".toList, "e:".toList)] []]

theorem spells_above : Spells declaredAbove aboveRoot where
  parsed := by decide +kernel
  fine := by decide +kernel

theorem spells_below : Spells declaredBelow belowRoot where
  parsed := by decide +kernel
  fine := by decide +kernel

theorem parseStr_declaredAbove : (parseStr declaredAbove).toOption = meaning aboveRoot :=
  (parseStr_iff_quietRoot spells_above).1.mpr (.inr (by decide +kernel))

/-- Two documents with the same expanded names read the same, and a declaration is no error. -/
def NamesOnly : Prop :=
  (∀ content root other otherRoot triples, Spells content root → Spells other otherRoot →
    expandRoot otherRoot = expandRoot root →
    parseStr content = .ok triples → parseStr other = .ok triples) ∧
  ∀ content root, Spells content root → (parseStr content).toOption = meaning root

theorem not_namesOnly : ¬ NamesOnly := by
  intro names
  have above : parseStr declaredAbove = .ok
      [⟨.blank "rx0".toList, iriType, .iri "e:C".toList⟩] := by decide +kernel
  have below : parseStr declaredBelow = .error (.rdf (.undefinedPrefix "xmlns".toList)) := by
    decide +kernel
  have same : expandRoot belowRoot = expandRoot aboveRoot := by decide +kernel
  have read := names.1 _ _ _ _ _ spells_above spells_below same above
  rw [below] at read
  cases read

end GStore.Parser.RdfXml
