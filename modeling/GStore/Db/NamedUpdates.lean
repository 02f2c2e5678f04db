import GStore.Db.UpdateFrames
import GStore.Parser.SparqlUpdate

/-! # Updates that name a graph

From the tokens of an update request to the graphs that its execution writes to. `GRAPH` blocks of
`DATA` and the targets of `CLEAR` and `DROP` are written to; the graph of a `WITH` and the one
behind `INTO` are read and dropped, so that these operations write to the default graph. -/

namespace GStore.Parser.Sparql

open Db Query

/-! ## Operations that name a graph -/

/-- How an operation names a graph. -/
inductive Form where
  | data
  | target
  | with_
  | load

/-- The graphs that an operation writes to, by the graph that it names. -/
def Form.graphs (graph : Text) : Form → Set (Option Text)
  | .data | .target => {some graph}
  | .with_ | .load => {none}

/-- Up to the closing brace there are `GRAPH` blocks of one graph. -/
inductive GraphBlocks (graph : Text) : Cursor → Prop where
  | close {c : Cursor} (closes : c.peek = .rbrace) : GraphBlocks graph c
  | dot {c : Cursor} (isDot : c.peek = .dot) (rest : GraphBlocks graph c.bump) : GraphBlocks graph c
  | block {c inner after : Cursor} {triples : List GroundTriple} (isBlock : c.atWord "GRAPH" = true)
      (name : parseGraphTerm c.bump = .ok (.iri graph, inner))
      (block : parseGroundGraph c.bump = .ok (triples, after)) (rest : GraphBlocks graph after) :
      GraphBlocks graph c

/-- The operation at the cursor has a form and names a graph. -/
inductive NamesGraph (graph : Text) : Form → Cursor → Prop where
  /-- `INSERT DATA { GRAPH <graph> { … } … }`, and `DELETE DATA` likewise. -/
  | data {c : Cursor} (op : c.atWord "INSERT" = true ∨ c.atWord "DELETE" = true)
      (isData : c.bump.atWord "DATA" = true) (opens : c.bump.bump.peek = .lbrace)
      (blocks : GraphBlocks graph c.bump.bump.bump) : NamesGraph graph .data c
  /-- `CLEAR [SILENT] GRAPH <graph>`, and `DROP` likewise. -/
  | target {c after : Cursor} (op : c.atWord "CLEAR" = true ∨ c.atWord "DROP" = true)
      (isGraph : (c.bump.eatKeyword "SILENT").2.atWord "GRAPH" = true)
      (name : expectGraphIri (c.bump.eatKeyword "SILENT").2.bump = .ok (graph, after))
      (nonempty : graph ≠ []) : NamesGraph graph .target c
  /-- `WITH <graph>` before a modification. -/
  | with_ {c after : Cursor} (isWith : c.atWord "WITH" = true)
      (name : expectGraphIri c.bump = .ok (graph, after))
      (op : after.atWord "INSERT" = true ∨ after.atWord "DELETE" = true)
      (modifies : after.bump.atWord "DATA" = false) : NamesGraph graph .with_ c
  /-- `LOAD [SILENT] <source> INTO GRAPH <graph>`. -/
  | load {c middle after : Cursor} {source : Text} (isLoad : c.atWord "LOAD" = true)
      (file : expectGraphIri (c.bump.eatKeyword "SILENT").2 = .ok (source, middle))
      (into : middle.atWord "INTO" = true) (isGraph : middle.bump.atWord "GRAPH" = true)
      (name : expectGraphIri middle.bump.bump = .ok (graph, after)) : NamesGraph graph .load c

/-! ## What the parser makes of them -/

section Parse

variable {c after : Cursor} {graph : Text} {triples : List GroundTriple}

theorem groundTriple_graph {name : Option Text} {patterns : List TriplePattern} :
    ∀ {triples : List GroundTriple}, patterns.mapM (groundTriple name) = .ok triples →
      ∀ ground ∈ triples, ground.graph = name := by
  induction patterns with
  | nil =>
    intro triples ran ground member
    cases ran
    cases member
  | cons pattern rest induction =>
    intro triples ran ground member
    rw [List.mapM_cons] at ran
    simp only [bind_eq_ok] at ran
    obtain ⟨first, read, others, further, same⟩ := ran
    cases same
    rcases List.mem_cons.mp member with rfl | later
    · simp only [groundTriple, bind_eq_ok] at read
      obtain ⟨_, -, _, -, _, -, same⟩ := read
      cases same
      rfl
    · exact induction further ground later

theorem parseGroundSubject_graph {name : Option Text}
    (ran : parseGroundSubject name c = .ok (triples, after)) :
    ∀ ground ∈ triples, ground.graph = name := by
  simp only [parseGroundSubject, bind_eq_ok, Prod.exists] at ran
  obtain ⟨block, middle, -, ran⟩ := ran
  split at ran
  · simp only [bind_eq_ok] at ran
    obtain ⟨read, grounded, same⟩ := ran
    cases same
    exact groundTriple_graph grounded
  · cases ran

theorem groundGraphBlock_graph (fuel : Nat) :
    ∀ {c : Cursor} {triples : List GroundTriple},
      groundGraphBlock graph fuel c = .ok (triples, after) →
      ∀ ground ∈ triples, ground.graph = some graph := by
  induction fuel with
  | zero =>
    intro c triples ran
    cases ran
  | succ fuel induction =>
    intro c triples ran ground member
    rw [groundGraphBlock] at ran
    split at ran
    · cases ran
      cases member
    · exact induction ran ground member
    · cases ran
    · simp only [bind_eq_ok, Prod.exists] at ran
      obtain ⟨here, middle, read, further, last, rest, same⟩ := ran
      cases same
      rcases List.mem_append.mp member with first | later
      · exact parseGroundSubject_graph read ground first
      · exact induction rest ground later

theorem parseGroundGraph_graph {inner : Cursor} (name : parseGraphTerm c = .ok (.iri graph, inner))
    (ran : parseGroundGraph c = .ok (triples, after)) :
    ∀ ground ∈ triples, ground.graph = some graph := by
  simp only [parseGroundGraph, name, bind_eq_ok, Except.ok.injEq, Prod.exists] at ran
  obtain ⟨_, _, same, ran⟩ := ran
  cases same
  simp only [bind_eq_ok] at ran
  obtain ⟨opened, -, ran⟩ := ran
  exact groundGraphBlock_graph _ ran

/-- What `GRAPH` blocks of one graph hold goes to that graph. -/
theorem groundBlockLoop_graph (fuel : Nat) : ∀ {c : Cursor} {triples : List GroundTriple},
    GraphBlocks graph c → groundBlockLoop fuel c = .ok (triples, after) →
    ∀ ground ∈ triples, ground.graph = some graph := by
  induction fuel with
  | zero =>
    intro c triples _ ran
    cases ran
  | succ fuel induction =>
    intro c triples blocks ran ground member
    rw [groundBlockLoop] at ran
    split at ran
    · cases ran
      cases member
    · rename_i open_
      split at ran
      · rename_i isDot
        cases blocks with
        | close closes => exact absurd closes open_
        | dot _ rest => exact induction rest ran ground member
        | block isBlock => simp [Cursor.atWord, Cursor.keyword, isDot] at isBlock
      · rename_i notDot
        cases blocks with
        | close closes => exact absurd closes open_
        | dot isDot => exact absurd isDot notDot
        | block isBlock name block rest =>
          rw [if_pos isBlock] at ran
          simp only [bind_eq_ok, block, Except.ok.injEq, Prod.exists] at ran
          obtain ⟨_, _, ⟨rfl, rfl⟩, further, last, later, same⟩ := ran
          cases same
          rcases List.mem_append.mp member with first | others
          · exact parseGroundGraph_graph name block ground first
          · exact induction rest later ground others

theorem parseGroundBlock_graph (opens : c.peek = .lbrace) (blocks : GraphBlocks graph c.bump)
    (ran : parseGroundBlock c = .ok (triples, after)) :
    ∀ ground ∈ triples, ground.graph = some graph := by
  simp only [parseGroundBlock, Cursor.expect, if_pos opens, bind_eq_ok, Except.ok.injEq] at ran
  obtain ⟨_, rfl, ran⟩ := ran
  exact groundBlockLoop_graph _ blocks ran

theorem atWord_unique {first second : String} (isFirst : c.atWord first = true)
    (isSecond : c.atWord second = true) : first.toList = second.toList := by
  rw [Cursor.atWord, beq_iff_eq] at isFirst isSecond
  exact Option.some.inj (isFirst.symm.trans isSecond)

theorem atWord_apart {first second : String} (isFirst : c.atWord first = true)
    (different : first.toList ≠ second.toList) : ¬ c.atWord second = true :=
  fun isSecond => different (atWord_unique isFirst isSecond)

theorem eatKeyword_of_atWord {keyword : String} (isWord : c.atWord keyword = true) :
    c.eatKeyword keyword = (true, c.bump) := by
  rw [Cursor.atWord, beq_iff_eq] at isWord
  rw [Cursor.eatKeyword, if_pos isWord]

theorem eatKeyword_of_not_atWord {keyword : String} (notWord : c.atWord keyword = false) :
    c.eatKeyword keyword = (false, c) := by
  rw [Cursor.atWord, beq_eq_false_iff_ne] at notWord
  rw [Cursor.eatKeyword, if_neg notWord]

variable {group : Parse GraphPattern} {op : UpdateOp (Modify GraphPattern)}
  {graphs : Set (Option Text)}

theorem within_parseWhere {delete insert : List TriplePattern} (member : none ∈ graphs)
    (ran : parseWhere group delete insert c = .ok (op, after)) : op.Within graphs := by
  simp only [parseWhere, bind_eq_ok, Prod.exists] at ran
  obtain ⟨_, -, _, -, _, _, -, same⟩ := ran
  cases same
  exact member

theorem within_parseInsert (member : none ∈ graphs) (modifies : c.atWord "DATA" = false)
    (ran : parseInsert group c = .ok (op, after)) : op.Within graphs := by
  rw [parseInsert, eatKeyword_of_not_atWord modifies] at ran
  simp only [Bool.false_eq_true, if_false, bind_eq_ok, Prod.exists] at ran
  obtain ⟨_, _, -, ran⟩ := ran
  exact within_parseWhere member ran

theorem within_parseDelete (member : none ∈ graphs) (modifies : c.atWord "DATA" = false)
    (ran : parseDelete group c = .ok (op, after)) : op.Within graphs := by
  rw [parseDelete, eatKeyword_of_not_atWord modifies] at ran
  simp only [Bool.false_eq_true, if_false] at ran
  split at ran
  · simp only [bind_eq_ok, Prod.exists] at ran
    obtain ⟨_, _, -, same⟩ := ran
    cases same
    exact member
  · simp only [bind_eq_ok, Prod.exists] at ran
    obtain ⟨_, _, -, ran⟩ := ran
    split at ran
    · simp only [bind_eq_ok, Prod.exists] at ran
      obtain ⟨_, _, -, ran⟩ := ran
      exact within_parseWhere member ran
    · exact within_parseWhere member ran

theorem within_parseLoad (member : none ∈ graphs)
    (ran : parseLoad c = .ok (op, after)) : op.Within graphs := by
  simp only [parseLoad, bind_eq_ok, Prod.exists] at ran
  obtain ⟨_, _, -, ran⟩ := ran
  split at ran
  · simp only [bind_eq_ok, Prod.exists] at ran
    obtain ⟨_, -, _, _, -, same⟩ := ran
    cases same
    exact member
  · cases ran
    exact member

theorem parseGraphTarget_graph {name : Text} {rest : Cursor} {target : GraphTarget}
    (isGraph : c.atWord "GRAPH" = true) (named : expectGraphIri c.bump = .ok (name, rest))
    (ran : parseGraphTarget c = .ok (target, after)) : target = .named name := by
  rw [parseGraphTarget, if_neg (atWord_apart isGraph (by decide)),
    if_neg (atWord_apart isGraph (by decide)), if_neg (atWord_apart isGraph (by decide)),
    if_pos isGraph] at ran
  simp only [named, bind_eq_ok, Except.ok.injEq, Prod.exists] at ran
  obtain ⟨_, _, same, result⟩ := ran
  cases same
  cases result
  rfl

/-- The operation writes to the graphs of its form. -/
theorem within_parseUpdateOp (fuel : Nat) : ∀ {c : Cursor} {form : Form},
    NamesGraph graph form c → parseUpdateOp group fuel c = .ok (op, after) →
    op.Within (form.graphs graph) := by
  cases fuel with
  | zero =>
    intro c form _ ran
    cases ran
  | succ fuel =>
    intro c form names ran
    rw [parseUpdateOp] at ran
    cases names with
    | data isOp isData opens blocks =>
      have all : ∀ {triples : List GroundTriple} {after : Cursor},
          parseGroundBlock c.bump.bump = .ok (triples, after) →
          ∀ ground ∈ triples, ground.graph ∈ ({some graph} : Set (Option Text)) :=
        fun block ground member => parseGroundBlock_graph opens blocks block ground member
      rcases isOp with isInsert | isDelete
      · rw [if_pos isInsert, parseInsert, eatKeyword_of_atWord isData] at ran
        simp only [if_true, bind_eq_ok, Prod.exists] at ran
        obtain ⟨triples, _, block, same⟩ := ran
        cases same
        exact all block
      · rw [if_neg (atWord_apart isDelete (by decide)), if_pos isDelete, parseDelete,
          eatKeyword_of_atWord isData] at ran
        simp only [if_true, bind_eq_ok, Prod.exists] at ran
        obtain ⟨triples, _, block, same⟩ := ran
        cases same
        exact all block
    | target isOp isGraph name nonempty =>
      have within : ∀ {target : GraphTarget} {after : Cursor},
          parseGraphTarget (c.bump.eatKeyword "SILENT").2 = .ok (target, after) →
          target.Within {some graph} := by
        intro target after parsed
        rw [parseGraphTarget_graph isGraph name parsed]
        exact ⟨nonempty, rfl⟩
      rcases isOp with isClear | isDrop
      · rw [if_neg (atWord_apart isClear (by decide)), if_neg (atWord_apart isClear (by decide)),
          if_neg (atWord_apart isClear (by decide)), if_neg (atWord_apart isClear (by decide)),
          if_pos isClear] at ran
        simp only [parseTargeted, bind_eq_ok, Prod.exists] at ran
        obtain ⟨target, _, parsed, same⟩ := ran
        cases same
        exact within parsed
      · rw [if_neg (atWord_apart isDrop (by decide)), if_neg (atWord_apart isDrop (by decide)),
          if_neg (atWord_apart isDrop (by decide)), if_neg (atWord_apart isDrop (by decide)),
          if_neg (atWord_apart isDrop (by decide)), if_pos isDrop] at ran
        simp only [parseTargeted, bind_eq_ok, Prod.exists] at ran
        obtain ⟨target, _, parsed, same⟩ := ran
        cases same
        exact within parsed
    | with_ isWith name isOp modifies =>
      rw [if_neg (atWord_apart isWith (by decide)), if_neg (atWord_apart isWith (by decide)),
        if_pos isWith] at ran
      simp only [name, bind_eq_ok, Except.ok.injEq, Prod.exists] at ran
      obtain ⟨_, _, same, ran⟩ := ran
      cases same
      cases fuel with
      | zero => cases ran
      | succ fuel =>
        rw [parseUpdateOp] at ran
        rcases isOp with isInsert | isDelete
        · rw [if_pos isInsert] at ran
          exact within_parseInsert rfl modifies ran
        · rw [if_neg (atWord_apart isDelete (by decide)), if_pos isDelete] at ran
          exact within_parseDelete rfl modifies ran
    | load isLoad =>
      rw [if_neg (atWord_apart isLoad (by decide)), if_neg (atWord_apart isLoad (by decide)),
        if_neg (atWord_apart isLoad (by decide)), if_pos isLoad] at ran
      exact within_parseLoad rfl ran

end Parse

/-! ## Requests -/

/-- Each operation of the request names the graph, in the form listed. -/
inductive EachNames (group : Parse GraphPattern) (graph : Text) : List Form → Cursor → Prop where
  | done {c start : Cursor} (prologue : parsePrologue (c.tokens.length + 1) c = .ok start)
      (ends : start.peek = .eof) : EachNames group graph [] c
  | op {c start after : Cursor} {form : Form} {forms : List Form}
      {op : UpdateOp (Modify GraphPattern)}
      (prologue : parsePrologue (c.tokens.length + 1) c = .ok start)
      (names : NamesGraph graph form start)
      (parsed : parseUpdateOp group (start.tokens.length + 1) start = .ok (op, after))
      (rest : after.peek = .semicolon → EachNames group graph forms after.bump)
      (last : after.peek ≠ .semicolon → forms = []) : EachNames group graph (form :: forms) c

theorem within_updateLoop {group : Parse GraphPattern} {graph : Text} {graphs : Set (Option Text)}
    (fuel : Nat) : ∀ {c after : Cursor} {forms : List Form}
      {ops : List (UpdateOp (Modify GraphPattern))}, EachNames group graph forms c →
      (∀ form ∈ forms, form.graphs graph ⊆ graphs) → updateLoop group fuel c = .ok (ops, after) →
      ∀ op ∈ ops, op.Within graphs := by
  induction fuel with
  | zero =>
    intro c after forms ops _ _ ran
    cases ran
  | succ fuel induction =>
    intro c after forms ops each subset ran op member
    rw [updateLoop] at ran
    cases each with
    | done prologue ends =>
      simp only [prologue, bind_eq_ok, Except.ok.injEq] at ran
      obtain ⟨_, rfl, ran⟩ := ran
      rw [if_pos ends] at ran
      cases ran
      cases member
    | @op _ start next form forms first prologue names parsed rest last =>
      have here : first.Within graphs :=
        (within_parseUpdateOp _ names parsed).mono (subset form List.mem_cons_self)
      simp only [prologue, bind_eq_ok, Except.ok.injEq] at ran
      obtain ⟨_, rfl, ran⟩ := ran
      split at ran
      · cases ran
        cases member
      · simp only [parsed, bind_eq_ok, Except.ok.injEq, Prod.exists] at ran
        obtain ⟨_, _, same, ran⟩ := ran
        cases same
        split at ran
        · rename_i more
          simp only [bind_eq_ok, Prod.exists] at ran
          obtain ⟨further, end_, later, result⟩ := ran
          cases result
          rcases List.mem_cons.mp member with rfl | others
          · exact here
          · exact induction (rest more)
              (fun form isLater => subset form (List.mem_cons_of_mem _ isLater)) later op others
        · cases ran
          rw [List.mem_singleton.mp member]
          exact here

/-- A form whose operations write to the graph that they name. -/
def Form.IsWritten : Form → Prop
  | .data | .target => True
  | .with_ | .load => False

/-- An update each of whose operations names one graph leaves every other named graph alone. It
leaves the default graph alone if no operation is a `WITH` or a `LOAD`, and the named graph itself
if each of them is one. -/
theorem execOps_frame {host : Host (Modify GraphPattern)} {group : Parse GraphPattern}
    {graph : Text} {forms : List Form} {tokens : List Token} {c : Cursor}
    {ops : List (UpdateOp (Modify GraphPattern))} {s after : Session}
    {outcome : Except DbError Nat}
    (prologue : parsePrologue (tokens.length + 1) { tokens, prefixes := [], base := none } = .ok c)
    (each : EachNames group graph forms c) (parsed : parseUpdateRequest group tokens = .ok ops)
    (consistent : s.Consistent) (ran : s.execOps host ops = some (outcome, after)) :
    (∀ key, key ≠ (Term.iri graph).dictKey →
      after.dataset.named key = s.dataset.named key) ∧
    ((∀ form ∈ forms, form.IsWritten) → after.dataset.default = s.dataset.default) ∧
    ((∀ form ∈ forms, ¬ form.IsWritten) →
      ∀ key, after.dataset.named key = s.dataset.named key) := by
  simp only [parseUpdateRequest, prologue, bind_eq_ok, Except.ok.injEq, Prod.exists] at parsed
  obtain ⟨_, rfl, ops', last, sequence, _, -, same⟩ := parsed
  cases same
  simp only [parseUpdateSequence, bind_eq_ok, Prod.exists] at sequence
  obtain ⟨ops', last', loop, sequence⟩ := sequence
  split at sequence
  · cases sequence
  · cases sequence
    have touched : ∀ graphs : Set (Option Text), (∀ form ∈ forms, form.graphs graph ⊆ graphs) →
        Session.Touched graphs s after := fun graphs subset =>
      Session.touched_execOps _ consistent.valid (within_updateLoop _ each subset loop) ran
    refine ⟨?_, ?_, ?_⟩
    · intro key different
      have both := touched {none, some graph} fun form _ => by cases form <;> simp [Form.graphs]
      apply both.named consistent.valid consistent.known
      intro name member
      rcases member with impossible | same
      · cases impossible
      · cases same
        exact different
    · intro written
      have one := touched {some graph} fun form member => by
        have := written form member
        cases form <;> simp_all [Form.graphs, Form.IsWritten]
      exact one.default consistent.valid consistent.known (by simp)
    · intro unwritten key
      have one := touched {none} fun form member => by
        have := unwritten form member
        cases form <;> simp_all [Form.graphs, Form.IsWritten]
      exact one.named consistent.valid consistent.known (by simp)

/-- The parser of `{ }`. -/
def emptyGroup : Parse GraphPattern := fun c => do
  let c ← c.expect .lbrace "'\x7b'"
  let c ← c.expect .rbrace "'\x7d'"
  return (.empty, c)

/-- What a database is that answers `{ }` with the one empty solution. -/
def emptyHost : Host (Modify GraphPattern) where
  parse _ := .ok []
  parseFile _ := .ok []
  modify dict _ request := evalUpdateModify dict asciiOnly
    { layout := { names := [], isPred := [] }, extras := [], rows := [[]] } request
  appendsUpdateLog := true

/-- `INSERT DATA { GRAPH <g> { <a> <p> <b> } }`. -/
def insertGraph : List Token :=
  [.word "INSERT".toList, .word "DATA".toList, .lbrace, .word "GRAPH".toList, .iri ['g'], .lbrace,
    .iri ['a'], .iri ['p'], .iri ['b'], .rbrace, .rbrace]

/-- `WITH <g> INSERT { <a> <p> <b> } WHERE { }`. -/
def withInsert : List Token :=
  [.word "WITH".toList, .iri ['g'], .word "INSERT".toList, .lbrace, .iri ['a'], .iri ['p'],
    .iri ['b'], .rbrace, .word "WHERE".toList, .lbrace, .rbrace]

def cursor (tokens : List Token) : Cursor := { tokens, prefixes := [], base := none }

/-- `<a> <p> <b>`. -/
def stated : Triple := { subject := .iri ['a'], predicate := .iri ['p'], object := .iri ['b'] }

theorem execOps_frame_insert : ∃ outcome after,
    parseUpdateRequest emptyGroup insertGraph =
        .ok [.insertData [{ triple := stated, graph := some ['g'] }]] ∧
      (Session.new false false).execOps emptyHost
          [.insertData [{ triple := stated, graph := some ['g'] }]] = some (outcome, after) ∧
        after.dataset.default = (Session.new false false).dataset.default := by
  have blocks : GraphBlocks ['g'] (cursor (insertGraph.drop 3)) :=
    .block rfl rfl rfl (.close rfl)
  have names : NamesGraph ['g'] .data (cursor insertGraph) := .data (.inl rfl) rfl rfl blocks
  have each : EachNames emptyGroup ['g'] [.data] (cursor insertGraph) :=
    .op rfl names rfl (fun impossible => by cases impossible) (fun _ => rfl)
  have answers : ((Session.new false false).execOps emptyHost
      [.insertData [{ triple := stated, graph := some ['g'] }]]).isSome = true := by
    decide
  obtain ⟨⟨outcome, after⟩, ran⟩ := Option.isSome_iff_exists.mp answers
  have parsed : parseUpdateRequest emptyGroup insertGraph =
      .ok [.insertData [{ triple := stated, graph := some ['g'] }]] := rfl
  refine ⟨outcome, after, parsed, ran, ?_⟩
  have frame := execOps_frame rfl each parsed (Session.consistent_new false false) ran
  apply frame.2.1
  intro form member
  rw [List.mem_singleton.mp member]
  trivial

/-- The graph of a `WITH` is not the one that is written to. -/
theorem not_execOps_frame : ¬ ∀ (host : Host (Modify GraphPattern)) (group : Parse GraphPattern)
    (graph : Text) (forms : List Form) (tokens : List Token) (c : Cursor)
    (ops : List (UpdateOp (Modify GraphPattern))) (s after : Session)
    (outcome : Except DbError Nat),
    parsePrologue (tokens.length + 1) { tokens, prefixes := [], base := none } = .ok c →
    EachNames group graph forms c → parseUpdateRequest group tokens = .ok ops → s.Consistent →
    s.execOps host ops = some (outcome, after) →
    after.dataset.default = s.dataset.default ∧ ∀ key, key ≠ (Term.iri graph).dictKey →
      after.dataset.named key = s.dataset.named key := by
  intro framed
  have names : NamesGraph ['g'] .with_ (cursor withInsert) := .with_ rfl rfl (.inl rfl) rfl
  have each : EachNames emptyGroup ['g'] [.with_] (cursor withInsert) :=
    .op rfl names rfl (fun impossible => by cases impossible) (fun _ => rfl)
  have answer : ((Session.new false false).execOps emptyHost [.modify
      { delete := [], insert := [{ subject := .term (.iri ['a']), predicate := .term (.iri ['p'])
                                   object := .term (.iri ['b']) }], pattern := .empty }]).map
        (fun result => (result.2.store.exists 0 0 1, render result.2.dict ⟨0, 0, 1⟩)) =
      some (true, some { sub := ['<', 'a', '>'], pred := ['<', 'p', '>'], obj := ['<', 'b', '>'] }) := by
    decide
  obtain ⟨⟨outcome, after⟩, ran, shows⟩ := Option.map_eq_some_iff.mp answer
  have same := (framed emptyHost emptyGroup ['g'] [.with_] withInsert _ _ _ after outcome rfl each
    rfl (Session.consistent_new false false) ran).1
  have shown : { sub := ['<', 'a', '>'], pred := ['<', 'p', '>'], obj := ['<', 'b', '>'] } ∈
      after.dataset.default :=
    ⟨⟨0, 0, 1⟩, (Prod.mk.inj shows).1, (Prod.mk.inj shows).2⟩
  rw [same] at shown
  obtain ⟨triple, member, -⟩ := shown
  have nothing : triple ∈ stored Store.TripleStore.new := member
  rw [stored_new] at nothing
  exact nothing

end GStore.Parser.Sparql
