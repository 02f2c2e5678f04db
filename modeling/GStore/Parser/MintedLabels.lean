import GStore.Parser.JsonLdBlanks
import GStore.Parser.RdfXmlBlanks
import GStore.Parser.RdfaBlanks

/-! # Minted labels in three readers

When the blank nodes that `rdfxml.rs`, `jsonld.rs` and `rdfa.rs` mint stay apart from those that a
document names. -/

namespace GStore.Parser

/-- The readers that mint blank nodes with a counter of their own. -/
inductive Reader where
  | rdfXml
  | jsonLd
  | rdfa

namespace Reader

def mark : Reader → String
  | .rdfXml => "rx"
  | .jsonLd => "jld~"
  | .rdfa => "rdfa~"

/-- `parse_str` of each, over any labels. -/
def read (labels : Labels) (content : Text) : Reader → Option Extractor
  | .rdfXml => (Xml.parseDocument (content.length + 1) content).toOption.bind fun root =>
    (RdfXml.run labels root).toOption
  | .jsonLd => (JsonReader.parse JsonReader.readerDepth content).toOption.bind fun json =>
    (JsonLd.processTop labels JsonLd.walkDepth json .new).toOption
  | .rdfa => (Rdfa.run labels Rdfa.walkDepth (Rdfa.treeOf content)).toOption

/-- The blank nodes of a document: its names, and nothing for each that has none. -/
def identities (content : Text) : Reader → List (Option Text)
  | .rdfXml => (Xml.parseDocument (content.length + 1) content).toOption.elim [] RdfXml.identities
  | .jsonLd => (JsonReader.parse JsonReader.readerDepth content).toOption.elim []
      (JsonLd.topIdentities JsonLd.walkDepth)
  | .rdfa => Rdfa.identities Rdfa.walkDepth (Rdfa.treeOf content)

/-- Every document that is read is read over labels that are apart as well. -/
theorem read_explains {reader : Reader} {content : Text} {source : Extractor}
    (ran : reader.read (.marked reader.mark) content = some source) :
    ∃ stated, reader.read .apart content = some stated ∧
      Explains reader.mark (reader.identities content) source stated := by
  cases reader with
  | rdfXml =>
    obtain ⟨root, parsed, ran⟩ := Option.bind_eq_some_iff.mp ran
    obtain ⟨stated, isStated, explains⟩ := RdfXml.run_explains (toOption_eq_some_iff.mp ran)
    refine ⟨stated, ?_, ?_⟩
    · rw [read, parsed]
      exact toOption_eq_some_iff.mpr isStated
    · rw [identities, parsed]
      exact explains
  | jsonLd =>
    obtain ⟨json, parsed, ran⟩ := Option.bind_eq_some_iff.mp ran
    obtain ⟨stated, isStated, explains⟩ := JsonLd.processTop_explains (toOption_eq_some_iff.mp ran)
    refine ⟨stated, ?_, ?_⟩
    · rw [read, parsed]
      exact toOption_eq_some_iff.mpr isStated
    · rw [identities, parsed]
      exact explains
  | rdfa =>
    obtain ⟨stated, isStated, explains⟩ := Rdfa.run_explains (toOption_eq_some_iff.mp ran)
    exact ⟨stated, toOption_eq_some_iff.mpr isStated, explains⟩

/-- Minted blank nodes are apart exactly if no name of the document is a label that was minted. -/
theorem faithful_iff_distinct {reader : Reader} {content : Text} {source : Extractor}
    (ran : reader.read (.marked reader.mark) content = some source) :
    ∃ stated, reader.read .apart content = some stated ∧
      (Faithful reader.mark (reader.identities content) source stated ↔
        Distinct reader.mark (reader.identities content)) := by
  obtain ⟨stated, isStated, explains⟩ := read_explains ran
  exact ⟨stated, isStated, explains.faithful_iff⟩

/-- A node with a name that is minted for the other. -/
def clashing : Text := "[\x7b\"@id\":\"_:jld~0\",\"e:p\":\"x\"\x7d,\x7b\"e:p\":\"y\"\x7d]".toList

def clashingGraph : Extractor where
  triples :=
    [⟨.blank "jld~0".toList, .iri "e:p".toList, .literal ['x'] none none⟩,
      ⟨.blank "jld~0".toList, .iri "e:p".toList, .literal ['y'] none none⟩]
  bnode := 1

theorem read_clashing : Reader.jsonLd.read (.marked "jld~") clashing = some clashingGraph := by
  decide +kernel

theorem faithful_iff_distinct_clashing :
    ∃ stated, Reader.jsonLd.read .apart clashing = some stated ∧
      (Faithful "jld~" (Reader.jsonLd.identities clashing) clashingGraph stated ↔
        Distinct "jld~" (Reader.jsonLd.identities clashing)) :=
  @faithful_iff_distinct .jsonLd _ _ read_clashing

theorem not_faithful : ¬ ∀ (reader : Reader) (content : Text) (source : Extractor),
    reader.read (.marked reader.mark) content = some source →
    ∃ stated, reader.read .apart content = some stated ∧
      Faithful reader.mark (reader.identities content) source stated := by
  intro always
  obtain ⟨stated, -, faithful⟩ := always .jsonLd clashing clashingGraph read_clashing
  have named : some "jld~0".toList ∈ Reader.jsonLd.identities clashing := by decide +kernel
  exact faithful.differ _ named 0 Nat.one_pos (by decide +kernel)

end Reader

end GStore.Parser
