import KubeCompose.Proofs.ReadBack
import KubeCompose.Proofs.RoundTrip.Parsed

/-!
# Documents that survive a rewrite

The documents of a text are the documents of their own text, in their order and with nothing changed
in them. Only a tag can be written as something else: its commas and square brackets are not
escaped, and the exclamation mark of one that begins with it stands for the mark of the tag.
-/

namespace KubeCompose.Manifest

open Yaml

/-- Documents with tags that are kept are read from their text, one after the other. -/
theorem parseDocuments_of_written {text written : String} {docs : List Yaml}
    (hRead : parseDocuments text = .ok docs)
    (hTags : ∀ v ∈ docs, tagsSatisfy keepsTag v = true)
    (hWrite : writeDocuments docs = .ok written) : parseDocuments written = .ok docs := by
  obtain ⟨hWritable, rfl⟩ := writeDocuments_eq_ok_iff.1 hWrite
  refine parseDocuments_streamText fun v hv => ?_
  obtain ⟨hParsed, hKeys, hNull⟩ := parsed_of_parseDocuments hRead v hv
  exact readable_of_parsed hParsed hKeys hNull (hTags v hv) (hWritable v hv)

/-- Three documents: texts that end in line ends, texts that look like something else, and a tag. -/
def mixedText : String :=
  "a: '1'\nb: |+\n  x\n\n---\n!kept [1.5, -0.0, 'null']\n---\n- |-\n  y\n- ? [z]\n  : ~\n"

def mixedDocuments : List Yaml :=
  [.map [(.str "a", .str "1"), (.str "b", .str "x\n\n")],
    .tagged "kept" (.seq [.float (.finite false 6755399441055744 (-52)),
      .float (.finite true 0 (-1074)), .str "null"]),
    .seq [.str "y", .map [(.seq [.str "z"], .null)]]]

theorem parseDocuments_mixedText : parseDocuments mixedText = .ok mixedDocuments := by
  decide +kernel

theorem parseDocuments_of_written_mixedText : ∃ written,
    parseDocuments mixedText = .ok mixedDocuments ∧
      (∀ v ∈ mixedDocuments, tagsSatisfy keepsTag v = true) ∧
      writeDocuments mixedDocuments = .ok written ∧
      parseDocuments written = .ok mixedDocuments := by
  have hTags : ∀ v ∈ mixedDocuments, tagsSatisfy keepsTag v = true := by decide
  have hWrite := writeDocuments_eq_ok_iff.2
    ⟨(by decide : ∀ v ∈ mixedDocuments, isWritable false v = true), rfl⟩
  exact ⟨_, parseDocuments_mixedText, hTags, hWrite,
    parseDocuments_of_written parseDocuments_mixedText hTags hWrite⟩

/-! ### Tags that are not kept -/

/-- A comma in a tag is written as it is, and no tag outside angle brackets may hold one. The
exclamation mark that a tag begins with is written as the mark of the tag, and is lost. -/
theorem exists_written_not_kept :
    (parseDocuments "!<!a,b> x\n" = .ok [.tagged "a,b" (.str "x")] ∧
      writeDocuments [.tagged "a,b" (.str "x")] = .ok "!a,b x\n" ∧
      parseDocuments "!a,b x\n" = .error .badTag) ∧
    parseDocuments "!%21%21x y\n" = .ok [.tagged "!x" (.str "y")] ∧
      writeDocuments [.tagged "!x" (.str "y")] = .ok "!x y\n" ∧
      parseDocuments "!x y\n" = .ok [.tagged "x" (.str "y")] := by
  decide +kernel

end KubeCompose.Manifest
