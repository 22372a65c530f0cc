import RpcOpenApi.Proofs.Codec.Shapes
import RpcOpenApi.Proofs.Json.Rendered

/-!
# Reading the YAML text of a document

A document that was read from a JSON text is written as a tree that lies within the bounds of that
text (`OpenApiDocument.inherits`) and fits the shape of documents (`OpenApiDocument.fits`). So its
YAML text is read as that tree (`Yaml.read?_render`), and the tree as the document.
-/

namespace RpcOpenApi

/-- **A document that is written as YAML is read back.** If a document is read from a JSON text that
repeats no key and whose numbers are all integers that are stored exactly, the YAML text that is
written for it is read as the tree that it is written as, with every key, text, word and number in
it, and as the same document. So writing what is read from that text gives the text again. -/
theorem OpenApiDocument.read_render_yaml (text : String) (d : OpenApiDocument)
    (hplain : ∀ draft ∈ Json.Draft.ofText? text, draft.Plain)
    (hd : TextFormat.json.read shape decode text = .ok d) :
    Yaml.read? shape (d.render .yaml) = some d.encode ∧
    TextFormat.yaml.read shape decode (d.render .yaml) = .ok d ∧
    ∀ d', TextFormat.yaml.read shape decode (d.render .yaml) = .ok d' →
      d'.render .yaml = d.render .yaml := by
  obtain ⟨kept, j, hj, hdecode⟩ := TextFormat.exists_of_read_json hd
  obtain ⟨hnormal, hwithin⟩ := Json.normal_of_read? hplain hj
  have hroom : (Depth.atMost Json.maxDepth).Allows 5 := by decide
  have hlimit : Json.maxDepth ≤ Yaml.depthLimit := by decide
  have htree : Yaml.read? shape (d.render .yaml) = some d.encode :=
    Yaml.read?_render (fits j d hdecode) (inherits hroom j hwithin d hdecode) hlimit
  have hback : decode d.encode = .ok d := readsBack (stable j hnormal d hdecode)
  have hread : TextFormat.yaml.read shape decode (d.render .yaml) = .ok d := by
    rw [TextFormat.read, htree]
    exact Decode.mapError_eq_ok.2 hback
  refine ⟨htree, hread, fun d' hd' => ?_⟩
  rw [hread] at hd'
  cases hd'
  rfl

/-- A document with texts in every style, among them ones that could be taken for something else and
one of several lines as a key, and with nested lists. -/
def styledText : String :=
"\x7b\"openapi\":\"3.1.0\",\"info\":\x7b\"title\":\"null\",\"version\":\"1.0\",
\"description\":\" two\\n\\n  lines\\n\\n\"\x7d,
\"x: y\":[\"~\",\"- a\",\" b\",\"it's\",\"\\u2028\",[\"\\t\",[],-0]],\"a\\nb\":\x7b\"\":\"\"\x7d\x7d"

/-- The YAML text of that document. -/
def styledYaml : String :=
"openapi: 3.1.0
info:
  title: 'null'
  version: '1.0'
  description: |2+
     two

      lines

paths: \x7b\x7d
components: \x7b\x7d
'x: y':
- '~'
- '- a'
- ' b'
- it's
- '\u2028  '
- - \"\\t\"
  - []
  - -0.0
? |-
  a
  b
: '': ''
"

/-- The document of that text is read back from its YAML text. -/
theorem OpenApiDocument.read_render_styledText : ∃ d : OpenApiDocument,
    TextFormat.json.read shape decode styledText = .ok d ∧
    d.render .yaml = styledYaml ∧
    TextFormat.yaml.read shape decode styledYaml = .ok d := by
  have hplain : ∀ draft ∈ Json.Draft.ofText? styledText, draft.Plain := by decide +kernel
  have hrun : (TextFormat.json.read shape decode styledText).toOption.any
      (fun d => decide (d.render .yaml = styledYaml)) = true := by decide +kernel
  cases hd : TextFormat.json.read shape decode styledText with
  | error e => simp [hd, Except.toOption] at hrun
  | ok d =>
    simp only [hd, Except.toOption, Option.any_some, decide_eq_true_eq] at hrun
    refine ⟨d, rfl, hrun, ?_⟩
    rw [← hrun]
    exact (read_render_yaml styledText d hplain hd).2.1

end RpcOpenApi
