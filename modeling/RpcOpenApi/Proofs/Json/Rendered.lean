import RpcOpenApi.Proofs.Codec.Inheritance
import RpcOpenApi.Proofs.Json.Drafts
import RpcOpenApi.Format

/-!
# Reading the JSON text of a document

A document that was read from a JSON text is written as a tree that lies within the bounds of that
text (`OpenApiDocument.inherits`). So its own text is read as that tree (`Json.read?_pretty`), and
the tree as the document (`OpenApiDocument.readsBack`).
-/

namespace RpcOpenApi

namespace Json

/-- A whole number has a JSON spelling. -/
theorem numbersFinite_of_within {j : Json} {n : Depth} (h : j.Within wholeNumbers n) :
    j.NumbersFinite := by
  induction j using induction generalizing n with
  | null | bool | str => trivial
  | num x =>
    cases x with
    | int | float => trivial
    | nonFinite => exact h
  | arr js ih =>
    obtain ⟨-, hjs⟩ := within_arr.1 h
    rw [NumbersFinite, itemsNumbersFinite_iff]
    exact fun j hj => ih j hj (hjs j hj)
  | obj ms ih =>
    obtain ⟨-, hms⟩ := within_obj.1 h
    rw [NumbersFinite, membersNumbersFinite_iff]
    exact fun m hm => ih m hm (hms.value hm)

/-- The tree that is read from a plain text is in normal form, its numbers are whole, and it is no
deeper than a text may be. -/
theorem normal_of_read? {shape : Shape} {text : String} {j : Json}
    (hplain : ∀ draft ∈ Draft.ofText? text, draft.Plain) (h : read? shape text = some j) :
    j.Normal ∧ j.Within wholeNumbers (.atMost maxDepth) := by
  obtain ⟨draft, hdraft, hj⟩ := Option.bind_eq_some_iff.1 h
  obtain ⟨hkeys, hwithin⟩ := (hplain draft hdraft).keep? hj
  exact ⟨normal_of_keysDistinct hkeys (numbersFinite_of_within hwithin), hwithin⟩

end Json

/-- What is read from a JSON text is decoded from a tree of that text. -/
theorem TextFormat.exists_of_read_json {α : Type} {shape : Shape}
    {decode : Json → Except DecodeError α} {text : String} {a : α}
    (h : TextFormat.json.read shape decode text = .ok a) :
    ∃ kept j, Json.read? kept text = some j ∧ decode j = .ok a := by
  rw [TextFormat.read] at h
  split at h
  next j hj => exact ⟨.whole, j, hj, Decode.mapError_eq_ok.1 h⟩
  next =>
    split at h
    next a' ha =>
      cases h
      obtain ⟨j, hj, hdecode⟩ := Option.map_eq_some_iff.1 ha
      exact ⟨shape, j, hj, hdecode⟩
    next => cases h

/-- **A document that is written as JSON is read back.** If a document is read from a JSON text that
repeats no key and whose numbers are all integers that are stored exactly, the text that is written
for it is read as the tree that it is written as, and as the same document. So writing what is read
from that text gives the text again. -/
theorem OpenApiDocument.read_render_json (text : String) (d : OpenApiDocument)
    (hplain : ∀ draft ∈ Json.Draft.ofText? text, draft.Plain)
    (hd : TextFormat.json.read shape decode text = .ok d) :
    Json.read? .whole (d.render .json) = some d.encode ∧
    TextFormat.json.read shape decode (d.render .json) = .ok d ∧
    ∀ d', TextFormat.json.read shape decode (d.render .json) = .ok d' →
      d'.render .json = d.render .json := by
  obtain ⟨kept, j, hj, hdecode⟩ := TextFormat.exists_of_read_json hd
  obtain ⟨hnormal, hwithin⟩ := Json.normal_of_read? hplain hj
  have hroom : (Depth.atMost Json.maxDepth).Allows 5 := by decide
  have htree : Json.read? .whole (d.render .json) = some d.encode :=
    Json.read?_pretty (OpenApiDocument.inherits hroom j hwithin d hdecode)
  have hback : decode d.encode = .ok d := readsBack (stable j hnormal d hdecode)
  have hread : TextFormat.json.read shape decode (d.render .json) = .ok d := by
    rw [TextFormat.read, htree]
    exact Decode.mapError_eq_ok.2 hback
  refine ⟨htree, hread, fun d' hd' => ?_⟩
  rw [hread] at hd'
  cases hd'
  rfl

/-- A document with characters that are escaped when they are written, with one that is escaped and
does not have to be, with an empty list and with integers at the ends of their range. -/
def escapedText : String :=
"\x7b\"openapi\":\"3.1.0\",\"info\":\x7b\"title\":\"\\u0001\\/\\ud83d\\ude00\",\"version\":\"\"\x7d,
\"x\":[-9223372036854775808, 18446744073709551615, -0, []]\x7d"

/-- The document of the escaped text is read back from its own text. -/
theorem OpenApiDocument.read_render_escapedText : ∃ d : OpenApiDocument,
    TextFormat.json.read shape decode escapedText = .ok d ∧
    d.render .json ≠ escapedText ∧
    TextFormat.json.read shape decode (d.render .json) = .ok d := by
  have hplain : ∀ draft ∈ Json.Draft.ofText? escapedText, draft.Plain := by decide +kernel
  have hrun : (TextFormat.json.read shape decode escapedText).toOption.any
      (fun d => decide (d.render .json ≠ escapedText)) = true := by decide +kernel
  cases hd : TextFormat.json.read shape decode escapedText with
  | error e => simp [hd, Except.toOption] at hrun
  | ok d =>
    simp only [hd, Except.toOption, Option.any_some, decide_eq_true_eq] at hrun
    exact ⟨d, rfl, hrun, (read_render_json escapedText d hplain hd).2.1⟩

end RpcOpenApi
