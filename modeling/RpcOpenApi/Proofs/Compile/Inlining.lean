import RpcOpenApi.Proofs.Compile.Pointers
import RpcOpenApi.Proofs.Compile.Splitting

/-!
# Inputs from the components and inline inputs

The input of an operation may be a reference to a schema of the components or that schema itself.
The compiler looks at the schema as it is written in one place only: where the body is the input as
it is written (`splitInput_congr`, `splitInput_whole`). So both ways to write the input are compiled
to the same operation, or fail in the same way, and only the schema of such a body is the one or the
other (`compileOperation_inline`).
-/

namespace RpcOpenApi

/-! ## The schema as it is written -/

section
variable {written written' : SchemaOrRef} {schema : Schema} {default : InputLocation}
  {overrides : Overrides}

/-- Unless the whole input is the body, it does not matter how its schema is written. -/
theorem splitInput_congr (h : overrides ≠ [] ∨ default ≠ .body) :
    splitInput written schema default overrides = splitInput written' schema default overrides := by
  have hguard := SplitInput.not_whole h
  simp only [splitInput, hguard, if_false]

/-- The whole input is the body as it is written, or there is an error however it is written. -/
theorem splitInput_whole (schema : Schema) :
    (∃ e, ∀ written, splitInput written schema .body [] = .error e) ∨
      ∀ written, splitInput written schema .body []
        = .ok { requestBody := some (RequestBody.json written) } := by
  cases hobject : schema.isObject with
  | false => exact .inl ⟨.notObjectSchema, fun written => by simp [splitInput, hobject]⟩
  | true =>
    cases hfields : schema.properties with
    | none => exact .inl ⟨.missingProperties, fun written => by simp [splitInput, hobject, hfields]⟩
    | some fields => exact .inr fun written => splitInput_of_fast hobject hfields

end

/-! ## Operations with an input -/

/-- What an operation is compiled to if the schema of its input is found, notices aside. -/
theorem result_compileOperation {resolver : Resolver} {kind : OperationKind} {id : String}
    {d : OperationDef} {i : InputDef} {s : Schema} (hinput : d.input = some i)
    (hresolve : InputDef.resolve resolver i.schema = .ok s) :
    (compileOperation resolver kind id d).result = (do
      let split ← ServiceError.inPhase id .input
        (splitInput i.schema s kind.defaultLocation i.parameters)
      let responses ← ServiceError.inPhase id .responses (Responses.build d.output d.errors)
      return d.assemble id split responses) := by
  have hsplit : (d.compileInput resolver kind id).result = ServiceError.inPhase id .input
      (splitInput i.schema s kind.defaultLocation i.parameters) := by
    rw [OperationDef.compileInput, hinput, Logged.result_bind, InputDef.split, hresolve]
    rfl
  simp only [compileOperation, Logged.result_bind, Logged.result_note, Logged.result_ofExcept,
    Logged.result_pure, hsplit]
  rfl

section
variable {c : Components} {name : String} {r : Reference} {s : Schema}

/-- A component that is a schema is what a reference to it resolves to. -/
theorem Components.resolve_of_get? (hn : c.encode.Normal) (h : c.Stable)
    (hslash : '/' ∉ name.toList) (hs : c.schemas.get? name = some (.inline s))
    (htarget : r.target = "#/components/schemas/" ++ name) :
    Resolver.ofComponents c r = .ok s := by
  have hpointer : r.target = pointer name [] := htarget.trans String.append_empty.symm
  have hwalk : c.walk name [] = .found (.inline s) := by
    rw [walk, hs]
    rfl
  have hresolve : Resolver.ofComponents c r
      = Resolver.conclude r.target (c.walk name []).tree? :=
    resolve_eq_conclude hn h (List.forall_mem_singleton.2 hslash) hpointer
  rw [hresolve, hwalk]
  exact Resolver.conclude_inline ((walk?_encode hn h).2 _ hwalk).1

end

/-- **A reference to a component and the component in its place are compiled to the same.** If the
input of a definition refers to a schema of the components, then the definition and the one with
this schema in place of the reference are compiled to the same operation or fail with the same
error. For a mutation about whose fields nothing is said, the bodies of the two operations have the
reference and the schema, each as it is written; all else is the same. -/
theorem compileOperation_inline (v : Json) (d : RpcDocument) (hkeys : v.KeysDistinct)
    (hfinite : v.NumbersFinite) (hd : RpcDocument.decode v = .ok d) (name : String) (s : Schema)
    (hslash : '/' ∉ name.toList) (hs : d.components.schemas.get? name = some (.inline s))
    (kind : OperationKind) (id : String) (definition : OperationDef) (i : InputDef) (r : Reference)
    (hinput : definition.input = some i) (hschema : i.schema = .reference r)
    (htarget : r.target = "#/components/schemas/" ++ name) :
    let run (definition : OperationDef) : Except ServiceError Operation :=
      (compileOperation (Resolver.ofComponents d.components) kind id definition).result
    let inlined := { definition with input := some { i with schema := .inline s } }
    (¬(kind = .mutation ∧ i.parameters = []) → run definition = run inlined) ∧
      (kind = .mutation ∧ i.parameters = [] →
        (∃ e, run definition = .error e ∧ run inlined = .error e) ∨
        ∃ o, run inlined = .ok o ∧
          o.requestBody = some (.inline (RequestBody.json (.inline s))) ∧
          run definition
            = .ok { o with requestBody := some (.inline (RequestBody.json (.reference r))) }) := by
  intro run inlined
  obtain ⟨hn, h⟩ := RpcDocument.stable_components (Json.normal_of_keysDistinct hkeys hfinite) hd
  have hresolve : InputDef.resolve (Resolver.ofComponents d.components) i.schema = .ok s := by
    rw [hschema]
    exact Components.resolve_of_get? hn h hslash hs htarget
  have hrun : run definition = _ := result_compileOperation hinput hresolve
  have hrun' : run inlined = _ := result_compileOperation rfl rfl
  rw [hschema] at hrun
  refine ⟨fun hgeneral => ?_, ?_⟩
  · have hplaced : i.parameters ≠ [] ∨ kind.defaultLocation ≠ .body := by
      cases kind with
      | query => exact .inr (by decide)
      | mutation => exact .inl fun hsaid => hgeneral ⟨rfl, hsaid⟩
    rw [hrun, hrun', splitInput_congr hplaced]
    rfl
  · rintro ⟨rfl, hsaid⟩
    rw [hsaid] at hrun hrun'
    rcases splitInput_whole s with ⟨e, he⟩ | hwhole
    · -- the schema is not one of objects with properties
      refine .inl ⟨.inOperation id .input e, ?_, ?_⟩
      · exact hrun.trans (by rw [OperationKind.defaultLocation, he]; rfl)
      · exact hrun'.trans (by rw [OperationKind.defaultLocation, he]; rfl)
    · rw [OperationKind.defaultLocation, hwhole] at hrun hrun'
      cases hresponses : Responses.build definition.output definition.errors with
      | error e =>
        refine .inl ⟨.inOperation id .responses e, ?_, ?_⟩
        · exact hrun.trans (by rw [hresponses]; rfl)
        · exact hrun'.trans (by rw [hresponses]; rfl)
      | ok responses =>
        refine .inr ⟨inlined.assemble id
          { requestBody := some (RequestBody.json (.inline s)) } responses, ?_, rfl, ?_⟩
        · exact hrun'.trans (by rw [hresponses]; rfl)
        · exact hrun.trans (by rw [hresponses]; rfl)

/-- An input that refers to the pet of the nesting service. -/
def petReference : Reference := { target := "#/components/schemas/Pet", summary := some "a pet" }

/-- A query of the nesting service is compiled to the same with the pet in place of the reference,
and a mutation up to the schema of its body. -/
theorem compileOperation_nestingService : ∃ d s, RpcDocument.decode nestingService = .ok d ∧
    d.components.schemas.get? "Pet" = some (.inline s) ∧
    let run kind (schema : SchemaOrRef) := (compileOperation (Resolver.ofComponents d.components)
      kind "add" { input := some { schema } }).result
    run .query (.reference petReference) = run .query (.inline s) ∧
    ∃ o, run .mutation (.inline s) = .ok o ∧ run .mutation (.reference petReference) = .ok
      { o with requestBody := some (.inline (RequestBody.json (.reference petReference))) } := by
  refine ⟨_, _, rfl, rfl, ?_⟩
  have hinline kind := compileOperation_inline nestingService _
    (by simp [nestingService, Json.KeysDistinct, Json.MembersKeysDistinct])
    (by simp [nestingService, Json.NumbersFinite, Json.MembersNumbersFinite]) rfl "Pet" _
    (by decide) rfl kind "add" { input := some { schema := .reference petReference } } _
    petReference rfl rfl rfl
  refine ⟨(hinline .query).1 (by simp), ?_⟩
  rcases (hinline .mutation).2 ⟨rfl, rfl⟩ with ⟨e, -, he⟩ | ⟨o, ho, -, hrun⟩
  · cases he
  · exact ⟨o, ho, hrun⟩

end RpcOpenApi
