import RpcOpenApi.Proofs.Codec.Reading
import RpcOpenApi.Compile.Document

/-!
# Successful runs of the compiler

What each stage of a run gives when the run succeeds, without the notices of the other stages in the
way. The paths that a run derives are its operations put one after the other (`deriveInto_ok`,
`Paths.putAll`), the paths of the result are the derived ones merged into those written by hand
(`compileWith_ok`, `Paths.mergeAll`), and of all notices only the collisions of the first stage and
the overlaps of the second are warnings. So a compiler of operations that reports nothing changes
neither the result nor the warnings (`compileResolving_silent`).
-/

namespace RpcOpenApi

/-! ## Results and logs -/

namespace Logged

section
variable {α β : Type} {x : Logged α} {f : α → Logged β}

/-- The warnings among the notices. -/
def warnings (x : Logged α) : List Notice := x.log.filter Notice.isWarning

@[simp] theorem result_pure (a : α) : (pure a : Logged α).result = .ok a := rfl
@[simp] theorem result_note (ns : List Notice) : (note ns).result = .ok () := rfl
@[simp] theorem result_ofExcept (r : Except ServiceError α) : (ofExcept r).result = r := rfl
@[simp] theorem warnings_pure (a : α) : (pure a : Logged α).warnings = [] := rfl
@[simp] theorem warnings_note (ns : List Notice) :
    (note ns).warnings = ns.filter Notice.isWarning := rfl
@[simp] theorem warnings_ofExcept (r : Except ServiceError α) : (ofExcept r).warnings = [] := rfl

/-- The result of two steps is that of the second one, if the first one has a result. -/
theorem result_bind (x : Logged α) (f : α → Logged β) :
    (x >>= f).result = x.result >>= fun a => (f a).result := by
  show (bind x f).result = _
  rw [bind]
  cases x.result <;> rfl

/-- A computation in two steps succeeds iff both steps do. -/
theorem result_bind_eq_ok {b : β} :
    (x >>= f).result = .ok b ↔ ∃ a, x.result = .ok a ∧ (f a).result = .ok b := by
  rw [result_bind, Decode.bind_eq_ok]

/-- The warnings of two steps, the first of which succeeds, stand one after the other. -/
theorem warnings_bind {a : α} (h : x.result = .ok a) :
    (x >>= f).warnings = x.warnings ++ (f a).warnings := by
  show (bind x f).warnings = _
  rw [bind, h]
  exact List.filter_append ..

/-- The warnings of a step that fails are all that there are. -/
theorem warnings_bind_of_error {e : ServiceError} (h : x.result = .error e) :
    (x >>= f).warnings = x.warnings := by
  show (bind x f).warnings = _
  rw [bind, h]
  rfl

/-- Without warnings in the first step those of the second are all, if it is reached. -/
theorem warnings_bind_eq_nil (hx : x.warnings = []) (hf : ∀ a, (f a).warnings = []) :
    (x >>= f).warnings = [] := by
  cases h : x.result with
  | ok a => rw [warnings_bind h, hx, hf a, List.append_nil]
  | error e => rw [warnings_bind_of_error h, hx]

end

/-- Two computations come to the same and warn of the same, whatever else they report. -/
structure Agree {α : Type} (x y : Logged α) : Prop where
  result : x.result = y.result
  warnings : x.warnings = y.warnings

namespace Agree

variable {α β : Type} {x y : Logged α} {f g : α → Logged β}

/-- A computation agrees with itself. -/
theorem refl (x : Logged α) : Agree x x := ⟨rfl, rfl⟩

/-- A computation that warns of nothing agrees with the one that reports nothing at all. -/
theorem silent (h : x.warnings = []) : Agree x.silent x := ⟨rfl, h.symm⟩

/-- Two steps agree with two others if the first ones do and the second ones do. -/
theorem bind (h : Agree x y) (hf : ∀ a, Agree (f a) (g a)) : Agree (x >>= f) (y >>= g) := by
  constructor
  case result =>
    rw [result_bind, result_bind, h.result]
    simp only [(hf _).result]
  case warnings =>
    cases hy : y.result with
    | ok a =>
      rw [warnings_bind (h.result.trans hy), warnings_bind hy, h.warnings, (hf a).warnings]
    | error e =>
      rw [warnings_bind_of_error (h.result.trans hy), warnings_bind_of_error hy, h.warnings]

end Agree

end Logged

/-- Compiling an operation warns of nothing. -/
theorem warnings_compileOperation (resolver : Resolver) (kind : OperationKind) (id : String)
    (d : OperationDef) : (compileOperation resolver kind id d).warnings = [] := by
  refine Logged.warnings_bind_eq_nil rfl (fun _ => Logged.warnings_bind_eq_nil ?_ fun split =>
    Logged.warnings_bind_eq_nil rfl fun responses => Logged.warnings_bind_eq_nil ?_ fun _ => rfl)
  · rw [OperationDef.compileInput]
    split
    · rfl
    · exact Logged.warnings_bind_eq_nil rfl fun _ => rfl
  · rw [Logged.warnings_note]
    split <;> rfl

/-! ## Compiling one operation -/

/-- A phase of an operation succeeds iff what is done in it does. -/
@[simp] theorem ServiceError.inPhase_eq_ok {α : Type} {id : String} {phase : Phase}
    {x : Except ServiceError α} {a : α} : inPhase id phase x = .ok a ↔ x = .ok a := by
  cases x <;> simp [inPhase]

/-- What a segment names is a part of the tree. -/
theorem Resolver.mem_parts_of_child? {j j' : Json} {segment : List Char}
    (h : child? j segment = some j') : j' ∈ j.parts := by
  cases j with
  | obj ms => exact List.mem_map_of_mem (OrderedMap.mem_of_get? h)
  | arr items =>
    obtain ⟨n, -, h⟩ := Option.bind_eq_some_iff.1 h
    exact List.mem_of_getElem? h
  | null | bool | num | str => cases h

/-- What holds of every tree together with its parts holds at the end of a walk. -/
theorem Resolver.of_walk? {P : Json → Prop} (hpart : ∀ v j : Json, P v → j ∈ v.parts → P j)
    {j j' : Json} {path : List (List Char)} (h : P j) (hj : walk? j path = some j') : P j' :=
  Json.of_walk (fun v _ _ hv hchild => hpart v _ hv (mem_parts_of_child? hchild)) h hj

/-- A schema that is found is read from what a walk into the tree comes to. -/
theorem Resolver.exists_of_ofTree {components : Json} {r : Reference} {s : Schema}
    (h : ofTree components r = .ok s) :
    ∃ path j, walk? components path = some j ∧ Schema.decode j = .ok s := by
  rw [ofTree] at h
  split at h
  · cases h
  · split at h
    · cases h
    · next path _ j hwalk =>
      split at h
      · split at h
        · next s' hs =>
          cases h
          exact ⟨_, j, hwalk, hs⟩
        · cases h
      · cases h

/-- What a split gives: the parameters are those of the fields that are placed outside of the body,
and the schema of the body is the one that is written or built from the fields that are placed
there. -/
theorem splitInput_ok {written : SchemaOrRef} {schema : Schema} {default : InputLocation}
    {overrides : Overrides} {split : SplitInput}
    (h : splitInput written schema default overrides = .ok split) :
    ∃ fields, schema.properties = some fields ∧
      (∀ ps ∈ split.parameters,
        ps = SplitInput.parameterFields schema default overrides fields) ∧
      ∀ b ∈ split.requestBody, b = RequestBody.json written ∨
        b = RequestBody.json (.inline
          (SplitInput.bodySchema schema (SplitInput.bodyFields default overrides fields))) := by
  rw [splitInput] at h
  split at h
  · cases h
  split at h
  · cases h
  · next fields hfields =>
    refine ⟨fields, hfields, ?_⟩
    split at h
    · cases h
      exact ⟨by simp, fun b hb => .inl (Option.some.inj hb).symm⟩
    · cases h
      refine ⟨fun ps hps => ?_, fun b hb => .inr ?_⟩
      · dsimp only at hps
        split at hps
        · cases hps
        · exact (Option.some.inj hps).symm
      · dsimp only at hb
        split at hb
        · cases hb
        · exact (Option.some.inj hb).symm

/-- A parameter is that of a field. -/
theorem SplitInput.exists_of_mem_parameterFields {schema : Schema} {default : InputLocation}
    {overrides : Overrides} {fields : OrderedMap String SchemaOrRef} {p : Parameter}
    (h : p ∈ parameterFields schema default overrides fields) : ∃ f ∈ fields, ∃ l,
      p = parameter f.1 l f.2 (schema.isRequired f.1) ((overrides.get? f.1).getD {}) := by
  obtain ⟨f, hf, h⟩ := List.mem_filterMap.1 h
  obtain ⟨l, -, rfl⟩ := Option.map_eq_some_iff.1 h
  exact ⟨f, hf, l, rfl⟩

section
variable {resolver : Resolver} {kind : OperationKind} {id : String} {d : OperationDef}

/-- An operation without an input has no parameters and no body; with one, these are what the input
is split into after its schema has been found. -/
theorem OperationDef.compileInput_ok {split : SplitInput}
    (h : (d.compileInput resolver kind id).result = .ok split) : split = {} ∨
      ∃ i ∈ d.input, ∃ schema, InputDef.resolve resolver i.schema = .ok schema ∧
        splitInput i.schema schema kind.defaultLocation i.parameters = .ok split := by
  rw [compileInput] at h
  split at h
  · cases h
    exact .inl rfl
  · next i hi =>
    obtain ⟨-, -, h⟩ := Logged.result_bind_eq_ok.1 h
    rw [Logged.result_ofExcept, ServiceError.inPhase_eq_ok, InputDef.split] at h
    obtain ⟨schema, hschema, h⟩ := Decode.bind_eq_ok.1 h
    exact .inr ⟨i, hi, schema, hschema, h⟩

/-- The responses that are declared replace the one for success, or follow it. -/
theorem Responses.build_ok {output : Option OutputDef} {errors : Option Responses} {rs : Responses}
    (h : build output errors = .ok rs) : ∃ code,
      rs = OrderedMap.insertAll [(code, .inline (success (output.getD {})))] (errors.getD []) := by
  rw [build] at h
  split at h
  · cases h
    exact ⟨_, rfl⟩
  · cases h

/-- An operation is compiled by splitting its input, building its responses and putting these
together with what is carried along. -/
theorem compileOperation_ok {o : Operation}
    (h : (compileOperation resolver kind id d).result = .ok o) : ∃ split responses,
      (d.compileInput resolver kind id).result = .ok split ∧
        Responses.build d.output d.errors = .ok responses ∧ o = d.assemble id split responses := by
  rw [compileOperation] at h
  obtain ⟨-, -, h⟩ := Logged.result_bind_eq_ok.1 h
  obtain ⟨split, hsplit, h⟩ := Logged.result_bind_eq_ok.1 h
  obtain ⟨responses, hresponses, h⟩ := Logged.result_bind_eq_ok.1 h
  obtain ⟨-, -, h⟩ := Logged.result_bind_eq_ok.1 h
  rw [Logged.result_ofExcept, ServiceError.inPhase_eq_ok] at hresponses
  exact ⟨split, responses, hsplit, hresponses, (Except.ok.inj h).symm⟩

end

/-! ## Declared operations and their places -/

/-- A declared operation: its kind, its id and its definition. -/
abbrev Declaration := OperationKind × String × OperationDef

namespace Declaration

/-- The path of a declared operation. -/
def path (e : Declaration) : String := e.2.2.effectivePath e.1 e.2.1

/-- The method of a declared operation. -/
def method (e : Declaration) : HttpMethod := e.2.2.effectiveMethod e.1

/-- Where a declared operation is put. -/
def place (e : Declaration) : String × HttpMethod := (path e, method e)

/-- What a declared operation is compiled to. -/
def compiled (compile : OperationCompiler) (e : Declaration) : Operation :=
  match (compile e.1 e.2.1 e.2.2).result with
  | .ok o => o
  | .error _ => {}

/-- A declared operation that compiles, at its place. -/
def entry (compile : OperationCompiler) (e : Declaration) : String × HttpMethod × Operation :=
  (path e, method e, compiled compile e)

/-- What a declared operation is compiled to, if it is. -/
theorem compiled_eq {compile : OperationCompiler} {e : Declaration} {o : Operation}
    (h : (compile e.1 e.2.1 e.2.2).result = .ok o) : compiled compile e = o := by
  rw [compiled, h]

end Declaration

/-! ## The stages of a run -/

namespace Paths

/-- Puts operations one after the other at their paths and methods. -/
def putAll (ps : Paths) (entries : List (String × HttpMethod × Operation)) : Paths :=
  entries.foldl (fun ps e => ps.put e.1 e.2.1 e.2.2) ps

/-- Adds derived paths one after the other. -/
def mergeAll (base derived : Paths) : Paths :=
  derived.foldl (fun ps e => mergePath ps e.1 e.2) base

@[simp] theorem putAll_nil (ps : Paths) : ps.putAll [] = ps := rfl
@[simp] theorem putAll_cons (ps : Paths) (e : String × HttpMethod × Operation)
    (es : List (String × HttpMethod × Operation)) :
    ps.putAll (e :: es) = (ps.put e.1 e.2.1 e.2.2).putAll es := rfl
@[simp] theorem mergeAll_nil (base : Paths) : base.mergeAll [] = base := rfl
@[simp] theorem mergeAll_cons (base : Paths) (e : String × PathItem) (derived : Paths) :
    base.mergeAll (e :: derived) = (mergePath base e.1 e.2).mergeAll derived := rfl

end Paths

section
variable {compile : OperationCompiler}

/-- Every notice of a collision is a warning. -/
theorem filter_collisionNotice (ps : Paths) (p : String) (m : HttpMethod) :
    (collisionNotice ps p m).filter Notice.isWarning = collisionNotice ps p m := by
  rw [collisionNotice]
  split <;> rfl

/-- What one step of a successful first stage does: the operation compiles and is put at its place,
and the warnings of the step are those of compiling it and of the collision. -/
theorem deriveInto_cons_ok {ps ps' : Paths} {e : Declaration} {es : List Declaration}
    (h : (deriveInto compile ps (e :: es)).result = .ok ps') :
    let next := ps.put (Declaration.path e) (Declaration.method e) (Declaration.compiled compile e)
    (compile e.1 e.2.1 e.2.2).result = .ok (Declaration.compiled compile e) ∧
      (deriveInto compile next es).result = .ok ps' ∧
      (deriveInto compile ps (e :: es)).warnings = (compile e.1 e.2.1 e.2.2).warnings
        ++ (collisionNotice ps (Declaration.path e) (Declaration.method e)
          ++ (deriveInto compile next es).warnings) := by
  obtain ⟨kind, id, d⟩ := e
  rw [deriveInto] at h ⊢
  obtain ⟨_, -, h⟩ := Logged.result_bind_eq_ok.1 h
  obtain ⟨o, ho, h⟩ := Logged.result_bind_eq_ok.1 h
  obtain ⟨_, -, h⟩ := Logged.result_bind_eq_ok.1 h
  have hc : Declaration.compiled compile (kind, id, d) = o := Declaration.compiled_eq ho
  rw [hc]
  refine ⟨ho, h, ?_⟩
  rw [Logged.warnings_bind rfl, Logged.warnings_bind ho, Logged.warnings_bind rfl,
    Logged.warnings_note, Logged.warnings_note, filter_collisionNotice]
  rfl

/-- If the declared operations can be added to some paths, all of them compile, and what they are
compiled to is put at their places in order. -/
theorem deriveInto_ok {ps ps' : Paths} {es : List Declaration}
    (h : (deriveInto compile ps es).result = .ok ps') :
    (∀ e ∈ es, (compile e.1 e.2.1 e.2.2).result = .ok (Declaration.compiled compile e)) ∧
      ps' = ps.putAll (es.map (Declaration.entry compile)) := by
  induction es generalizing ps with
  | nil =>
    cases h
    exact ⟨fun e he => (nomatch he), rfl⟩
  | cons e es ih =>
    obtain ⟨he, hrest, -⟩ := deriveInto_cons_ok h
    obtain ⟨hall, rfl⟩ := ih hrest
    exact ⟨List.forall_mem_cons.2 ⟨he, hall⟩, rfl⟩

/-- Merging always succeeds. -/
theorem result_mergeInto (base derived : Paths) :
    (mergeInto base derived).result = .ok (base.mergeAll derived) := by
  induction derived generalizing base with
  | nil => rfl
  | cons e derived ih =>
    obtain ⟨path, item⟩ := e
    rw [mergeInto]
    exact Logged.result_bind_eq_ok.2 ⟨(), rfl, ih _⟩

/-- What merging succeeds with, and its warnings. -/
theorem mergePaths_ok (base derived : Paths) :
    (mergePaths base derived).result = .ok (base.mergeAll derived) ∧
      (mergePaths base derived).warnings = (mergeInto base derived).warnings := by
  rw [mergePaths]
  exact ⟨Logged.result_bind_eq_ok.2 ⟨(), rfl, result_mergeInto base derived⟩,
    Logged.warnings_bind rfl⟩

/-- Carrying the other members along warns of nothing. -/
theorem warnings_passthroughFields (extra : OrderedMap String Json) :
    (passthroughFields extra).warnings = [] := by
  rw [passthroughFields, Logged.warnings_bind rfl, Logged.warnings_note]
  cases extra.get? openapiKey <;> rfl

/-- The paths that a run with these declared operations derives. -/
def derivedPaths (compile : OperationCompiler) (es : List Declaration) : Paths :=
  Paths.putAll [] (es.map (Declaration.entry compile))

/-- What a successful run gives: the version is the supported one, all declared operations can be
derived, and the result is the description with the derived paths merged into its own. The warnings
are those of the two stages. -/
theorem compileWith_ok {d : RpcDocument} {out : OpenApiDocument}
    (h : (compileWith compile d).result = .ok out) :
    let written := d.paths.getD []
    let derived := derivedPaths compile d.operations.declared
    checkVersion d.version = .ok () ∧
      (deriveInto compile [] d.operations.declared).result = .ok derived ∧
      out =
        { openapi := OpenApiDocument.generatedVersion
          info := d.info
          paths := written.mergeAll derived
          components := d.components
          extra := d.extra.erase openapiKey } ∧
      (compileWith compile d).warnings
        = (deriveInto compile [] d.operations.declared).warnings
          ++ (mergeInto written derived).warnings := by
  intro written derived
  rw [compileWith] at h ⊢
  obtain ⟨_, hv, h⟩ := Logged.result_bind_eq_ok.1 h
  obtain ⟨derived', hd, h⟩ := Logged.result_bind_eq_ok.1 h
  obtain ⟨paths, hm, h⟩ := Logged.result_bind_eq_ok.1 h
  obtain ⟨extra, he, h⟩ := Logged.result_bind_eq_ok.1 h
  obtain rfl : derived' = derived := (deriveInto_ok hd).2
  obtain ⟨hmerge, hwarn⟩ := mergePaths_ok written derived
  obtain rfl : paths = written.mergeAll derived := Except.ok.inj (hm.symm.trans hmerge)
  cases he
  cases h
  refine ⟨hv, hd, rfl, ?_⟩
  rw [Logged.warnings_bind hv, Logged.warnings_bind hd, Logged.warnings_bind hm,
    Logged.warnings_bind rfl, hwarn, warnings_passthroughFields, Logged.warnings_ofExcept,
    Logged.warnings_pure, List.nil_append, List.append_nil, List.append_nil, derivePaths]

/-! ## Compilers of operations that report less -/

section
variable {compile' : OperationCompiler}

/-- Operations are derived alike by compilers that agree on each of them. -/
theorem agree_deriveInto (h : ∀ kind id d, (compile kind id d).Agree (compile' kind id d))
    (ps : Paths) (es : List Declaration) :
    (deriveInto compile ps es).Agree (deriveInto compile' ps es) := by
  induction es generalizing ps with
  | nil => exact .refl _
  | cons e es ih =>
    obtain ⟨kind, id, d⟩ := e
    rw [deriveInto, deriveInto]
    exact (Logged.Agree.refl _).bind fun _ => (h kind id d).bind fun _ =>
      (Logged.Agree.refl _).bind fun _ => ih _

/-- Descriptions are compiled alike by compilers that agree on each operation. -/
theorem agree_compileWith (h : ∀ kind id d, (compile kind id d).Agree (compile' kind id d))
    (d : RpcDocument) : (compileWith compile d).Agree (compileWith compile' d) :=
  (Logged.Agree.refl _).bind fun _ => (agree_deriveInto h [] _).bind fun _ => .refl _

end

/-- **What is reported of an operation has no part in the result**, and no warning is among it. -/
theorem compileResolving_silent (resolver : Resolver) (d : RpcDocument) :
    (compileWith (fun kind id o => (compileOperation resolver kind id o).silent) d).Agree
      (compileResolving resolver d) :=
  agree_compileWith (fun kind id o => .silent (warnings_compileOperation resolver kind id o)) d

end

end RpcOpenApi
