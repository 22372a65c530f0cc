import RpcOpenApi.Proofs.Compile.Run

/-!
# Why a run fails

Which error a run ends with, told from the description alone. The reasons are given as relations:
why an input cannot be split (`InputDef.Fails`) and why a declared operation cannot be compiled
(`Declaration.Fails`). Each stage of a run fails iff its relation holds of the error:

* splitting an input fails iff its schema is not found or has no properties (`split_eq_error`);
* an operation fails iff its input does, or its input does not and its code is none of a response
  (`compileOperation_eq_error`), and in both cases the reason is wrapped once;
* a list of declared operations fails iff one of them does, with the error of the first one
  (`deriveInto_eq_error`), by induction on the list. Merging never fails.

`compileResolving_failures` is the sum of it, with the version of the description before everything
else.
-/

namespace RpcOpenApi

/-! ## Steps that fail -/

/-- Two steps fail iff the first one does, or the second one after the first one. -/
theorem ServiceError.bind_eq_error {α β : Type} {x : Except ServiceError α}
    {f : α → Except ServiceError β} {e : ServiceError} :
    (x >>= f) = .error e ↔ x = .error e ∨ ∃ a, x = .ok a ∧ f a = .error e := by
  cases x with
  | ok a =>
    show f a = .error e ↔ _
    simp
  | error e' =>
    show Except.error e' = Except.error e ↔ _
    simp

/-- An error in a phase of an operation has the error of the phase as its cause. -/
@[simp] theorem ServiceError.inPhase_eq_error {α : Type} {id : String} {phase : Phase}
    {x : Except ServiceError α} {e : ServiceError} :
    inPhase id phase x = .error e ↔
      ∃ cause, x = .error cause ∧ e = .inOperation id phase cause := by
  cases x <;> simp [inPhase, eq_comm]

namespace Logged

section
variable {α β : Type} {x : Logged α} {f : α → Logged β} {e : ServiceError}

/-- A computation in two steps fails iff the first one does, or the second one after the first. -/
theorem result_bind_eq_error :
    (x >>= f).result = .error e
      ↔ x.result = .error e ∨ ∃ a, x.result = .ok a ∧ (f a).result = .error e := by
  show (bind x f).result = .error e ↔ _
  rw [bind]
  cases hx : x.result with
  | ok a => simp
  | error e' => simp

/-- Nothing is reported after a step that fails. -/
theorem bind_of_error (h : x.result = .error e) : x >>= f = ⟨x.log, .error e⟩ := by
  show bind x f = _
  rw [bind, h]

end

end Logged

/-! ## Inputs -/

namespace InputDef

/-- The schema that an input stands for: the one that is written, or the one that is found. -/
inductive StandsFor (resolver : Resolver) (i : InputDef) (s : Schema) : Prop
  | inline (h : i.schema = .inline s)
  | reference {r : Reference} (h : i.schema = .reference r) (hr : resolver r = .ok s)

/-- The input cannot be split, and why. -/
inductive Fails (resolver : Resolver) (i : InputDef) : ServiceError → Prop
  | boolean {all : Bool} (h : i.schema = .boolean all) : Fails resolver i .notObjectSchema
  | unresolved {r : Reference} {e : ServiceError} (h : i.schema = .reference r)
      (hr : resolver r = .error e) : Fails resolver i e
  | notObject {s : Schema} (h : i.StandsFor resolver s) (ho : s.isObject = false) :
      Fails resolver i .notObjectSchema
  | noProperties {s : Schema} (h : i.StandsFor resolver s) (ho : s.isObject = true)
      (hp : s.properties = none) : Fails resolver i .missingProperties

variable {resolver : Resolver} {i : InputDef} {s : Schema} {e : ServiceError}

/-- A schema is resolved iff the input stands for it. -/
theorem resolve_eq_ok : resolve resolver i.schema = .ok s ↔ i.StandsFor resolver s := by
  constructor
  · intro h
    cases hs : i.schema with
    | reference r =>
      rw [hs] at h
      exact .reference hs h
    | boolean all =>
      rw [hs] at h
      cases h
    | inline s' =>
      rw [hs] at h
      cases h
      exact .inline hs
  · rintro (h | ⟨h, hr⟩)
    · rw [h]
      rfl
    · rw [h]
      exact hr

/-- No schema is resolved for a boolean one, nor for a reference that cannot be resolved. -/
theorem resolve_eq_error : resolve resolver i.schema = .error e ↔
    (∃ all, i.schema = .boolean all ∧ e = .notObjectSchema) ∨
      ∃ r, i.schema = .reference r ∧ resolver r = .error e := by
  cases i.schema with
  | reference r => simp [resolve]
  | boolean all => simp [resolve, eq_comm]
  | inline s' => simp [resolve]

/-- Once its schema is found, an input fails iff this is no schema of objects, or has no
properties. Where the fields go plays no part in it. -/
theorem splitInput_eq_error {written : SchemaOrRef} {default : InputLocation}
    {overrides : Overrides} : splitInput written s default overrides = .error e ↔
      (s.isObject = false ∧ e = .notObjectSchema) ∨
        (s.isObject = true ∧ s.properties = none ∧ e = .missingProperties) := by
  rw [splitInput]
  cases ho : s.isObject with
  | false => simp [eq_comm]
  | true =>
    cases hp : s.properties with
    | none => simp [eq_comm]
    | some fields =>
      simp only [Bool.not_true, Bool.false_eq_true, ↓reduceIte]
      split <;> simp

/-- **When splitting an input fails.** -/
theorem split_eq_error {default : InputLocation} :
    i.split resolver default = .error e ↔ i.Fails resolver e := by
  rw [split, ServiceError.bind_eq_error, resolve_eq_error]
  simp only [resolve_eq_ok, splitInput_eq_error]
  constructor
  · rintro ((⟨all, h, rfl⟩ | ⟨r, h, hr⟩) | ⟨s, hs, ⟨ho, rfl⟩ | ⟨ho, hp, rfl⟩⟩)
    · exact .boolean h
    · exact .unresolved h hr
    · exact .notObject hs ho
    · exact .noProperties hs ho hp
  · rintro (h | ⟨h, hr⟩ | ⟨hs, ho⟩ | ⟨hs, ho, hp⟩)
    · exact .inl (.inl ⟨_, h, rfl⟩)
    · exact .inl (.inr ⟨_, h, hr⟩)
    · exact .inr ⟨_, hs, .inl ⟨ho, rfl⟩⟩
    · exact .inr ⟨_, hs, .inr ⟨ho, hp, rfl⟩⟩

end InputDef

/-! ## Operations -/

/-- A code that is none of a response fails, and nothing else does. -/
theorem Responses.build_eq_error {output : Option OutputDef} {errors : Option Responses}
    {e : ServiceError} : build output errors = .error e ↔
      ∃ o ∈ output, ∃ code ∈ o.statusCode, (code < 100 ∨ 599 < code) ∧
        e = .invalidStatusCode code := by
  rw [build]
  cases output with
  | none => simp [successCode, defaultCode]
  | some o =>
    cases hcode : o.statusCode with
    | none => simp [successCode, hcode, defaultCode]
    | some code =>
      simp only [successCode, Option.getD_some, hcode, Option.mem_def, Option.some.injEq,
        exists_eq_left']
      split
      · next h =>
        have hno : ¬(code < 100 ∨ 599 < code) := by omega
        simp [hno]
      · next h =>
        have hyes : code < 100 ∨ 599 < code := by omega
        simp [hyes, eq_comm]

namespace Declaration

/-- A declared operation cannot be compiled, and why. Its output is looked at only if its input does
not fail. -/
inductive Fails (resolver : Resolver) : Declaration → ServiceError → Prop
  | input {kind : OperationKind} {id : String} {d : OperationDef} {i : InputDef}
      {cause : ServiceError} (hi : d.input = some i) (h : i.Fails resolver cause) :
      Fails resolver (kind, id, d) (.inOperation id .input cause)
  | responses {kind : OperationKind} {id : String} {d : OperationDef} {o : OutputDef} {code : Nat}
      (hi : ∀ i ∈ d.input, ∀ cause, ¬i.Fails resolver cause) (ho : d.output = some o)
      (hcode : o.statusCode = some code) (h : code < 100 ∨ 599 < code) :
      Fails resolver (kind, id, d) (.inOperation id .responses (.invalidStatusCode code))

end Declaration

namespace OperationDef

variable {resolver : Resolver} {kind : OperationKind} {id : String} {d : OperationDef}
  {e : ServiceError}

/-- The input of a definition cannot be compiled iff it is there and fails. -/
theorem compileInput_eq_error : (d.compileInput resolver kind id).result = .error e ↔
    ∃ i ∈ d.input, ∃ cause, i.Fails resolver cause ∧ e = .inOperation id .input cause := by
  rw [compileInput]
  cases d.input with
  | none => simp
  | some i =>
    simp only [Logged.result_bind_eq_error, Logged.result_note, Logged.result_ofExcept,
      ServiceError.inPhase_eq_error, InputDef.split_eq_error]
    simp

/-- An input is compiled iff it does not fail. -/
theorem exists_compileInput_eq_ok :
    (∃ split, (d.compileInput resolver kind id).result = .ok split) ↔
      ∀ i ∈ d.input, ∀ cause, ¬i.Fails resolver cause := by
  have herror : ∀ e, (d.compileInput resolver kind id).result = .error e ↔ _ :=
    fun _ => compileInput_eq_error
  cases h : (d.compileInput resolver kind id).result with
  | ok split =>
    refine ⟨fun _ i hi cause hc => ?_, fun _ => ⟨_, rfl⟩⟩
    have hfail := (herror _).2 ⟨i, hi, cause, hc, rfl⟩
    exact nomatch h.symm.trans hfail
  | error e' =>
    obtain ⟨i, hi, cause, hc, -⟩ := (herror _).1 h
    exact ⟨fun ⟨_, h⟩ => (nomatch h), fun hno => (hno i hi cause hc).elim⟩

end OperationDef

section
variable {resolver : Resolver} {e : ServiceError}

/-- **When compiling an operation fails.** -/
theorem compileOperation_eq_error {x : Declaration} :
    (compileOperation resolver x.1 x.2.1 x.2.2).result = .error e ↔ x.Fails resolver e := by
  obtain ⟨kind, id, d⟩ := x
  have hok : (∃ split, (d.compileInput resolver kind id).result = .ok split) ↔ _ :=
    OperationDef.exists_compileInput_eq_ok
  simp only [compileOperation, Logged.result_bind_eq_error, Logged.result_note,
    Logged.result_ofExcept, Logged.result_pure, OperationDef.compileInput_eq_error,
    ServiceError.inPhase_eq_error, Responses.build_eq_error, reduceCtorEq, false_or, and_false,
    exists_false, or_false, exists_const, true_and]
  constructor
  · rintro (⟨i, hi, cause, hc, rfl⟩ | ⟨split, hs, cause, ⟨o, ho, code, hcode, hrange, rfl⟩, rfl⟩)
    · exact .input hi hc
    · exact .responses (hok.1 ⟨split, hs⟩) ho hcode hrange
  · rintro (⟨hi, hc⟩ | ⟨hi, ho, hcode, hrange⟩)
    · exact .inl ⟨_, hi, _, hc, rfl⟩
    · obtain ⟨split, hs⟩ := hok.2 hi
      exact .inr ⟨split, hs, _, ⟨_, ho, _, hcode, hrange, rfl⟩, rfl⟩

/-- An operation is compiled iff it does not fail. -/
theorem exists_compileOperation_eq_ok {x : Declaration} :
    (∃ o, (compileOperation resolver x.1 x.2.1 x.2.2).result = .ok o)
      ↔ ∀ e, ¬x.Fails resolver e := by
  simp only [← compileOperation_eq_error]
  cases (compileOperation resolver x.1 x.2.1 x.2.2).result <;> simp

end

/-! ## Runs -/

section
variable {compile : OperationCompiler} {e : ServiceError}

/-- What one step of the first stage fails with: what compiling the operation fails with, or else
what the remaining ones do. -/
theorem deriveInto_cons_eq_error {ps : Paths} {x : Declaration} {xs : List Declaration} :
    (deriveInto compile ps (x :: xs)).result = .error e ↔
      (compile x.1 x.2.1 x.2.2).result = .error e ∨
        ∃ o, (compile x.1 x.2.1 x.2.2).result = .ok o ∧
          (deriveInto compile (ps.put x.path x.method o) xs).result = .error e := by
  obtain ⟨kind, id, d⟩ := x
  simp only [deriveInto, Logged.result_bind_eq_error, Logged.result_note, reduceCtorEq, false_or,
    exists_const, true_and, Declaration.path, Declaration.method]

/-- A list of declared operations fails with an error iff this is the error of the first one that
fails. -/
theorem deriveInto_eq_error {ps : Paths} {xs : List Declaration} :
    (deriveInto compile ps xs).result = .error e ↔
      ∃ before x after, xs = before ++ x :: after ∧
        (∀ y ∈ before, ∃ o, (compile y.1 y.2.1 y.2.2).result = .ok o) ∧
        (compile x.1 x.2.1 x.2.2).result = .error e := by
  induction xs generalizing ps with
  | nil => simp [deriveInto]
  | cons x xs ih =>
    rw [deriveInto_cons_eq_error]
    simp only [ih]
    constructor
    · rintro (h | ⟨o, ho, before, y, after, rfl, hbefore, hy⟩)
      · exact ⟨[], x, xs, rfl, by simp, h⟩
      · exact ⟨x :: before, y, after, rfl, List.forall_mem_cons.2 ⟨⟨o, ho⟩, hbefore⟩, hy⟩
    · rintro ⟨before, y, after, heq, hbefore, hy⟩
      cases before with
      | nil =>
        cases heq
        exact .inl hy
      | cons x' before =>
        cases heq
        obtain ⟨⟨o, ho⟩, hbefore⟩ := List.forall_mem_cons.1 hbefore
        exact .inr ⟨o, ho, before, y, after, rfl, hbefore, hy⟩

/-- With the supported version, a run fails iff the first stage does. -/
theorem compileWith_eq_error {d : RpcDocument} (h : checkVersion d.version = .ok ()) :
    (compileWith compile d).result = .error e
      ↔ (deriveInto compile [] d.operations.declared).result = .error e := by
  have hmerge := fun derived => (mergePaths_ok (d.paths.getD []) derived).1
  simp [compileWith, derivePaths, Logged.result_bind_eq_error, h, hmerge, passthroughFields]

/-- A version that is not the supported one ends a run before anything is reported. -/
theorem compileWith_of_version {d : RpcDocument} (h : checkVersion d.version = .error e) :
    compileWith compile d = ⟨[], .error e⟩ := by
  rw [compileWith, Logged.bind_of_error (e := e) h]
  rfl

end

/-! ## Resolving within the components -/

/-- Within components, a reference is either of another kind or not resolved. -/
theorem Resolver.ofComponents_eq_error {c : Components} {r : Reference} {e : ServiceError}
    (h : ofComponents c r = .error e) :
    e = .unsupportedReference r.target ∨ ∃ cause, e = .unresolvedReference r.target cause := by
  rw [ofComponents, ofTree] at h
  split at h
  · cases h
    exact .inl rfl
  · refine .inr ?_
    split at h
    · cases h
      exact ⟨_, rfl⟩
    · split at h
      · split at h
        · cases h
        · cases h
          exact ⟨_, rfl⟩
      · cases h
        exact ⟨_, rfl⟩

/-- The errors of runs that resolve references within the components. -/
inductive ServiceError.OfRun : ServiceError → Prop
  | missingVersion : OfRun .missingVersion
  | unsupportedVersion (v : String) : OfRun (.unsupportedVersion v)
  | notObjectSchema (id : String) : OfRun (.inOperation id .input .notObjectSchema)
  | missingProperties (id : String) : OfRun (.inOperation id .input .missingProperties)
  | unsupportedReference (id target : String) :
      OfRun (.inOperation id .input (.unsupportedReference target))
  | unresolvedReference (id target : String) (cause : Option DecodeError) :
      OfRun (.inOperation id .input (.unresolvedReference target cause))
  | invalidStatusCode (id : String) {code : Nat} (h : code < 100 ∨ 599 < code) :
      OfRun (.inOperation id .responses (.invalidStatusCode code))

/-- With references resolved within components, an operation fails for one of the reasons of a
run. -/
theorem Declaration.Fails.ofRun {c : Components} {x : Declaration} {e : ServiceError}
    (h : x.Fails (Resolver.ofComponents c) e) : e.OfRun := by
  cases h with
  | input hi hc =>
    cases hc with
    | boolean | notObject => exact .notObjectSchema _
    | noProperties => exact .missingProperties _
    | unresolved hr he =>
      rcases Resolver.ofComponents_eq_error he with rfl | ⟨cause, rfl⟩
      · exact .unsupportedReference _ _
      · exact .unresolvedReference _ _ cause
  | responses _ _ _ hrange => exact .invalidStatusCode _ hrange

/-! ## The failures of a run -/

namespace RpcDocument

/-- The version of a description is the text under it, if there is one. -/
theorem version_eq_some {d : RpcDocument} {v : String} :
    d.version = some v ↔ d.yarpc = some (.str v) := by
  rw [version]
  rcases d.yarpc with - | (_ | _ | _ | s | _ | _) <;> simp [Json.text?]

/-- The version is refused iff it is missing or another one than the supported one. -/
theorem checkVersion_eq_error {version : Option String} {e : ServiceError} :
    checkVersion version = .error e ↔
      (version = none ∧ e = .missingVersion) ∨
        ∃ v, version = some v ∧ v ≠ supportedVersion ∧ e = .unsupportedVersion v := by
  cases version with
  | none => simp [checkVersion, eq_comm]
  | some v =>
    by_cases hv : v = supportedVersion <;> simp [checkVersion, hv, eq_comm]

/-- A description with the supported version is accepted. -/
theorem checkVersion_eq_ok {d : RpcDocument} (h : d.yarpc = some (.str supportedVersion)) :
    checkVersion d.version = .ok () := by
  rw [version_eq_some.2 h]
  rfl

end RpcDocument

/-- With the supported version, a run fails with an error iff this is the error of the first
declared operation that fails. -/
theorem compileResolving_eq_error {resolver : Resolver} {d : RpcDocument} {e : ServiceError}
    (h : d.yarpc = some (.str RpcDocument.supportedVersion)) :
    (compileResolving resolver d).result = .error e ↔
      ∃ before x after, d.operations.declared = before ++ x :: after ∧
        (∀ y ∈ before, ∀ e, ¬Declaration.Fails resolver y e) ∧ Declaration.Fails resolver x e := by
  rw [compileResolving, compileWith_eq_error (RpcDocument.checkVersion_eq_ok h),
    deriveInto_eq_error]
  simp only [exists_compileOperation_eq_ok, compileOperation_eq_error]

/-- With the supported version, a run fails iff some declared operation fails. -/
theorem exists_compileResolving_eq_error {resolver : Resolver} {d : RpcDocument}
    (h : d.yarpc = some (.str RpcDocument.supportedVersion)) :
    (∃ e, (compileResolving resolver d).result = .error e) ↔
      ∃ x ∈ d.operations.declared, ∃ e, Declaration.Fails resolver x e := by
  constructor
  · rintro ⟨e, he⟩
    obtain ⟨before, x, after, hdeclared, -, hx⟩ := (compileResolving_eq_error h).1 he
    exact ⟨x, by simp [hdeclared], e, hx⟩
  · rintro ⟨x, hx, e, he⟩
    cases hrun : (compileResolving resolver d).result with
    | error e' => exact ⟨e', rfl⟩
    | ok out =>
      -- in a successful run every declared operation compiles, so `x` does
      obtain ⟨-, hderive, -⟩ := compileWith_ok hrun
      have hok := (deriveInto_ok hderive).1 x hx
      exact (exists_compileOperation_eq_ok.1 ⟨_, hok⟩ e he).elim

/-- A run succeeds iff the version is the supported one and every declared operation is
compiled. -/
theorem exists_compileResolving_eq_ok {resolver : Resolver} {d : RpcDocument} :
    (∃ out, (compileResolving resolver d).result = .ok out) ↔
      checkVersion d.version = .ok () ∧ ∀ x ∈ d.operations.declared,
        ∃ o, (compileOperation resolver x.1 x.2.1 x.2.2).result = .ok o := by
  constructor
  · rintro ⟨out, hout⟩
    obtain ⟨hv, hderive, -⟩ := compileWith_ok hout
    exact ⟨hv, fun x hx => ⟨_, (deriveInto_ok hderive).1 x hx⟩⟩
  · rintro ⟨hv, hall⟩
    cases hrun : (compileResolving resolver d).result with
    | ok out => exact ⟨out, rfl⟩
    | error e =>
      obtain ⟨before, x, after, hdeclared, -, hx⟩ :=
        deriveInto_eq_error.1 ((compileWith_eq_error hv).1 hrun)
      obtain ⟨o, ho⟩ := hall x (by simp [hdeclared])
      cases ho.symm.trans hx

/-- **The failures of a run.** Without a version that is a text, or with another one than the
supported one, a run fails with this and reports nothing. With the supported version it fails iff a
declared operation fails, with the error of the first one; and an operation fails as
`Declaration.Fails` says. If references are resolved within the components, the error is one of
`ServiceError.OfRun`. -/
theorem compileResolving_failures (resolver : Resolver) (d : RpcDocument) :
    let run := compileResolving resolver d
    let declared := d.operations.declared
    ((∀ v, d.yarpc ≠ some (.str v)) → run = ⟨[], .error .missingVersion⟩) ∧
    (∀ v, d.yarpc = some (.str v) → v ≠ "1.0.0" →
      run = ⟨[], .error (.unsupportedVersion v)⟩) ∧
    (d.yarpc = some (.str "1.0.0") →
      ((∃ e, run.result = .error e) ↔ ∃ x ∈ declared, ∃ e, Declaration.Fails resolver x e) ∧
      ∀ e, run.result = .error e ↔
        ∃ before x after, declared = before ++ x :: after ∧
          (∀ y ∈ before, ∀ e, ¬Declaration.Fails resolver y e) ∧
          Declaration.Fails resolver x e) ∧
    (∀ x : Declaration, ∀ e, (compileOperation resolver x.1 x.2.1 x.2.2).result = .error e ↔
      x.Fails resolver e) ∧
    ∀ e, (compile d).result = .error e → e.OfRun := by
  intro run declared
  refine ⟨fun hno => ?_, fun v hv hne => ?_,
    fun hv => ⟨exists_compileResolving_eq_error hv, fun e => compileResolving_eq_error hv⟩,
    fun x e => compileOperation_eq_error, fun e he => ?_⟩
  · have hversion : d.version = none :=
      Option.eq_none_iff_forall_ne_some.2 fun v hv => hno v (RpcDocument.version_eq_some.1 hv)
    exact compileWith_of_version (RpcDocument.checkVersion_eq_error.2 (.inl ⟨hversion, rfl⟩))
  · have hversion := RpcDocument.version_eq_some.2 hv
    exact compileWith_of_version
      (RpcDocument.checkVersion_eq_error.2 (.inr ⟨v, hversion, hne, rfl⟩))
  · cases hversion : checkVersion d.version with
    | error e' =>
      rw [compile, compileResolving, compileWith_of_version hversion] at he
      cases he
      rcases RpcDocument.checkVersion_eq_error.1 hversion with ⟨-, rfl⟩ | ⟨v, -, -, rfl⟩
      · exact .missingVersion
      · exact .unsupportedVersion v
    | ok u =>
      -- past the check of the version only the operations can fail, since merging never does
      have hfail := (compileWith_eq_error hversion).1 he
      obtain ⟨-, x, -, -, -, hx⟩ := deriveInto_eq_error.1 hfail
      exact (compileOperation_eq_error.1 hx).ofRun

/-- A query that compiles, one with a code that is none of a response and an input that is fine, and
a mutation whose input is a boolean schema. -/
def failingService : RpcDocument where
  yarpc := some (.str "1.0.0")
  info := Info.titled "Failing" "1"
  operations :=
    { queries :=
        [("first", {}),
          ("second",
            { input := some (InputDef.ofSchema (.inline (Schema.object [] [])))
              output := some { statusCode := some 600 } })]
      mutations := [("third", { input := some (InputDef.ofSchema (.boolean true)) })] }

/-- The failing service fails with the code of its second query, although the input of its mutation
fails, too. -/
theorem compileResolving_failingService :
    (compileResolving (Resolver.ofTable []) failingService).result
      = .error (.inOperation "second" .responses (.invalidStatusCode 600)) := by
  obtain ⟨-, -, hrun, hoperation, -⟩ :=
    compileResolving_failures (Resolver.ofTable []) failingService
  refine ((hrun rfl).2 _).2
    ⟨[(.query, "first", {})], _, [(.mutation, "third", _)], rfl, ?_, (hoperation _ _).1 rfl⟩
  intro y hy e he
  obtain rfl := List.mem_singleton.1 hy
  cases (hoperation _ _).2 he

end RpcOpenApi
