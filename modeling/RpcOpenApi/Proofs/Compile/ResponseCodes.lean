import RpcOpenApi.Proofs.OrderedMap
import RpcOpenApi.Compile.Responses

/-!
# Responses by code

The responses of an operation are built by a fold: the response for success is put down under the
digits of its code, and the declared ones are inserted after it. Whether a declared one takes the
place of the first is decided by the texts of the codes alone, and then nothing is left of it but
its place. `Responses.build_codes` says without the fold which codes there are, in which order, and
what stands under each of them.
-/

namespace RpcOpenApi

/-- A media type is empty iff it is the one of which nothing is said. -/
theorem MediaType.isEmpty_iff_eq {m : MediaType} : m.isEmpty = true ↔ m = {} := by
  obtain ⟨schema, e, examples, encoding, extensions⟩ := m
  simp [isEmpty, and_assoc]

namespace Responses

variable {output : OutputDef}

/-- If nothing is said of a body, the response for success has none. -/
theorem success_of_eq (h : output.media = {}) :
    success output = { description := output.description.getD "OK" } := by
  rw [success, if_pos (MediaType.isEmpty_iff_eq.2 h)]
  rfl

/-- If something is said of a body, the response for success has one, in JSON. -/
theorem success_of_ne (h : output.media ≠ {}) :
    success output =
      { description := output.description.getD "OK"
        content := some [("application/json", output.media)] } := by
  rw [success, if_neg fun hempty => h (MediaType.isEmpty_iff_eq.1 hempty)]
  rfl

/-- **Which responses an operation has.** They cannot be built iff the code of success is none of a
response. Otherwise the code of success stands first, by its digits, and the declared codes other
than it follow in their order, each once. Under a declared code stands what is declared, also if it
is the code of success. Else the latter has an inline response with the description that is given
or `OK`, with a body in JSON iff the output says anything about one, and with nothing else. -/
theorem build_codes (output : Option OutputDef) (errors : Option Responses)
    (hdistinct : ∀ declared ∈ errors, OrderedMap.Distinct declared) :
    let n := (output.bind (·.statusCode)).getD 200
    let code : StatusCode := ⟨toString n⟩
    let declared := errors.getD []
    let media := (output.map (·.media)).getD {}
    (∀ e, build output errors = .error e ↔ e = .invalidStatusCode n ∧ ¬(100 ≤ n ∧ n ≤ 599)) ∧
    (100 ≤ n ∧ n ≤ 599 → ∃ responses, build output errors = .ok responses ∧
      OrderedMap.keys responses = code :: (OrderedMap.keys declared).filter (· ≠ code) ∧
      OrderedMap.Distinct responses ∧
      (∀ c r, OrderedMap.get? declared c = some r → OrderedMap.get? responses c = some r) ∧
      (code ∉ OrderedMap.keys declared → ∃ success : Response,
        OrderedMap.get? responses code = some (.inline success) ∧
        success.description = (output.bind (·.description)).getD "OK" ∧
        (media = {} → success.content = none) ∧
        (media ≠ {} → success.content = some [("application/json", media)]) ∧
        success.headers = none ∧ success.links = none ∧ success.extensions = [])) := by
  intro n code declared media
  have hd : OrderedMap.Distinct declared := by
    cases errors with
    | none => exact List.nodup_nil
    | some declared => exact hdistinct declared rfl
  have hn : successCode (output.getD {}) = n := by cases output <;> rfl
  have hmedia : (output.getD {}).media = media := by cases output <;> rfl
  have hdescription : (output.getD {}).description = output.bind (·.description) := by
    cases output <;> rfl
  refine ⟨fun e => ?_, fun hrange => ?_⟩
  · simp only [build, hn]
    split
    · next hrange => simp [hrange]
    · next hrange => simp [hrange, eq_comm]
  · -- the declared entries are inserted over the success entry, so that one of its code is kept
    refine ⟨OrderedMap.insertAll [(code, .inline (success (output.getD {})))] declared, ?_, ?_, ?_,
      ?_, ?_⟩
    · simp only [build, hn]
      exact if_pos hrange
    · exact hd.keys_insertAll_singleton code _
    · exact OrderedMap.Distinct.insertAll (List.nodup_singleton code)
    · intro c r hr
      rw [hd.get?_insertAll, hr]
      rfl
    · intro hnew
      refine ⟨success (output.getD {}), ?_, ?_, ?_, ?_, rfl, rfl, rfl⟩
      · rw [hd.get?_insertAll, OrderedMap.get?_eq_none_iff.2 hnew]
        simp
      · rw [← hdescription]
        rfl
      · intro hempty
        rw [success_of_eq (hmedia.trans hempty)]
      · intro hnonempty
        rw [success_of_ne (by rwa [hmedia]), hmedia]

/-- An answer whose code is declared as well, and which has an empty description and a body about
which only an extension says anything. -/
def createdOutput : OutputDef :=
  { description := some "", statusCode := some 201
    media := { extensions := [("x-size", .num (.int 1))] } }

/-- A range of codes, the code of success and the other codes are declared. -/
def declaredErrors : Responses :=
  [(⟨"4XX"⟩, .reference { target := "#/components/responses/Refused" }),
    (⟨"201"⟩, .inline (.described "taken")), (⟨"default"⟩, .inline (.described "other"))]

/-- With the declared errors the code of the created output stands first and has what is declared.
Without them it has the response for success. A code of four digits is refused. -/
theorem build_codes_createdOutput :
    (∃ responses, build createdOutput declaredErrors = .ok responses ∧
      OrderedMap.keys responses = [⟨"201"⟩, ⟨"4XX"⟩, ⟨"default"⟩] ∧
      OrderedMap.get? responses ⟨"201"⟩ = some (.inline (.described "taken"))) ∧
    (∃ responses success, build createdOutput none = .ok responses ∧
      OrderedMap.get? responses ⟨"201"⟩ = some (.inline success) ∧ success.description = "" ∧
      success.content = some [("application/json", createdOutput.media)]) ∧
    build (some { createdOutput with statusCode := some 1000 }) declaredErrors
      = .error (.invalidStatusCode 1000) := by
  have hdistinct : ∀ declared ∈ some declaredErrors, OrderedMap.Distinct declared := by
    rintro _ ⟨⟩
    simp [OrderedMap.Distinct, declaredErrors]
  have hmedia : createdOutput.media ≠ {} := fun h => by cases congrArg MediaType.extensions h
  refine ⟨?_, ?_, ?_⟩
  · obtain ⟨-, hok⟩ := build_codes createdOutput declaredErrors hdistinct
    obtain ⟨responses, hbuild, hkeys, -, hdeclared, -⟩ := hok (by decide)
    exact ⟨responses, hbuild, hkeys, hdeclared _ _ rfl⟩
  · have hnone : ∀ declared ∈ (none : Option Responses), OrderedMap.Distinct declared := by simp
    obtain ⟨-, hok⟩ := build_codes createdOutput none hnone
    obtain ⟨responses, hbuild, -, -, -, hnew⟩ := hok (by decide)
    obtain ⟨success, hsuccess, hdescription, -, hcontent, -⟩ := hnew List.not_mem_nil
    exact ⟨responses, success, hbuild, hsuccess, hdescription, hcontent hmedia⟩
  · obtain ⟨herror, -⟩ :=
      build_codes (some { createdOutput with statusCode := some 1000 }) declaredErrors hdistinct
    exact (herror _).2 ⟨rfl, by decide⟩

end Responses

end RpcOpenApi
