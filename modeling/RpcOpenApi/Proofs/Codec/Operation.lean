import RpcOpenApi.Proofs.Codec.Parts
import RpcOpenApi.OpenApi.PathItem

/-!
# Reading back operations and paths

The extras of an operation are written among its own members, so their extensions have to stand
outside of the fields of both (`Operation.Stable`). The operations of a path are written among the
fields of the path, and no method has the name of a field (`PathItem.key_notMem_fieldNames`).
-/

namespace RpcOpenApi

/-! ## What is carried along -/

namespace OperationExtras

variable {ms : Members} {e : OperationExtras} {surplus : Nat → DecodeError}

/-- The fields are read back, and the extensions stand outside of them. -/
structure Stable (e : OperationExtras) : Prop where
  externalDocs : OptionReadsBack Decode.free id e.externalDocs
  security : ∀ rs ∈ e.security, ∀ r ∈ rs,
    ReadsBack (Decode.map (Decode.list Decode.text)) (Encode.map (Encode.list .str)) r
  servers : ∀ ss ∈ e.servers, ∀ s ∈ ss, s.Stable
  callbacks : OptionReadsBack (Decode.map Decode.free) Encode.free e.callbacks
  extensions : Outside fieldNames e.extensions

/-- The fields that are carried along are read iff each of them is, and all else is extensions. -/
theorem read_eq_ok {server : Json → Except DecodeError Server} : read server ms = .ok e ↔
    ms.optional "summary" Decode.text = .ok e.summary ∧
      ms.optional "tags" (Decode.list Decode.text) = .ok e.tags ∧
      ms.optional "externalDocs" Decode.free = .ok e.externalDocs ∧
      ms.optional "deprecated" Decode.boolean = .ok e.deprecated ∧
      ms.optional "security" (Decode.list (Decode.map (Decode.list Decode.text)))
        = .ok e.security ∧
      ms.optional "servers" (Decode.list server) = .ok e.servers ∧
      ms.optional "callbacks" (Decode.map Decode.free) = .ok e.callbacks ∧
      ms.extensions fieldNames = .ok e.extensions := by
  rw [Reading.eq_ok_iff_gives, read]
  simp only [Reading.gives_seq, Reading.gives_map]
  cases e
  simp only [Reading.Gives, mk.injEq, ← and_assoc, exists_eq_right]

/-- If they are stable, they are read from the members that they are written as. -/
theorem read_members (h : e.Stable) : read (Server.decode surplus) e.members = .ok e := by
  have hsecurity := optionReadsBack_of_forall (fun rs hrs => readsBack_list (h.security rs hrs))
    (fun _ => nofun)
  have hservers := Server.optionReadsBack_list surplus h.servers
  refine read_eq_ok.2 ⟨Members.optional_of_readsBack (optionReadsBack_text _) ?_,
    Members.optional_of_readsBack (optionReadsBack_texts _) ?_,
    Members.optional_of_readsBack h.externalDocs ?_,
    Members.optional_of_readsBack (optionReadsBack_boolean _) ?_,
    Members.optional_of_readsBack hsecurity ?_, Members.optional_of_readsBack hservers ?_,
    Members.optional_of_readsBack h.callbacks ?_,
    Members.extensions_of_outside h.extensions ?_⟩
  all_goals simp (disch := decide) [members, fieldNames, h.extensions.values_eq_nil,
    h.extensions.others_eq_self]

/-- If they are read from members in normal form, they are stable. -/
theorem stable_of_read (hn : Json.Normal (.obj ms))
    (h : read (Server.decode surplus) ms = .ok e) : e.Stable := by
  obtain ⟨-, -, hdocs, -, hsecurity, hservers, hcallbacks, hextensions⟩ := read_eq_ok.1 h
  have hscopes := faithful_map (faithful_list faithful_text)
  exact
    { externalDocs := Members.optionReadsBack_of_free hn hdocs
      security := Members.ensures_optional hn (fun e _ _ => ensures_list hscopes e.2) hsecurity
      servers := Members.ensures_optional hn (fun e _ _ => ensures_list Server.stable e.2) hservers
      callbacks := Members.optionReadsBack_of_freeMap hn hcallbacks
      extensions := Members.outside_of_extensions hextensions }

/-- The extensions that are read beside the fields of another record stand outside of these. -/
theorem outside_of_read {names : List String}
    (h : read (Server.decode surplus) (ms.others names) = .ok e) : Outside names e.extensions := by
  obtain ⟨-, -, -, -, -, -, -, hextensions⟩ := read_eq_ok.1 h
  exact Members.outside_of_inner hextensions

end OperationExtras

/-! ## Operations -/

/-- Lists of parameters are faithful. -/
theorem Parameters.faithful (v : Json) : Faithful Parameters.decode Parameters.encode v :=
  faithful_list Parameter.faithful_orReference v

/-- A field that is a list of parameters is read back. -/
theorem Members.optionReadsBack_of_parameters {ms : Members} {name : String}
    {o : Option Parameters} (hn : Json.Normal (.obj ms))
    (h : ms.optional name Parameters.decode = .ok o) :
    OptionReadsBack Parameters.decode Parameters.encode o :=
  optionReadsBack_of_optional hn (fun e _ => Parameters.faithful e.2) (fun _ => nofun) h

/-- A definition or reference is not written as `null` if no definition is. -/
theorem RefOr.encode_ne_null {α : Type} {encode : α → Json} (h : ∀ a, encode a ≠ .null)
    (x : RefOr α) : x.encode encode ≠ .null := by
  cases x with
  | reference r => exact nofun
  | inline a => exact h a

namespace Operation

variable {ms : Members} {o : Operation}

/-- The fields of the operation are read back, and the extensions stand outside of them as well as
of the fields that are carried along. -/
structure Stable (o : Operation) : Prop where
  parameters : OptionReadsBack Parameters.decode Parameters.encode o.parameters
  requestBody : OptionReadsBack (RefOr.decode RequestBody.decode) (RefOr.encode RequestBody.encode)
    o.requestBody
  responses : o.responses.Stable
  extras : o.extras.Stable
  outside : Outside fieldNames o.extras.extensions

/-- An operation is read iff each of its fields is, and what is carried along from the other
members. -/
theorem read_eq_ok : read ms = .ok o ↔
    ms.optional "operationId" Decode.text = .ok o.operationId ∧
      ms.optional "description" Decode.text = .ok o.description ∧
      ms.optional "parameters" Parameters.decode = .ok o.parameters ∧
      ms.optional "requestBody" (RefOr.decode RequestBody.decode) = .ok o.requestBody ∧
      ms.defaulted "responses" Responses.decode [] = .ok o.responses ∧
      OperationExtras.read Server.decodeWithin (ms.others fieldNames) = .ok o.extras := by
  rw [Reading.eq_ok_iff_gives, read]
  simp only [Reading.gives_seq, Reading.gives_map]
  cases o
  simp only [Reading.Gives, mk.injEq, ← and_assoc, exists_eq_right, Members.flattened_eq_ok]

/-- A stable operation is read back. -/
theorem readsBack (h : o.Stable) : ReadsBack decode encode o := by
  have hextras : OperationExtras.read Server.decodeWithin o.extras.members = .ok o.extras :=
    OperationExtras.read_members h.extras
  refine Decode.record_eq_ok.2 ⟨_, rfl, read_eq_ok.2
    ⟨Members.optional_of_readsBack (optionReadsBack_text _) ?_,
      Members.optional_of_readsBack (optionReadsBack_text _) ?_,
      Members.optional_of_readsBack h.parameters ?_,
      Members.optional_of_readsBack h.requestBody ?_,
      Members.defaulted_of_readsBack (Responses.readsBack h.responses) ?_, ?_⟩⟩
  case refine_6 =>
    rw [← hextras]
    congr 1
    simp (disch := decide) [OperationExtras.members, fieldNames, h.outside.others_eq_self]
  all_goals simp (disch := decide) [OperationExtras.members, h.outside.values_eq_nil]

/-- An operation that is read from members in normal form is stable. -/
theorem stable_of_read (hn : Json.Normal (.obj ms)) (h : read ms = .ok o) : o.Stable := by
  obtain ⟨-, -, hparameters, hbody, hresponses, hextras⟩ := read_eq_ok.1 h
  exact
    { parameters := Members.optionReadsBack_of_parameters hn hparameters
      requestBody := Members.optionReadsBack_of_optional hn
        (fun e _ => RequestBody.faithful_orReference e.2) (RefOr.encode_ne_null fun _ => nofun)
        hbody
      responses := Members.ensures_defaulted hn (fun e _ => Responses.stable e.2) .nil hresponses
      extras := OperationExtras.stable_of_read (hn.others fieldNames) hextras
      outside := OperationExtras.outside_of_read hextras }

/-- Operations are faithful. -/
theorem faithful (v : Json) : Faithful decode encode v :=
  ensures_record (fun _ _ hn h => readsBack (stable_of_read hn h)) v

end Operation

/-! ## Paths -/

namespace PathItem

variable {ms : Members} {p : PathItem}

/-- The fields of the path are read back, and so are its operations, which stand under distinct
methods. -/
structure Stable (p : PathItem) : Prop where
  parameters : OptionReadsBack Parameters.decode Parameters.encode p.parameters
  servers : ∀ ss ∈ p.servers, ∀ s ∈ ss, s.Stable
  operations : MapOf (ReadsBack Operation.decode Operation.encode) p.operations

/-- A path is read iff each of its fields is, and its operations from the other members. -/
theorem read_eq_ok : read ms = .ok p ↔
    ms.optional "summary" Decode.text = .ok p.summary ∧
      ms.optional "description" Decode.text = .ok p.description ∧
      ms.optional "parameters" Parameters.decode = .ok p.parameters ∧
      ms.optional "servers" (Decode.list Server.decodeAlone) = .ok p.servers ∧
      readOperations (ms.others fieldNames) = .ok p.operations := by
  rw [Reading.eq_ok_iff_gives, read]
  simp only [Reading.gives_seq, Reading.gives_map]
  cases p
  simp only [Reading.Gives, mk.injEq, ← and_assoc, exists_eq_right, Members.flattened_eq_ok]

/-- No method has the name of a field. -/
theorem key_notMem_fieldNames {os : Operations} : ∀ e ∈ encodeOperations os, e.1 ∉ fieldNames := by
  intro e he
  obtain ⟨⟨method, o⟩, -, rfl⟩ := List.mem_map.1 he
  show method.text ∉ fieldNames
  cases method <;> decide

/-- The operations of a path do not stand under the names of its fields. -/
theorem values_encodeOperations {names : List String} (h : names ⊆ fieldNames) (os : Operations) :
    Members.values names (encodeOperations os) = [] :=
  Members.values_eq_nil fun e he hk => key_notMem_fieldNames e he (h hk)

/-- So all of them are among its other members. -/
theorem others_encodeOperations {names : List String} (h : names ⊆ fieldNames) (os : Operations) :
    Members.others names (encodeOperations os) = encodeOperations os :=
  Members.others_eq_self fun e he hk => key_notMem_fieldNames e he (h hk)

/-- A method is found by its text. -/
theorem variantNamed_text (method : HttpMethod) :
    Decode.variantNamed HttpMethod.variants method.text = .ok method := by
  cases method <;> rfl

/-- Different methods have different texts. -/
theorem text_injective {m m' : HttpMethod} (h : m.text = m'.text) : m = m' :=
  Except.ok.inj ((variantNamed_text m).symm.trans (h ▸ variantNamed_text m'))

/-- The operations of a path are written under the texts of their methods, in order. -/
theorem keys_encodeOperations (os : Operations) :
    OrderedMap.keys (encodeOperations os) = os.keys.map HttpMethod.text := by
  simp [encodeOperations, OrderedMap.keys]

/-- The methods of operations are distinct iff their names are. -/
theorem distinct_encodeOperations {os : Operations} :
    OrderedMap.Distinct (encodeOperations os) ↔ OrderedMap.Distinct os := by
  rw [OrderedMap.Distinct, keys_encodeOperations]
  exact List.nodup_map_iff fun _ _ => text_injective

/-- Operations that are read back are read from the members that they are written as. -/
theorem readEntries_encodeOperations {os : Operations}
    (h : ∀ e ∈ os, ReadsBack Operation.decode Operation.encode e.2) :
    readEntries (encodeOperations os) = .ok os := by
  induction os with
  | nil => rfl
  | cons e os ih =>
    obtain ⟨he, hos⟩ := List.forall_mem_cons.1 h
    refine Decode.bind_eq_ok.2 ⟨e.1, variantNamed_text e.1, Decode.bind_eq_ok.2 ⟨e.2, he, ?_⟩⟩
    exact Decode.bind_eq_ok.2 ⟨os, ih hos, rfl⟩

/-- A method is known by its name only. -/
theorem text_of_variantNamed {k : String} {m : HttpMethod}
    (h : Decode.variantNamed HttpMethod.variants k = .ok m) : m.text = k := by
  obtain ⟨m', -, heq⟩ := List.mem_map.1 (Decode.mem_of_variantNamed h)
  cases heq
  rfl

/-- The names of the methods are the keys that they are read from. -/
theorem keys_of_readEntries {es : List (HttpMethod × Operation)} (h : readEntries ms = .ok es) :
    (OrderedMap.keys es).map HttpMethod.text = OrderedMap.keys ms := by
  induction ms generalizing es with
  | nil =>
    cases h
    rfl
  | cons e ms ih =>
    obtain ⟨m, hm, h⟩ := Decode.bind_eq_ok.1 h
    obtain ⟨o, ho, h⟩ := Decode.bind_eq_ok.1 h
    obtain ⟨rest, hrest, h⟩ := Decode.bind_eq_ok.1 h
    cases h
    rw [OrderedMap.keys_cons, List.map_cons, ih hrest, OrderedMap.keys_cons,
      text_of_variantNamed hm]

/-- The methods are distinct if no key is repeated. -/
theorem distinct_of_readEntries {es : List (HttpMethod × Operation)}
    (hd : OrderedMap.Distinct ms) (h : readEntries ms = .ok es) : OrderedMap.Distinct es :=
  .of_map HttpMethod.text (keys_of_readEntries h ▸ hd)

/-- An operation that is read from the members of an object is read from the value of one of
them. -/
theorem exists_of_mem_readEntries {es : List (HttpMethod × Operation)}
    (h : readEntries ms = .ok es) {e : HttpMethod × Operation} (he : e ∈ es) :
    ∃ m ∈ ms, Operation.decode m.2 = .ok e.2 := by
  induction ms generalizing es with
  | nil =>
    cases h
    cases he
  | cons m ms ih =>
    rw [readEntries] at h
    obtain ⟨method, -, h⟩ := Decode.bind_eq_ok.1 h
    obtain ⟨o, ho, h⟩ := Decode.bind_eq_ok.1 h
    obtain ⟨es', hes, h⟩ := Decode.bind_eq_ok.1 h
    cases h
    rcases List.mem_cons.1 he with rfl | he
    · exact ⟨m, .head _, ho⟩
    · obtain ⟨m', hm', hread⟩ := ih hes he
      exact ⟨m', .tail _ hm', hread⟩

/-- Operations are read iff the members are read as entries, whose last ones are kept. -/
theorem readOperations_eq_ok {os : Operations} : readOperations ms = .ok os ↔
    ∃ es, readEntries ms = .ok es ∧ OrderedMap.ofPairs es = os := by
  rw [readOperations, Reading.ofExcept_eq_ok, Decode.bind_eq_ok]
  exact exists_congr fun es => and_congr_right' ⟨Except.ok.inj, congrArg _⟩

/-- Operations have what their reader yields of the values that they are read from. -/
theorem yields_operations {P : Operation → Prop} {os : Operations}
    (hP : ∀ m ∈ ms, Yields Operation.decode P m.2) (h : readOperations ms = .ok os) :
    MapOf P os := by
  obtain ⟨es, hes, rfl⟩ := readOperations_eq_ok.1 h
  refine ⟨OrderedMap.distinct_ofPairs es, fun e he => ?_⟩
  obtain ⟨m, hm, hread⟩ := exists_of_mem_readEntries hes (OrderedMap.mem_ofPairs he)
  exact hP m hm e.2 hread

/-- A stable path is read back. -/
theorem readsBack (h : p.Stable) : ReadsBack decode encode p := by
  have hservers := Server.optionReadsBack_list (fun _ => .surplusItems) h.servers
  refine Decode.record_eq_ok.2 ⟨_, rfl, read_eq_ok.2
    ⟨Members.optional_of_readsBack (optionReadsBack_text _) ?_,
      Members.optional_of_readsBack (optionReadsBack_text _) ?_,
      Members.optional_of_readsBack h.parameters ?_,
      Members.optional_of_readsBack hservers ?_, ?_⟩⟩
  case refine_5 =>
    refine readOperations_eq_ok.2 ⟨p.operations, ?_, h.operations.distinct.ofPairs_eq⟩
    rw [← readEntries_encodeOperations h.operations.values]
    congr 1
    simp (disch := decide) [fieldNames, others_encodeOperations]
  all_goals simp (disch := decide) [values_encodeOperations]

/-- A path that is read from members in normal form is stable. -/
theorem stable_of_read (hn : Json.Normal (.obj ms)) (h : read ms = .ok p) : p.Stable := by
  obtain ⟨-, -, hparameters, hservers, hoperations⟩ := read_eq_ok.1 h
  obtain ⟨-, hvalues⟩ := Json.normal_obj_iff.1 (hn.others fieldNames)
  exact
    { parameters := Members.optionReadsBack_of_parameters hn hparameters
      servers := Members.ensures_optional hn (fun e _ _ => ensures_list Server.stable e.2) hservers
      operations :=
        yields_operations (fun m hm => Operation.faithful m.2 (hvalues m hm)) hoperations }

/-- What is read as a path is stable. -/
theorem stable (v : Json) : Ensures decode Stable v := ensures_record (fun _ _ => stable_of_read) v

end PathItem

/-- The paths are distinct, and each of them is read back. -/
abbrev Paths.Stable (ps : Paths) : Prop := MapOf PathItem.Stable ps

/-- All paths are read back if each of them is stable. -/
theorem Paths.readsBack {ps : Paths} (h : ps.Stable) : ReadsBack decode encode ps :=
  readsBack_map (h.imp fun _ => PathItem.readsBack)

/-- What is read as paths is stable. -/
theorem Paths.stable (v : Json) : Ensures decode Stable v := ensures_map PathItem.stable v

end RpcOpenApi
