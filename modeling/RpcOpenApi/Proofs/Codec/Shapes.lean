import RpcOpenApi.Proofs.Codec.NormalForm
import RpcOpenApi.Proofs.Yaml.TreeValues

/-!
# What is read fits its shape when it is written

A YAML text is read with a shape in mind, which the types of the document model give beside their
readers. Whatever is read as a document is written as a tree that fits the shape of documents
(`OpenApiDocument.fits`), so nothing in its text is taken for something else and no member of it is
skipped.

The shape of a record has places for its fields and one for its other members. Each field fits the
place of its name, and the other members, which have none of these names (`Outside`), fit the place
that is left, where any value may stand (`Outside.membersFit`).
-/

namespace RpcOpenApi

open Yaml (Fits)

/-! ## Places where any value may stand -/

namespace Yaml

variable {shape inner value : Shape} {j : Json} {fields : List (String × Shape)}
  {others : Option Shape} {name : String} {names : List String} {ms ms' : Members}

/-- Every tree fits a shape whose parts have that shape again and may be anything. -/
theorem fits_of_uniform (shape : Shape) {rule : KeyRule} (hopen : IsOpen (Tree.required shape).2)
    (hitem : itemShape? (Tree.required shape).2 = some shape)
    (hrules : mappingRules? (Tree.required shape).2 = some (rule, fun _ => .kept shape))
    (j : Json) : Fits shape j := by
  induction j using Json.induction with
  | null | num => exact .word hopen rfl
  | bool b => cases b <;> exact .word hopen rfl
  | str s => exact .text (.inl hopen) s
  | arr js ih => exact .sequence hitem ih
  | obj ms ih => exact .mapping hrules (fun _ => shape) (fun _ _ => rfl) ih

/-- Every tree fits where a tree of any form is read. -/
theorem fits_free (j : Json) : Fits .free j := fits_of_uniform .free trivial rfl rfl j

/-- Every tree fits where a whole tree is kept. -/
theorem fits_whole (j : Json) : Fits .whole j := fits_of_uniform .whole trivial rfl rfl j

/-- A value that is there may stand in a place of an optional one. -/
theorem Fits.optional (h : Fits shape j) : Fits (.optional shape) j := by
  cases h with
  | word hopen hj => exact .word (by exact hopen) hj
  | absent => exact .absent rfl
  | boolean h b => exact .boolean (by exact h) b
  | integer h i => exact .integer (by exact h) i
  | text h s => exact .text (by exact h) s
  | sequence h hjs => exact .sequence h hjs
  | mapping h inner hkept hms => exact .mapping h inner hkept hms

/-- A text fits where a text is read. -/
theorem fits_text (s : String) : Fits .text (.str s) := .text (.inr (.inl rfl)) s

/-! ## Lists and maps -/

section
variable {α : Type} {encode : α → Json}

/-- A list fits if its items do. -/
theorem fits_list {as : List α} (h : ∀ a ∈ as, Fits value (encode a)) :
    Fits (.list value) (Encode.list encode as) :=
  .sequence rfl (List.forall_mem_map.2 h)

/-- A map fits if its values do. -/
theorem fits_map {m : OrderedMap String α} (h : ∀ e ∈ m, Fits value (encode e.2)) :
    Fits (.map value) (Encode.map encode m) :=
  .mapping rfl (fun _ => value) (fun _ _ => rfl) (List.forall_mem_map.2 h)

/-- A map of trees fits where one is read. -/
theorem fits_freeMap (m : OrderedMap String Json) : Fits (.map .free) (Encode.free m) := by
  rw [← Encode.map_id]
  exact fits_map fun e _ => fits_free e.2

/-- A mapping with codes as keys may have any values. -/
theorem fits_genericCodes (ms : Members) : Fits .genericCodes (.obj ms) :=
  .mapping rfl (fun _ => .whole) (fun _ _ => rfl) fun m _ => fits_whole m.2

/-! ## Records -/

/-- Each of the members fits the shape of the field of its name, or the one of the other members. -/
def MembersFit (fields : List (String × Shape)) (others : Option Shape) (ms : Members) : Prop :=
  ∀ m ∈ ms, ∃ inner, (fields.lookup m.1).or others = some inner ∧ Fits inner m.2

/-- An object whose members fit their places is a record. -/
theorem fits_record (h : MembersFit fields others ms) : Fits (.record fields others) (.obj ms) := by
  refine .mapping rfl (fun k => ((fields.lookup k).or others).getD .free) (fun m hm => ?_)
    fun m hm => ?_ <;>
  obtain ⟨inner, hplace, hfits⟩ := h m hm
  · rw [hplace]
    rfl
  · rw [hplace]
    exact hfits

/-- An object whose members fit their places is a record among values of any form. -/
theorem fits_generic (h : MembersFit fields (some .whole) ms) :
    Fits (.generic fields) (.obj ms) := by
  refine .mapping rfl (fun k => (fields.lookup k).getD .whole) (fun _ _ => rfl) fun m hm => ?_
  obtain ⟨inner, hplace, hfits⟩ := h m hm
  rw [Option.or_some] at hplace
  exact Option.some.inj hplace ▸ hfits

/-- Two lists of members fit together if each of them does. -/
theorem MembersFit.append (h : MembersFit fields others ms) (h' : MembersFit fields others ms') :
    MembersFit fields others (ms ++ ms') :=
  fun m hm => (List.mem_append.1 hm).elim (h m) (h' m)

/-- A member fits if its value fits the place of its name. -/
theorem membersFit_member (hname : (fields.lookup name).or others = some inner)
    (hj : Fits inner j) : MembersFit fields others [(name, j)] :=
  List.forall_mem_singleton.2 ⟨inner, hname, hj⟩

/-- A field that may be left out fits if its value does. -/
theorem membersFit_optional {o : Option α} (hname : (fields.lookup name).or others = some inner)
    (h : ∀ a ∈ o, Fits inner (encode a)) :
    MembersFit fields others (Encode.optional name encode o) := by
  cases o with
  | none => exact List.forall_mem_nil _
  | some a => exact membersFit_member hname (h a rfl)

/-- A text that may be left out fits the place of a text. -/
theorem membersFit_text {o : Option String}
    (hname : (fields.lookup name).or others = some (.optional .text)) :
    MembersFit fields others (Encode.optional name .str o) :=
  membersFit_optional hname fun s _ => (fits_text s).optional

/-- A section of the components fits the place of a map. -/
theorem membersFit_section {m : OrderedMap String α}
    (hname : (fields.lookup name).or others = some (.map .whole)) :
    MembersFit fields others (Components.sectionMember name encode m) := by
  rw [Components.sectionMember]
  split
  · exact List.forall_mem_nil _
  · exact membersFit_member hname (fits_map fun e _ => fits_whole _)

end

/-- Members with names that none of the fields has fit if they have the shape of the others. -/
theorem membersFit_others (hfields : fields.map Prod.fst ⊆ names) (hnames : ∀ m ∈ ms, m.1 ∉ names)
    (hms : ∀ m ∈ ms, Fits inner m.2) : MembersFit fields (some inner) ms := by
  intro m hm
  have hlookup : fields.lookup m.1 = none := by
    rw [List.lookup_eq_none_iff]
    intro field hfield
    have hmem : field.1 ∈ names := hfields (List.mem_map_of_mem hfield)
    simpa using fun heq : m.1 = field.1 => hnames m hm (heq ▸ hmem)
  exact ⟨inner, by rw [hlookup, Option.none_or], hms m hm⟩

end Yaml

section
variable {names names' : List String} {m : OrderedMap String Json}

/-- Members that stand outside of two groups of fields stand outside of all of them. -/
theorem Outside.append (h : Outside names m) (h' : Outside names' m) :
    Outside (names ++ names') m :=
  ⟨h.normal, fun k hk hmem => (List.mem_append.1 hmem).elim (h.notMem k hk) (h'.notMem k hk)⟩

/-- Beside the fields of a record there may be any members. -/
theorem Outside.membersFit {fields : List (String × Shape)} (h : Outside names m)
    (hfields : fields.map Prod.fst ⊆ names) : Yaml.MembersFit fields (some .whole) m :=
  Yaml.membersFit_others hfields (fun e he => h.notMem e.1 (List.mem_map_of_mem he))
    fun e _ => Yaml.fits_whole e.2

end

/-! ## Servers and operations -/

open Yaml

namespace Server

/-- A server fits its shape. -/
theorem fits (s : Server) : Fits shape s.encode := by
  refine fits_record ?_
  exact ((membersFit_member rfl (fits_text _)).append (membersFit_text rfl)).append
    (membersFit_optional rfl fun b _ => (fits_freeMap b).optional)

/-- A server has no member besides its fields. -/
theorem fits_genericRecord (s : Server) : Fits (.genericRecord fieldNames) s.encode := by
  have hnames : ∀ m ∈ ("url", .str s.url) :: Encode.optional "description" .str s.description
      ++ Encode.optional "variables" Encode.free s.bindings, m.1 ∈ fieldNames := by
    rcases s with ⟨url, - | d, - | b⟩ <;> simp [Encode.optional, fieldNames]
  exact .mapping rfl (fun _ => .whole) (fun m hm => if_pos (hnames m hm)) fun m _ => fits_whole m.2

/-- Servers that are carried along fit the shape of any items. -/
theorem fits_wholeShapes (ss : List Server) : Fits wholeShapes (Encode.list encode ss) :=
  .sequence rfl (List.forall_mem_map.2 fun s _ => s.fits_genericRecord)

end Server

/-- In a path item an operation is read as a whole, but for its responses and its servers. -/
theorem Operation.fits_of_tidy {o : Operation} (h : o.Tidy) : Fits wholeShape o.encode := by
  have houtside := h.outside.append h.extras.extensions
  have hwhole : ∀ {α : Type} {encode : α → Json} {o : Option α}, ∀ a ∈ o, Fits .whole (encode a) :=
    fun _ _ => fits_whole _
  rw [encode, List.append_cons, OperationExtras.members]
  refine fits_generic ?_
  exact (((((membersFit_optional rfl hwhole).append (membersFit_optional rfl hwhole)).append
    (membersFit_optional rfl hwhole)).append (membersFit_optional rfl hwhole)).append
    (membersFit_member rfl (fits_genericCodes _))).append
    ((((((((membersFit_optional rfl hwhole).append (membersFit_optional rfl hwhole)).append
    (membersFit_optional rfl hwhole)).append (membersFit_optional rfl hwhole)).append
    (membersFit_optional rfl hwhole)).append
    (membersFit_optional rfl fun ss _ => Server.fits_wholeShapes ss)).append
    (membersFit_optional rfl hwhole)).append (houtside.membersFit (by decide)))

/-- A tidy path fits its shape. -/
theorem PathItem.fits_of_tidy {p : PathItem} (h : p.Tidy) : Fits shape p.encode := by
  have hoperations : ∀ m ∈ encodeOperations p.operations, Fits Operation.wholeShape m.2 :=
    List.forall_mem_map.2 fun e he => Operation.fits_of_tidy (h.operations.values e he)
  refine fits_record ?_
  exact ((((membersFit_text rfl).append (membersFit_text rfl)).append
    (membersFit_optional rfl fun ps _ => (fits_list fun _ _ => fits_whole _).optional)).append
    (membersFit_optional rfl fun ss _ => (fits_list fun s _ => s.fits).optional)).append
    (membersFit_others (List.Subset.refl fieldNames) key_notMem_fieldNames hoperations)

/-- Tidy paths fit their shape. -/
theorem Paths.fits_of_tidy {ps : Paths} (h : ps.Tidy) : Fits shape ps.encode :=
  fits_map fun e he => PathItem.fits_of_tidy (h.values e he)

/-! ## Documents -/

/-- What is read as general information fits its shape when it is written. -/
theorem Info.fits (v : Json) : Yields decode (fun i => Fits shape i.encode) v := by
  refine yields_record (fun ms i h => ?_) v
  obtain ⟨-, -, -, -, -, -, -, hext⟩ := read_eq_ok.1 h
  have houtside := Members.outside_of_extensions hext
  refine fits_record ?_
  exact (((((((membersFit_member rfl (fits_text _)).append
    (membersFit_member rfl (fits_text _))).append (membersFit_text rfl)).append
    (membersFit_text rfl)).append (membersFit_text rfl)).append
    (membersFit_optional rfl fun j _ => (fits_free j).optional)).append
    (membersFit_optional rfl fun j _ => (fits_free j).optional)).append
    (houtside.membersFit (by decide))

/-- Components fit their shape if their other members stand outside of the sections. -/
theorem Components.fits_of_outside {c : Components} (h : Outside fieldNames c.others) :
    Fits shape c.encode := by
  refine fits_record ?_
  exact ((((membersFit_section rfl).append (membersFit_section rfl)).append
    (membersFit_section rfl)).append (membersFit_section rfl)).append
    (h.membersFit (by decide))

/-- What is read as components fits its shape when it is written. -/
theorem Components.fits (v : Json) : Yields decode (fun c => Fits shape c.encode) v := by
  refine yields_record (fun ms c h => fits_of_outside ?_) v
  obtain ⟨-, -, -, -, hothers⟩ := read_eq_ok.1 h
  exact Members.outside_of_extensions hothers

/-- **A document is written as a tree that fits the shape of documents.** -/
theorem OpenApiDocument.fits (v : Json) : Yields decode (fun d => Fits shape d.encode) v := by
  refine yields_record (fun ms d h => ?_) v
  obtain ⟨-, hinfo, hpaths, hcomponents, hext⟩ := read_eq_ok.1 h
  have houtside := Members.outside_of_extensions hext
  have hinfo : Fits Info.shape d.info.encode :=
    Members.yields_required (P := fun i => Fits Info.shape i.encode)
      (fun e _ => Info.fits e.2) hinfo
  have hpaths : Fits Paths.shape (Paths.encode d.paths) :=
    Paths.fits_of_tidy (Members.yields_defaulted (fun e _ => Paths.tidy e.2) .nil hpaths)
  have hcomponents : Fits Components.shape d.components.encode :=
    Members.yields_defaulted (P := fun c => Fits Components.shape c.encode)
      (fun e _ => Components.fits e.2) (Components.fits_of_outside (outside_nil _)) hcomponents
  refine fits_record ?_
  exact ((((membersFit_member rfl (fits_text _)).append (membersFit_member rfl hinfo)).append
    (membersFit_member rfl hpaths)).append (membersFit_member rfl hcomponents)).append
    (houtside.membersFit (by decide))

end RpcOpenApi
