import AutomatonCore.Data.SchemaIds
import AutomatonCore.Library.Lockstep
import Mathlib.Data.List.Induction

/-!
# Smart protocols
-/

namespace AutomatonCore.Smartproto

open Data Io Library List
open ProtobufFactory (strictPool importAll containInvalidData importSchema register hasFile)

/-- A factory for the schemas, and a list of wire messages with one map from
wire ids to schema ids and one back. -/
structure SmartProtocol where
  factory : ProtobufFactory
  wireMsgs : List Bytes
  wireToFactory : AList fun _ : Int => Int
  factoryToWire : AList fun _ : Int => Int

namespace SmartProtocol

def addWireMsg (protocol : SmartProtocol) (wireId : Nat) (wireMsg : Bytes) :
    Except Bytes SmartProtocol := do
  let factoryId ← protocol.factory.getSchemaId wireMsg
  return { protocol with
    factoryToWire := protocol.factoryToWire.insert factoryId wireId
    wireToFactory := protocol.wireToFactory.insert wireId factoryId }

/-- The wire id of a message type is its position in the list. -/
def addWireMsgs : SmartProtocol → Nat → List Bytes → Except Bytes SmartProtocol
  | protocol, _, [] => return protocol
  | protocol, wireId, wireMsg :: rest => do
    let next ← protocol.addWireMsg wireId wireMsg
    addWireMsgs next (wireId + 1) rest

/-- `load` with the contents of the schema files and of `wire_msgs` in the
configuration; all schemas are imported with an empty name. -/
def load (pool : DescriptorPool) (schemas : List FileDescriptorProto)
    (wireMsgs : List Bytes) : Except Bytes SmartProtocol := do
  let factory ← importAll pool {} (schemas.map fun proto => ⟨proto, [], []⟩)
  addWireMsgs ⟨factory, wireMsgs, ∅, ∅⟩ 0 wireMsgs

def getWireFromFactory (protocol : SmartProtocol) (msgSchemaId : Int) : Int :=
  (protocol.factoryToWire.lookup msgSchemaId).getD (-1)

def getFactoryFromWire (protocol : SmartProtocol) (wireId : Int) : Int :=
  (protocol.wireToFactory.lookup wireId).getD (-1)

/-! ## The maps of a loaded protocol -/

/-- The last position of a name. -/
structure LastAt (names : List Bytes) (position : Nat) (name : Bytes) : Prop where
  here : names[position]? = some name
  last : ∀ later, position < later → names[later]? ≠ some name

variable {names rest : List Bytes}

theorem LastAt.of_concat {new name : Bytes}
    {pos : Nat} (lastPlace : LastAt (names ++ [new]) pos name) :
    new = name ∧ pos = names.length ∨ new ≠ name ∧ LastAt names pos name := by
  have bound := (List.getElem?_eq_some_iff.mp lastPlace.here).1
  rw [List.length_append, List.length_singleton] at bound
  by_cases same : new = name
  · refine .inl ⟨same, ?_⟩
    by_contra ne
    refine lastPlace.last names.length (by omega) ?_
    rw [List.getElem?_concat_length, same]
  · have before : pos < names.length := by
      by_contra after
      have here := lastPlace.here
      rw [show pos = names.length by omega, List.getElem?_concat_length] at here
      exact same (Option.some.inj here)
    refine .inr ⟨same, ⟨?_, fun later after found => ?_⟩⟩
    · rw [← lastPlace.here, List.getElem?_append_left before]
    · refine lastPlace.last later after ?_
      rw [List.getElem?_append_left (List.getElem?_eq_some_iff.mp found).1]
      exact found

theorem exists_lastAt {name : Bytes} (mem : name ∈ names) : ∃ pos, LastAt names pos name := by
  induction names using reverseRecOn with
  | nil => simp at mem
  | append_singleton names new ih =>
    by_cases same : new = name
    · refine ⟨names.length, ⟨?_, fun later after => ?_⟩⟩
      · rw [getElem?_concat_length, same]
      · rw [getElem?_eq_none (by simp; omega)]
        simp
    · have earlier : name ∈ names := by simpa [Ne.symm same] using mem
      obtain ⟨pos, lastPlace⟩ := ih earlier
      have bound := (List.getElem?_eq_some_iff.mp lastPlace.here).1
      refine ⟨pos, ⟨?_, fun later after found => ?_⟩⟩
      · rw [getElem?_append_left bound]
        exact lastPlace.here
      · by_cases inside : later < names.length
        · rw [getElem?_append_left inside] at found
          exact lastPlace.last later after found
        · rw [getElem?_append_right (by omega)] at found
          have mem := mem_of_getElem? found
          exact same (mem_singleton.mp mem).symm

/-- What the two maps say after the wire messages were added; a name that is
added twice is found at its last position. -/
structure Maps (protocol : SmartProtocol) (added : List Bytes) : Prop where
  registered : protocol.factory.Registered
  known : ∀ name ∈ added, ∃ id, protocol.factory.getSchemaId name = .ok id
  wire : ∀ wireId factoryId : Int, protocol.wireToFactory.lookup wireId = some factoryId ↔
      ∃ (position id : Nat) (name : Bytes), wireId = position ∧ factoryId = id ∧
      added[position]? = some name ∧ protocol.factory.getSchemaId name = .ok id
  schema : ∀ (position id : Nat) (name : Bytes), LastAt added position name →
      protocol.factory.getSchemaId name = .ok id →
      protocol.factoryToWire.lookup (id : Int) = some (position : Int)

variable {protocol next : SmartProtocol} {added : List Bytes}

theorem Maps.add {wireMsg : Bytes} (maps : Maps protocol added)
    (result : protocol.addWireMsg added.length wireMsg = .ok next) :
    Maps next (added ++ [wireMsg]) ∧ next.factory = protocol.factory ∧
      next.wireMsgs = protocol.wireMsgs := by
  rw [addWireMsg] at result
  obtain ⟨factoryId, found, result⟩ := bind_eq_ok_iff.mp result
  cases result
  refine ⟨⟨maps.registered, ?_, ?_, ?_⟩, rfl, rfl⟩
  · intro name mem
    rcases mem_append.mp mem with old | new
    · exact maps.known name old
    · rw [mem_singleton.mp new]
      exact ⟨factoryId, found⟩
  · intro wireId schemaId
    by_cases new : wireId = added.length
    · rw [new, AList.lookup_insert]
      constructor
      · intro same
        refine ⟨added.length, factoryId, wireMsg, rfl, (Option.some.inj same).symm, ?_, found⟩
        exact getElem?_concat_length
      · rintro ⟨pos, id, name, place, rfl, here, known⟩
        rw [← Int.ofNat.inj place, getElem?_concat_length] at here
        rw [← Option.some.inj here, found] at known
        rw [Except.ok.inj known]
    · rw [AList.lookup_insert_ne new, maps.wire]
      constructor
      · rintro ⟨pos, id, name, place, v, here, known⟩
        refine ⟨pos, id, name, place, v, ?_, known⟩
        rw [List.getElem?_append_left (List.getElem?_eq_some_iff.mp here).1]
        exact here
      · rintro ⟨pos, id, name, place, v, here, known⟩
        refine ⟨pos, id, name, place, v, ?_, known⟩
        have bound := (List.getElem?_eq_some_iff.mp here).1
        rw [length_append, length_singleton] at bound
        rw [getElem?_append_left (by omega)] at here
        exact here
  · intro pos id name lastPlace known
    rcases lastPlace.of_concat with ⟨rfl, rfl⟩ | ⟨ne, earlier⟩
    · rw [found] at known
      rw [← Except.ok.inj known, AList.lookup_insert]
    · have apart : (id : Int) ≠ factoryId := by
        intro same
        rw [Int.ofNat.inj same] at known
        have first := (maps.registered.getSchemaId_iff _ _).mp known
        have second := (maps.registered.getSchemaId_iff _ _).mp found
        exact ne (Option.some.inj (second.symm.trans first))
      rw [AList.lookup_insert_ne apart]
      exact maps.schema pos id name earlier known

theorem Maps.addAll (maps : Maps protocol added)
    (result : protocol.addWireMsgs added.length rest = .ok next) :
    Maps next (added ++ rest) ∧ next.wireMsgs = protocol.wireMsgs := by
  induction rest generalizing protocol added with
  | nil =>
    cases result
    rw [append_nil]
    exact ⟨maps, rfl⟩
  | cons wireMsg rest ih =>
    rw [addWireMsgs] at result
    obtain ⟨middle, first, result⟩ := bind_eq_ok_iff.mp result
    obtain ⟨held, -, same⟩ := maps.add first
    have place : added.length + 1 = (added ++ [wireMsg]).length := by
      rw [length_append, length_singleton]
    rw [place] at result
    obtain ⟨final, sameFinal⟩ := ih held result
    rw [append_assoc] at final
    exact ⟨final, sameFinal.trans same⟩

theorem addWireMsgs_of_known {fac : ProtobufFactory}
    (known : ∀ name ∈ rest, ∃ id, fac.getSchemaId name = .ok id)
    (wireId : Nat) (protocol : SmartProtocol) (same : protocol.factory = fac) :
    ∃ final, protocol.addWireMsgs wireId rest = .ok final := by
  induction rest generalizing wireId protocol with
  | nil => exact ⟨protocol, rfl⟩
  | cons name rest ih =>
    rw [forall_mem_cons] at known
    obtain ⟨⟨id, found⟩, others⟩ := known
    rw [← same] at found
    rw [addWireMsgs, addWireMsg, found]
    exact ih others (wireId + 1) _ same

theorem addWireMsgs_factory {fac : ProtobufFactory} {wireId : Nat} (same : protocol.factory = fac)
    (result : protocol.addWireMsgs wireId rest = .ok next) : next.factory = fac := by
  induction rest generalizing protocol wireId with
  | nil =>
    cases result
    exact same
  | cons wireMsg rest ih =>
    obtain ⟨_, added, result⟩ := bind_eq_ok_iff.mp result
    obtain ⟨_, _, made⟩ := bind_eq_ok_iff.mp added
    cases made
    refine ih ?_ result
    exact same

theorem load_maps {pool : DescriptorPool}
    {schemas : List FileDescriptorProto} {wireMsgs : List Bytes}
    (loaded : load pool schemas wireMsgs = .ok protocol) :
    Maps protocol wireMsgs ∧ protocol.wireMsgs = wireMsgs := by
  rw [load] at loaded
  obtain ⟨fac, imported, loaded⟩ := bind_eq_ok_iff.mp loaded
  have registered := (ProtobufFactory.Registered.empty.importAll imported).1
  have start : Maps ⟨fac, wireMsgs, ∅, ∅⟩ [] :=
    { registered := registered
      known := by simp
      wire := by simp
      schema := fun pos id name lastPlace => by
        cases lastPlace.here }
  exact start.addAll loaded

/-! ## Protocols whose messages have no fields -/

def plainType (name : Bytes) : Descriptor :=
  .mk name 0 [] [] []

def plainFile (names : List Bytes) : FileDescriptorProto where
  name := []
  package := []
  dependency := []
  messageTypes := names.map plainType
  enumTypes := []

theorem plainFile_types (names : List Bytes) :
    (plainFile names).types.map Prototype.typeName = names := by
  change (typesOf [] (names.map plainType)).map Prototype.typeName = names
  induction names with
  | nil => rfl
  | cons name names ih =>
    rw [map_cons, typesOf, map_append, ih, plainType, Descriptor.types, typesOf]
    rfl

theorem importAll_plainFile (distinct : names.Nodup) :
    ∃ fac, importAll strictPool {}
        [⟨plainFile names, [], []⟩] = .ok fac := by
  have accepted : ProtobufFactory.strictPool.problems [] (plainFile names) = [] := by
    refine if_pos ⟨?_, fun _ _ => by simp [definedNames]⟩
    rw [plainFile_types]
    exact distinct
  have valid : (names.map plainType).find? containInvalidData = none := by
    rw [find?_eq_none]
    intro descriptor mem
    obtain ⟨name, -, rfl⟩ := mem_map.mp mem
    simp [plainType, containInvalidData, ProtobufFactory.anyInvalidData]
  have imported :
      importSchema strictPool {} ⟨plainFile names, [], []⟩ =
        (register { files := [plainFile names] } (plainFile names), .ok ()) := by
    have noFile : hasFile {} [] = false := rfl
    have noDependency : (plainFile names).dependency.find?
            (fun other => !hasFile {} other) = none :=
      rfl
    have same : FileDescriptorProto.mk [] [] (plainFile names).dependency
            (plainFile names).messageTypes (plainFile names).enumTypes = plainFile names :=
      rfl
    have noInvalid :
        (plainFile names).messageTypes.find? containInvalidData = none :=
      valid
    simp only [importSchema,
      ProtobufFactory.importFromFileProto, noFile, noDependency, same, accepted, noInvalid]
    rfl
  refine ⟨register { files := [plainFile names] } (plainFile names), ?_⟩
  rw [importAll, foldlM_cons, imported]
  rfl

theorem load_plain (distinct : names.Nodup) :
    ∃ protocol, load strictPool [plainFile names] names = .ok protocol := by
  obtain ⟨fac, imported⟩ := importAll_plainFile distinct
  obtain ⟨registered, added⟩ := ProtobufFactory.Registered.empty.importAll imported
  have typeNames : fac.schemas.map Prototype.typeName = names := by
    have types : fac.schemas = (plainFile names).types ++ [] := added.schemas
    rw [types, append_nil, plainFile_types]
  have known (name : Bytes) (mem : name ∈ names) : ∃ id, fac.getSchemaId name = .ok id := by
    rw [← typeNames, registered.indexed.mem_iff] at mem
    obtain ⟨id, found⟩ := mem
    exact ⟨id, ProtobufFactory.getSchemaId_eq_ok.mpr found⟩
  obtain ⟨protocol, added⟩ := addWireMsgs_of_known known 0 ⟨fac, names, ∅, ∅⟩ rfl
  refine ⟨protocol, ?_⟩
  rw [load, map_singleton, imported]
  exact added

end SmartProtocol

end AutomatonCore.Smartproto
