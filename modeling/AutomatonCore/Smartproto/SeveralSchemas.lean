import AutomatonCore.Smartproto.SmartProtocol
import AutomatonCore.Data.FailedImport

/-!
# Protocols with several schema files
-/

namespace AutomatonCore.Smartproto

open Data Io Library List
open SmartProtocol (plainFile load)

abbrev Protocols := AList fun _ : Bytes => SmartProtocol

/-- What `load` takes from `config.json` and the files that it names: the
schemas and the wire messages. -/
structure Configuration where
  schemas : List FileDescriptorProto
  wireMsgs : List Bytes

/-- `smart_protocol::load`: the protocols afterwards and the result, or the
exception.  The configuration is `none` if the file cannot be opened. -/
def loadProtocol (pool : DescriptorPool) (protocols : Protocols)
    (id : Bytes) (config : Option Configuration) : Except Bytes (Protocols × Bool) :=
  if (protocols.lookup id).isSome then return (protocols, false)
  else
    match config with
    | none => return (protocols, false)
    | some config => do
      let proto ← load pool config.schemas config.wireMsgs
      return (protocols.insert id proto, true)

/-- `smart_protocol::load` imports all files under the same name, which is
empty. -/
def schemaImports (schemas : List FileDescriptorProto) : List ProtobufFactory.Import :=
  schemas.map fun proto => ⟨proto, [], []⟩

def schemaNames (schemas : List FileDescriptorProto) : List Bytes :=
  definedNames ((schemaImports schemas).map ProtobufFactory.Import.file)

/-- A new factory imports the file. -/
def ValidSchema (pool : DescriptorPool) (proto : FileDescriptorProto) : Prop :=
  (ProtobufFactory.importSchema pool {} ⟨proto, [], []⟩).2 = .ok ()

/-- All messages are registered, and the two maps are inverse to each other on
the wire messages. -/
structure Complete (protocol : SmartProtocol)
    (schemas : List FileDescriptorProto) (wireMsgs : List Bytes) : Prop where
  registered :
    ∀ name ∈ schemaNames schemas, ∃ schemaId, protocol.factory.getSchemaId name = .ok schemaId
  wire : ∀ wireId < wireMsgs.length,
      protocol.getWireFromFactory (protocol.getFactoryFromWire wireId) = wireId
  schema : ∀ name ∈ wireMsgs, ∀ schemaId, protocol.factory.getSchemaId name = .ok schemaId →
      protocol.getFactoryFromWire (protocol.getWireFromFactory schemaId) = schemaId

variable {pool : DescriptorPool} {protocol : SmartProtocol}
  {schemas : List FileDescriptorProto} {wireMsgs : List Bytes}

/-! ## The maps -/

theorem lastAt_of_nodup (distinct : wireMsgs.Nodup) {pos : Nat}
    {name : Bytes} (here : wireMsgs[pos]? = some name) :
    SmartProtocol.LastAt wireMsgs pos name := by
  refine ⟨here, fun later after found => ?_⟩
  have inside := (List.getElem?_eq_some_iff.mp here).1
  have same := (List.getElem?_inj inside distinct).mp (here.trans found.symm)
  omega

theorem maps_at (maps : protocol.Maps wireMsgs) (distinct : wireMsgs.Nodup)
    {pos schemaId : Nat} {name : Bytes} (here : wireMsgs[pos]? = some name)
    (known : protocol.factory.getSchemaId name = .ok schemaId) :
    protocol.getFactoryFromWire pos = schemaId ∧ protocol.getWireFromFactory schemaId = pos := by
  have wire := (maps.wire pos schemaId).mpr ⟨pos, schemaId, name, rfl, rfl, here, known⟩
  have schema := maps.schema pos schemaId name (lastAt_of_nodup distinct here) known
  constructor
  · rw [SmartProtocol.getFactoryFromWire, wire]
    rfl
  · rw [SmartProtocol.getWireFromFactory, schema]
    rfl

theorem complete_of_load (distinct : wireMsgs.Nodup)
    (loaded : load pool schemas wireMsgs = .ok protocol)
    (registered :
      ∀ name ∈ schemaNames schemas, ∃ schemaId, protocol.factory.getSchemaId name = .ok schemaId) :
    Complete protocol schemas wireMsgs := by
  obtain ⟨maps, _⟩ := SmartProtocol.load_maps loaded
  refine ⟨registered, ?_, ?_⟩
  · intro wireId inside
    have here := getElem?_eq_getElem inside
    obtain ⟨schemaId, known⟩ := maps.known _ (getElem_mem inside)
    obtain ⟨forth, back⟩ := maps_at maps distinct here known
    rw [forth, back]
  · intro name mem schemaId known
    obtain ⟨pos, here⟩ := mem_iff_getElem?.mp mem
    obtain ⟨forth, back⟩ := maps_at maps distinct here known
    rw [back, forth]

/-! ## The imports -/

section Imports

open ProtobufFactory

variable {fac next : ProtobufFactory} {call : Import}
  {calls : List Import} {what : Bytes}

theorem importAll_cons_ok (imported : importSchema pool fac call = (next, .ok ())) :
    importAll pool fac (call :: calls) = importAll pool next calls := by
  rw [importAll, foldlM_cons, imported]
  rfl

theorem importAll_cons_error (imported : importSchema pool fac call = (next, .error what)) :
    importAll pool fac (call :: calls) = .error what := by
  rw [importAll, foldlM_cons, imported]
  rfl

theorem importAll_several {first second : FileDescriptorProto} {rest : List FileDescriptorProto} :
    importAll pool {} (schemaImports (first :: second :: rest)) ≠ .ok fac := by
  rw [schemaImports, map_cons, map_cons]
  cases once : importSchema pool {} ⟨first, [], []⟩ with
  | mk next result =>
    cases result with
    | error what =>
      rw [importAll_cons_error once]
      simp
    | ok v =>
      obtain ⟨_, added⟩ := Registered.empty.importSchema once
      have taken : next.hasFile [] = true := by
        rw [hasFile, added.files]
        rfl
      have thrown : importSchema pool next ⟨second, [], []⟩ = (next, .error _) :=
        importSchema_exists taken
      rw [importAll_cons_ok once, importAll_cons_error thrown]
      simp

theorem importAll_few (few : schemas.length ≤ 1)
    (valid : ∀ proto ∈ schemas, ValidSchema pool proto) :
    ∃ fac, importAll pool {} (schemaImports schemas) = .ok fac := by
  match schemas, few with
  | [], _ => exact ⟨{}, rfl⟩
  | [proto], _ =>
    have accepted :
        importSchema pool {} ⟨proto, [], []⟩ = ((importSchema pool {} ⟨proto, [], []⟩).1, .ok ()) :=
      Prod.ext rfl (valid proto mem_cons_self)
    rw [schemaImports, map_singleton, importAll_cons_ok accepted]
    exact ⟨_, rfl⟩

theorem known_of_importAll (imported : importAll pool {} (schemaImports schemas) = .ok fac) :
    ∀ name ∈ schemaNames schemas, ∃ schemaId, fac.getSchemaId name = .ok schemaId := by
  obtain ⟨registered, added⟩ := Registered.empty.importAll imported
  have names : fac.schemas.map Prototype.typeName = schemaNames schemas := by
    rw [added.schemas]
    rfl
  intro name mem
  rw [← names, registered.indexed.mem_iff] at mem
  obtain ⟨schemaId, found⟩ := mem
  exact ⟨schemaId, getSchemaId_eq_ok.mpr found⟩

end Imports

/-- A factory has at most one file of a name. -/
theorem few_of_load (loaded : load pool schemas wireMsgs = .ok protocol) :
    schemas.length ≤ 1 := by
  match schemas, loaded with
  | [], _ => exact Nat.zero_le 1
  | [proto], _ => exact Nat.le_refl 1
  | first :: second :: rest, loaded =>
    obtain ⟨_, imported, -⟩ := bind_eq_ok_iff.mp loaded
    exact absurd imported importAll_several

theorem load_of_few (few : schemas.length ≤ 1) (valid : ∀ proto ∈ schemas, ValidSchema pool proto)
    (listed : ∀ name ∈ wireMsgs, name ∈ schemaNames schemas) (distinct : wireMsgs.Nodup) :
    ∃ protocol, load pool schemas wireMsgs = .ok protocol ∧
      Complete protocol schemas wireMsgs := by
  obtain ⟨fac, imported⟩ := importAll_few few valid
  have known := known_of_importAll imported
  obtain ⟨protocol, added⟩ :=
    SmartProtocol.addWireMsgs_of_known (fun name mem => known name (listed name mem)) 0
      ⟨fac, wireMsgs, ∅, ∅⟩ rfl
  have loaded : load pool schemas wireMsgs = .ok protocol := by
    rw [schemaImports] at imported
    rw [load, imported]
    exact added
  refine ⟨protocol, loaded, complete_of_load distinct loaded ?_⟩
  rw [SmartProtocol.addWireMsgs_factory rfl added]
  exact known

/-- A protocol with valid schema files is loaded if and only if there is at
most one. -/
theorem load_complete_iff {protocols : Protocols} {id : Bytes} (new : protocols.lookup id = none)
    (valid : ∀ proto ∈ schemas, ValidSchema pool proto)
    (listed : ∀ name ∈ wireMsgs, name ∈ schemaNames schemas) (distinct : wireMsgs.Nodup) :
    (∃ later protocol, loadProtocol pool protocols id (some ⟨schemas, wireMsgs⟩) =
            .ok (later, true) ∧
          later.lookup id = some protocol ∧
          Complete protocol schemas wireMsgs) ↔ schemas.length ≤ 1 := by
  have absent : ¬ (protocols.lookup id).isSome = true := by simp [new]
  constructor
  · rintro ⟨later, protocol, loaded, -, -⟩
    rw [loadProtocol, if_neg absent] at loaded
    obtain ⟨_, result, -⟩ := bind_eq_ok_iff.mp loaded
    exact few_of_load result
  · intro few
    obtain ⟨protocol, loaded, complete⟩ := load_of_few few valid listed distinct
    refine ⟨protocols.insert id protocol, protocol, ?_, AList.lookup_insert _, complete⟩
    rw [loadProtocol, if_neg absent]
    rw [loaded]
    rfl

theorem load_complete_plain :
    ∃ later protocol, loadProtocol ProtobufFactory.strictPool ∅ (text "p")
          (some ⟨[plainFile [text "A", text "B"]],
            [text "B", text "A"]⟩) = .ok (later, true) ∧
        later.lookup (text "p") = some protocol ∧
        Complete protocol [plainFile [text "A", text "B"]] [text "B", text "A"] := by
  have valid : ∀ proto ∈ [plainFile [text "A", text "B"]],
        ValidSchema ProtobufFactory.strictPool proto := by
    intro proto mem
    obtain rfl := mem_singleton.mp mem
    unfold ValidSchema
    decide +kernel
  exact (load_complete_iff rfl valid (by decide +kernel) (by decide +kernel)).mpr (Nat.le_refl 1)

theorem load_two_files :
    (∀ name ∈ [text "A", text "B"],
        ValidSchema ProtobufFactory.strictPool (plainFile [name])) ∧
      (schemaNames [plainFile [text "A"], plainFile [text "B"]]).Nodup ∧
      loadProtocol ProtobufFactory.strictPool ∅ (text "p")
          (some ⟨[plainFile [text "A"],
            plainFile [text "B"]], [text "A", text "B"]⟩) =
        .error (text "File with name <> already exists.") := by
  refine ⟨?_, ?_, ?_⟩
  · unfold ValidSchema
    decide +kernel
  · decide +kernel
  · rfl

end AutomatonCore.Smartproto
