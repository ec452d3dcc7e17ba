import AutomatonCore.Data.ProtobufFactory

/-!
# Schema ids
-/

namespace AutomatonCore.Data

open Io Library List

def Descriptor.nestedTypes : Descriptor → List Descriptor
  | .mk _ _ _ nested _ => nested

theorem Descriptor.types_eq (scope : Bytes) (desc : Descriptor) :
    desc.types scope = ⟨fullName scope desc.name, desc⟩ ::
        typesOf (fullName scope desc.name) desc.nestedTypes := by
  cases desc
  rfl

mutual

def Descriptor.count : Descriptor → Nat
  | .mk _ _ _ nested _ => countTypes nested + 1

def countTypes : List Descriptor → Nat
  | [] => 0
  | desc :: rest => desc.count + countTypes rest

end

mutual

theorem Descriptor.length_types (scope : Bytes) :
    (desc : Descriptor) → (desc.types scope).length = desc.count
  | .mk name _ _ nested _ => by
    rw [Descriptor.types, length_cons, length_typesOf _ nested, Descriptor.count]

theorem length_typesOf (scope : Bytes) :
    (descriptors : List Descriptor) → (typesOf scope descriptors).length = countTypes descriptors
  | [] => by
    rw [typesOf, countTypes]
    rfl
  | desc :: rest => by
    rw [typesOf, length_append, Descriptor.length_types, length_typesOf scope rest, countTypes]

end

namespace ProtobufFactory

/-! ## The walk over a file -/

/-- The types get the next ids. -/
def addSchemas (factory : ProtobufFactory) (types : List Prototype) : ProtobufFactory :=
  types.foldl (fun factory type => factory.addSchema type.typeName type.descriptor) factory

theorem addSchemas_append (factory : ProtobufFactory) (first second : List Prototype) :
    factory.addSchemas (first ++ second) = (factory.addSchemas first).addSchemas second :=
  foldl_append

theorem addSchemas_schemas (factory : ProtobufFactory) (types : List Prototype) :
    (factory.addSchemas types).schemas = factory.schemas ++ types := by
  induction types generalizing factory with
  | nil => exact (append_nil _).symm
  | cons type types ih =>
    change ((factory.addSchema _ _).addSchemas types).schemas = _
    rw [ih, addSchema, append_assoc]
    rfl

theorem addSchemas_schemasNames (factory : ProtobufFactory) (types : List Prototype) :
    (factory.addSchemas types).schemasNames =
      appendIndex factory.schemasNames factory.schemas.length (types.map Prototype.typeName) := by
  induction types generalizing factory with
  | nil => rfl
  | cons type types ih =>
    change ((factory.addSchema _ _).addSchemas types).schemasNames = _
    rw [ih, addSchema, length_append]
    rfl

theorem addSchemas_files (factory : ProtobufFactory) (types : List Prototype) :
    (factory.addSchemas types).files = factory.files := by
  induction types generalizing factory with
  | nil => rfl
  | cons type types ih => exact ih (factory.addSchema _ _)

mutual

theorem extractNestedMessages_eq (typeName : Bytes) :
    (desc : Descriptor) → (factory : ProtobufFactory) →
      extractNestedMessages typeName desc factory =
        factory.addSchemas (typesOf typeName desc.nestedTypes)
  | .mk _ _ _ nested _, factory => by
    rw [extractNestedMessages]
    exact extractMessages_eq typeName nested factory

theorem extractMessages_eq (scope : Bytes) :
    (descriptors : List Descriptor) → (factory : ProtobufFactory) →
      extractMessages scope descriptors factory = factory.addSchemas (typesOf scope descriptors)
  | [], factory => by
    rw [extractMessages, typesOf]
    rfl
  | desc :: rest, factory => by
    rw [extractMessages, extractMessages_eq scope rest,
      extractNestedMessages_eq, typesOf, Descriptor.types_eq, cons_append, ← addSchemas_append]
    rfl

end

structure SameSchemas (factory later : ProtobufFactory) : Prop where
  files : later.files = factory.files
  schemas : later.schemas = factory.schemas
  schemasNames : later.schemasNames = factory.schemasNames

namespace SameSchemas

variable {factory later final : ProtobufFactory}

theorem refl (factory : ProtobufFactory) : SameSchemas factory factory := ⟨rfl, rfl, rfl⟩

theorem trans (first : SameSchemas factory later)
    (second : SameSchemas later final) : SameSchemas factory final :=
  ⟨second.files.trans first.files, second.schemas.trans first.schemas,
    second.schemasNames.trans first.schemasNames⟩

theorem addEnums (scope : Bytes) (names : List Bytes) (factory : ProtobufFactory) :
    SameSchemas factory
      (names.foldl (fun factory name => factory.addEnum (fullName scope name)) factory) := by
  induction names generalizing factory with
  | nil => exact refl factory
  | cons name names ih =>
    have first : SameSchemas factory (factory.addEnum (fullName scope name)) := ⟨rfl, rfl, rfl⟩
    exact first.trans (ih _)

theorem addSchemas (same : SameSchemas factory later) (types : List Prototype) :
    SameSchemas (factory.addSchemas types) (later.addSchemas types) where
  files := by rw [addSchemas_files, addSchemas_files, same.files]
  schemas := by rw [addSchemas_schemas, addSchemas_schemas, same.schemas]
  schemasNames := by
    rw [addSchemas_schemasNames, addSchemas_schemasNames, same.schemas, same.schemasNames]

end SameSchemas

mutual

theorem extractNestedEnums_same (typeName : Bytes) :
    (desc : Descriptor) → (factory : ProtobufFactory) →
      SameSchemas factory (extractNestedEnums typeName desc factory)
  | .mk _ _ _ nested enums, factory => by
    rw [extractNestedEnums]
    exact (SameSchemas.addEnums typeName enums factory).trans (extractEnums_same typeName nested _)

theorem extractEnums_same (scope : Bytes) :
    (descriptors : List Descriptor) → (factory : ProtobufFactory) →
      SameSchemas factory (extractEnums scope descriptors factory)
  | [], factory => by
    rw [extractEnums]
    exact SameSchemas.refl factory
  | desc :: rest, factory => by
    rw [extractEnums]
    exact (extractNestedEnums_same _ desc factory).trans (extractEnums_same scope rest _)

end

theorem registerMessage_same (package : Bytes) (factory : ProtobufFactory)
    (desc : Descriptor) :
    SameSchemas (factory.addSchemas (desc.types package))
      (registerMessage package factory desc) := by
  have walked : factory.addSchemas (desc.types package) =
        extractNestedMessages (fullName package desc.name) desc
          (factory.addSchema (fullName package desc.name) desc) := by
    rw [extractNestedMessages_eq, Descriptor.types_eq]
    rfl
  rw [walked]
  exact extractNestedEnums_same _ _ _

theorem register_same (factory : ProtobufFactory) (file : FileDescriptorProto) :
    SameSchemas (factory.addSchemas file.types) (factory.register file) := by
  have messages (descriptors : List Descriptor) :
      SameSchemas (factory.addSchemas (typesOf file.package descriptors))
        (descriptors.foldl (registerMessage file.package) factory) := by
    induction descriptors generalizing factory with
    | nil => exact SameSchemas.refl factory
    | cons desc rest ih =>
      rw [typesOf, addSchemas_append]
      have first := registerMessage_same file.package factory desc
      exact (first.addSchemas _).trans (ih _)
  exact (messages file.messageTypes).trans (SameSchemas.addEnums file.package file.enumTypes _)

/-! ## Imports -/

/-- The arguments of `import_schema`. -/
structure Import where
  proto : FileDescriptorProto
  name : Bytes
  package : Bytes

def Import.file (call : Import) : FileDescriptorProto :=
  { call.proto with package := call.package, name := call.name }

def importSchema (pool : DescriptorPool) (factory : ProtobufFactory)
    (call : Import) : ProtobufFactory × Except Bytes Unit :=
  importFromFileProto pool factory call.proto call.name call.package

/-- Imports one after the other; the first that throws ends the run. -/
def importAll (pool : DescriptorPool) (factory : ProtobufFactory)
    (calls : List Import) : Except Bytes ProtobufFactory :=
  calls.foldlM (fun factory call =>
      let (next, result) := importSchema pool factory call
      result.map fun _ => next)
    factory

variable {pool : DescriptorPool} {factory later : ProtobufFactory}

variable {call : Import} {name : Bytes}

theorem importSchema_ok (imported : importSchema pool factory call = (later, .ok ())) :
    pool.problems factory.files call.file = [] ∧ later =
        { factory with files := factory.files ++ [call.file] }.register call.file := by
  simp only [importSchema, importFromFileProto] at imported
  split at imported
  · cases congrArg Prod.snd imported
  · split at imported
    · cases congrArg Prod.snd imported
    · split at imported
      · cases congrArg Prod.snd imported
      next reported =>
        have accepted : pool.problems factory.files call.file = [] := not_not.mp reported
        split at imported
        · cases congrArg Prod.snd imported
        · have registered := (congrArg Prod.fst imported).symm
          rw [← Import.file, accepted] at registered
          exact ⟨accepted, registered⟩

/-- The message types of all files in the pool are registered, and the map is
the inverse of the list. -/
structure Registered (factory : ProtobufFactory) : Prop where
  schemas : factory.schemas = factory.files.flatMap FileDescriptorProto.types
  indexed : Indexes factory.schemasNames (factory.schemas.map Prototype.typeName)

theorem Registered.empty : Registered {} where
  schemas := rfl
  indexed := Indexes.empty

/-- The later factory has the files, and their types behind all others. -/
structure Adds (factory later : ProtobufFactory) (added : List FileDescriptorProto) : Prop where
  files : later.files = factory.files ++ added
  schemas : later.schemas = factory.schemas ++ added.flatMap FileDescriptorProto.types

theorem Registered.importSchema (registered : Registered factory)
    (imported : ProtobufFactory.importSchema pool factory call = (later, .ok ())) :
    Registered later ∧ Adds factory later [call.file] := by
  obtain ⟨accepted, rfl⟩ := importSchema_ok imported
  obtain ⟨distinct, fresh⟩ := pool.rejects factory.files call.file (by simp [accepted])
  have same := register_same { factory with files := factory.files ++ [call.file] } call.file
  have files := same.files
  have schemas := same.schemas
  have schemasNames := same.schemasNames
  rw [addSchemas_files] at files
  rw [addSchemas_schemas] at schemas
  rw [addSchemas_schemasNames] at schemasNames
  refine ⟨⟨?_, ?_⟩, ⟨files, ?_⟩⟩
  · rw [schemas, files, registered.schemas, flatMap_append, flatMap_singleton]
  · rw [schemas, schemasNames, map_append]
    have names : factory.schemas.map Prototype.typeName = definedNames factory.files := by
      rw [registered.schemas]
      rfl
    rw [← names] at fresh
    rw [← length_map Prototype.typeName]
    exact registered.indexed.append fresh distinct
  · rw [schemas, flatMap_singleton]

theorem Registered.importAll {calls : List Import} (registered : Registered factory)
    (imported : ProtobufFactory.importAll pool factory calls = .ok later) :
    Registered later ∧ Adds factory later (calls.map Import.file) := by
  induction calls generalizing factory with
  | nil =>
    cases imported
    refine ⟨registered, ⟨?_, ?_⟩⟩
    · rw [map_nil, append_nil]
    · rw [map_nil, flatMap_nil, append_nil]
  | cons call calls ih =>
    rw [ProtobufFactory.importAll, foldlM_cons] at imported
    cases first : ProtobufFactory.importSchema pool factory call with
    | mk next result =>
      rw [first] at imported
      cases result with
      | error error => cases imported
      | ok v =>
        obtain ⟨held, added⟩ := registered.importSchema first
        obtain ⟨final, more⟩ := ih held imported
        refine ⟨final, ⟨?_, ?_⟩⟩
        · rw [more.files, added.files, append_assoc]
          rfl
        · rw [more.schemas, added.schemas, append_assoc, flatMap_singleton]
          rfl

theorem getSchemaId_eq_ok {id : Nat} :
    factory.getSchemaId name = .ok id ↔ factory.schemasNames.lookup name = some id := by
  rw [getSchemaId]
  cases factory.schemasNames.lookup name <;> simp

theorem getSchemaName_eq_some {id : Nat} :
    factory.getSchemaName id = some name ↔
      (factory.schemas.map Prototype.typeName)[id]? = some name := by
  rw [getSchemaName, getElem?_map]

theorem Registered.getSchemaId_iff (registered : Registered factory) (name : Bytes) (id : Nat) :
    factory.getSchemaId name = .ok id ↔ factory.getSchemaName id = some name := by
  rw [getSchemaId_eq_ok, getSchemaName_eq_some]
  exact registered.indexed name id

/-- The ids number the message types of the files, in the order of the imports
and, within a file, of the walk over its types. -/
structure SchemaIdsOf (factory : ProtobufFactory) (files : List FileDescriptorProto) : Prop where
  id_of_name_of_id : ∀ id < factory.getSchemasNumber, ∃ name, factory.getSchemaName id = some name ∧
      factory.getSchemaId name = .ok id
  name_of_id_of_name :
    ∀ name id, factory.getSchemaId name = .ok id → factory.getSchemaName id = some name
  number : factory.getSchemasNumber = (files.map fun file => countTypes file.messageTypes).sum
  registered :
    ∀ file ∈ files, ∀ type ∈ file.types, ∃ id, factory.schemas[id]? = some type ∧ ∀ other,
      factory.getSchemaName other = some type.typeName → other = id

theorem Registered.schemaIdsOf (registered : Registered factory) :
    SchemaIdsOf factory factory.files where
  id_of_name_of_id := fun id bound => by
    have found := getElem?_eq_getElem bound
    have named : factory.getSchemaName id = some factory.schemas[id].typeName := by
      rw [getSchemaName, found]
      rfl
    exact ⟨_, named, (registered.getSchemaId_iff _ _).mpr named⟩
  name_of_id_of_name := fun name id => (registered.getSchemaId_iff name id).mp
  number := by
    rw [getSchemasNumber, registered.schemas, length_flatMap]
    congr 2
    funext file
    exact length_typesOf _ _
  registered := fun file mem type typeMember => by
    have present : type ∈ factory.schemas := by
      rw [registered.schemas]
      exact mem_flatMap.mpr ⟨file, mem, typeMember⟩
    obtain ⟨id, found⟩ := mem_iff_getElem?.mp present
    have named : factory.getSchemaName id = some type.typeName := by
      rw [getSchemaName, found]
      rfl
    refine ⟨id, found, fun other otherNamed => ?_⟩
    have here := (registered.getSchemaId_iff _ _).mpr named
    have there := (registered.getSchemaId_iff _ _).mpr otherNamed
    exact Except.ok.inj (there.symm.trans here)

/-- After imports of which none threw, names and ids are inverse to each
other, all message types are numbered, and later imports keep the ids. -/
theorem schemaIds_stable {first final : ProtobufFactory}
    {earlier more : List Import} (imported : importAll pool {} earlier = .ok first)
    (importedMore : importAll pool first more = .ok final) :
    SchemaIdsOf first (earlier.map Import.file) ∧
      SchemaIdsOf final ((earlier ++ more).map Import.file) ∧
        ∀ name id, first.getSchemaId name = .ok id → final.getSchemaId name = .ok id := by
  obtain ⟨registered, added⟩ := Registered.empty.importAll imported
  obtain ⟨registeredMore, addedMore⟩ := registered.importAll importedMore
  have files : first.files = earlier.map Import.file := added.files
  have finalFiles : final.files = (earlier ++ more).map Import.file := by
    rw [addedMore.files, files, map_append]
  refine ⟨files ▸ registered.schemaIdsOf,
    finalFiles ▸ registeredMore.schemaIdsOf, fun name id found => ?_⟩
  rw [getSchemaId_eq_ok] at found ⊢
  have after := registeredMore.indexed
  rw [addedMore.schemas, map_append] at after
  exact registered.indexed.lookup_mono after found

/-- A pool that refuses nothing but names that are defined twice. -/
def strictPool : DescriptorPool where
  problems := fun files file =>
    let names := file.types.map Prototype.typeName
    if names.Nodup ∧ ∀ name ∈ names, name ∉ definedNames files then []
    else [⟨true, file.name, [], text "already defined"⟩]
  rejects := fun files file accepted => by
    by_contra redefines
    rw [if_neg redefines] at accepted
    cases accepted _ mem_cons_self

def nestedImport : Import where
  proto :=
    { name := []
      package := []
      dependency := []
      messageTypes := [.mk (text "A") 0 [] [.mk (text "B") 0 [] [] []] []]
      enumTypes := [] }
  name := text "a"
  package := text "p"

def dependentImport : Import where
  proto :=
    { name := []
      package := []
      dependency := [text "a"]
      messageTypes := [.mk (text "C") 0 [] [] []]
      enumTypes := [] }
  name := text "c"
  package := []

theorem schemaIds_stable_nested :
    ∃ first final, importAll strictPool {} [nestedImport] = .ok first ∧
      importAll strictPool first [dependentImport] = .ok final ∧
      SchemaIdsOf final [nestedImport.file, dependentImport.file] := by
  have accepted : (importAll strictPool {} [nestedImport] >>= fun first =>
        importAll strictPool first [dependentImport]).isOk = true := by
    decide +kernel
  cases imported : importAll strictPool {} [nestedImport] with
  | error error =>
    rw [imported] at accepted
    cases accepted
  | ok first =>
    rw [imported] at accepted
    change (importAll strictPool first [dependentImport]).isOk = true at accepted
    cases importedMore : importAll strictPool first [dependentImport] with
    | error error =>
      rw [importedMore] at accepted
      cases accepted
    | ok final =>
      exact ⟨first, final, rfl, importedMore, (schemaIds_stable imported importedMore).2.1⟩

end ProtobufFactory

end AutomatonCore.Data
