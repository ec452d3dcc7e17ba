import AutomatonCore.Io.Hex
import AutomatonCore.Library.NameIndex

/-!
# The protobuf factory

A `protobuf_factory` imports proto files into a descriptor pool, which is
library code, and numbers their message types.
-/

namespace AutomatonCore.Data

open Io

inductive ProtobufType where
  | double
  | float
  | int64
  | uint64
  | int32
  | fixed64
  | fixed32
  | bool
  | string
  | group
  | message
  | bytes
  | uint32
  | enum
  | sfixed32
  | sfixed64
  | sint32
  | sint64
  deriving DecidableEq, Repr

inductive FieldType where
  | messageType
  | enumType
  | blob
  | int32
  | int64
  | uint32
  | uint64
  | boolean
  deriving DecidableEq, Repr

def protobufTypeToType : ProtobufType → Option FieldType
  | .string => some .blob
  | .bytes => some .blob
  | .bool => some .boolean
  | .int32 => some .int32
  | .sint32 => some .int32
  | .sfixed32 => some .int32
  | .int64 => some .int64
  | .sint64 => some .int64
  | .sfixed64 => some .int64
  | .uint32 => some .uint32
  | .fixed32 => some .uint32
  | .uint64 => some .uint64
  | .fixed64 => some .uint64
  | .enum => some .enumType
  | .message => some .messageType
  | .double | .float | .group => none

structure FieldDescriptor where
  name : Bytes
  isMap : Bool
  type : ProtobufType
  deriving DecidableEq

inductive Descriptor where
  | mk (name : Bytes) (oneofDeclCount : Nat) (fields : List FieldDescriptor)
      (nestedTypes : List Descriptor) (enumTypes : List Bytes)

namespace Descriptor

def name : Descriptor → Bytes
  | mk name _ _ _ _ => name

end Descriptor

structure FileDescriptorProto where
  name : Bytes
  package : Bytes
  dependency : List Bytes
  messageTypes : List Descriptor
  enumTypes : List Bytes

def fullName (scope name : Bytes) : Bytes :=
  if scope = [] then name else scope ++ text "." ++ name

structure Prototype where
  typeName : Bytes
  descriptor : Descriptor

/-! ## The message types of a file -/

mutual

/-- The message types of a descriptor in the order of the walk: first the type,
then the types nested in it. -/
def Descriptor.types (scope : Bytes) : Descriptor → List Prototype
  | .mk name oneofs fields nested enums =>
    ⟨fullName scope name, .mk name oneofs fields nested enums⟩ ::
      typesOf (fullName scope name) nested

def typesOf (scope : Bytes) : List Descriptor → List Prototype
  | [] => []
  | desc :: rest => desc.types scope ++ typesOf scope rest

end

def FileDescriptorProto.types (file : FileDescriptorProto) : List Prototype :=
  typesOf file.package file.messageTypes

/-- The names of the message types of the files. -/
def definedNames (files : List FileDescriptorProto) : List Bytes :=
  (files.flatMap FileDescriptorProto.types).map Prototype.typeName

/-- A call of `AddError` or of `AddWarning`. -/
structure Problem where
  isError : Bool
  schema : Bytes
  elementName : Bytes
  message : Bytes
  deriving DecidableEq

/-- What the `proto_error_collector` adds to its list. -/
def Problem.line (problem : Problem) : Bytes :=
  text (if problem.isError then "Error" else "Warning") ++ text ": schema: " ++ problem.schema ++
    text " <" ++ problem.elementName ++ text "> error message:" ++ problem.message ++ text "\n"

/-- What `BuildFileCollectingErrors` reports for a file, given the files in
the pool. -/
structure DescriptorPool where
  problems : List FileDescriptorProto → FileDescriptorProto → List Problem
  rejects : ∀ files file, (∀ problem ∈ problems files file, problem.isError = false) →
      (file.types.map Prototype.typeName).Nodup ∧
        ∀ name ∈ file.types.map Prototype.typeName, name ∉ definedNames files

/-! ## The factory -/

/-- A schema id is a position in `schemas`; the names are written into a map of
their own. -/
structure ProtobufFactory where
  files : List FileDescriptorProto := []
  schemas : List Prototype := []
  schemasNames : AList (fun _ : Bytes => Nat) := ∅
  enums : List Bytes := []
  enumsNames : AList (fun _ : Bytes => Nat) := ∅

namespace ProtobufFactory

def addSchema (factory : ProtobufFactory) (typeName : Bytes)
    (desc : Descriptor) : ProtobufFactory :=
  { factory with
    schemas := factory.schemas ++ [⟨typeName, desc⟩]
    schemasNames := factory.schemasNames.insert typeName factory.schemas.length }

def addEnum (factory : ProtobufFactory) (enumName : Bytes) : ProtobufFactory :=
  { factory with
    enums := factory.enums ++ [enumName]
    enumsNames := factory.enumsNames.insert enumName factory.enums.length }

mutual

def extractNestedMessages (typeName : Bytes) : Descriptor → ProtobufFactory → ProtobufFactory
  | .mk _ _ _ nested _, factory => extractMessages typeName nested factory

def extractMessages (scope : Bytes) : List Descriptor → ProtobufFactory → ProtobufFactory
  | [], factory => factory
  | desc :: rest, factory =>
    let typeName := fullName scope desc.name
    let added := factory.addSchema typeName desc
    extractMessages scope rest (extractNestedMessages typeName desc added)

end

mutual

def extractNestedEnums (typeName : Bytes) : Descriptor → ProtobufFactory → ProtobufFactory
  | .mk _ _ _ nested enums, factory =>
    extractEnums typeName nested
      (enums.foldl (fun factory name => factory.addEnum (fullName typeName name)) factory)

def extractEnums (scope : Bytes) : List Descriptor → ProtobufFactory → ProtobufFactory
  | [], factory => factory
  | desc :: rest, factory =>
    extractEnums scope rest (extractNestedEnums (fullName scope desc.name) desc factory)

end

/-- Maps and fields of an unsupported type are refused. -/
def invalidField (field : FieldDescriptor) : Bool :=
  field.isMap || (protobufTypeToType field.type).isNone

mutual

def containInvalidData : Descriptor → Bool
  | .mk _ oneofs fields nested _ =>
    decide (oneofs > 0) || fields.any invalidField || anyInvalidData nested

def anyInvalidData : List Descriptor → Bool
  | [] => false
  | desc :: rest => containInvalidData desc || anyInvalidData rest

end

def hasFile (factory : ProtobufFactory) (name : Bytes) : Bool :=
  factory.files.any fun file => file.name == name

def registerMessage (package : Bytes) (factory : ProtobufFactory)
    (desc : Descriptor) : ProtobufFactory :=
  let typeName := fullName package desc.name
  let added := factory.addSchema typeName desc
  let extracted := extractNestedMessages typeName desc added
  extractNestedEnums typeName desc extracted

/-- The walk over a file that gives the next ids to its types. -/
def register (factory : ProtobufFactory) (file : FileDescriptorProto) : ProtobufFactory :=
  let registered := file.messageTypes.foldl (registerMessage file.package) factory
  file.enumTypes.foldl (fun factory name => factory.addEnum (fullName file.package name)) registered

/-- `import_from_file_proto`: the factory afterwards, and the text of the
exception if there is one. -/
def importFromFileProto (pool : DescriptorPool) (factory : ProtobufFactory)
    (proto : FileDescriptorProto) (name package : Bytes) : ProtobufFactory × Except Bytes Unit :=
  let file := { proto with package, name }
  if factory.hasFile name then
    (factory, .error (text "File with name <" ++ name ++ text "> already exists."))
  else
    match file.dependency.find? fun other => !factory.hasFile other with
    | some other =>
      (factory, .error (text "Dependency <" ++ other ++ text "> was not found. Import it first."))
    | none =>
      let problems := pool.problems factory.files file
      -- a file with warnings only is built and stays in the pool
      let built :=
        if problems.any Problem.isError then factory
        else { factory with files := factory.files ++ [file] }
      if problems ≠ [] then
        -- the collector counts warnings like errors
        (built, .error (text "Errors while parsing:\n" ++ problems.flatMap Problem.line))
      else
        match file.messageTypes.find? containInvalidData with
        | some desc =>
          (built, .error (text "Message contains invalid field type! " ++
                text "Invalid data in descriptor: " ++ desc.name))
        | none => (built.register file, .ok ())

def getSchemasNumber (factory : ProtobufFactory) : Nat :=
  factory.schemas.length

/-- `get_schema_id`, which throws for a name that is not registered. -/
def getSchemaId (factory : ProtobufFactory) (messageName : Bytes) : Except Bytes Nat :=
  match factory.schemasNames.lookup messageName with
  | some id => .ok id
  | none => .error (text "No schema '" ++ messageName ++ text "'")

/-- `get_schema_name`; an id that is not below the number of schemas fails a
check, which ends the process. -/
def getSchemaName (factory : ProtobufFactory) (schemaId : Nat) : Option Bytes :=
  factory.schemas[schemaId]?.map Prototype.typeName

def getEnumsNumber (factory : ProtobufFactory) : Nat :=
  factory.enums.length

/-- `get_enum_id`, which throws for a name that is not registered. -/
def getEnumId (factory : ProtobufFactory) (enumName : Bytes) : Except Bytes Nat :=
  match factory.enumsNames.lookup enumName with
  | some id => .ok id
  | none => .error (text "No enum '" ++ enumName ++ text "'")

end ProtobufFactory

end AutomatonCore.Data
