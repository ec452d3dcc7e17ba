import AutomatonCore.Data.SchemaIds

/-!
# Imports that fail
-/

namespace AutomatonCore.Data

open Io List

namespace ProtobufFactory

inductive FactoryCall where
  | importSchema (call : Import)
  | getSchemasNumber
  | getSchemaId (messageName : Bytes)
  | getSchemaName (schemaId : Nat)
  | getEnumsNumber
  | getEnumId (enumName : Bytes)

/-- What a caller of the factory sees. -/
inductive Answer where
  | imported
  | number (value : Nat)
  | name (value : Bytes)
  | thrown (what : Bytes)
  | aborted
  deriving DecidableEq

def Answer.ofResult : Except Bytes Nat → Answer
  | .ok value => .number value
  | .error what => .thrown what

/-- A call with its answer. -/
def respond (pool : DescriptorPool) (factory : ProtobufFactory) :
    FactoryCall → ProtobufFactory × Answer
  | .importSchema call =>
    match importSchema pool factory call with
    | (next, .ok _) => (next, .imported)
    | (next, .error what) => (next, .thrown what)
  | .getSchemasNumber => (factory, .number factory.getSchemasNumber)
  | .getSchemaId messageName => (factory, .ofResult (factory.getSchemaId messageName))
  | .getSchemaName schemaId =>
    match factory.getSchemaName schemaId with
    | some name => (factory, .name name)
    | none => (factory, .aborted)
  | .getEnumsNumber => (factory, .number factory.getEnumsNumber)
  | .getEnumId enumName => (factory, .ofResult (factory.getEnumId enumName))

/-- The answers to a sequence of calls; a check that fails ends the
process. -/
def answers (pool : DescriptorPool) : ProtobufFactory → List FactoryCall → List Answer
  | _, [] => []
  | factory, call :: rest =>
    let (next, answer) := respond pool factory call
    if answer = .aborted then [.aborted]
    else answer :: answers pool next rest

/-- The file passes the checks before it is built into the pool: its name is
new, what it depends on is there, and the pool reports at most warnings. -/
structure Builds (pool : DescriptorPool) (factory : ProtobufFactory) (call : Import) : Prop where
  newName : factory.hasFile call.name = false
  dependencies : ∀ other ∈ call.proto.dependency, factory.hasFile other = true
  noErrors : ∀ problem ∈ pool.problems factory.files call.file, problem.isError = false

variable {pool : DescriptorPool} {factory next : ProtobufFactory}
  {call : Import} {what : Bytes}

theorem importSchema_exists (taken : factory.hasFile call.name = true) :
    importSchema pool factory call = (factory, .error
          (text "File with name <" ++ call.name ++ text "> already exists.")) := by
  exact if_pos taken

/-- The texts of an import that fails after the file was built begin with
other letters than that of an import under a name that is taken. -/
theorem importSchema_throws (thrown : importSchema pool factory call = (next, .error what)) :
    ¬ Builds pool factory call ∧ next = factory ∨ Builds pool factory call ∧
        next = { factory with files := factory.files ++ [call.file] } ∧
          what.head? ∈ [(text "Errors").head?, (text "Message").head?] := by
  simp only [importSchema, importFromFileProto] at thrown
  split at thrown
  next taken =>
    refine .inl ⟨fun builds => ?_, (congrArg Prod.fst thrown).symm⟩
    rw [builds.newName] at taken
    cases taken
  next newName =>
    split at thrown
    next missing found =>
      refine .inl ⟨fun builds => ?_, (congrArg Prod.fst thrown).symm⟩
      have absent := find?_some found
      rw [builds.dependencies missing (mem_of_find?_eq_some found)] at absent
      cases absent
    next found =>
      have dependencies (other : Bytes) (mem : other ∈ call.proto.dependency) :
          factory.hasFile other = true := by
        have present := find?_eq_none.mp found other mem
        simpa using present
      change (if pool.problems factory.files call.file ≠ [] then _ else _) = _ at thrown
      by_cases errors : (pool.problems factory.files call.file).any Problem.isError = true
      · have reported : pool.problems factory.files call.file ≠ [] := by
          intro none
          rw [none] at errors
          cases errors
        rw [if_pos reported] at thrown
        refine .inl ⟨fun builds => ?_, ?_⟩
        · obtain ⟨problem, mem, isError⟩ := any_eq_true.mp errors
          cases isError.symm.trans (builds.noErrors problem mem)
        · exact (congrArg Prod.fst thrown).symm.trans (if_pos errors)
      · have builds : Builds pool factory call :=
          { newName := Bool.eq_false_iff.mpr newName
            dependencies
            noErrors := by simpa using errors }
        split at thrown
        · refine .inr ⟨builds, (congrArg Prod.fst thrown).symm.trans (if_neg errors), ?_⟩
          rw [← Except.error.inj (congrArg Prod.snd thrown)]
          exact mem_cons_self
        · split at thrown
          · refine .inr ⟨builds, (congrArg Prod.fst thrown).symm.trans (if_neg errors), ?_⟩
            rw [← Except.error.inj (congrArg Prod.snd thrown)]
            exact mem_cons_of_mem _ mem_cons_self
          · cases congrArg Prod.snd thrown

theorem answers_thrown (thrown : importSchema pool factory call = (next, .error what)) :
    answers pool factory [.importSchema call] = [.thrown what] := by
  simp [answers, respond, thrown]

theorem hasFile_built :
    { factory with files := factory.files ++ [call.file] }.hasFile call.name = true := by
  rw [hasFile, any_append, Bool.or_eq_true]
  refine .inr ?_
  simp [Import.file]

/-- An import that throws goes unnoticed by all later calls exactly if the
file was not built into the pool. -/
theorem failedImport_unnoticed_iff (thrown : importSchema pool factory call = (next, .error what)) :
    (∀ calls, answers pool next calls = answers pool factory calls) ↔
      ¬ Builds pool factory call := by
  rcases importSchema_throws thrown with
    ⟨fails, rfl⟩ | ⟨builds, rfl, begins⟩
  · exact ⟨fun _ => fails, fun _ _ => rfl⟩
  · refine ⟨fun unnoticed => ?_, fun fails => absurd builds fails⟩
    -- the same import once more gets another answer
    have same := unnoticed [.importSchema call]
    rw [answers_thrown (importSchema_exists hasFile_built), answers_thrown thrown] at same
    have texts := Answer.thrown.inj (List.cons.inj same).1
    rw [← texts] at begins
    have first : (text "File").head? ∈ [(text "Errors").head?, (text "Message").head?] := begins
    exact absurd first (by decide)

theorem failedImport_unnoticed_dependency :
    (importSchema strictPool {} dependentImport).2 =
        .error (text "Dependency <a> was not found. Import it first.") ∧
      ∀ calls, answers strictPool (importSchema strictPool {} dependentImport).1
            calls = answers strictPool {} calls := by
  have thrown : (importSchema strictPool {} dependentImport).2 =
        .error (text "Dependency <a> was not found. Import it first.") := by
    decide +kernel
  refine ⟨thrown, ?_⟩
  refine (failedImport_unnoticed_iff (Prod.ext rfl thrown)).mpr ?_
  intro builds
  have present := builds.dependencies (text "a") mem_cons_self
  cases present

def invalidImport : Import where
  proto :=
    { name := []
      package := []
      dependency := []
      messageTypes := [.mk (text "A") 0 [⟨text "x", false, .double⟩] [] []]
      enumTypes := [] }
  name := text "a"
  package := []

def correctedImport : Import :=
  { invalidImport with
    proto :=
      { invalidImport.proto with
        messageTypes :=
          [.mk (text "A") 0 [⟨text "x", false, .int32⟩] [] []] } }

/-- A pool that has a warning for every enumeration of a file, as the library
has one for values whose names are too similar. -/
def warningPool : DescriptorPool where
  problems := fun files file =>
    strictPool.problems files file ++
      file.enumTypes.map fun name => ⟨false, file.name, name, text "similar values"⟩
  rejects := fun files file accepted =>
    strictPool.rejects files file fun problem mem =>
      accepted problem (mem_append_left _ mem)

def enumImport : Import where
  proto :=
    { name := []
      package := []
      dependency := []
      messageTypes := []
      enumTypes := [text "E"] }
  name := text "a"
  package := []

/-- After the rejected file its name and the name of its message type are
taken, and a file that depends on it is accepted.  A file with a warning also
takes its name. -/
theorem failedImport_noticed :
    answers strictPool {} [.importSchema correctedImport] = [.imported] ∧ answers strictPool {}
          [.importSchema invalidImport, .importSchema correctedImport,
            .importSchema { correctedImport with name := text "b" },
            .importSchema dependentImport] =
        [.thrown
            (text "Message contains invalid field type! " ++ text "Invalid data in descriptor: A"),
          .thrown (text "File with name <a> already exists."),
          .thrown
            (text "Errors while parsing:\nError: schema: b <> error message:already defined\n"),
          .imported] ∧
      answers warningPool {} [.importSchema enumImport, .importSchema enumImport] = [.thrown
            (text "Errors while parsing:\nWarning: schema: a <E> error message:similar values\n"),
          .thrown (text "File with name <a> already exists.")] := by
  decide +kernel

end ProtobufFactory

end AutomatonCore.Data
