import FormLang.Library.Builtin

set_option autoImplicit false

/-! # Sample libraries

Small libraries of the kinds that users write: well-behaved ones, ones that answer requests in
unusual ways, and ones that break the contract in each way there is.
-/

namespace FormLang

open LibraryFunction (arguments arityError wrongType)
open LibraryClass (baseAttributes derived own standalone wantsMore wantsNone)

/-! ## Functions -/

/-- The first element of a sequence. -/
def firstItem (v : Value) : Except Failure Value := do
  match v, ← arguments Misfit.notSubscriptable v with
  | _, item :: _ => return item
  | .text _, [] => throw (.fault .textIndex)
  | _, [] => throw (.fault .listIndex)

/-- A value as a number; a truth value counts as one. -/
def asNumeral (misfit : String → String) : Value → Except Failure Numeral
  | .number n => .ok n
  | .truth b => .ok (truthNumber b)
  | v => wrongType misfit v

/-- The sum of numbers and truth values. -/
def plainSum (args : Value) : Except Failure Value := do
  let items ← arguments Misfit.notIterable args
  let sum ← items.foldlM
    (fun sum v => do
      let n ← asNumeral (Misfit.unsupported "+" (Value.number sum).kind.typeName) v
      liftFault (sum.add n))
    (.int 0)
  return .number sum

/-- Twice a number, or a sequence behind itself. -/
def twice : Value → Except Failure Value
  | .text s => .ok (.text (s ++ s))
  | .list items => .ok (.list (items ++ items))
  | v => do
    let n ← asNumeral (fun type => Misfit.unsupported "*" type ValueKind.int.typeName) v
    let double ← liftFault (n.mul (.int 2))
    return .number double

/-- Twice the first argument. -/
def double (args : Value) : Except Failure Value := do
  let v ← firstItem args
  twice v

/-- A function that answers with a name and its arguments. -/
def tagged (function tag : String) : LibraryFunction :=
  ⟨function, fun args => .ok (.list [.text tag, args])⟩

/-- What is said of a value that is unpacked into a list, and has no elements. -/
def notUnpackable (type : String) : String := "Value after * must be an iterable, not " ++ type

/-- The arguments behind a name. -/
def labelArguments (name : String) (args : Value) : Except Failure Value := do
  let items ← arguments notUnpackable args
  return .list (.text name :: items)

/-! ## Requests -/

/-- A request to an object that does not know what a request is. -/
def cannotHear (cls : String) (_ : Request) : Except Failure Resolution :=
  .error (.fault (.noAttribute (Misfit.lacks cls "resolve")))

/-- A request that the object cannot even be asked, as `misfit` says. -/
def cannotAsk (misfit : String) (_ : Request) : Except Failure Resolution :=
  .error (.fault (.wrongType misfit))

/-- Answers every request with something that is no code. -/
def answerNoCode (_ : Request) : Except Failure Resolution := .ok .unusable

/-- Answers every request with a constant. -/
def answerConstant (text : String) (_ : Request) : Except Failure Resolution :=
  liftFault ((Chunk.ofValue (.text text)).map .fragment)

/-- Answers requests while the program is being compiled. -/
def answerInline (r : Request) : Except Failure Resolution :=
  if r.name = "argc" then liftFault ((Chunk.ofValue (.int r.args.length)).map .fragment)
  else if r.name = "list" then liftFault ((Chunk.ofValue (.list r.args)).map .fragment)
  else if r.name = "nothing" then .ok .unusable
  else .ok .unknown

/-- Answers every request with a call that puts the name in front of the arguments. -/
def answerLabelled (r : Request) : Except Failure Resolution :=
  liftFault ((Chunk.ofCall (.callable (.labelled r.name)) r.args).map .fragment)

/-- A library of its own, without a class: the one function `double`. -/
def doublingLibrary : Library where
  resolve r :=
    if r.name ≠ "double" then .ok .unknown
    else liftFault ((Chunk.ofCall (.callable (.plain "_double")) r.args).map .fragment)

/-! ## Libraries on the common base -/

/-- The members of a class whose functions answer with their own names. -/
def mixedMembers (names : List String) : List Member :=
  own "Mixed" (names.map fun name => tagged name name)

/-- A function that was written without a name. -/
def anonymousMember : Member where
  function := tagged "lam" "lam"
  origin := "Mixed"
  exported := true
  givenName := "<lambda>"

/-- The number of arguments behind a name. -/
def countArguments (args : Value) : Except Failure Value := do
  let items ← arguments Misfit.noLength args
  return .list [.text "extra", .int items.length]

/-- The answer of the class that lists its functions in its own way. -/
def ownListing : List String := ["never", "exported"]

/-- The sample libraries on the common base. -/
def derivedSamples : List LibraryClass :=
  [derived "Mathematician" "Mathematician" (own "Mathematician" [⟨"add", plainSum⟩]),
   derived "ListProcessor" "ListProcessor"
     (own "ListProcessor"
       [⟨"first", fun args => do
          let v ← firstItem args
          firstItem v⟩]),
   { derived "Recorder" "Recorder"
       (own "Recorder" [⟨"echo", .ok⟩, ⟨"unwrap", firstItem⟩]) with
     attributes := ("__init__", wantsNone "Recorder.__init__") :: baseAttributes
     objectAttributes := [("calls", ValueKind.list.typeName)]
     remark := some "Remembers every resolve() call it answers." },
   derived "Mixed" "mixed" (anonymousMember :: mixedMembers ["one", "optional", "posonly"]),
   { derived "SubMixed" "submixed"
       (anonymousMember :: mixedMembers ["optional", "posonly"] ++
         own "SubMixed" [⟨"extra", countArguments⟩] ++
         [{ function := ⟨"functions", fun _ => .ok (.list (ownListing.map .text))⟩
            origin := "SubMixed"
            exported := false }]) with
     listed := some ownListing
     attributes := ("one", .value .nothing) :: baseAttributes },
   derived "EvalLib" "evallib"
     (own "EvalLib"
       [tagged "eval" "lib-eval", tagged "proc" "lib-proc", ⟨"echo", .ok⟩, ⟨"pick", firstItem⟩])]

/-! ## Libraries that stand alone -/

/-- A class whose objects have a method for requests that cannot be asked with a name and
arguments; `misfit` says why. -/
def unasked (name : String) (contract : Contract) (misfit : String) : LibraryClass :=
  standalone name contract (cannotAsk (name ++ ".resolve() " ++ misfit))

/-- A class that has a value in the place of the method for requests. -/
def withoutResolve (name : String) (v : Value) : LibraryClass :=
  { standalone name .nobody fun _ => wrongType Misfit.notCallable v with
    attributes := [("resolve", .value v)] }

/-- A class of which no object can be made without more ado. -/
def unmade (name : String) (creation : Creation) : LibraryClass :=
  { standalone name .objectsOnly answerNoCode with
    attributes := [("resolve", wantsMore (name ++ ".resolve")),
      ("__init__", wantsNone (name ++ ".__init__"))]
    creation := creation }

/-- The sample libraries that stand alone. -/
def standaloneSamples : List LibraryClass :=
  [{ standalone "Java" .nobody (cannotHear "Java") with
     title := some "Java"
     members :=
       [{ function := ⟨"public", fun _ => .ok .nothing⟩, origin := "Java", exported := false }]
     attributes := []
     remark := some "Loads fine, but has no resolve." },
   unasked "WrongShape" .nobody "takes 1 positional argument but 3 were given",
   { standalone "Broken" .objectsOnly answerNoCode with
     remark := some "Answers resolve() with something that is not a chunk." },
   standalone "Anything" .objectsOnly answerLabelled,
   { standalone "Inline" .objectsOnly answerInline with title := some "inline" },
   unasked "OneArg" .classOnly "takes 2 positional arguments but 3 were given",
   { unasked "ThreeArgs" .nobody "missing 1 required positional argument: 'extra'" with
     attributes := [("name", .value (.int 7)), ("resolve", wantsMore "ThreeArgs.resolve")] },
   unasked "KwOnly" .nobody "takes 1 positional argument but 3 were given",
   withoutResolve "NoneResolve" .nothing,
   withoutResolve "TextResolve" (.text "resolve"),
   standalone "DefaultArg" .objectsOnly (answerConstant "default-arg"),
   standalone "VarArgs" .everybody (answerConstant "var-args"),
   { unasked "BuiltinResolve" .everybody "takes no keyword arguments" with
     title := some "builtin-resolve" },
   unmade "NeedsConfig" .needsArguments,
   unmade "BadInit" (.fails (.fault (.refused "bad init"))),
   standalone "RaisesArity" .objectsOnly fun r => arityError r.name "none" r.args,
   standalone "RaisesValue" .objectsOnly fun r => .error (.fault (.refused ("no " ++ r.name)))]

/-! ## Classes of other things -/

/-- A class whose objects are no libraries, with the names of its functions. -/
def foreignClass (name : String) (functions : List String) : LibraryClass :=
  { standalone name .nobody (cannotHear name) with
    attributes := functions.map fun f => (f, wantsMore (name ++ "." ++ f)) }

/-- Classes that references can lead to, although they have nothing to do with libraries. -/
def foreignClasses : List LibraryClass :=
  [{ foreignClass "LibraryRegistry" ["get", "register", "unregister", "names"] with
     remark := some "Maps library identifiers to library objects, populated at startup." },
   { foreignClass "Chunk"
       ["add_const", "emit_op", "emit_u16", "emit_const", "emit_value", "emit_return"] with
     creation := .gives (.value Chunk.empty.toValue) }]

/-! ## All of them -/

/-- Every class there is. -/
def libraryClasses : List LibraryClass :=
  baseLibrary :: builtinLibraries ++ derivedSamples ++ standaloneSamples ++ foreignClasses

/-- The class with a name. -/
def libraryClass? (name : String) : Option LibraryClass :=
  libraryClasses.find? (·.name == name)

/-- Calls a function of an object of the class with a name. -/
def callMember (owner function : String) (args : Value) : Except Failure Value :=
  match libraryClass? owner with
  | some c => c.call function args
  | none => .error (.fault (.noAttribute (Misfit.lacks owner function)))

/-- What every callable does. -/
def Callable.apply : Apply
  | .call owner function, args => callMember owner function args
  | .method owner function _ _, args => callMember owner function args
  | .plain name, args => if name = "_double" then double args else notCalled (.plain name)
  | .labelled name, args => labelArguments name args
  | .other type text, _ => notCalled (.other type text)
where
  /-- Something that cannot be called. -/
  notCalled (target : Callable) : Except Failure Value :=
    wrongType Misfit.notCallable (.callable target)

/-- A function of a class as a callable that is taken from one of its objects; the objects have
to have it. -/
def methodOf (owner function : String) : Except Fault Callable :=
  match libraryClass? owner with
  | some c =>
    match c.member? function with
    | some m => .ok (.method owner function m.origin c.objectText)
    | none =>
      match c.attributes.lookup function with
      | some (.function _) => .ok (.method owner function owner c.objectText)
      | _ => .error (.noAttribute (Misfit.lacks owner function))
  | none => .error (.noAttribute (Misfit.lacks owner function))

end FormLang
