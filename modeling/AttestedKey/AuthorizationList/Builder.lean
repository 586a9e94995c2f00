import AttestedKey.Argument.Check

/-!
# Building authorization lists step by step

A `Builder` collects values for an authorization list.  Each step gives one field a value
(`assign`, or `call` with a setter that was looked up by `setter`) or one tag outside the table
its content (`setUnknown`), and checks it at once.  No value clears a field, and so does
lowering a flag.  A step that is refused changes nothing, because it yields no builder.  The
last value given to a field is the one that `build` puts into the list.
-/

namespace AttestedKey.AuthorizationList

/-- An authorization list that is being made. -/
structure Builder where
  /-- The list as it stands. -/
  draft : AuthorizationList
  deriving DecidableEq

namespace Builder

/-- The builder without a value. -/
def empty : Builder := ⟨.empty⟩

/-- The list that was built. -/
def build (b : Builder) : AuthorizationList := b.draft

/-- A builder with the values of a list.  Blank flags are left out. -/
def ofList (a : AuthorizationList) : Builder :=
  ⟨{ a with value := fun f => (a.value f).filter f.kind.isWritten }⟩

/-- The field of a given name. -/
def field (name : String) : Except Refusal Field :=
  match Field.ofName? name with
  | some f => .ok f
  | none => .error (.noField name)

/-- The value that an argument stands for: none for no value or a lowered flag. -/
def valueOf (f : Field) : Argument → Except Refusal (Option f.Value)
  | .absent => return none
  | argument => f.kind.check f.name argument

/-- Gives a field the value of an argument. -/
def give (b : Builder) (f : Field) (argument : Argument) : Except Refusal Builder := do
  let value ← valueOf f argument
  return ⟨b.draft.assign f value⟩

/-- Gives the field of a given name the value of an argument. -/
def assign (b : Builder) (name : String) (argument : Argument) : Except Refusal Builder := do
  b.give (← field name) argument

/-- The field of a given name and its value. -/
def get (b : Builder) (name : String) : Except Refusal (Σ f : Field, Option f.Value) :=
  match Field.ofName? name with
  | some f => .ok ⟨f, b.draft.value f⟩
  | none => .error (.noAttribute name)

/-- Gives a tag outside the table its content, instead of one that it had. -/
def setUnknown (b : Builder) (number content : Argument) : Except Refusal Builder := do
  let t ← UnknownTag.make [] number content
  return ⟨b.draft.setUnknown t⟩

/-- A setter of a builder, which is looked up before the argument for it is known. -/
inductive Setter
  /-- The setter of a field. -/
  | field (f : Field)
  /-- The setter of unknown tags. -/
  | unknown
  deriving DecidableEq

/-- The setter of a given name, without the verb that the names of setters begin with. -/
def setter (name : String) : Except Refusal Setter :=
  match Field.ofName? name with
  | some f => .ok (.field f)
  | none => if name = "unknown_tag" then .ok .unknown else .error (.noAttribute s!"set_{name}")

/-- Calls a setter with one argument.  The setter of unknown tags would take two. -/
def call (b : Builder) : Setter → Argument → Except Refusal Builder
  | .field f, argument => b.give f argument
  | .unknown, _ => .error .mismatch

/-- The name of the builder itself among the arguments that make it. -/
def ownName : String := "self"

/-- A builder with the values of some arguments by field name.  An argument under the name of
the builder itself is refused before the others are looked at. -/
def ofArguments (arguments : Arguments) : Except Refusal Builder :=
  if arguments.any fun (name, _) => name == ownName then .error .mismatch
  else arguments.foldlM (fun b (name, argument) => b.assign name argument) empty

end Builder

end AttestedKey.AuthorizationList
